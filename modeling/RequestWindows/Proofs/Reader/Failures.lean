import RequestWindows.Proofs.Reader.Build

namespace RequestWindows

/-- Whether an error says that a table is missing, or that one is in the way. -/
def StoreError.concernsTable : StoreError → Bool
  | removed _ | tableExists => true
  | negativeExpiry _ | selfRollover | coercion _ | unbindable | unfit | incomparable
  | latencyOutOfRange => false

/-- Whether an error says that a store is missing, or that its table is in the way. -/
def ReaderError.concernsTable : ReaderError → Bool
  | store e => e.concernsTable
  | lost _ => true
  | intervalNotPositive _ | capacityTooSmall _ | misaligned _ _ | log _ => false

/-- Whether an error says that a value is refused. -/
def StoreError.refusesValue : StoreError → Bool
  | coercion _ | unbindable | unfit | incomparable => true
  | negativeExpiry _ | tableExists | selfRollover | removed _ | latencyOutOfRange => false

/-- Whether an error breaks off the building of a store whose table is there already. -/
def ReaderError.leavesTable : ReaderError → Bool
  | store e => e.refusesValue
  | log e => e = .undecodable
  | intervalNotPositive _ | capacityTooSmall _ | misaligned _ _ | lost _ => false

theorem ReaderError.concernsTable_of_leavesTable {e : ReaderError} (h : e.leavesTable = true) :
    e.concernsTable = false := by
  cases e with
  | store e =>
    cases e with
    | removed | tableExists => cases h
    | _ => rfl
  | lost => cases h
  | _ => rfl

namespace EventLog

variable {log : EventLog} {key : Int} {e : LogError}

theorem leavesTable_of_isSealed (h : log.isSealed key = .error e) :
    (ReaderError.log e).leavesTable = false := by
  unfold isSealed at h
  cases hfile : log.directory.hasFile (sealedName key) with
  | error err =>
    rw [hfile] at h
    cases h
    rfl
  | ok b =>
    rw [hfile] at h
    cases h

theorem leavesTable_of_keysOfNames {names : List LogName} (h : keysOfNames names = .error e) :
    (ReaderError.log e).leavesTable = false := by
  induction names with
  | nil => cases h
  | cons n rest ih =>
    rw [keysOfNames] at h
    cases hn : n.key? with
    | none =>
      rw [hn] at h
      cases h
      rfl
    | some k =>
      rw [hn] at h
      cases hrest : keysOfNames rest with
      | error err =>
        rw [hrest] at h
        cases h
        exact ih hrest
      | ok found =>
        rw [hrest] at h
        cases h

theorem leavesTable_of_sealedKeys (h : log.sealedKeys = .error e) :
    (ReaderError.log e).leavesTable = false := by
  unfold sealedKeys scan at h
  cases hfound : keysOfNames (logNames log.directory) with
  | error err =>
    rw [hfound] at h
    cases h
    exact leavesTable_of_keysOfNames hfound
  | ok found =>
    rw [hfound] at h
    cases h

end EventLog

theorem Event.refusesValue_of_row {e : Event} {err : StoreError} (h : e.row = .error err) :
    err.refusesValue = true := by
  unfold Event.row at h
  cases hc : coerceDimensions e.bindings with
  | error c =>
    rw [hc] at h
    cases h
    rfl
  | ok values =>
    rw [hc] at h
    change HalfRow.make (.ofList values) e.emittedAt = .error err at h
    unfold HalfRow.make at h
    split at h
    · split at h
      · cases h
      · cases h
        rfl
    · cases h
      rfl

namespace Warehouse

variable {w w' : Warehouse} {s source target : WindowStore} {t u : StoredTable} {n : Nat}
  {err : StoreError}

/-- A live store is never missed while entries are written to it. -/
theorem replay_error (hlive : w.tables.get? s.serial = some t) {entries : List (Option Event)}
    (h : w.replay s entries = (w', n, some err)) : err.refusesValue = true := by
  induction entries generalizing w t n with
  | nil => cases h
  | cons entry rest ih =>
    cases entry with
    | none =>
      rw [replay_none] at h
      cases hrest : w.replay s rest with
      | mk w₁ r =>
        obtain ⟨m, failure⟩ := r
        rw [hrest] at h
        cases h
        exact ih hlive hrest
    | some e =>
      cases hrow : e.row with
      | ok row =>
        obtain ⟨w₁, hstep, hp⟩ := replay_row hlive hrow rest
        rw [hstep] at h
        exact ih hp.at h
      -- A value that is no integer is dropped; any other error is the value's and ends the replay.
      | error e' =>
        by_cases hdropped : ∃ d shown, e' = .coercion (.notInteger d shown)
        · obtain ⟨d, shown, rfl⟩ := hdropped
          rw [replay_notInteger hlive hrow] at h
          cases hrest : w.replay s rest with
          | mk w₁ r =>
            obtain ⟨m, failure⟩ := r
            rw [hrest] at h
            cases h
            exact ih hlive hrest
        · have hput : w.put s e.half e.correlationId e.emittedAt e.bindings = .error e' := by
            rw [put_event hlive, hrow]
            rfl
          rw [replay, hput] at h
          split at h
          · next heq => cases heq
          · next d shown heq =>
            cases heq
            exact absurd ⟨d, shown, rfl⟩ hdropped
          · next heq =>
            cases heq
            cases h
            exact Event.refusesValue_of_row hrow

theorem inFlightRows_error (hsource : w.tables.get? source.serial = some t)
    (h : w.inFlightRows source = .error err) : err.refusesValue = true := by
  have hrows : w.rows source = .ok t.rows := rows_eq_ok.mpr ⟨t, hsource, rfl⟩
  unfold inFlightRows at h
  rw [hrows] at h
  change (if ¬bindable source.horizon = true then _ else
    if needsUnsigned source.horizon = true ∧ t.rows.pending ≠ [] then _ else _) = _ at h
  split at h
  · cases h
    rfl
  · split at h
    · cases h
      rfl
    · cases h

/-- Between two live stores, requests can be carried over unless a horizon is out of bounds. -/
theorem rollover_error (hne : target.serial ≠ source.serial)
    (hsource : w.tables.get? source.serial = some t)
    (htarget : w.tables.get? target.serial = some u)
    (h : w.rollover target source = .error err) : err.refusesValue = true := by
  unfold rollover at h
  rw [if_neg hne] at h
  cases hstarts : w.inFlightRows source with
  | error e =>
    rw [hstarts] at h
    cases h
    exact inFlightRows_error hsource hstarts
  | ok starts =>
    rw [hstarts] at h
    change (if starts = [] then _ else _) = _ at h
    obtain ⟨w₁, hmodify, _⟩ := modify_of_live htarget (·.carry starts)
    split at h
    · cases h
    · rw [hmodify] at h
      cases h

end Warehouse

namespace Correlation

variable {s s' : Correlation} {log : EventLog} {store : WindowStore} {t : StoredTable} {key : Int}
  {previous : Option WindowStore} {e : ReaderError}

/-- A log that is found can be read, so what stops a store from being filled is in the log. -/
theorem fill_error (hlive : s.warehouse.tables.get? store.serial = some t)
    (h : s.fill log store = (s', .error e)) :
    e.leavesTable = true ∨ ∃ e', log.isSealed store.window = .error e' ∧ e = .log e' := by
  unfold fill at h
  split at h
  · next e' hsealed =>
    cases h
    exact Or.inr ⟨e', hsealed, rfl⟩
  · cases h
  · next hsealed =>
    obtain ⟨transcript, hread⟩ := EventLog.read_of_isSealed hsealed
    left
    simp only [hread] at h
    unfold replay at h
    cases hr : s.warehouse.replay store transcript.items with
    | mk w r =>
      obtain ⟨dropped, failure⟩ := r
      simp only [hr] at h
      cases failure with
      | some err =>
        cases h
        exact Warehouse.replay_error hlive hr
      | none =>
        dsimp only at h
        split at h
        · cases h
        · cases h
          rfl

variable (s store) in
/-- A store that cannot be filled keeps its table. -/
theorem fill_failure (hlive : s.warehouse.tables.get? store.serial = some t)
    (h : s.fill log store = (s', .error e)) :
    (∃ rows, s.Puts store.serial { t with rows := rows } s') ∧
      (e.leavesTable = true ∨ ∃ e', log.isSealed store.window = .error e' ∧ e = .log e') := by
  refine ⟨?_, fill_error hlive h⟩
  by_cases hreplayable : log.Replayable store.window
  · obtain ⟨s₁, hfill, _⟩ := fill_of_replayable store hlive hreplayable
    rw [h] at hfill
    cases hfill
  · obtain ⟨s₁, e₁, rows, hfill, hputs⟩ := fill_of_not_replayable store hlive hreplayable
    rw [h] at hfill
    cases hfill
    exact ⟨rows, hputs⟩

theorem build_of_negative (h : s.reader.expiry < 0) :
    s.build log key previous = (s, .error (.store (.negativeExpiry s.reader.expiry))) := by
  unfold build Warehouse.create
  rw [if_pos h]

/-- A store is refused while there is a table in its way. Otherwise its table is created, and that
is still there when the building fails. -/
theorem build_failure (hs : s.warehouse.Sound) (he : 0 ≤ s.reader.expiry)
    (hlive : ∀ p, previous = some p → ∃ t, s.warehouse.tables.get? p.serial = some t)
    (h : s.build log key previous = (s', .error e)) :
    s.warehouse.Taken s.reader.shared key ∧ e = .store .tableExists ∧ s' = s ∨
      ¬s.warehouse.Taken s.reader.shared key ∧ s'.reader = s.reader ∧
        (∃ t, t.database = s.warehouse.nextDatabase s.reader.shared ∧ t.window = key ∧
          s.warehouse.Adds t s'.warehouse) ∧
        (e.leavesTable = true ∨ ∃ e', log.isSealed key = .error e' ∧ e = .log e') := by
  by_cases htaken : s.warehouse.Taken s.reader.shared key
  · unfold build at h
    rw [Warehouse.create_of_taken hs he htaken] at h
    cases h
    exact Or.inl ⟨htaken, rfl, rfl⟩
  · right
    obtain ⟨w₁, hcreate, hadd⟩ := Warehouse.create_of_free hs he htaken
    unfold build at h
    simp only [hcreate] at h
    cases previous with
    | none =>
      obtain ⟨⟨rows, hputs⟩, herror⟩ := fill_failure { s with warehouse := w₁ }
        ⟨s.warehouse.next, key, s.reader.expiry⟩ hadd.at h
      exact ⟨htaken, hputs.reader, ⟨_, rfl, rfl, hadd.puts hputs.tables⟩, herror⟩
    | some p =>
      obtain ⟨old, hold⟩ := hlive p rfl
      have hsource := hadd.before hs.get?_next hold
      have hne : s.warehouse.next ≠ p.serial := by
        have hlt := hs.serial_lt hold
        omega
      unfold carryOver at h
      cases hroll : w₁.rollover ⟨s.warehouse.next, key, s.reader.expiry⟩ p with
      | error err =>
        simp only [hroll] at h
        cases h
        have hrefused := Warehouse.rollover_error hne hsource hadd.at hroll
        exact ⟨htaken, rfl, ⟨_, rfl, rfl, hadd⟩, Or.inl hrefused⟩
      | ok r =>
        obtain ⟨w₂, n⟩ := r
        simp only [hroll] at h
        -- What is carried over is put into the new table, so that this stays live.
        have hcomparable : old.rows.Comparable p.horizon := by
          apply Classical.byContradiction
          intro hbad
          obtain ⟨err, herr⟩ := Warehouse.rollover_of_not_comparable
            ⟨s.warehouse.next, key, s.reader.expiry⟩ hsource hbad
          rw [hroll] at herr
          cases herr
        obtain ⟨w₃, m, hroll', hcarried⟩ := Warehouse.rollover_of_comparable
          ⟨s.warehouse.next, key, s.reader.expiry⟩ hne hadd.at hsource hcomparable
        rw [hroll] at hroll'
        cases hroll'
        obtain ⟨⟨rows, hputs⟩, herror⟩ := fill_failure { s with warehouse := w₂ }
          ⟨s.warehouse.next, key, s.reader.expiry⟩ hcarried.at h
        exact ⟨htaken, hputs.reader, ⟨_, rfl, rfl, hadd.puts (hcarried.trans hputs.tables)⟩, herror⟩

/-- The only table that can be in the way of a store is one of its window in a shared database. -/
theorem build_error (hs : s.warehouse.Sound) (he : 0 ≤ s.reader.expiry)
    (hlive : ∀ p, previous = some p → ∃ t, s.warehouse.tables.get? p.serial = some t)
    (h : s.build log key previous = (s', .error e)) :
    e.concernsTable = false ∨
      e = .store .tableExists ∧ s.warehouse.Taken s.reader.shared key := by
  rcases build_failure hs he hlive h with ⟨htaken, hexists, _⟩ | ⟨_, _, _, herror⟩
  · exact Or.inr ⟨hexists, htaken⟩
  · left
    rcases herror with hleaves | ⟨e', _, rfl⟩
    · exact ReaderError.concernsTable_of_leavesTable hleaves
    · rfl

end Correlation

end RequestWindows
