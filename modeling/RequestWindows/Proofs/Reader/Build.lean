import RequestWindows.Proofs.Reader.Timeline

namespace RequestWindows

namespace EventLog

/-- The directory with the given sealed logs and nothing else. -/
def ofFiles (files : List (Int × List UInt8)) : EventLog :=
  ⟨.ofList (files.map fun f => (sealedName f.1, .file f.2)), .none, false⟩

/-- Whether the log of a window can be replayed to its end, if it has one: it is decoded wholly and
no entry is fatal. -/
def Replayable (log : EventLog) (key : Int) : Prop :=
  log.isSealed key = .ok false ∨
    log.isSealed key = .ok true ∧ ∃ t, log.read key = .ok t ∧ t.whole = true ∧
      ∀ e, some e ∈ t.items → e.isFatal = false

/-- Replay a log in thought: whether it would go through to its end. -/
def replays (log : EventLog) (key : Int) : Bool :=
  match log.isSealed key, log.read key with
  | .ok false, _ => true
  | .ok true, .ok t => t.whole && t.items.all fun entry => entry.all fun e => !e.isFatal
  | _, _ => false

theorem replays_iff {log : EventLog} {key : Int} : log.replays key = true ↔ log.Replayable key := by
  have harmless (entries : List (Option Event)) :
      (entries.all fun entry => entry.all fun e => !e.isFatal) = true ↔
        ∀ e, some e ∈ entries → e.isFatal = false := by
    rw [List.all_eq_true]
    constructor
    · intro h e he
      simpa using h (some e) he
    · intro h entry hm
      cases entry with
      | none => rfl
      | some e => simpa using h e hm
  unfold replays Replayable
  cases log.isSealed key with
  | error e => simp
  | ok b =>
    cases b with
    | false => simp
    | true =>
      cases log.read key with
      | error e => simp
      | ok t => simp [← harmless]

instance (log : EventLog) (key : Int) : Decidable (log.Replayable key) :=
  decidable_of_iff _ replays_iff

/-- The counters after the dropped entries of a window's log have been counted. -/
def countDropped (log : EventLog) (c : Counters) (key : Int) : Counters :=
  match log.read key with
  | .ok t => c.add .malformedEvents (droppedCount t.items)
  | .error _ => c

variable {log : EventLog} {key : Int}

theorem read_of_isSealed (h : log.isSealed key = .ok true) : ∃ t, log.read key = .ok t := by
  unfold isSealed Directory.hasFile at h
  unfold read Directory.content
  cases hf : log.directory.find (sealedName key) with
  | error e =>
    rw [hf] at h
    cases h
  | ok entry =>
    rw [hf] at h
    match entry, h with
    | some (.file bytes), _ => exact ⟨transcribe bytes, rfl⟩

theorem read_of_not_isSealed (h : log.isSealed key = .ok false) :
    ∃ e, log.read key = .error e := by
  unfold isSealed Directory.hasFile at h
  unfold read Directory.content
  cases hf : log.directory.find (sealedName key) with
  | error e =>
    rw [hf] at h
    cases h
  | ok entry =>
    rw [hf] at h
    match entry, h with
    | none, _ => exact ⟨.notSealed key, rfl⟩
    | some .folder, _ => exact ⟨.file .folder, rfl⟩

theorem entriesOf_of_read {t : Transcript} (h : log.read key = .ok t) :
    log.entriesOf key = t.items := by
  unfold entriesOf
  rw [h]

theorem recordedIn_of_not_isSealed (h : log.isSealed key = .ok false) :
    log.recordedIn key = [] := by
  obtain ⟨e, he⟩ := read_of_not_isSealed h
  unfold recordedIn entriesOf
  rw [he]
  rfl

end EventLog

namespace Correlation

variable {s : Correlation} {log : EventLog} {store : WindowStore} {t : StoredTable}

/-- `s'` is `s` after its warehouse has put a table under a serial number. The reader is the
same. -/
structure Puts (s : Correlation) (n : Nat) (t : StoredTable) (s' : Correlation) : Prop where
  reader : s'.reader = s.reader
  tables : s.warehouse.Puts n t s'.warehouse

variable (store) in
theorem fill_of_replayable (hlive : s.warehouse.tables.get? store.serial = some t)
    (h : log.Replayable store.window) :
    ∃ s', s.fill log store = (s', .ok store) ∧
      s.Puts store.serial { t with rows := t.rows.feed (log.recordedIn store.window) } s' ∧
      s'.counters = log.countDropped s.counters store.window := by
  rcases h with h | ⟨h, tr, hread, hwhole, hfatal⟩
  · obtain ⟨e, he⟩ := EventLog.read_of_not_isSealed h
    refine ⟨s, ?_, ⟨rfl, ?_⟩, ?_⟩
    · unfold fill
      rw [h]
    · rw [EventLog.recordedIn_of_not_isSealed h]
      exact Warehouse.Puts.self hlive
    · unfold EventLog.countDropped
      rw [he]
  · obtain ⟨w', hw, hp⟩ := Warehouse.replay_of_harmless hlive hfatal
    refine ⟨⟨s.reader, w', s.counters.add .malformedEvents (droppedCount tr.items)⟩,
      ?_, ⟨rfl, ?_⟩, ?_⟩
    · unfold fill
      rw [h]
      simp only [hread]
      unfold replay
      simp only [hw, hwhole, if_true]
    · unfold EventLog.recordedIn
      rw [EventLog.entriesOf_of_read hread]
      exact hp
    · unfold EventLog.countDropped
      rw [hread]

variable (store) in
theorem fill_of_not_replayable (hlive : s.warehouse.tables.get? store.serial = some t)
    (h : ¬log.Replayable store.window) :
    ∃ s' e rows, s.fill log store = (s', .error e) ∧
      s.Puts store.serial { t with rows := rows } s' := by
  unfold fill
  cases hsealed : log.isSealed store.window with
  | error e => exact ⟨s, .log e, t.rows, rfl, rfl, Warehouse.Puts.self hlive⟩
  | ok b =>
    cases b with
    | false => exact absurd (Or.inl hsealed) h
    | true =>
      obtain ⟨tr, hread⟩ := EventLog.read_of_isSealed hsealed
      simp only [hread]
      by_cases hfatal : ∀ e, some e ∈ tr.items → e.isFatal = false
      · obtain ⟨w', hw, hp⟩ := Warehouse.replay_of_harmless hlive hfatal
        have hwhole : ¬tr.whole = true :=
          fun hwhole => h (Or.inr ⟨hsealed, tr, hread, hwhole, hfatal⟩)
        refine ⟨{ s with warehouse := w' }, .log .undecodable, _, ?_, rfl, hp⟩
        unfold replay
        simp only [hw, if_neg hwhole]
      · simp only [Classical.not_forall, Bool.not_eq_false] at hfatal
        obtain ⟨e, hmem, he⟩ := hfatal
        obtain ⟨w', n, err, rows, hw, hp⟩ := Warehouse.replay_of_fatal hlive hmem he
        refine ⟨{ s with warehouse := w' }, .store err, rows, ?_, rfl, hp⟩
        unfold replay
        simp only [hw]

/-- The rows that the requests in flight in a store leave in the next one. -/
def rowsBefore (s : Correlation) (previous : Option WindowStore) : Table :=
  match previous.bind fun p => (s.warehouse.tables.get? p.serial).map (p, ·) with
  | some (p, t) => t.rows.carried p.horizon
  | none => .empty

/-- Whether the store of a window can be built after a given one. -/
structure CanBuild (s : Correlation) (log : EventLog) (key : Int) (previous : Option WindowStore) :
    Prop where
  free : ¬s.warehouse.Taken s.reader.shared key
  comparable : ∀ p t, previous = some p → s.warehouse.tables.get? p.serial = some t →
    t.rows.Comparable p.horizon
  replayable : log.Replayable key

section Build

variable {key : Int} {previous : Option WindowStore}

theorem carryOver_of_comparable {w' : Warehouse} (hs : s.warehouse.Sound) {t : StoredTable}
    (hadd : s.warehouse.Adds t w')
    (hlive : ∀ p, previous = some p → ∃ t, s.warehouse.tables.get? p.serial = some t)
    (hc : ∀ p t, previous = some p → s.warehouse.tables.get? p.serial = some t →
      t.rows.Comparable p.horizon) (htable : t.rows = .empty) (window expiry : Int) :
    ∃ s',
      { s with warehouse := w' }.carryOver ⟨s.warehouse.next, window, expiry⟩ previous = .ok s' ∧
      s'.reader = s.reader ∧ s'.counters = s.counters ∧
      s.warehouse.Adds { t with rows := s.rowsBefore previous } s'.warehouse := by
  cases previous with
  | none =>
    refine ⟨_, rfl, rfl, rfl, ?_⟩
    change s.warehouse.Adds { t with rows := Table.empty } w'
    rw [← htable]
    exact hadd
  | some p =>
    obtain ⟨old, hold⟩ := hlive p rfl
    have hne : s.warehouse.next ≠ p.serial := by
      have := hs.serial_lt hold
      omega
    obtain ⟨w'', n, hroll, hp⟩ := Warehouse.rollover_of_comparable
      ⟨s.warehouse.next, window, expiry⟩ hne hadd.at
      (hadd.before hs.get?_next hold) (hc p old rfl hold)
    refine ⟨{ s with warehouse := w'' }, ?_, rfl, rfl, ?_⟩
    · unfold carryOver
      simp only [hroll]
      rfl
    · have hrows : s.rowsBefore (some p) = t.rows.carry (old.rows.inFlight p.horizon) := by
        unfold rowsBefore
        rw [Option.bind_some, hold, htable]
        rfl
      rw [hrows]
      exact hadd.puts hp

/-- A store that can be built holds what is carried over and, written over that, what its log
records. -/
theorem build_of_canBuild (hs : s.warehouse.Sound) (he : 0 ≤ s.reader.expiry)
    (hlive : ∀ p, previous = some p → ∃ t, s.warehouse.tables.get? p.serial = some t)
    (h : s.CanBuild log key previous) :
    ∃ s', s.build log key previous = (s', .ok ⟨s.warehouse.next, key, s.reader.expiry⟩) ∧
      s'.reader = s.reader ∧ s'.counters = log.countDropped s.counters key ∧
      s.warehouse.Adds ⟨s.warehouse.nextDatabase s.reader.shared, key,
        (s.rowsBefore previous).feed (log.recordedIn key)⟩ s'.warehouse := by
  obtain ⟨w₁, hcreate, hadd⟩ := Warehouse.create_of_free hs he h.free
  obtain ⟨s₁, hcarry, hreader, hcounters, hadd₁⟩ :=
    carryOver_of_comparable hs hadd hlive h.comparable rfl key s.reader.expiry
  obtain ⟨s₂, hfill, hp, hcount⟩ := fill_of_replayable
    ⟨s.warehouse.next, key, s.reader.expiry⟩ hadd₁.at h.replayable
  refine ⟨s₂, ?_, hp.reader.trans hreader, ?_, hadd₁.puts hp.tables⟩
  · unfold build
    simp only [hcreate, hcarry]
    exact hfill
  · rw [hcount, hcounters]

/-- Where a store cannot be built, the attempt fails. It leaves the reader and all older tables as
they were, and at most one new table. -/
theorem build_of_not_canBuild (hs : s.warehouse.Sound) (he : 0 ≤ s.reader.expiry)
    (hlive : ∀ p, previous = some p → ∃ t, s.warehouse.tables.get? p.serial = some t)
    (h : ¬s.CanBuild log key previous) :
    ∃ s' e, s.build log key previous = (s', .error e) ∧ s'.reader = s.reader ∧
      (s'.warehouse = s.warehouse ∨
        ∃ t, t.database = s.warehouse.nextDatabase s.reader.shared ∧
          s.warehouse.Adds t s'.warehouse) := by
  by_cases htaken : s.warehouse.Taken s.reader.shared key
  · refine ⟨s, .store .tableExists, ?_, rfl, Or.inl rfl⟩
    unfold build
    rw [Warehouse.create_of_taken hs he htaken]
  · obtain ⟨w₁, hcreate, hadd⟩ := Warehouse.create_of_free hs he htaken
    by_cases hc : ∀ p t, previous = some p → s.warehouse.tables.get? p.serial = some t →
        t.rows.Comparable p.horizon
    · obtain ⟨s₁, hcarry, hreader, _, hadd₁⟩ :=
        carryOver_of_comparable hs hadd hlive hc rfl key s.reader.expiry
      have hlog : ¬log.Replayable key := fun hlog => h ⟨htaken, hc, hlog⟩
      obtain ⟨s₂, e, rows, hfill, hp⟩ := fill_of_not_replayable
        ⟨s.warehouse.next, key, s.reader.expiry⟩ hadd₁.at hlog
      refine ⟨s₂, e, ?_, hp.reader.trans hreader, Or.inr ⟨_, rfl, hadd₁.puts hp.tables⟩⟩
      unfold build
      simp only [hcreate, hcarry]
      exact hfill
    · simp only [Classical.not_forall] at hc
      obtain ⟨p, t, hp, ht, hbad⟩ := hc
      obtain ⟨e, hroll⟩ := Warehouse.rollover_of_not_comparable
        ⟨s.warehouse.next, key, s.reader.expiry⟩ (hadd.before hs.get?_next ht) hbad
      refine ⟨{ s with warehouse := w₁ }, .store e, ?_, rfl, Or.inr ⟨_, rfl, hadd⟩⟩
      unfold build carryOver
      simp only [hcreate, hp, hroll]
      rfl

end Build

end Correlation

end RequestWindows
