import RequestWindows.Proofs.EventLog.Scan
import RequestWindows.Proofs.Reader.Loading

namespace RequestWindows

theorem bindable_of_fitsBits {bits : Nat} {n : Int} (hbits : bits ≤ 128)
    (h : fitsBits bits n = true) : bindable n = true := by
  have hbounds := fitsBits_iff.mp h
  have hpow : Nat.pow 2 (bits - 1) ≤ Nat.pow 2 127 :=
    Nat.pow_le_pow_right (by decide) (by omega)
  have hwider : Nat.pow 2 127 ≤ Nat.pow 2 128 := Nat.pow_le_pow_right (by decide) (by decide)
  unfold bindable
  rw [Bool.and_eq_true, decide_eq_true_eq, decide_eq_true_eq]
  constructor
  · omega
  · omega

theorem bindable_of_fits {c : Columns} {time : Int} (h : (c.fits && fitsBits 64 time) = true) :
    (c.bindable && bindable time) = true := by
  have hall {bits : Nat} {o : Option Int} (hbits : bits ≤ 128) (ho : o.all (fitsBits bits) = true) :
      o.all bindable = true := by
    cases o with
    | none => rfl
    | some n => exact bindable_of_fitsBits hbits ho
  unfold Columns.fits at h
  unfold Columns.bindable
  rw [Bool.and_eq_true, Bool.and_eq_true] at h ⊢
  obtain ⟨⟨hcode, hcount⟩, htime⟩ := h
  exact ⟨⟨hall (by decide) hcode, hall (by decide) hcount⟩,
    bindable_of_fitsBits (by decide) htime⟩

theorem HalfRow.make_of_fits {c : Columns} {time : Int}
    (h : (c.fits && fitsBits 64 time) = true) : ∃ row, HalfRow.make c time = .ok row := by
  refine ⟨⟨c, time, h⟩, ?_⟩
  unfold HalfRow.make
  rw [if_pos (bindable_of_fits h), dif_pos h]

theorem HalfRow.make_of_not_fits {c : Columns} {time : Int}
    (h : ¬(c.fits && fitsBits 64 time) = true) :
    HalfRow.make c time = .error .unfit ∨ HalfRow.make c time = .error .unbindable := by
  unfold HalfRow.make
  split
  · exact Or.inl rfl
  · exact Or.inr rfl

/-- An event is fatal if it has a number that is infinite where an integer is needed, or if all its
values are of the right kind and an integer among them or its time does not fit. -/
theorem Event.isFatal_iff {e : Event} :
    e.isFatal = true ↔ coerceDimensions e.bindings = .error .infinite ∨
      ∃ values, coerceDimensions e.bindings = .ok values ∧
        ¬((Columns.ofList values).fits && fitsBits 64 e.emittedAt) = true := by
  cases hcoerced : coerceDimensions e.bindings with
  | error err =>
    have hrow : e.row = .error (.coercion err) := by
      unfold Event.row
      rw [hcoerced]
      rfl
    unfold Event.isFatal
    rw [hrow]
    cases err with
    | notInteger d shown => simp
    | infinite => simp
  | ok values =>
    have hrow : e.row = HalfRow.make (.ofList values) e.emittedAt := by
      unfold Event.row
      rw [hcoerced]
      rfl
    unfold Event.isFatal
    rw [hrow]
    by_cases hfits : ((Columns.ofList values).fits && fitsBits 64 e.emittedAt) = true
    · obtain ⟨row, hmade⟩ := HalfRow.make_of_fits hfits
      rw [hmade]
      constructor
      · intro h
        cases h
      · rintro (h | ⟨_, h, hnot⟩)
        · cases h
        · cases h
          exact absurd hfits hnot
    · have hbad : ∃ values', Except.ok values = (Except.ok values' : Except CoercionError _) ∧
          ¬((Columns.ofList values').fits && fitsBits 64 e.emittedAt) = true :=
        ⟨values, rfl, hfits⟩
      rcases HalfRow.make_of_not_fits hfits with hmade | hmade
      · rw [hmade]
        exact ⟨fun _ => Or.inr hbad, fun _ => rfl⟩
      · rw [hmade]
        exact ⟨fun _ => Or.inr hbad, fun _ => rfl⟩

namespace EventLog

/-- Whether nothing in the log of a window breaks off its replay. -/
def Harmless (log : EventLog) (key : Int) : Prop :=
  ∀ t, log.read key = .ok t → t.whole = true ∧ ∀ e, some e ∈ t.items → e.isFatal = false

variable {log : EventLog} {key : Int}

theorem replayable_iff_harmless (h : fitsBits 64 key = true) :
    log.Replayable key ↔ log.Harmless key := by
  obtain ⟨b, hb⟩ := log.isSealed_of_fits h
  unfold Replayable Harmless
  cases b with
  | false =>
    obtain ⟨e, he⟩ := read_of_not_isSealed hb
    constructor
    · intro _ t ht
      rw [he] at ht
      cases ht
    · intro _
      exact Or.inl hb
  | true =>
    obtain ⟨t, ht⟩ := read_of_isSealed hb
    constructor
    · rintro (hfalse | ⟨_, u, hu, hwhole, hfatal⟩) v hv
      · rw [hb] at hfalse
        cases hfalse
      · rw [hu] at hv
        cases hv
        exact ⟨hwhole, hfatal⟩
    · intro hall
      obtain ⟨hwhole, hfatal⟩ := hall t ht
      exact Or.inr ⟨hb, t, ht, hwhole, hfatal⟩

/-- The rows of a window, where the window before it ended with the rows `t`. -/
def nextRows (log : EventLog) (i : Interval) (expiry : Int) (t : Table) (key : Int) : Table :=
  (t.carried (key - i.millis - expiry)).feed (log.recordedIn key)

variable {i : Interval} {expiry start : Int} {base : Table}

theorem nextRows_tableFrom (m : Nat) :
    log.nextRows i expiry (log.tableFrom i expiry base start m) (i.after start (m + 1)) =
      log.tableFrom i expiry base start (m + 1) := by
  have hbefore : i.after start (m + 1) - i.millis = i.after start m := by
    rw [i.after_succ]
    omega
  rw [nextRows, hbefore, tableFrom]

theorem foldl_nextRows (m len : Nat) :
    ((List.range' (m + 1) len).map (i.after start)).foldl (log.nextRows i expiry)
        (log.tableFrom i expiry base start m) =
      log.tableFrom i expiry base start (m + len) := by
  induction len generalizing m with
  | zero => rfl
  | succ len ih =>
    rw [List.range'_succ, List.map_cons, List.foldl_cons, nextRows_tableFrom, ih]
    congr 1
    omega

end EventLog

namespace Correlation

/-- The rows of the store that is kept for a window, none if there is no such store. -/
def rowsOf (s : Correlation) (key : Int) : Table :=
  (((s.reader.cache.get? key).bind fun st => s.warehouse.tables.get? st.serial).map
    StoredTable.rows).getD .empty

variable {s : Correlation} {log : EventLog} {base : Table} {start key : Int} {a n : Nat}
  {sealed : List Int}

theorem foldl_nextRows_rowsOf {k : Int}
    (hprev : s.Follows log base start a (s.reader.cache.get? k)) :
    ((List.range' a (n + 1)).map (s.reader.interval.after start)).foldl
        (log.nextRows s.reader.interval s.reader.expiry) (s.rowsOf k) =
      log.tableFrom s.reader.interval s.reader.expiry base start (a + n) := by
  cases a with
  | zero =>
    obtain ⟨hnone, hbase⟩ := hprev
    have hrows : s.rowsOf k = .empty := by
      unfold rowsOf
      rw [hnone]
      rfl
    have hfirst : log.nextRows s.reader.interval s.reader.expiry .empty start =
        log.tableFrom s.reader.interval s.reader.expiry base start 0 := by
      rw [hbase]
      rfl
    rw [hrows, List.range'_succ, List.map_cons, List.foldl_cons, Interval.after_zero, hfirst,
      EventLog.foldl_nextRows]
  | succ m =>
    obtain ⟨p, hp, hholds⟩ := hprev
    obtain ⟨t, ht, _, hrows⟩ := hholds.table
    have hkept : s.rowsOf k = log.tableFrom s.reader.interval s.reader.expiry base start m := by
      unfold rowsOf
      rw [hp, Option.bind_some, ht]
      exact hrows
    rw [hkept, EventLog.foldl_nextRows]
    congr 1
    omega

/-- Keys and expiry are numbers of 64 bits. -/
structure InRange (s : Correlation) (sealed : List Int) (key : Int) : Prop where
  key : fitsBits 64 key = true
  sealed : ∀ k ∈ sealed, fitsBits 64 k = true
  kept : ∀ k ∈ s.reader.cache.keys, fitsBits 64 k = true
  expiry : fitsBits 64 s.reader.expiry = true

/-- Every window of a chain is between two windows whose keys are in range. -/
theorem fits_of_chained (hrange : s.InRange sealed key)
    (hchain : s.reader.Chained key (sealed.head?.getD key) (s.reader.interval.after start a) n)
    (j : Nat) (ha : a ≤ j) (hn : j ≤ a + n) :
    fitsBits 64 (s.reader.interval.after start j) = true := by
  have hlast := hchain.after_add
  have hle : s.reader.interval.after start j ≤ key := by
    rw [← hlast]
    exact Interval.after_le hn
  have hge : s.reader.interval.after start a ≤ s.reader.interval.after start j :=
    Interval.after_le ha
  have holdest : fitsBits 64 (sealed.head?.getD key) = true := by
    cases hhead : sealed.head? with
    | none => exact hrange.key
    | some k => exact hrange.sealed k (List.mem_of_head? hhead)
  rcases hchain.inside with hinside | hinside
  · exact fitsBits_between holdest hrange.key (by omega) hle
  · have heq : s.reader.interval.after start j = key := by omega
    rw [heq]
    exact hrange.key

/-- Within the range of 64 bits nothing but a table in the way or a bad log can stop a window from
being built. -/
theorem ready_iff (hrange : s.InRange sealed key)
    (hchain : s.reader.Chained key (sealed.head?.getD key) (s.reader.interval.after start a) n)
    (hprev : s.Follows log base start a
      (s.reader.cache.get? (s.reader.interval.after start a - s.reader.interval.millis)))
    (j : Nat) (ha : a ≤ j) (hn : j ≤ a + n) :
    s.Ready log base start j ↔
      ¬s.warehouse.Taken s.reader.shared (s.reader.interval.after start j) ∧
        log.Harmless (s.reader.interval.after start j) := by
  have hfits := fits_of_chained hrange hchain j ha hn
  have hcomparable : ∀ m, j = m + 1 →
      (log.tableFrom s.reader.interval s.reader.expiry base start m).Comparable
        (s.reader.interval.after start m - s.reader.expiry) := by
    rintro m rfl
    refine comparable_sub ?_ hrange.expiry
    rcases Nat.eq_or_lt_of_le ha with rfl | hlt
    · -- The window before the chain is one whose store is kept.
      obtain ⟨p, hp, _⟩ := hprev
      have hbefore : s.reader.interval.after start (m + 1) - s.reader.interval.millis =
          s.reader.interval.after start m := by
        rw [s.reader.interval.after_succ]
        omega
      rw [hbefore] at hp
      exact hrange.kept _ (mem_keys_of_get? hp)
    · exact fits_of_chained hrange hchain m (by omega) (by omega)
  rw [← EventLog.replayable_iff_harmless hfits]
  constructor
  · intro h
    exact ⟨h.free, h.replayable⟩
  · rintro ⟨hfree, hreplayable⟩
    exact ⟨hfree, hcomparable, hreplayable⟩

theorem forall_mem_chain_iff {oldest : Int} {p : Int → Prop}
    (hchain : s.reader.Chained key oldest (s.reader.interval.after start a) n) :
    (∀ k ∈ s.reader.chain key oldest, p k) ↔
      ∀ j, a ≤ j → j ≤ a + n → p (s.reader.interval.after start j) := by
  constructor
  · intro h j ha hn
    exact h _ ((mem_chain_iff hchain).mpr ⟨j, ha, hn, rfl⟩)
  · intro h k hk
    obtain ⟨j, ha, hn, rfl⟩ := (mem_chain_iff hchain).mp hk
    exact h j ha hn

/-- A sealed window is loaded exactly if its store is kept, or else the windows of its chain have no
fatal entry and no table in their way. A new store holds what the entries of the chain record, in
order and after the requests carried over, and each dropped entry of the chain is counted. -/
theorem load_ok_iff (hs : s.Sound) (hkeys : log.sealedKeys = .ok sealed)
    (haligned : s.reader.interval.Aligned key) (hsealed : log.isSealed key = .ok true)
    (hrange : s.InRange sealed key) :
    ((∃ s' store, s.load log key = (s', .ok store)) ↔
      key ∈ s.reader.cache.keys ∨
        ∀ k ∈ s.reader.chain key (sealed.head?.getD key),
          ¬s.warehouse.Taken s.reader.shared k ∧ log.Harmless k) ∧
    ∀ s' store, s.load log key = (s', .ok store) → key ∉ s.reader.cache.keys →
      s'.warehouse.rows store = .ok ((s.reader.chain key (sealed.head?.getD key)).foldl
        (log.nextRows s.reader.interval s.reader.expiry)
        (s.rowsOf ((s.reader.chain key (sealed.head?.getD key)).head?.getD key -
          s.reader.interval.millis))) ∧
      s'.counters = (s.reader.chain key (sealed.head?.getD key)).foldl log.countDropped
        s.counters := by
  by_cases hkept : key ∈ s.reader.cache.keys
  · obtain ⟨store, hstore⟩ := Option.isSome_iff_exists.mp (KeyedList.mem_keys_iff.mp hkept)
    refine ⟨⟨fun _ => Or.inl hkept, fun _ => ?_⟩, fun _ _ _ hnot => absurd hkept hnot⟩
    exact ⟨_, store, load_of_kept haligned hstore⟩
  · obtain ⟨first, n, hchain⟩ := s.reader.exists_chain key (sealed.head?.getD key)
    obtain ⟨base, start, a, rfl, hprev⟩ := hs.exists_follows log first
    have hiff := ready_iff hrange hchain hprev
    have hload := load_of_sealed haligned hkept hsealed
    -- Either every window of the chain can be built, or the first one that cannot ends the load.
    by_cases hready : ∀ j, a ≤ j → j ≤ a + n → s.Ready log base start j
    · obtain ⟨s₁, st, hok, hgrows, hnewest, hholds, hcounters⟩ :=
        loadSealed_of_ready hs hkeys hchain hkept hprev hready
      rw [← hload] at hok
      refine ⟨⟨fun _ => Or.inr ?_, fun _ => ⟨s₁, st, hok⟩⟩, ?_⟩
      · rw [forall_mem_chain_iff hchain]
        intro j ha hn
        exact (hiff j ha hn).mp (hready j ha hn)
      · intro s' store h _
        rw [hok] at h
        cases h
        refine ⟨?_, hcounters⟩
        rw [← hchain.after_add] at hnewest
        have hrows := (hholds (a + n) st (by omega) (Nat.le_refl _) hnewest).rows
        rw [hgrows.alike.interval, hgrows.alike.expiry] at hrows
        rw [hchain.head, hchain.eq_run, Interval.run_after, foldl_nextRows_rowsOf hprev]
        exact hrows
    · simp only [Classical.not_forall] at hready
      obtain ⟨j, ha, hn, hbad⟩ := hready
      obtain ⟨s₁, e, herror, _⟩ :=
        loadSealed_of_not_ready hs hkeys hchain hkept hprev ⟨j, ha, hn, hbad⟩
      rw [← hload] at herror
      refine ⟨⟨?_, ?_⟩, ?_⟩
      · rintro ⟨s', store, hok⟩
        rw [herror] at hok
        cases hok
      · rintro (hmem | hall)
        · exact absurd hmem hkept
        · rw [forall_mem_chain_iff hchain] at hall
          exact absurd ((hiff j ha hn).mpr (hall j ha hn)) hbad
      · intro s' store hok
        rw [herror] at hok
        cases hok

/-- A log with three entries: the first one is no event, the second one has a response code that is
no integer, and the third one can be used. -/
def threeEntries : EventLog :=
  .ofFiles [(0, Text.encodeUtf8 "?\n".toList ++
    EventLog.linesOf [halfOfA 5 .finish (.ofList [("response_code", .text "none")]),
      halfOfB 6 .start ∅])]

theorem dropped_entries_are_counted :
    ∃ s' store, (tenMillis 0).load threeEntries 0 = (s', .ok store) ∧
      s'.counters.get .malformedEvents = 2 := by
  have hkeys : threeEntries.sealedKeys = .ok [0] := by rfl
  have hsealed : threeEntries.isSealed 0 = .ok true := by rfl
  have hrange : (tenMillis 0).InRange [0] 0 := by
    refine ⟨by decide, by decide, ?_, by decide⟩
    intro k hk
    cases hk
  obtain ⟨hiff, hrows⟩ :=
    load_ok_iff (fresh_tenMillis (by decide)).sound hkeys (by decide) hsealed hrange
  have hchain : (tenMillis 0).reader.chain 0 0 = [0] := by decide +kernel
  have hharmless : threeEntries.Harmless 0 := by
    rw [← EventLog.replayable_iff_harmless (by decide)]
    decide +kernel
  have hloads : ∃ s' store, (tenMillis 0).load threeEntries 0 = (s', .ok store) := by
    rw [hiff]
    right
    intro k hk
    have hzero : k = 0 := List.mem_singleton.mp (hchain ▸ hk)
    rw [hzero]
    refine ⟨?_, hharmless⟩
    rintro ⟨name, hname, _⟩
    cases hname
  obtain ⟨s', store, hload⟩ := hloads
  obtain ⟨_, hcounters⟩ := hrows s' store hload (by decide)
  refine ⟨s', store, hload, ?_⟩
  rw [hcounters]
  decide +kernel

/-- A log with an entry whose response code is read as an infinite number. -/
def infiniteCode : EventLog :=
  .ofFiles [(0, Text.encodeUtf8
    ("\x7b\"emitted_at_millis\":5,\"correlation_id\":\"a\",\"kind\":\"end\"," ++
      "\"dimensions\":\x7b\"response_code\":1e400\x7d\x7d\n").toList ++
    EventLog.linesOf [halfOfB 6 .start ∅])]

theorem infinite_code_is_fatal :
    ¬∀ (s : Correlation) (log : EventLog) (sealed : List Int) (key : Int), s.Fresh →
      log.sealedKeys = .ok sealed → s.reader.interval.Aligned key →
      log.isSealed key = .ok true → s.InRange sealed key →
      ∃ s' store, s.load log key = (s', .ok store) := by
  intro h
  have hrange : (tenMillis 0).InRange [0] 0 := by
    refine ⟨by decide, by decide, ?_, by decide⟩
    intro k hk
    cases hk
  obtain ⟨s', store, hload⟩ := h (tenMillis 0) infiniteCode [0] 0 (fresh_tenMillis (by decide))
    (by rfl) (by decide) (by rfl) hrange
  have hfails : ((tenMillis 0).load infiniteCode 0).2.toOption.isNone = true := by decide +kernel
  rw [hload] at hfails
  cases hfails

end Correlation

end RequestWindows
