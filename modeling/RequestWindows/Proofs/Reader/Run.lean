import RequestWindows.Proofs.Reader.Build

namespace RequestWindows

/-- Build the stores of several windows, each carried over from the one before, and remove none. -/
def Correlation.buildEach (s : Correlation) (log : EventLog) (previous : Option WindowStore) :
    List Int → Correlation × Except ReaderError (List WindowStore)
  | [] => (s, .ok [])
  | key :: rest =>
    match s.build log key previous with
    | (s, .error e) => (s, .error e)
    | (s, .ok store) =>
      let (s, stores) := s.buildEach log (some store) rest
      (s, stores.map (store :: ·))

/-- Whether the windows of a run up to the `n`-th after `first` can be built one after another. -/
structure EventLog.Buildable (log : EventLog) (i : Interval) (expiry first : Int) (n : Nat) :
    Prop where
  replayable : ∀ j, j ≤ n → log.Replayable (i.after first j)
  comparable : ∀ j, j < n →
    (log.tableAfter i expiry first j).Comparable (i.after first j - expiry)

namespace Correlation

/-- A reading side that nothing has been asked yet, with windows of ten milliseconds. -/
def tenMillis (expiry : Int) : Correlation :=
  ⟨⟨⟨10, by decide⟩, expiry, 2, by decide, none, ∅⟩, .empty, .zero⟩

def halfOfA (time : Nat) (half : Half) (dimensions : KeyedList RawText Scalar) : Event :=
  ⟨time, "a", half, dimensions, by decide⟩

def halfOfB (time : Nat) (half : Half) (dimensions : KeyedList RawText Scalar) : Event :=
  ⟨time, "b", half, dimensions, by decide⟩

variable {s s' : Correlation} {log : EventLog} {base : Table} {first : Int}

/-- A live store holds what the logs make of the rows `base` up to the `n`-th window after
`first`. -/
structure Holds (s : Correlation) (log : EventLog) (base : Table) (first : Int) (n : Nat)
    (store : WindowStore) : Prop where
  window : store.window = s.reader.interval.after first n
  expiry : store.expiry = s.reader.expiry
  table : ∃ t, s.warehouse.tables.get? store.serial = some t ∧ t.window = store.window ∧
    t.rows = log.tableFrom s.reader.interval s.reader.expiry base first n

/-- The store from which the `n`-th window after `first` is carried over: that of the window before
it, or none if it is the first. -/
def Follows (s : Correlation) (log : EventLog) (base : Table) (first : Int) :
    Nat → Option WindowStore → Prop
  | 0, previous => previous = none ∧ base = log.opening first
  | m + 1, previous => ∃ p, previous = some p ∧ s.Holds log base first m p

theorem Holds.rows {n : Nat} {store : WindowStore} (h : s.Holds log base first n store) :
    s.warehouse.rows store =
      .ok (log.tableFrom s.reader.interval s.reader.expiry base first n) := by
  obtain ⟨t, ht, _, hrows⟩ := h.table
  exact Warehouse.rows_eq_ok.mpr ⟨t, ht, hrows⟩

theorem Holds.horizon {n : Nat} {store : WindowStore} (h : s.Holds log base first n store) :
    store.horizon = s.reader.interval.after first n - s.reader.expiry := by
  rw [WindowStore.horizon, h.window, h.expiry]

theorem Holds.of_tables {n : Nat} {store : WindowStore} (h : s.Holds log base first n store)
    (hi : s'.reader.interval = s.reader.interval) (he : s'.reader.expiry = s.reader.expiry)
    (ht : ∀ t, s.warehouse.tables.get? store.serial = some t →
      s'.warehouse.tables.get? store.serial = some t) : s'.Holds log base first n store := by
  obtain ⟨t, hget, hw, hrows⟩ := h.table
  refine ⟨?_, ?_, t, ht t hget, hw, ?_⟩
  · rw [hi]
    exact h.window
  · rw [he]
    exact h.expiry
  · rw [hi, he]
    exact hrows

theorem Holds.of_adds {n : Nat} {store : WindowStore} {t : StoredTable}
    (h : s.Holds log base first n store) (hs : s.warehouse.Sound) (hr : s'.reader = s.reader)
    (ha : s.warehouse.Adds t s'.warehouse) : s'.Holds log base first n store :=
  h.of_tables (by rw [hr]) (by rw [hr]) fun _ ht => ha.before hs.get?_next ht

theorem Follows.live {n : Nat} {previous : Option WindowStore}
    (h : s.Follows log base first n previous) (p : WindowStore) (hp : previous = some p) :
    ∃ t, s.warehouse.tables.get? p.serial = some t := by
  cases n with
  | zero =>
    rw [h.1] at hp
    cases hp
  | succ m =>
    obtain ⟨q, hq, hholds⟩ := h
    rw [hq] at hp
    cases hp
    obtain ⟨t, ht, _⟩ := hholds.table
    exact ⟨t, ht⟩

theorem Follows.feed_rowsBefore {n : Nat} {previous : Option WindowStore}
    (h : s.Follows log base first n previous) :
    (s.rowsBefore previous).feed (log.recordedIn (s.reader.interval.after first n)) =
      log.tableFrom s.reader.interval s.reader.expiry base first n := by
  cases n with
  | zero =>
    rw [h.1, h.2, Interval.after_zero]
    rfl
  | succ m =>
    obtain ⟨p, rfl, hholds⟩ := h
    obtain ⟨t, ht, _, hrows⟩ := hholds.table
    have hcarried : s.rowsBefore (some p) = t.rows.carried p.horizon := by
      unfold rowsBefore
      rw [Option.bind_some, ht]
      rfl
    rw [hcarried, hrows, hholds.horizon]
    rfl

/-- Whether the `n`-th window of a run can be built, once those before it have been. -/
structure Ready (s : Correlation) (log : EventLog) (base : Table) (first : Int) (n : Nat) :
    Prop where
  free : ¬s.warehouse.Taken s.reader.shared (s.reader.interval.after first n)
  comparable : ∀ m, n = m + 1 →
    (log.tableFrom s.reader.interval s.reader.expiry base first m).Comparable
      (s.reader.interval.after first m - s.reader.expiry)
  replayable : log.Replayable (s.reader.interval.after first n)

theorem canBuild_iff {n : Nat} {previous : Option WindowStore}
    (h : s.Follows log base first n previous) :
    s.CanBuild log (s.reader.interval.after first n) previous ↔ s.Ready log base first n := by
  have hcomp : (∀ p t, previous = some p → s.warehouse.tables.get? p.serial = some t →
      t.rows.Comparable p.horizon) ↔
      ∀ m, n = m + 1 → (log.tableFrom s.reader.interval s.reader.expiry base first m).Comparable
        (s.reader.interval.after first m - s.reader.expiry) := by
    cases n with
    | zero =>
      constructor
      · intro _ m hm
        omega
      · intro _ p t hp
        rw [h.1] at hp
        cases hp
    | succ k =>
      obtain ⟨p, rfl, hholds⟩ := h
      obtain ⟨t, ht, _, hrows⟩ := hholds.table
      have hhorizon := hholds.horizon
      constructor
      · intro hc m hm
        cases hm
        rw [← hhorizon, ← hrows]
        exact hc p t rfl ht
      · intro hc q u hq hu
        cases hq
        rw [ht] at hu
        cases hu
        rw [hhorizon, hrows]
        exact hc k rfl
  constructor
  · rintro ⟨hfree, hc, hlog⟩
    exact ⟨hfree, hcomp.mp hc, hlog⟩
  · rintro ⟨hfree, hc, hlog⟩
    exact ⟨hfree, hcomp.mpr hc, hlog⟩

/-- The next store of a run, if it can be built, holds what the logs say of its window. -/
theorem build_next {n : Nat} {previous : Option WindowStore} (hs : s.warehouse.Sound)
    (he : 0 ≤ s.reader.expiry) (h : s.Follows log base first n previous)
    (hready : s.Ready log base first n) :
    ∃ s' store t, s.build log (s.reader.interval.after first n) previous = (s', .ok store) ∧
      s'.reader = s.reader ∧ store.serial = s.warehouse.next ∧ s'.Holds log base first n store ∧
      t.database = s.warehouse.nextDatabase s.reader.shared ∧
      t.window = s.reader.interval.after first n ∧ s.warehouse.Adds t s'.warehouse ∧
      s'.counters = log.countDropped s.counters (s.reader.interval.after first n) := by
  obtain ⟨s', hbuild, hreader, hcount, hadd⟩ :=
    build_of_canBuild hs he h.live ((canBuild_iff h).mpr hready)
  refine ⟨s', _, _, hbuild, hreader, rfl, ⟨?_, ?_, _, hadd.at, rfl, ?_⟩, rfl, rfl, hadd, hcount⟩
  · rw [hreader]
  · rw [hreader]
  · rw [hreader]
    exact h.feed_rowsBefore

theorem taken_of_adds {t : StoredTable} {shared : Option String} {window : Int}
    (hs : s.warehouse.Sound) (h : s.warehouse.Adds t s'.warehouse) :
    s'.warehouse.Taken shared window ↔ s.warehouse.Taken shared window ∨
      t.window = window ∧ ∃ name, shared = some name ∧ t.database = .shared name := by
  unfold Warehouse.Taken
  simp only [Warehouse.hasTable_iff]
  constructor
  · rintro ⟨name, hname, n, u, hget, hdb, hw⟩
    rw [h.get?] at hget
    split at hget
    · cases hget
      exact Or.inr ⟨hw, name, hname, hdb⟩
    · exact Or.inl ⟨name, hname, n, u, hget, hdb, hw⟩
  · rintro (⟨name, hname, n, u, hget, hdb, hw⟩ | ⟨hw, name, hname, hdb⟩)
    · exact ⟨name, hname, n, u, h.before hs.get?_next hget, hdb, hw⟩
    · exact ⟨name, hname, s.warehouse.next, t, h.at, hdb, hw⟩

/-- After the next store of a run has been built, later windows of the run are as free as before. -/
theorem free_after_build {a n : Nat} {t : StoredTable} {i : Interval} {shared : Option String}
    (hs : s.warehouse.Sound) (hadd : s.warehouse.Adds t s'.warehouse)
    (hwindow : t.window = i.after first a)
    (hfree : ∀ j, a ≤ j → j ≤ n → ¬s.warehouse.Taken shared (i.after first j)) (j : Nat)
    (hj : a + 1 ≤ j) (hn : j ≤ n) : ¬s'.warehouse.Taken shared (i.after first j) := by
  intro ht
  rcases (taken_of_adds hs hadd).mp ht with ht | ⟨hw, _⟩
  · exact hfree j (by omega) hn ht
  · rw [hwindow, Interval.after_inj] at hw
    omega

theorem buildEach_aux {a n len : Nat} {previous : Option WindowStore} (hs : s.warehouse.Sound)
    (he : 0 ≤ s.reader.expiry) (hprev : s.Follows log (log.opening first) first a previous)
    (hlen : a + len = n + 1)
    (hrun : log.Buildable s.reader.interval s.reader.expiry first n)
    (hfree : ∀ j, a ≤ j → j ≤ n →
      ¬s.warehouse.Taken s.reader.shared (s.reader.interval.after first j)) :
    ∃ s' stores, s.buildEach log previous
        ((List.range' a len).map (s.reader.interval.after first)) = (s', .ok stores) ∧
      s'.reader = s.reader ∧ stores.length = len ∧
      (∀ j, j < len → ∃ store, stores[j]? = some store ∧
        s'.Holds log (log.opening first) first (a + j) store) ∧
      ∀ m store, s.Holds log (log.opening first) first m store →
        s'.Holds log (log.opening first) first m store := by
  -- The induction is on the number of windows still to be built. Stores of earlier windows go on to
  -- hold what they held, so what is said of each of them when it is built is true in the end.
  induction len generalizing s a previous with
  | zero =>
    refine ⟨s, [], rfl, rfl, rfl, ?_, fun _ _ h => h⟩
    intro j hj
    omega
  | succ len ih =>
    have hready : s.Ready log (log.opening first) first a := by
      refine ⟨hfree a (Nat.le_refl a) (by omega), ?_, hrun.replayable a (by omega)⟩
      intro m hm
      exact hrun.comparable m (by omega)
    obtain ⟨s₁, store, t, hbuild, hreader, _, hholds, hdb, hwindow, hadd, _⟩ :=
      build_next hs he hprev hready
    have hs₁ : s₁.warehouse.Sound := hs.of_adds hdb hadd
    have hfree₁ := free_after_build hs hadd hwindow hfree
    obtain ⟨s', stores, heach, hreader', hlength, hstores, hkeep⟩ :=
      ih (s := s₁) (a := a + 1) hs₁ (by rw [hreader]; exact he)
        ⟨store, rfl, hholds⟩ (by omega) (by rw [hreader]; exact hrun)
        (by rw [hreader]; exact hfree₁)
    refine ⟨s', store :: stores, ?_, hreader'.trans hreader, ?_, ?_, ?_⟩
    · rw [List.range'_succ, List.map_cons, buildEach, hbuild]
      rw [hreader] at heach
      simp only [heach]
      rfl
    · rw [List.length_cons, hlength]
    · intro j hj
      cases j with
      | zero => exact ⟨store, rfl, hkeep a store hholds⟩
      | succ j =>
        obtain ⟨st, hst, hh⟩ := hstores j (by omega)
        refine ⟨st, hst, ?_⟩
        rwa [Nat.add_assoc, Nat.add_comm 1 j] at hh
    · intro m st hst
      exact hkeep m st (hst.of_adds hs hreader hadd)

/-- The stores of a run that can be built hold what the logs say of its windows. -/
theorem buildEach_of_buildable {n : Nat} (hs : s.warehouse.Sound) (he : 0 ≤ s.reader.expiry)
    (hrun : log.Buildable s.reader.interval s.reader.expiry first n)
    (hfree : ∀ j, j ≤ n →
      ¬s.warehouse.Taken s.reader.shared (s.reader.interval.after first j)) :
    ∃ s' stores, s.buildEach log none (s.reader.interval.run first (n + 1)) = (s', .ok stores) ∧
      s'.reader = s.reader ∧ stores.length = n + 1 ∧
      ∀ j, j ≤ n → ∃ store, stores[j]? = some store ∧
        s'.Holds log (log.opening first) first j store := by
  have hfirst : s.Follows log (log.opening first) first 0 none := ⟨rfl, rfl⟩
  obtain ⟨s', stores, heach, hreader, hlength, hstores, _⟩ :=
    buildEach_aux hs he hfirst (Nat.zero_add (n + 1)) hrun (fun j _ => hfree j)
  refine ⟨s', stores, ?_, hreader, hlength, fun j hj => ?_⟩
  · rw [Interval.run, List.range_eq_range']
    exact heach
  · have h := hstores j (by omega)
    rwa [Nat.zero_add] at h

theorem canBuild_of_buildEach {a len : Nat} {previous : Option WindowStore}
    {stores : List WindowStore} (hs : s.warehouse.Sound) (he : 0 ≤ s.reader.expiry)
    (hprev : s.Follows log (log.opening first) first a previous)
    (h : (s.buildEach log previous
      ((List.range' a len).map (s.reader.interval.after first))).2 = .ok stores) (j : Nat)
    (ha : a ≤ j) (hj : j < a + len) :
    log.Replayable (s.reader.interval.after first j) ∧
      ∀ m, j = m + 1 → (log.tableAfter s.reader.interval s.reader.expiry first m).Comparable
        (s.reader.interval.after first m - s.reader.expiry) := by
  -- The first window has been built, and the stores of the others after it.
  induction len generalizing s a previous stores with
  | zero => omega
  | succ len ih =>
    rw [List.range'_succ, List.map_cons, buildEach] at h
    by_cases hcan : s.CanBuild log (s.reader.interval.after first a) previous
    · have hready := (canBuild_iff hprev).mp hcan
      rcases Nat.eq_or_lt_of_le ha with rfl | hlt
      · exact ⟨hready.replayable, hready.comparable⟩
      · obtain ⟨s₁, store, t, hbuild, hreader, _, hholds, hdb, _, hadd, _⟩ :=
          build_next hs he hprev hready
        rw [hbuild] at h
        cases hrest : s₁.buildEach log (some store)
            ((List.range' (a + 1) len).map (s.reader.interval.after first)) with
        | mk s₂ result =>
          simp only [hrest] at h
          cases result with
          | error e => cases h
          | ok later =>
            have hlater : (s₁.buildEach log (some store) ((List.range' (a + 1) len).map
                (s₁.reader.interval.after first))).2 = .ok later := by
              rw [hreader, hrest]
            have hnext : s₁.Follows log (log.opening first) first (a + 1) (some store) :=
              ⟨store, rfl, hholds⟩
            have hrun := ih (hs.of_adds hdb hadd) (by rw [hreader]; exact he) hnext hlater hlt
              (by omega)
            rwa [hreader] at hrun
    · obtain ⟨s₁, e, hbuild, _⟩ := build_of_not_canBuild hs he hprev.live hcan
      rw [hbuild] at h
      cases h

theorem buildable_of_buildEach {n : Nat} {stores : List WindowStore} (hs : s.warehouse.Sound)
    (he : 0 ≤ s.reader.expiry)
    (h : (s.buildEach log none (s.reader.interval.run first (n + 1))).2 = .ok stores) :
    log.Buildable s.reader.interval s.reader.expiry first n := by
  rw [Interval.run, List.range_eq_range'] at h
  have hcan := canBuild_of_buildEach (a := 0) hs he ⟨rfl, rfl⟩ h
  constructor
  · intro j hj
    exact (hcan j (by omega) (by omega)).1
  · intro j hj
    exact (hcan (j + 1) (by omega) (by omega)).2 j rfl

end Correlation

end RequestWindows
