import RequestWindows.Proofs.Reader.Chain
import RequestWindows.Proofs.Reader.Kept

namespace RequestWindows

/-- Why a window that has no sealed log is refused. -/
def EventLog.refusal (log : EventLog) (key : Int) : ReaderError :=
  match log.isSealed key with
  | .error e => .log e
  | .ok _ => .log (.notSealed key)

namespace Correlation

variable {s s' : Correlation} {log : EventLog} {base : Table} {first key : Int}

/-- New stores for other windows leave a window as ready as it was. -/
theorem Grows.ready_iff {new : Int → Prop} {n : Nat} (h : s.Grows new s')
    (hunkept : s.reader.interval.after first n ∉ s.reader.cache.keys)
    (hnew : ¬new (s.reader.interval.after first n)) :
    s'.Ready log base first n ↔ s.Ready log base first n := by
  constructor
  · rintro ⟨hfree, hcomparable, hreplayable⟩
    rw [h.alike.interval, h.taken hunkept hnew] at hfree
    rw [h.alike.interval, h.alike.expiry] at hcomparable
    rw [h.alike.interval] at hreplayable
    exact ⟨hfree, hcomparable, hreplayable⟩
  · intro hready
    constructor
    · rw [h.alike.interval, h.taken hunkept hnew]
      exact hready.free
    · rw [h.alike.interval, h.alike.expiry]
      exact hready.comparable
    · rw [h.alike.interval]
      exact hready.replayable

theorem Holds.of_grows {new : Int → Prop} {n : Nat} {k : Int} {st : WindowStore}
    (hholds : s.Holds log base first n st) (h : s.Grows new s')
    (hkept : s'.reader.cache.get? k = some st) (hnew : ¬new k) : s'.Holds log base first n st := by
  apply hholds.of_tables h.alike.interval h.alike.expiry
  intro t ht
  rw [h.tables hkept hnew]
  exact ht

/-- Where the next window of a chain can be built, its store is kept and the chain goes on from
it. -/
theorem extend {n : Nat} {previous : Option WindowStore} (hs : s.Sound)
    (hprev : s.Follows log base first n previous)
    (hunkept : s.reader.interval.after first n ∉ s.reader.cache.keys)
    (hready : s.Ready log base first n) :
    ∃ s' store, (∀ rest, s.buildChain log previous (s.reader.interval.after first n :: rest) =
        s'.buildChain log (some store) rest) ∧
      s.Grows (· = s.reader.interval.after first n) s' ∧
      s'.reader.cache.get? (s.reader.interval.after first n) = some store ∧
      s'.Holds log base first n store ∧
      s'.counters = log.countDropped s.counters (s.reader.interval.after first n) := by
  obtain ⟨s₁, store, t, hbuild, hreader, hserial, hholds, hdatabase, hwindow, hadd, hcounters⟩ :=
    build_next hs.warehouse hs.expiry hprev hready
  have hstore : store.window = s.reader.interval.after first n := by
    have h := hholds.window
    rw [hreader] at h
    exact h
  have hexpiry : store.expiry = s.reader.expiry := by
    have h := hholds.expiry
    rw [hreader] at h
    exact h
  have htouch : s.Grows (· = s.reader.interval.after first n)
      (s₁.touch (s.reader.interval.after first n) store) :=
    grows_touch_new hs hreader hserial hadd hunkept hstore hexpiry hdatabase hwindow
  have hkept := get?_keep s₁ (s.reader.interval.after first n) store
  refine ⟨s₁.keep (s.reader.interval.after first n) store, store, ?_, ?_, hkept, ?_, hcounters⟩
  · intro rest
    rw [buildChain, hbuild]
  · rw [keep_eq_drop]
    apply (htouch.trans (grows_drop htouch.sound _)).mono
    intro k hk
    exact hk.resolve_right id
  · have hinterval : (s₁.keep (s.reader.interval.after first n) store).reader.interval =
        s₁.reader.interval := rfl
    have hsame : (s₁.keep (s.reader.interval.after first n) store).reader.expiry =
        s₁.reader.expiry := rfl
    apply hholds.of_tables hinterval hsame
    intro u hu
    rw [keep_eq_drop] at hkept ⊢
    rw [tables_drop_of_kept htouch.sound hkept]
    exact hu

theorem Grows.unkept_later {a n : Nat} (h : s.Grows (· = s.reader.interval.after first a) s')
    (hunkept : ∀ j, a ≤ j → j ≤ n → s.reader.interval.after first j ∉ s.reader.cache.keys) (j : Nat)
    (hj : a + 1 ≤ j) (hn : j ≤ n) : s'.reader.interval.after first j ∉ s'.reader.cache.keys := by
  rw [h.alike.interval]
  exact h.unkept (hunkept j (by omega) hn) (Interval.after_ne hj)

/-- A chain whose windows can all be built is built to its end. -/
theorem buildChain_of_ready {a n len : Nat} {previous : Option WindowStore} (hs : s.Sound)
    (hprev : s.Follows log base first a previous) (hlen : a + len = n + 1)
    (hunkept : ∀ j, a ≤ j → j ≤ n → s.reader.interval.after first j ∉ s.reader.cache.keys)
    (hready : ∀ j, a ≤ j → j ≤ n → s.Ready log base first j) :
    ∃ s', s.buildChain log previous ((List.range' a len).map (s.reader.interval.after first)) =
        (s', .ok ()) ∧
      s.Grows (fun k => ∃ j, a ≤ j ∧ j ≤ n ∧ k = s.reader.interval.after first j) s' ∧
      (∀ j st, a ≤ j → j ≤ n →
        s'.reader.cache.get? (s.reader.interval.after first j) = some st →
        s'.Holds log base first j st) ∧
      (0 < len → ∃ st, s'.reader.cache.get? (s.reader.interval.after first n) = some st) ∧
      s'.counters = ((List.range' a len).map (s.reader.interval.after first)).foldl
        log.countDropped s.counters := by
  -- The induction is on the number of windows still to be built. The store of the window before
  -- them need not be kept for long: the invariant is that it holds its rows when the next one is
  -- built.
  induction len generalizing s a previous with
  | zero =>
    refine ⟨s, rfl, Grows.refl hs, ?_, ?_, rfl⟩
    · intro j st ha hn
      omega
    · intro h
      omega
  | succ len ih =>
    have hfirst := hunkept a (Nat.le_refl a) (by omega)
    obtain ⟨s₁, store, hstep, hgrows, hnewest, hholds, hcounters⟩ :=
      extend hs hprev hfirst (hready a (Nat.le_refl a) (by omega))
    have hinterval := hgrows.alike.interval
    have hready₁ : ∀ j, a + 1 ≤ j → j ≤ n → s₁.Ready log base first j := by
      intro j hj hn
      -- A later window is another window, so it is as ready as before.
      rw [hgrows.ready_iff (hunkept j (by omega) hn) (Interval.after_ne hj)]
      exact hready j (by omega) hn
    have hprev₁ : s₁.Follows log base first (a + 1) (some store) := ⟨store, rfl, hholds⟩
    obtain ⟨s', hrest, hgrows', hholds', hlast, hcounters'⟩ :=
      ih hgrows.sound hprev₁ (by omega) (hgrows.unkept_later hunkept) hready₁
    rw [hinterval] at hrest hgrows' hholds' hlast hcounters'
    have hold : ¬∃ j, a + 1 ≤ j ∧ j ≤ n ∧
        s.reader.interval.after first a = s.reader.interval.after first j := by
      rintro ⟨j, hj, _, heq⟩
      exact Interval.after_ne hj heq.symm
    refine ⟨s', ?_, ?_, ?_, ?_, ?_⟩
    · rw [List.range'_succ, List.map_cons, hstep]
      exact hrest
    · apply (hgrows.trans hgrows').mono
      rintro k (hk | ⟨j, hj, hn, hk⟩)
      · exact ⟨a, Nat.le_refl a, by omega, hk⟩
      · exact ⟨j, by omega, hn, hk⟩
    · intro j st ha hn hget
      rcases Nat.eq_or_lt_of_le ha with rfl | hlt
      · -- If the first store of the chain is still kept, it is the one that was built.
        have hbefore := hgrows'.cache hget hold
        rw [hnewest] at hbefore
        cases hbefore
        exact hholds.of_grows hgrows' hget hold
      · exact hholds' j st hlt hn hget
    · intro _
      rcases Nat.eq_zero_or_pos len with rfl | hpos
      · have hn : n = a := by omega
        rw [List.range'_zero, List.map_nil] at hrest
        have hs' : s₁ = s' := congrArg Prod.fst hrest
        rw [← hs', hn]
        exact ⟨store, hnewest⟩
      · exact hlast hpos
    · rw [List.range'_succ, List.map_cons, List.foldl_cons, hcounters', hcounters]

theorem sound_of_failed (hs : s.Sound) (hreader : s'.reader = s.reader)
    (h : s'.warehouse = s.warehouse ∨ ∃ t, t.database = s.warehouse.nextDatabase s.reader.shared ∧
      s.warehouse.Adds t s'.warehouse) : s'.Sound := by
  rcases h with h | ⟨t, hdatabase, hadd⟩
  · constructor
    · rw [h]
      exact hs.warehouse
    · rw [hreader]
      exact hs.expiry
    · rw [hreader, h]
      exact hs.kept
  · constructor
    · exact hs.warehouse.of_adds hdatabase hadd
    · rw [hreader]
      exact hs.expiry
    · rw [hreader]
      intro k st hget
      obtain ⟨hwindow, hexpiry, u, hu, hw⟩ := hs.kept hget
      exact ⟨hwindow, hexpiry, u, hadd.before hs.warehouse.get?_next hu, hw⟩

/-- A chain with a window that cannot be built fails there. -/
theorem buildChain_of_not_ready {a n len : Nat} {previous : Option WindowStore} (hs : s.Sound)
    (hprev : s.Follows log base first a previous) (hlen : a + len = n + 1)
    (hunkept : ∀ j, a ≤ j → j ≤ n → s.reader.interval.after first j ∉ s.reader.cache.keys)
    (hnot : ∃ j, a ≤ j ∧ j ≤ n ∧ ¬s.Ready log base first j) :
    ∃ s' e, s.buildChain log previous ((List.range' a len).map (s.reader.interval.after first)) =
        (s', .error e) ∧ s'.Sound := by
  -- Up to the first window that is not ready the chain is built as usual.
  induction len generalizing s a previous with
  | zero =>
    obtain ⟨j, ha, hn, _⟩ := hnot
    omega
  | succ len ih =>
    have hfirst := hunkept a (Nat.le_refl a) (by omega)
    by_cases hready : s.Ready log base first a
    · obtain ⟨s₁, store, hstep, hgrows, _, hholds, _⟩ := extend hs hprev hfirst hready
      have hnot₁ : ∃ j, a + 1 ≤ j ∧ j ≤ n ∧ ¬s₁.Ready log base first j := by
        obtain ⟨j, ha, hn, hbad⟩ := hnot
        have hj : a + 1 ≤ j := by
          rcases Nat.eq_or_lt_of_le ha with rfl | hlt
          · exact absurd hready hbad
          · exact hlt
        refine ⟨j, hj, hn, ?_⟩
        rw [hgrows.ready_iff (hunkept j (by omega) hn) (Interval.after_ne hj)]
        exact hbad
      have hprev₁ : s₁.Follows log base first (a + 1) (some store) := ⟨store, rfl, hholds⟩
      obtain ⟨s', e, hrest, hsound⟩ :=
        ih hgrows.sound hprev₁ (by omega) (hgrows.unkept_later hunkept) hnot₁
      rw [hgrows.alike.interval] at hrest
      refine ⟨s', e, ?_, hsound⟩
      rw [List.range'_succ, List.map_cons, hstep]
      exact hrest
    · have hcannot : ¬s.CanBuild log (s.reader.interval.after first a) previous :=
        fun h => hready ((canBuild_iff hprev).mp h)
      obtain ⟨s', e, hbuild, hreader, hleft⟩ :=
        build_of_not_canBuild hs.warehouse hs.expiry hprev.live hcannot
      refine ⟨s', e, ?_, sound_of_failed hs hreader hleft⟩
      rw [List.range'_succ, List.map_cons, buildChain, hbuild]

section Load

variable {sealed : List Int}

theorem loadSealed_eq {n : Nat} (hkeys : log.sealedKeys = .ok sealed)
    (hchain : s.reader.Chained key (sealed.head?.getD key) first n) :
    s.loadSealed log key =
      match s.buildChain log (s.reader.cache.get? (first - s.reader.interval.millis))
        (s.reader.chain key (sealed.head?.getD key)) with
      | (s', .error e) => (s', .error e)
      | (s', .ok ()) =>
        match s'.reader.cache.get? key with
        | some store => (s', .ok store)
        | none => (s', .error (.lost key)) := by
  have hwindows : s.chain log key = .ok (s.reader.chain key (sealed.head?.getD key)) := by
    unfold chain
    rw [hkeys]
    rfl
  have hhead := hchain.head
  unfold loadSealed
  rw [hwindows]
  rcases hbuild : s.buildChain log (s.reader.cache.get? (first - s.reader.interval.millis))
    (s.reader.chain key (sealed.head?.getD key)) with ⟨s', e | u⟩
  · simp only [hhead, hbuild]
  · cases hget : s'.reader.cache.get? key with
    | none => simp only [hhead, hbuild, hget]
    | some store => simp only [hhead, hbuild, hget]

/-- A chain begins after a store that is kept, or without one. -/
theorem Sound.exists_follows (hs : s.Sound) (log : EventLog) (first : Int) :
    ∃ base start a, first = s.reader.interval.after start a ∧
      s.Follows log base start a
        (s.reader.cache.get? (first - s.reader.interval.millis)) := by
  cases hget : s.reader.cache.get? (first - s.reader.interval.millis) with
  | none =>
    exact ⟨log.opening first, first, 0, (s.reader.interval.after_zero first).symm, rfl, rfl⟩
  | some p =>
    obtain ⟨hwindow, hexpiry, t, ht, htable⟩ := hs.kept hget
    refine ⟨t.rows, first - s.reader.interval.millis, 1, ?_, p, rfl, ?_, hexpiry, t, ht, ?_, rfl⟩
    · rw [s.reader.interval.after_succ, s.reader.interval.after_zero]
      omega
    · rw [s.reader.interval.after_zero]
      exact hwindow
    · exact htable.trans hwindow.symm

section Chain

variable {start : Int} {a n : Nat}

theorem mem_chain_iff {oldest k : Int}
    (hchain : s.reader.Chained key oldest (s.reader.interval.after start a) n) :
    k ∈ s.reader.chain key oldest ↔
      ∃ j, a ≤ j ∧ j ≤ a + n ∧ k = s.reader.interval.after start j := by
  rw [hchain.eq_run, Interval.run_after, List.mem_map]
  constructor
  · rintro ⟨j, hj, rfl⟩
    obtain ⟨ha, hn⟩ := List.mem_range'_1.mp hj
    exact ⟨j, ha, by omega, rfl⟩
  · rintro ⟨j, ha, hn, rfl⟩
    exact ⟨j, List.mem_range'_1.mpr ⟨ha, by omega⟩, rfl⟩

theorem unkept_of_chained {oldest : Int}
    (hchain : s.reader.Chained key oldest (s.reader.interval.after start a) n)
    (hkey : key ∉ s.reader.cache.keys) (j : Nat) (ha : a ≤ j) (hn : j ≤ a + n) :
    s.reader.interval.after start j ∉ s.reader.cache.keys := by
  have hj : s.reader.interval.after start j =
      s.reader.interval.after (s.reader.interval.after start a) (j - a) := by
    rw [← s.reader.interval.after_add, Nat.add_sub_cancel' ha]
  rw [hj]
  rcases Nat.eq_or_lt_of_le (show j - a ≤ n by omega) with heq | hlt
  · rw [heq, ← hchain.ends]
    exact hkey
  · exact hchain.unkept (j - a) hlt

theorem loadSealed_of_ready (hs : s.Sound) (hkeys : log.sealedKeys = .ok sealed)
    (hchain : s.reader.Chained key (sealed.head?.getD key) (s.reader.interval.after start a) n)
    (hkey : key ∉ s.reader.cache.keys)
    (hprev : s.Follows log base start a
      (s.reader.cache.get? (s.reader.interval.after start a - s.reader.interval.millis)))
    (hready : ∀ j, a ≤ j → j ≤ a + n → s.Ready log base start j) :
    ∃ s' store, s.loadSealed log key = (s', .ok store) ∧
      s.Grows (fun k => ∃ j, a ≤ j ∧ j ≤ a + n ∧ k = s.reader.interval.after start j) s' ∧
      s'.reader.cache.get? key = some store ∧
      (∀ j st, a ≤ j → j ≤ a + n →
        s'.reader.cache.get? (s.reader.interval.after start j) = some st →
        s'.Holds log base start j st) ∧
      s'.counters = (s.reader.chain key (sealed.head?.getD key)).foldl log.countDropped
        s.counters := by
  obtain ⟨s', hbuild, hgrows, hholds, hkept, hcounters⟩ :=
    buildChain_of_ready hs hprev (Nat.add_assoc a n 1).symm (unkept_of_chained hchain hkey) hready
  obtain ⟨store, hstore⟩ := hkept (Nat.succ_pos n)
  rw [hchain.after_add] at hstore
  rw [← Interval.run_after, ← hchain.eq_run] at hbuild hcounters
  refine ⟨s', store, ?_, hgrows, hstore, hholds, hcounters⟩
  rw [loadSealed_eq hkeys hchain, hbuild]
  simp only [hstore]

theorem loadSealed_of_not_ready (hs : s.Sound) (hkeys : log.sealedKeys = .ok sealed)
    (hchain : s.reader.Chained key (sealed.head?.getD key) (s.reader.interval.after start a) n)
    (hkey : key ∉ s.reader.cache.keys)
    (hprev : s.Follows log base start a
      (s.reader.cache.get? (s.reader.interval.after start a - s.reader.interval.millis)))
    (hnot : ∃ j, a ≤ j ∧ j ≤ a + n ∧ ¬s.Ready log base start j) :
    ∃ s' e, s.loadSealed log key = (s', .error e) ∧ s'.Sound := by
  obtain ⟨s', e, hbuild, hsound⟩ :=
    buildChain_of_not_ready hs hprev (Nat.add_assoc a n 1).symm (unkept_of_chained hchain hkey) hnot
  rw [← Interval.run_after, ← hchain.eq_run] at hbuild
  refine ⟨s', e, ?_, hsound⟩
  rw [loadSealed_eq hkeys hchain, hbuild]

end Chain

theorem load_of_kept {store : WindowStore} (hkey : s.reader.interval.Aligned key)
    (h : s.reader.cache.get? key = some store) :
    s.load log key = (s.touch key store, .ok store) := by
  unfold load
  rw [if_neg (not_not_intro hkey), h]

theorem load_of_sealed (hkey : s.reader.interval.Aligned key) (h : key ∉ s.reader.cache.keys)
    (hsealed : log.isSealed key = .ok true) : s.load log key = s.loadSealed log key := by
  unfold load
  rw [if_neg (not_not_intro hkey), KeyedList.get?_eq_none_iff.mpr h, hsealed]

/-- A window that is neither kept nor sealed is refused, and nothing changes. -/
theorem load_of_not_sealed (hkey : s.reader.interval.Aligned key)
    (h : key ∉ s.reader.cache.keys) (hsealed : log.isSealed key ≠ .ok true) :
    s.load log key = (s, .error (log.refusal key)) := by
  unfold load EventLog.refusal
  rw [if_neg (not_not_intro hkey), KeyedList.get?_eq_none_iff.mpr h]
  cases hanswer : log.isSealed key with
  | error e => rfl
  | ok b =>
    cases b with
    | false => rfl
    | true => exact absurd hanswer hsealed

theorem load_of_misaligned (hkey : ¬s.reader.interval.Aligned key) :
    s.load log key = (s, .error (.misaligned key s.reader.interval.millis)) := by
  unfold load
  rw [if_pos hkey]

end Load

end Correlation

end RequestWindows
