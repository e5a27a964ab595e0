import RequestWindows.Proofs.Reader.Provenance

namespace RequestWindows

/-- The keys among some that are those of sealed windows. -/
def EventLog.sealedAmong (log : EventLog) (i : Interval) (keys : List Int) : List Int :=
  keys.filter fun k => i.Aligned k ∧ (log.isSealed k).toOption = some true

/-- The windows from one up to another are a run, if the first is not the later one. -/
theorem Interval.exists_run_between {i : Interval} {oldest key : Int} (hold : i.Aligned oldest)
    (hkey : i.Aligned key) :
    ∃ first n, i.keysBetween oldest key ++ [key] = i.run first (n + 1) ∧
      key = i.after first n ∧ first ≤ oldest ∧ (oldest ≤ first ∨ first = key) := by
  by_cases hle : oldest ≤ key
  · obtain ⟨n, hn⟩ := Interval.exists_after hold hkey hle
    refine ⟨oldest, n, ?_, hn, Int.le_refl _, Or.inl (Int.le_refl _)⟩
    have hcount : i.countBetween oldest key = n := by
      rw [hn]
      exact countBetween_after n
    rw [i.run_succ, ← hn, keysBetween, hcount]
    rfl
  · refine ⟨key, 0, ?_, (i.after_zero key).symm, by omega, Or.inr rfl⟩
    have hcount : i.countBetween oldest key = 0 := by
      have hneg : (key - oldest) / i.millis < 0 :=
        Int.ediv_neg_of_neg_of_pos (by omega) i.pos
      unfold countBetween
      omega
    rw [keysBetween, hcount]
    simp [run]

namespace Correlation

variable {s₀ s : Correlation} {log : EventLog} {sealed : List Int} {begun : Int → Int}
  {key low : Int}

theorem reaches_begunAfter (h : s₀.Traced log sealed s begun)
    (ho : log.Orderly s₀.reader.interval sealed)
    (hreach : ∀ k, EventLog.Reaches s₀.reader.interval s₀.reader.expiry sealed (begun k) low)
    (haligned : s₀.reader.interval.Aligned key) (hle : low ≤ key) (k : Int) :
    EventLog.Reaches s₀.reader.interval s₀.reader.expiry sealed
      (s.begunAfter log begun key (sealed.head?.getD key) k) key := by
  have hbegun (j : Int) := (hreach j).mono hle
  unfold begunAfter
  split
  · rw [← h.alike.interval] at ho haligned
    rw [← h.alike.interval, ← h.alike.expiry] at hbegun ⊢
    exact reaches_beginning h.sound.expiry ho haligned fun j _ => hbegun j
  · exact hbegun k

/-- While windows are asked for in ascending order, all runs reach back far enough for those still
to come. -/
theorem reaches_begunIn (h : s₀.Traced log sealed s begun)
    (ho : log.Orderly s₀.reader.interval sealed)
    (hall : log.AllBuildable s₀.reader.interval s₀.reader.expiry sealed) (earlier : List Int)
    (hreach : ∀ k, EventLog.Reaches s₀.reader.interval s₀.reader.expiry sealed (begun k) low)
    (hascending :
      (low :: (log.sealedAmong s₀.reader.interval earlier ++ [key])).Pairwise (· ≤ ·)) (k : Int) :
    EventLog.Reaches s₀.reader.interval s₀.reader.expiry sealed
      (s.begunIn log sealed begun (earlier.map .load) k) key := by
  induction earlier generalizing s begun low with
  | nil =>
    have hle : low ≤ key := List.rel_of_pairwise_cons hascending (.head _)
    exact (hreach k).mono hle
  | cons c rest ih =>
    rw [List.map_cons, begunIn]
    have hnext := h.call ho.keys hall (.load c)
    by_cases hc : s₀.reader.interval.Aligned c ∧ (log.isSealed c).toOption = some true
    · have hsplit : log.sealedAmong s₀.reader.interval (c :: rest) =
          c :: log.sealedAmong s₀.reader.interval rest :=
        List.filter_cons_of_pos (decide_eq_true hc)
      rw [hsplit, List.cons_append] at hascending
      have hle : low ≤ c := List.rel_of_pairwise_cons hascending (.head _)
      exact ih hnext (reaches_begunAfter h ho hreach hc.1 hle) hascending.of_cons
    · -- A window that is not sealed is refused or answered from its store, and nothing is built.
      have hsplit : log.sealedAmong s₀.reader.interval (c :: rest) =
          log.sealedAmong s₀.reader.interval rest :=
        List.filter_cons_of_neg (by simpa using hc)
      rw [hsplit] at hascending
      have hbuilds : ¬s.Builds log c := by
        rintro ⟨hal, _, hs⟩
        rw [h.alike.interval] at hal
        exact hc ⟨hal, hs⟩
      have hsame : s.begunAfter log begun c (sealed.head?.getD c) = begun :=
        begunAfter_of_not_builds hbuilds
      refine ih hnext ?_ hascending
      change ∀ k, EventLog.Reaches _ _ _ (s.begunAfter log begun c (sealed.head?.getD c) k) low
      rw [hsame]
      exact hreach

theorem exists_low {keys : List Int} (h : keys.Pairwise (· ≤ ·)) :
    ∃ low, (low :: keys).Pairwise (· ≤ ·) := by
  cases keys with
  | nil => exact ⟨0, List.pairwise_singleton _ _⟩
  | cons c rest =>
    refine ⟨c, List.pairwise_cons.mpr ⟨?_, h⟩⟩
    intro d hd
    rcases List.mem_cons.mp hd with rfl | hd
    · exact Int.le_refl _
    · exact List.rel_of_pairwise_cons h hd

section Sealed

variable (hfresh : s₀.Fresh) (ho : log.Orderly s₀.reader.interval sealed)
  (hall : s₀.BuildsAll log sealed) (haligned : s₀.reader.interval.Aligned key)
  (hsealed : log.isSealed key = .ok true)
include hfresh ho hall haligned hsealed

/-- A sealed window that is asked for after others in ascending order is answered from a run that
reaches back far enough. -/
theorem load_reaches {earlier : List Int}
    (hascending : (log.sealedAmong s₀.reader.interval (earlier ++ [key])).Pairwise (· ≤ ·)) :
    ∃ s' store first n, (s₀.callAll log (earlier.map .load)).load log key = (s', .ok store) ∧
      s₀.reader.interval.Aligned first ∧ key = s₀.reader.interval.after first n ∧
      EventLog.Reaches s₀.reader.interval s₀.reader.expiry sealed first key ∧
      store.horizon = key - s₀.reader.expiry ∧
      s'.warehouse.rows store =
        .ok (log.tableAfter s₀.reader.interval s₀.reader.expiry first n) := by
  have hbuildable := hall.allBuildable hfresh.sound
  -- Nothing is kept yet, so it does not matter where runs are said to begin.
  let begun : Int → Int := fun _ => sealed.head?.getD key
  have hstart : s₀.Traced log sealed s₀ begun := hfresh.traced
  have hkey : log.sealedAmong s₀.reader.interval (earlier ++ [key]) =
      log.sealedAmong s₀.reader.interval earlier ++ [key] := by
    have hlast : log.sealedAmong s₀.reader.interval [key] = [key] :=
      List.filter_cons_of_pos (decide_eq_true ⟨haligned, toOption_isSealed.mpr hsealed⟩)
    unfold EventLog.sealedAmong at hlast ⊢
    rw [List.filter_append, hlast]
  rw [hkey] at hascending
  obtain ⟨low, hpairwise⟩ := exists_low hascending
  have hinitial (k : Int) :
      EventLog.Reaches s₀.reader.interval s₀.reader.expiry sealed (begun k) low :=
    Or.inl fun j hj => EventLog.head_le_of_mem ho.keys hj key
  have hreach := reaches_begunIn hstart ho hbuildable earlier hinitial hpairwise
  have htraced := hstart.callAll ho.keys hbuildable (earlier.map .load)
  obtain ⟨s', store, n, hload, hal, hends, hhorizon, hrows⟩ :=
    htraced.load_eq ho.keys hbuildable haligned (Or.inr hsealed)
  refine ⟨s', store, _, n, hload, hal, hends, ?_, hhorizon, hrows⟩
  rw [← htraced.alike.interval] at ho haligned
  rw [← htraced.alike.interval, ← htraced.alike.expiry] at hreach ⊢
  exact reaches_beginning htraced.sound.expiry ho haligned fun k _ => hreach k

/-- Replaying every window from the oldest sealed one up to a sealed one gives the rows of a run
that reaches back far enough. -/
theorem buildEach_reaches :
    ∃ s' stores whole first n,
      s₀.buildEach log none
        (s₀.reader.interval.keysBetween (sealed.head?.getD key) key ++ [key]) = (s', .ok stores) ∧
      stores.getLast? = some whole ∧ s₀.reader.interval.Aligned first ∧
      key = s₀.reader.interval.after first n ∧
      EventLog.Reaches s₀.reader.interval s₀.reader.expiry sealed first key ∧
      whole.horizon = key - s₀.reader.expiry ∧
      s'.warehouse.rows whole =
        .ok (log.tableAfter s₀.reader.interval s₀.reader.expiry first n) := by
  obtain ⟨first, n, hrun, hends, hold, hinside⟩ :=
    Interval.exists_run_between (aligned_oldest ho haligned) haligned
  have hal : s₀.reader.interval.Aligned first := by
    rw [hends] at haligned
    exact Interval.aligned_of_after haligned
  have hle : first ≤ key := by
    rw [hends]
    exact Interval.le_after n
  have hreaches : EventLog.Reaches s₀.reader.interval s₀.reader.expiry sealed first key := by
    left
    intro k hk
    have hhead := EventLog.head_le_of_mem ho.keys hk key
    omega
  have hbuildable := hall.allBuildable hfresh.sound first n hal
    (mayBegin_of_inside hsealed hle hinside) (by rw [← hends]; exact hsealed)
  have hfree : ∀ j, j ≤ n →
      ¬s₀.warehouse.Taken s₀.reader.shared (s₀.reader.interval.after first j) := by
    intro j _
    exact hfresh.free _
  obtain ⟨s', stores, hbuild, hreader, hlength, hstores⟩ :=
    buildEach_of_buildable hfresh.sound.warehouse hfresh.expiry hbuildable hfree
  obtain ⟨whole, hget, hholds⟩ := hstores n (Nat.le_refl n)
  have hrows := hholds.rows
  rw [hreader] at hrows
  refine ⟨s', stores, whole, first, n, ?_, ?_, hal, hends, hreaches, ?_, hrows⟩
  · rw [hrun]
    exact hbuild
  · rw [List.getLast?_eq_getElem?, hlength]
    exact hget
  · rw [hholds.horizon, hreader, ← hends]

end Sealed

/-- If sealed windows are asked for in ascending order, each of them is answered from the rows that
replaying every window from the oldest sealed one gives. -/
theorem load_ascending (hfresh : s₀.Fresh) (ho : log.Orderly s₀.reader.interval sealed)
    (hall : s₀.BuildsAll log sealed) (earlier : List Int)
    (hascending : (log.sealedAmong s₀.reader.interval (earlier ++ [key])).Pairwise (· ≤ ·))
    (haligned : s₀.reader.interval.Aligned key) (hsealed : log.isSealed key = .ok true) :
    ∃ s' store s'' stores whole rows,
      (s₀.callAll log (earlier.map .load)).load log key = (s', .ok store) ∧
      s₀.buildEach log none
        (s₀.reader.interval.keysBetween (sealed.head?.getD key) key ++ [key]) = (s'', .ok stores) ∧
      stores.getLast? = some whole ∧
      s'.warehouse.halfRows store = .ok rows ∧ s''.warehouse.halfRows whole = .ok rows ∧
      s'.warehouse.grouped store = s''.warehouse.grouped whole ∧
      s'.warehouse.latencies store = s''.warehouse.latencies whole ∧
      s'.warehouse.aggregates store = s''.warehouse.aggregates whole ∧
      s'.warehouse.inFlight store = s''.warehouse.inFlight whole := by
  obtain ⟨s', store, first, n, hload, hal, hends, hreaches, hhorizon, hrows⟩ :=
    load_reaches hfresh ho hall haligned hsealed hascending
  obtain ⟨s'', stores, whole, first', n', hbuild, hlast, hal', hends', hreaches', hhorizon',
    hrows'⟩ := buildEach_reaches hfresh ho hall haligned hsealed
  have hsame := EventLog.tableAfter_eq_of_not_overlooks ho hal hal' hends hends'
    (EventLog.not_overlooks_of_reaches ho hal' hreaches')
    (EventLog.not_overlooks_of_reaches ho hal hreaches)
  have hboth : s'.warehouse.rows store = s''.warehouse.rows whole := by rw [hrows, hrows', hsame]
  have hhorizons : store.horizon = whole.horizon := by rw [hhorizon, hhorizon']
  obtain ⟨rows, hhalves⟩ : ∃ rows, s'.warehouse.halfRows store = .ok rows := by
    unfold Warehouse.halfRows
    rw [hrows]
    exact ⟨_, rfl⟩
  have hhalves' : s''.warehouse.halfRows whole = .ok rows := by
    rw [← hhalves]
    unfold Warehouse.halfRows
    rw [hboth]
  exact ⟨s', store, s'', stores, whole, rows, hload, hbuild, hlast, hhalves, hhalves',
    Warehouse.views_congr hboth hhorizons⟩

theorem load_second_window_after_first :
    ∃ s' store s'' stores whole,
      ((tenMillis 0).callAll (.ofFiles crossingFiles) [.load 10]).load (.ofFiles crossingFiles) 20 =
        (s', .ok store) ∧
      (tenMillis 0).buildEach (.ofFiles crossingFiles) none [10, 20] = (s'', .ok stores) ∧
      stores.getLast? = some whole ∧
      s'.warehouse.latencies store = s''.warehouse.latencies whole := by
  have hascending : ((EventLog.ofFiles crossingFiles).sealedAmong (tenMillis 0).reader.interval
      ([10] ++ [20])).Pairwise (· ≤ ·) := by decide +kernel
  have hsealed : (EventLog.ofFiles crossingFiles).isSealed 20 = .ok true := by rfl
  obtain ⟨s', store, s'', stores, whole, _, hload, hbuild, hlast, _, _, _, hlatencies, _⟩ :=
    load_ascending (fresh_tenMillis (by decide)) orderly_crossing buildsAll_crossing [10] hascending
      (by decide) hsealed
  have hwindows : (tenMillis 0).reader.interval.keysBetween 10 20 ++ [20] = [10, 20] := by decide
  refine ⟨s', store, s'', stores, whole, hload, ?_, hlast, hlatencies⟩
  rw [← hwindows]
  exact hbuild

end Correlation

end RequestWindows
