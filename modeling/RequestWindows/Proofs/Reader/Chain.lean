import RequestWindows.Proofs.Window
import RequestWindows.Reader.Basic

namespace RequestWindows.Reader

variable {r : Reader} {key oldest first : Int}

/-- The chain of a key is the run of windows from `first` up to it. -/
structure Chained (r : Reader) (key oldest first : Int) (n : Nat) : Prop where
  eq_run : r.chain key oldest = r.interval.run first (n + 1)
  ends : key = r.interval.after first n
  unkept : ∀ j, j < n → r.interval.after first j ∉ r.cache.keys
  inside : oldest ≤ first ∨ first = key
  stops : first - r.interval.millis ∈ r.cache.keys ∨ n = r.depth key oldest

/-- Walking back passes windows that are not kept, until the next one is kept or the walk is
over. -/
theorem exists_reachBack (n : Nat) (key : Int) (later : List Int) :
    ∃ m first, m ≤ n ∧ key = r.interval.after first m ∧
      r.reachBack n key later = r.interval.run first m ++ later ∧
      (∀ j, j < m → r.interval.after first j ∉ r.cache.keys) ∧
      (first - r.interval.millis ∈ r.cache.keys ∨ m = n) := by
  -- The induction is on the steps that are left; each of them puts one window before those found.
  induction n generalizing key later with
  | zero =>
    refine ⟨0, key, Nat.le_refl 0, (r.interval.after_zero key).symm, rfl, ?_, Or.inr rfl⟩
    intro j hj
    omega
  | succ n ih =>
    by_cases hkept : key - r.interval.millis ∈ r.cache.keys
    · refine ⟨0, key, Nat.zero_le _, (r.interval.after_zero key).symm, ?_, ?_, Or.inl hkept⟩
      · rw [reachBack]
        exact if_pos hkept
      · intro j hj
        omega
    · obtain ⟨m, first, hm, hbefore, hwalk, hunkept, hstop⟩ :=
        ih (key - r.interval.millis) ((key - r.interval.millis) :: later)
      refine ⟨m + 1, first, by omega, ?_, ?_, ?_, ?_⟩
      · rw [r.interval.after_succ, ← hbefore]
        omega
      · rw [reachBack, r.interval.run_succ, ← hbefore, List.append_assoc]
        exact (if_neg hkept).trans hwalk
      · intro j hj
        rcases Nat.eq_or_lt_of_le (Nat.le_of_lt_succ hj) with rfl | hlt
        · rw [← hbefore]
          exact hkept
        · exact hunkept j hlt
      · rcases hstop with hstop | hstop
        · exact Or.inl hstop
        · exact Or.inr (by omega)

/-- No window of a chain is older than the oldest one, if the chain has more than one window. -/
theorem le_of_depth {m : Nat} (hm : m ≤ r.depth key oldest)
    (hkey : key = r.interval.after first m) : oldest ≤ first ∨ first = key := by
  cases m with
  | zero =>
    rw [r.interval.after_zero] at hkey
    exact Or.inr hkey.symm
  | succ m =>
    left
    have hdepth : m + 1 ≤ (min ((key - oldest) / r.interval.millis)
        ((2 * r.interval.millis + r.expiry - 1) / r.interval.millis)).toNat := hm
    have hpositive : ((m + 1 : Nat) : Int) ≤ (key - oldest) / r.interval.millis := by omega
    have hspan : ((m + 1 : Nat) : Int) * r.interval.millis ≤ key - oldest :=
      (Int.le_ediv_iff_mul_le r.interval.pos).mp hpositive
    have hafter : key = first + ((m + 1 : Nat) : Int) * r.interval.millis := hkey
    omega

theorem exists_chain (r : Reader) (key oldest : Int) :
    ∃ first n, r.Chained key oldest first n := by
  obtain ⟨m, first, hm, hkey, hwalk, hunkept, hstop⟩ :=
    r.exists_reachBack (r.depth key oldest) key [key]
  refine ⟨first, m, ⟨?_, hkey, hunkept, le_of_depth hm hkey, hstop⟩⟩
  rw [chain, hwalk, r.interval.run_succ, ← hkey]

theorem Chained.head {n : Nat} (h : r.Chained key oldest first n) :
    (r.chain key oldest).head?.getD key = first := by
  rw [h.eq_run, Interval.run, List.range_succ_eq_map, List.map_cons, List.head?_cons,
    Option.getD_some, r.interval.after_zero]

theorem Chained.after_add {start : Int} {a n : Nat}
    (h : r.Chained key oldest (r.interval.after start a) n) :
    r.interval.after start (a + n) = key := by
  rw [r.interval.after_add, ← h.ends]

/-- A chain that does not stop at a window that is kept reaches every window that can matter. -/
theorem Chained.reaches {n : Nat} (h : r.Chained key oldest first n) (he : 0 ≤ r.expiry)
    (hkey : r.interval.Aligned key) (hold : r.interval.Aligned oldest)
    (hunkept : first - r.interval.millis ∉ r.cache.keys) :
    first ≤ oldest ∨ first ≤ key - r.interval.millis - r.expiry := by
  have hpos := r.interval.pos
  have hn : n = r.depth key oldest := h.stops.resolve_left hunkept
  have hends : key = first + (n : Int) * r.interval.millis := h.ends
  -- The depth is the smaller of two quotients; each of them accounts for one of the two limits.
  let sinceOldest := (key - oldest) / r.interval.millis
  let sinceExpiry := (2 * r.interval.millis + r.expiry - 1) / r.interval.millis
  have hdepth : n = (min sinceOldest sinceExpiry).toNat := hn
  have hexpiry : 0 ≤ sinceExpiry := Int.ediv_nonneg (by omega) (Int.le_of_lt hpos)
  have hbeyond : 2 * r.interval.millis + r.expiry - 1 < (sinceExpiry + 1) * r.interval.millis :=
    Int.lt_ediv_add_one_mul_self _ hpos
  have hexact : sinceOldest * r.interval.millis = key - oldest := by
    apply Int.ediv_mul_cancel
    exact Interval.dvd_sub hold hkey
  rw [Int.add_mul, Int.one_mul] at hbeyond
  by_cases hneg : sinceOldest < 0
  · left
    have hzero : n = 0 := by omega
    have hbefore : sinceOldest * r.interval.millis < 0 := Int.mul_neg_of_neg_of_pos hneg hpos
    rw [hzero] at hends
    omega
  · rcases Int.le_total sinceOldest sinceExpiry with hle | hle
    · left
      have hval : (n : Int) = sinceOldest := by omega
      rw [hval] at hends
      omega
    · right
      have hval : (n : Int) = sinceExpiry := by omega
      rw [hval] at hends
      omega

end RequestWindows.Reader
