import RequestWindows.Window

namespace RequestWindows.Interval

/-- The key of the window that comes `n` windows after the one with key `start`. -/
def after (i : Interval) (start : Int) (n : Nat) : Int := start + n * i.millis

/-- The keys of `n` consecutive windows, the one with key `start` and those after it. -/
def run (i : Interval) (start : Int) (n : Nat) : List Int := (List.range n).map (i.after start)

variable (i : Interval) (start : Int)

@[simp] theorem after_zero : i.after start 0 = start := by
  unfold after
  omega

theorem after_succ (n : Nat) : i.after start (n + 1) = i.after start n + i.millis := by
  unfold after
  rw [Int.natCast_succ, Int.add_mul]
  omega

theorem after_add (m n : Nat) : i.after start (m + n) = i.after (i.after start m) n := by
  unfold after
  rw [Int.natCast_add, Int.add_mul]
  omega

theorem run_succ (n : Nat) : i.run start (n + 1) = i.run start n ++ [i.after start n] := by
  unfold run
  rw [List.range_succ, List.map_append]
  rfl

variable {i start}

theorem after_lt {m n : Nat} (h : m < n) : i.after start m < i.after start n := by
  have hm : (m : Int) * i.millis < n * i.millis :=
    Int.mul_lt_mul_of_pos_right (Int.ofNat_lt.mpr h) i.pos
  unfold after
  omega

theorem after_lt_iff {m n : Nat} : i.after start m < i.after start n ↔ m < n := by
  constructor
  · intro h
    apply Nat.lt_of_not_le
    intro hle
    rcases Nat.eq_or_lt_of_le hle with rfl | hlt
    · omega
    · have hgt : i.after start n < i.after start m := after_lt hlt
      omega
  · exact after_lt

theorem after_le {m n : Nat} (h : m ≤ n) : i.after start m ≤ i.after start n := by
  rcases Nat.eq_or_lt_of_le h with rfl | hlt
  · exact Int.le_refl _
  · exact Int.le_of_lt (after_lt hlt)

theorem le_after (n : Nat) : start ≤ i.after start n := by
  have h : i.after start 0 ≤ i.after start n := after_le (Nat.zero_le n)
  rwa [i.after_zero] at h

theorem after_inj {m n : Nat} : i.after start m = i.after start n ↔ m = n := by
  constructor
  · intro h
    rcases Nat.lt_trichotomy m n with hlt | heq | hgt
    · have hlow : i.after start m < i.after start n := after_lt hlt
      omega
    · exact heq
    · have hhigh : i.after start n < i.after start m := after_lt hgt
      omega
  · rintro rfl
    rfl

theorem after_ne {m n : Nat} (h : m + 1 ≤ n) : ¬i.after start n = i.after start m := by
  rw [after_inj]
  omega

theorem run_after (a n : Nat) :
    i.run (i.after start a) n = (List.range' a n).map (i.after start) := by
  rw [run, List.range'_eq_map_range, List.map_map]
  apply List.map_congr_left
  intro j _
  exact (i.after_add start a j).symm

theorem aligned_of_after {n : Nat} (h : i.Aligned (i.after start n)) : i.Aligned start := by
  unfold Aligned after at *
  rw [Int.add_mul_emod_self_right] at h
  exact h

theorem dvd_sub {k : Int} (hs : i.Aligned start) (hk : i.Aligned k) : i.millis ∣ k - start := by
  apply Int.dvd_of_emod_eq_zero
  rw [Int.sub_emod, hs, hk]
  simp

theorem exists_after {k : Int} (hs : i.Aligned start) (hk : i.Aligned k) (h : start ≤ k) :
    ∃ n, k = i.after start n := by
  obtain ⟨q, hq⟩ := dvd_sub hs hk
  have hq0 : 0 ≤ q := by
    apply Int.le_of_not_gt
    intro hneg
    have := Int.mul_neg_of_pos_of_neg i.pos hneg
    omega
  refine ⟨q.toNat, ?_⟩
  unfold after
  rw [Int.toNat_of_nonneg hq0, Int.mul_comm q]
  omega

theorem exists_after_of_lt {k : Int} (hs : i.Aligned start) (hk : i.Aligned k) (h : start < k) :
    ∃ n, 0 < n ∧ k = i.after start n := by
  obtain ⟨n, rfl⟩ := exists_after hs hk (Int.le_of_lt h)
  refine ⟨n, ?_, rfl⟩
  apply Nat.pos_of_ne_zero
  rintro rfl
  rw [i.after_zero] at h
  omega

theorem start_le_of_mem_keysBetween {stop k : Int} (h : k ∈ i.keysBetween start stop) :
    start ≤ k := by
  obtain ⟨n, rfl, _⟩ := mem_keysBetween.mp h
  exact le_after n

theorem mul_le_of_le_countBetween {stop : Int} {n : Nat} (hn : 0 < n)
    (h : n ≤ i.countBetween start stop) : n * i.millis ≤ stop - start := by
  apply (Int.le_ediv_iff_mul_le i.pos).mp
  unfold countBetween at h
  omega

theorem countBetween_mono {start' stop stop' : Int} (hstart : start' ≤ start)
    (hstop : stop ≤ stop') :
    i.countBetween start stop ≤ i.countBetween start' stop' :=
  Int.toNat_le_toNat (Int.ediv_le_ediv i.pos (by omega))

theorem countBetween_after (n : Nat) : i.countBetween start (i.after start n) = n := by
  have hspan : i.after start n - start = n * i.millis := by
    unfold after
    omega
  unfold countBetween
  rw [hspan, Int.mul_ediv_cancel _ (Int.ne_of_gt i.pos)]
  exact Int.toNat_natCast n

variable (i) in
theorem key_nonneg {time : Int} (h : 0 ≤ time) : 0 ≤ i.key time := by
  have hlength : 0 ≤ i.millis := Int.le_of_lt i.pos
  exact Int.mul_nonneg (Int.ediv_nonneg h hlength) hlength

/-- There is no window between a window and the next one. -/
theorem add_le_of_lt {k : Int} (hs : i.Aligned start) (hk : i.Aligned k) (h : start < k) :
    start + i.millis ≤ k := by
  obtain ⟨n, hn, rfl⟩ := exists_after_of_lt hs hk h
  have hone : i.after start 1 = start + i.millis := by
    rw [i.after_succ, i.after_zero]
  rw [← hone]
  exact after_le hn

/-- The windows between two windows are those that begin from the one on and before the other. -/
theorem mem_keysBetween_iff {stop k : Int} (hs : i.Aligned start) (hstop : i.Aligned stop) :
    k ∈ i.keysBetween start stop ↔ i.Aligned k ∧ start ≤ k ∧ k < stop := by
  rw [mem_keysBetween]
  constructor
  · rintro ⟨n, heq, hle⟩
    have hpos := i.pos
    have hafter : k = i.after start n := heq
    refine ⟨?_, ?_, by omega⟩
    · unfold Aligned at hs ⊢
      rw [heq, Int.add_mul_emod_self_right]
      exact hs
    · rw [hafter]
      exact le_after n
  · rintro ⟨hk, hle, hlt⟩
    obtain ⟨n, hn⟩ := exists_after hs hk hle
    exact ⟨n, hn, add_le_of_lt hk hstop hlt⟩

end RequestWindows.Interval
