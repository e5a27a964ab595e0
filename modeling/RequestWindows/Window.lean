namespace RequestWindows

/-- The length of all windows, in milliseconds. -/
structure Interval where
  millis : Int
  pos : 0 < millis

namespace Interval

@[ext] theorem ext {i j : Interval} (h : i.millis = j.millis) : i = j := by
  cases i; cases j; simp_all

instance : DecidableEq Interval := fun i j =>
  decidable_of_iff (i.millis = j.millis) ⟨ext, fun h => by rw [h]⟩

/-- The interval of the given length, if that is positive. -/
def ofMillis? (millis : Int) : Option Interval :=
  if h : 0 < millis then some ⟨millis, h⟩ else none

/-- What is said of a length that is not positive. -/
def refusal (millis : Int) : String := "interval_millis must be > 0. Got: " ++ toString millis

/-- The key of the window that holds a time. A time at which a window begins belongs to it. -/
def key (i : Interval) (time : Int) : Int := time / i.millis * i.millis

/-- Whether a number is the key of a window. -/
def Aligned (i : Interval) (k : Int) : Prop := k % i.millis = 0

instance (i : Interval) (k : Int) : Decidable (i.Aligned k) :=
  inferInstanceAs (Decidable (_ = _))

/-- The number of windows from the one with key `start` up to, not including, the one with key
`stop`. -/
def countBetween (i : Interval) (start stop : Int) : Nat := ((stop - start) / i.millis).toNat

/-- The keys of the windows from the one with key `start` up to, not including, the one with key
`stop`. -/
def keysBetween (i : Interval) (start stop : Int) : List Int :=
  (List.range (i.countBetween start stop)).map fun (n : Nat) => start + n * i.millis

theorem key_le (i : Interval) (time : Int) : i.key time ≤ time :=
  Int.ediv_mul_le time (Int.ne_of_gt i.pos)

theorem lt_key_add (i : Interval) (time : Int) : time < i.key time + i.millis := by
  have := Int.lt_ediv_add_one_mul_self time i.pos
  rwa [Int.add_mul, Int.one_mul] at this

theorem aligned_key (i : Interval) (time : Int) : i.Aligned (i.key time) :=
  Int.mul_emod_left _ _

theorem key_eq_self {i : Interval} {k : Int} (h : i.Aligned k) : i.key k = k :=
  Int.ediv_mul_cancel (Int.dvd_of_emod_eq_zero h)

/-- Only whole windows lie between two times. -/
theorem mem_keysBetween {i : Interval} {start stop k : Int} :
    k ∈ i.keysBetween start stop ↔
      ∃ n : Nat, k = start + n * i.millis ∧ k + i.millis ≤ stop := by
  simp only [keysBetween, List.mem_map, List.mem_range]
  refine exists_congr fun n => ?_
  have hn : n < i.countBetween start stop ↔ start + n * i.millis + i.millis ≤ stop := by
    rw [countBetween, Int.lt_toNat, Int.lt_iff_add_one_le, Int.le_ediv_iff_mul_le i.pos,
      Int.add_mul, Int.one_mul]
    omega
  rw [hn]
  constructor
  · rintro ⟨h, rfl⟩
    exact ⟨rfl, h⟩
  · rintro ⟨rfl, h⟩
    exact ⟨h, rfl⟩

theorem key_mono (i : Interval) {s t : Int} (h : s ≤ t) : i.key s ≤ i.key t :=
  Int.mul_le_mul_of_nonneg_right (Int.ediv_le_ediv i.pos h) (Int.le_of_lt i.pos)

end Interval

end RequestWindows
