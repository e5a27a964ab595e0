import RequestWindows.Counters

/-! Rounding takes no number below `2 ^ 53`, so a counter that is below it at the end has been exact
all the time: it has grown by the sum of what was added to it. -/
namespace RequestWindows

theorem le_roundQuotient (num den : Nat) : num / den ≤ roundQuotient num den := by
  unfold roundQuotient
  dsimp only
  split
  · exact Nat.le_succ _
  · exact Nat.le_refl _

/-- Rounding keeps large numbers large. -/
theorem le_roundNat {n : Nat} (h : Nat.pow 2 53 ≤ n) : Nat.pow 2 53 ≤ roundNat n := by
  have hne : n ≠ 0 := fun h0 => absurd (h0 ▸ h) (by decide)
  have hlog : 53 ≤ n.log2 := (Nat.le_log2 hne).mpr h
  -- The unit is chosen so that the leading bit of the number is at least `2 ^ 52` units.
  have hleading : 2 ^ 52 * 2 ^ (n.log2 - 52) = 2 ^ n.log2 := by
    rw [← Nat.pow_add]
    congr 1
    omega
  have hunits : 2 ^ 52 ≤ n / 2 ^ (n.log2 - 52) := by
    rw [Nat.le_div_iff_mul_le (Nat.two_pow_pos _), hleading]
    exact Nat.log2_self_le hne
  unfold roundNat
  rw [if_neg (Nat.not_lt.mpr h)]
  calc
    2 ^ 53 ≤ 2 ^ n.log2 := Nat.pow_le_pow_right (by decide) hlog
    _ = 2 ^ 52 * 2 ^ (n.log2 - 52) := hleading.symm
    _ ≤ roundQuotient n (2 ^ (n.log2 - 52)) * 2 ^ (n.log2 - 52) :=
      Nat.mul_le_mul_right _ (Nat.le_trans hunits (le_roundQuotient _ _))

theorem lt_of_roundNat_lt {n : Nat} (h : roundNat n < Nat.pow 2 53) : n < Nat.pow 2 53 := by
  apply Nat.lt_of_not_le
  intro hle
  exact absurd (le_roundNat hle) (Nat.not_le.mpr h)

namespace Counters

variable {s t u : Counters} {m n : Counter → Nat}

/-- The counters of `t` have grown from those of `s` by what `n` says, as far as they are exact. -/
def Gains (s t : Counters) (n : Counter → Nat) : Prop :=
  ∀ c, t.get c < Nat.pow 2 53 → t.get c = s.get c + n c

theorem Gains.refl (s : Counters) : s.Gains s fun _ => 0 := fun _ _ => rfl

/-- A counter that is exact in the end has been exact before. -/
theorem Gains.trans (h₁ : s.Gains t m) (h₂ : t.Gains u n) : s.Gains u fun c => m c + n c := by
  intro c hc
  have hlast : u.get c = t.get c + n c := h₂ c hc
  have hfirst : t.get c = s.get c + m c := h₁ c (by omega)
  rw [hlast, hfirst, Nat.add_assoc]

theorem Gains.congr (h : s.Gains t m) (heq : ∀ c, m c = n c) : s.Gains t n := by
  intro c hc
  rw [← heq]
  exact h c hc

theorem gains_add (s : Counters) (c : Counter) (k : Nat) :
    s.Gains (s.add c k) fun d => if d = c then k else 0 := by
  intro d hd
  dsimp only
  by_cases hdc : d = c
  · subst hdc
    -- A sum that is not too large had no summand that was.
    have hvalue : (s.add d k).get d = roundNat (s.get d + roundNat k) := if_pos rfl
    have hsum : s.get d + roundNat k < Nat.pow 2 53 := lt_of_roundNat_lt (hvalue ▸ hd)
    have hk : k < Nat.pow 2 53 := lt_of_roundNat_lt (Nat.lt_of_le_of_lt (Nat.le_add_left _ _) hsum)
    rw [roundNat_of_lt hk] at hsum
    rw [get_add_of_lt hsum, if_pos rfl]
  · rw [get_add_ne hdc, if_neg hdc, Nat.add_zero]

end Counters

end RequestWindows
