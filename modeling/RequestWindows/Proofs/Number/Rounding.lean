import Mathlib.Algebra.Order.Field.Power
import Mathlib.Algebra.Order.Field.Rat
import Mathlib.Data.Nat.Cast.Order.Field
import Mathlib.Tactic.Positivity
import Mathlib.Tactic.Ring
import RequestWindows.Number.Binary64

namespace RequestWindows

/-- A power with an integer exponent as a quotient of naturals. -/
theorem zpow_eq_wholePower {base : Nat} (hbase : 0 < base) (e : Int) :
    (base : ℚ) ^ e = (wholePower base e : ℚ) / wholePower base (-e) := by
  have hne : (base : ℚ) ≠ 0 := by
    exact_mod_cast Nat.ne_of_gt hbase
  unfold wholePower
  change _ = ((base ^ e.toNat : Nat) : ℚ) / ((base ^ (-e).toNat : Nat) : ℚ)
  push_cast
  cases e with
  | ofNat n =>
    have hneg : (-(Int.ofNat n)).toNat = 0 := by
      change (-(n : Int)).toNat = 0
      omega
    rw [hneg, pow_zero, div_one]
    exact zpow_natCast _ n
  | negSucc n =>
    have hpos : (Int.negSucc n).toNat = 0 := rfl
    have hneg : (-(Int.negSucc n)).toNat = n + 1 := rfl
    rw [hpos, hneg, pow_zero, zpow_negSucc, one_div]

theorem wholePower_pos {base : Nat} (hbase : 0 < base) (e : Int) : 0 < wholePower base e :=
  Nat.pow_pos hbase

section Quotient

variable {n d n' d' : Nat}

theorem roundQuotient_mul {k : Nat} (hk : 0 < k) (n d : Nat) :
    roundQuotient (n * k) (d * k) = roundQuotient n d := by
  have hquotient : n * k / (d * k) = n / d := Nat.mul_div_mul_right n d hk
  have hrest : n * k % (d * k) = n % d * k := Nat.mul_mod_mul_right k n d
  have hhalf : 2 * (n % d * k) = 2 * (n % d) * k := by rw [Nat.mul_assoc]
  have habove : d * k < 2 * (n % d) * k ↔ d < 2 * (n % d) := Nat.mul_lt_mul_right hk
  have heven : 2 * (n % d) * k = d * k ↔ 2 * (n % d) = d :=
    Nat.mul_right_cancel_iff hk
  unfold roundQuotient
  simp only [hquotient, hrest, hhalf, habove, heven]

theorem roundQuotient_congr (hd : 0 < d) (hd' : 0 < d') (h : n * d' = n' * d) :
    roundQuotient n d = roundQuotient n' d' := by
  calc
    roundQuotient n d = roundQuotient (n * d') (d * d') := (roundQuotient_mul hd' n d).symm
    _ = roundQuotient (n' * d) (d' * d) := by rw [h, Nat.mul_comm d d']
    _ = roundQuotient n' d' := roundQuotient_mul hd n' d'

theorem roundQuotient_exact (hd : 0 < d) (m : Nat) : roundQuotient (m * d) d = m := by
  have hrest : ¬(d < 2 * (m * d % d) ∨ 2 * (m * d % d) = d ∧ m * d / d % 2 = 1) := by
    rw [Nat.mul_mod_left]
    omega
  unfold roundQuotient
  rw [if_neg hrest]
  exact Nat.mul_div_cancel m hd

end Quotient

namespace Binary64

variable {a b c d : Nat}

theorem powTwoLE_iff (k : Int) (hb : 0 < b) :
    powTwoLE k a b = true ↔ (2 : ℚ) ^ k ≤ (a : ℚ) / b := by
  have hpow : (0 : ℚ) < wholePower 2 (-k) := by
    exact_mod_cast wholePower_pos (by decide) (-k)
  have hden : (0 : ℚ) < b := by exact_mod_cast hb
  have hzpow := zpow_eq_wholePower (show 0 < 2 by decide) k
  rw [Nat.cast_ofNat] at hzpow
  unfold powTwoLE
  rw [decide_eq_true_eq, hzpow, div_le_div_iff₀ hpow hden]
  constructor
  · intro h
    have hcast : ((b * wholePower 2 k : Nat) : ℚ) ≤ ((a * wholePower 2 (-k) : Nat) : ℚ) := by
      exact_mod_cast h
    push_cast at hcast
    rw [mul_comm]
    exact hcast
  · intro h
    rw [mul_comm] at h
    exact_mod_cast h

/-- The binary order of a quotient is the place of its leading bit. -/
theorem binaryOrder_spec (ha : 0 < a) (hb : 0 < b) :
    (2 : ℚ) ^ binaryOrder a b ≤ (a : ℚ) / b ∧ (a : ℚ) / b < (2 : ℚ) ^ (binaryOrder a b + 1) := by
  have hden : (0 : ℚ) < b := by exact_mod_cast hb
  have htwo : (2 : ℚ) ≠ 0 := two_ne_zero
  have hlow : (2 : ℚ) ^ a.log2 ≤ a := by exact_mod_cast Nat.log2_self_le (Nat.ne_of_gt ha)
  have hhigh : (a : ℚ) < 2 ^ (a.log2 + 1) := by exact_mod_cast Nat.lt_log2_self
  have hlow' : (2 : ℚ) ^ b.log2 ≤ b := by exact_mod_cast Nat.log2_self_le (Nat.ne_of_gt hb)
  have hhigh' : (b : ℚ) < 2 ^ (b.log2 + 1) := by exact_mod_cast Nat.lt_log2_self
  -- The difference of the two binary lengths is too large by one at most.
  have hbelow : (2 : ℚ) ^ ((a.log2 : Int) - b.log2 - 1) ≤ (a : ℚ) / b := by
    have heq : (2 : ℚ) ^ ((a.log2 : Int) - b.log2 - 1) = 2 ^ a.log2 / 2 ^ (b.log2 + 1) := by
      rw [sub_sub, zpow_sub₀ htwo, zpow_natCast]
      congr 1
    rw [heq, div_le_div_iff₀ (by positivity) hden]
    exact mul_le_mul hlow (le_of_lt hhigh') (le_of_lt hden) (Nat.cast_nonneg a)
  have habove : (a : ℚ) / b < (2 : ℚ) ^ ((a.log2 : Int) - b.log2 + 1) := by
    have heq : (2 : ℚ) ^ ((a.log2 : Int) - b.log2 + 1) = 2 ^ (a.log2 + 1) / 2 ^ b.log2 := by
      rw [show (a.log2 : Int) - b.log2 + 1 = (a.log2 + 1 : Nat) - (b.log2 : Nat) by
        push_cast; ring, zpow_sub₀ htwo, zpow_natCast, zpow_natCast]
    rw [heq, div_lt_div_iff₀ hden (by positivity)]
    exact mul_lt_mul hhigh hlow' (by positivity) (by positivity)
  unfold binaryOrder
  dsimp only
  split
  · next h => exact ⟨(powTwoLE_iff _ hb).mp h, habove⟩
  · next h =>
    rw [powTwoLE_iff _ hb, not_le] at h
    refine ⟨hbelow, ?_⟩
    rw [sub_add_cancel]
    exact h

theorem binaryOrder_eq {k : Int} (ha : 0 < a) (hb : 0 < b) (hlow : (2 : ℚ) ^ k ≤ (a : ℚ) / b)
    (hhigh : (a : ℚ) / b < (2 : ℚ) ^ (k + 1)) : binaryOrder a b = k := by
  obtain ⟨hle, hlt⟩ := binaryOrder_spec ha hb
  have hone : (1 : ℚ) < 2 := one_lt_two
  have h₁ : binaryOrder a b < k + 1 := (zpow_lt_zpow_iff_right₀ hone).mp (lt_of_le_of_lt hle hhigh)
  have h₂ : k < binaryOrder a b + 1 := (zpow_lt_zpow_iff_right₀ hone).mp (lt_of_le_of_lt hlow hlt)
  omega

theorem div_eq_of_mul_eq (hb : 0 < b) (hd : 0 < d) (h : a * d = c * b) :
    (a : ℚ) / b = (c : ℚ) / d := by
  have hb' : (b : ℚ) ≠ 0 := by exact_mod_cast Nat.ne_of_gt hb
  have hd' : (d : ℚ) ≠ 0 := by exact_mod_cast Nat.ne_of_gt hd
  rw [div_eq_div_iff hb' hd']
  exact_mod_cast h

theorem ofRatio_congr (s : Bool) (hb : 0 < b) (hd : 0 < d) (h : a * d = c * b) :
    ofRatio s a b = ofRatio s c d := by
  by_cases ha : a = 0
  · have hc : c = 0 := by
      rw [ha, Nat.zero_mul] at h
      exact (Nat.mul_eq_zero.mp h.symm).resolve_right (Nat.ne_of_gt hb)
    unfold ofRatio
    rw [if_pos ha, if_pos hc]
  · have hapos : 0 < a := Nat.pos_of_ne_zero ha
    have hcpos : 0 < c := by
      apply Nat.pos_of_ne_zero
      rintro rfl
      rw [Nat.zero_mul] at h
      exact ha ((Nat.mul_eq_zero.mp h).resolve_right (Nat.ne_of_gt hd))
    -- The order depends on the quotient only, and so does what is rounded at that order.
    have horder : binaryOrder a b = binaryOrder c d := by
      obtain ⟨hlow, hhigh⟩ := binaryOrder_spec hcpos hd
      rw [← div_eq_of_mul_eq hb hd h] at hlow hhigh
      exact binaryOrder_eq hapos hb hlow hhigh
    have hscaled (e : Int) : roundScaled a b e = roundScaled c d e := by
      unfold roundScaled
      apply roundQuotient_congr
      · exact Nat.mul_pos hb (wholePower_pos (by decide) e)
      · exact Nat.mul_pos hd (wholePower_pos (by decide) e)
      · calc
          a * wholePower 2 (-e) * (d * wholePower 2 e) =
              a * d * (wholePower 2 (-e) * wholePower 2 e) := by ring
          _ = c * b * (wholePower 2 (-e) * wholePower 2 e) := by rw [h]
          _ = c * wholePower 2 (-e) * (b * wholePower 2 e) := by ring
    unfold ofRatio
    rw [if_neg ha, if_neg (Nat.ne_of_gt hcpos), horder]
    simp only [hscaled]

/-- The value of a double is rounded to that double. -/
theorem ofRatio_exact {m : Nat} {e : Int} (s : Bool) (hm : 0 < m) (hcanonical : Canonical m e) :
    ofRatio s (numerator m e) (denominator e) = .finite s m e hcanonical := by
  have hlt : m < 2 ^ 53 := hcanonical.1
  have hleast : -1074 ≤ e := hcanonical.2.1
  have hfull : 2 ^ 52 ≤ m ∨ e = -1074 := hcanonical.2.2.2
  have hnum : 0 < numerator m e := Nat.mul_pos hm (wholePower_pos (by decide) e)
  have hden : 0 < denominator e := wholePower_pos (by decide) (-e)
  have htwo : (2 : ℚ) ≠ 0 := two_ne_zero
  have hvalue : (numerator m e : ℚ) / denominator e = m * (2 : ℚ) ^ e := by
    have hzpow := zpow_eq_wholePower (show 0 < 2 by decide) e
    rw [Nat.cast_ofNat] at hzpow
    unfold numerator denominator
    push_cast
    rw [hzpow, mul_div_assoc]
  have horder : binaryOrder (numerator m e) (denominator e) = m.log2 + e := by
    have hlow : (2 : ℚ) ^ m.log2 ≤ m := by exact_mod_cast Nat.log2_self_le (Nat.ne_of_gt hm)
    have hhigh : (m : ℚ) < 2 ^ (m.log2 + 1) := by exact_mod_cast Nat.lt_log2_self
    have hpow : (0 : ℚ) < 2 ^ e := by positivity
    apply binaryOrder_eq hnum hden
    · rw [hvalue, zpow_add₀ htwo, zpow_natCast]
      exact mul_le_mul_of_nonneg_right hlow (le_of_lt hpow)
    · rw [hvalue, show (m.log2 : Int) + e + 1 = (m.log2 + 1 : Nat) + e by push_cast; ring,
        zpow_add₀ htwo, zpow_natCast]
      exact mul_lt_mul_of_pos_right hhigh hpow
  -- A significand with fewer bits than it could have stands with the least exponent.
  have hexponent : max (-1074) (binaryOrder (numerator m e) (denominator e) - 52) = e := by
    have hlog : m.log2 < 53 := (Nat.log2_lt (Nat.ne_of_gt hm)).mpr hlt
    rw [horder]
    rcases hfull with hfull | hleast'
    · have hlog' : 52 ≤ m.log2 := (Nat.le_log2 (Nat.ne_of_gt hm)).mpr hfull
      omega
    · omega
  have hsignificand : roundScaled (numerator m e) (denominator e) e = m := by
    have heq : numerator m e * wholePower 2 (-e) = m * (denominator e * wholePower 2 e) := by
      unfold numerator denominator
      ring
    unfold roundScaled
    rw [heq]
    exact roundQuotient_exact (Nat.mul_pos hden (wholePower_pos (by decide) e)) m
  unfold ofRatio
  rw [if_neg (Nat.ne_of_gt hnum)]
  dsimp only
  rw [hexponent, hsignificand, if_neg (show ¬m = Nat.pow 2 53 from Nat.ne_of_lt hlt)]
  exact dif_pos hcanonical

end Binary64

end RequestWindows
