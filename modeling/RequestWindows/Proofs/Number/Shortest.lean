import RequestWindows.Number.Decimal
import RequestWindows.Proofs.Number.Rounding

/-! A decimal stands for the same double when zeros are moved between its coefficient and its
exponent, so the shortest decimal of a double may be searched for among those of one layout. -/
namespace RequestWindows

namespace Binary64

variable {n k : Nat} {x : Int} {s : Bool}

theorem decimalLength_pos (n : Nat) : 0 < decimalLength n := Nat.length_toDigits_pos

theorem decimalLength_le_iff (hk : 0 < k) : decimalLength n ≤ k ↔ n < 10 ^ k :=
  Nat.length_toDigits_le_iff (by decide) hk

theorem decimalLength_mul_pow (hn : 0 < n) (k : Nat) :
    decimalLength (n * 10 ^ k) = decimalLength n + k := by
  have hpos := decimalLength_pos n
  have hpow : 0 < 10 ^ k := Nat.pow_pos (by decide)
  have hshift (j : Nat) : n * 10 ^ k < 10 ^ (j + k) ↔ n < 10 ^ j := by
    rw [Nat.pow_add]
    exact Nat.mul_lt_mul_right hpow
  have hle : decimalLength (n * 10 ^ k) ≤ decimalLength n + k := by
    rw [decimalLength_le_iff (by omega), hshift]
    exact (decimalLength_le_iff hpos).mp (Nat.le_refl _)
  have hge : ¬decimalLength (n * 10 ^ k) ≤ decimalLength n - 1 + k := by
    intro h
    by_cases hzero : decimalLength n - 1 + k = 0
    · have := decimalLength_pos (n * 10 ^ k)
      omega
    · rw [decimalLength_le_iff (by omega), hshift] at h
      by_cases hone : decimalLength n = 1
      · rw [hone] at h
        have : n < 1 := h
        omega
      · have := (decimalLength_le_iff (by omega)).mpr h
        omega
  omega

/-- Zeros at the end of the coefficient can be moved into the exponent. -/
theorem ofDecimal_mul_pow (s : Bool) (n k : Nat) (x : Int) :
    ofDecimal s (n * 10 ^ k) x = ofDecimal s n (x + k) := by
  by_cases hn : n = 0
  · rw [hn, Nat.zero_mul]
    rfl
  · have hpow : 0 < 10 ^ k := Nat.pow_pos (by decide)
    have hcoefficient : ¬n * 10 ^ k = 0 := Nat.mul_ne_zero hn (Nat.ne_of_gt hpow)
    have hsize : (decimalLength (n * 10 ^ k) : Int) + x = decimalLength n + (x + k) := by
      rw [decimalLength_mul_pow (Nat.pos_of_ne_zero hn)]
      omega
    have hratio : n * 10 ^ k * wholePower 10 x * wholePower 10 (-(x + k)) =
        n * wholePower 10 (x + k) * wholePower 10 (-x) := by
      have hexponents : k + x.toNat + (-(x + k)).toNat = (x + k).toNat + (-x).toNat := by omega
      change n * 10 ^ k * 10 ^ x.toNat * 10 ^ (-(x + k)).toNat =
        n * 10 ^ (x + k).toNat * 10 ^ (-x).toNat
      calc
        n * 10 ^ k * 10 ^ x.toNat * 10 ^ (-(x + k)).toNat =
            n * 10 ^ (k + x.toNat + (-(x + k)).toNat) := by
          rw [Nat.pow_add, Nat.pow_add]
          ring
        _ = n * 10 ^ (x + k).toNat * 10 ^ (-x).toNat := by
          rw [hexponents, Nat.pow_add]
          ring
    unfold ofDecimal
    rw [if_neg hcoefficient, if_neg hn]
    simp only [hsize]
    rw [ofRatio_congr s (wholePower_pos (by decide) _) (wholePower_pos (by decide) _) hratio]

theorem assemble_sign {m m' : Nat} {e e' : Int} {h : Canonical m e}
    (hf : assemble false m' e' = .finite false m e h) (s : Bool) :
    assemble s m' e' = .finite s m e h := by
  unfold assemble at hf ⊢
  split at hf
  · next hc =>
    cases hf
    exact dif_pos hc
  · cases hf

theorem ofRatio_sign {a b m : Nat} {e : Int} {h : Canonical m e}
    (hf : ofRatio false a b = .finite false m e h) (s : Bool) :
    ofRatio s a b = .finite s m e h := by
  unfold ofRatio at hf ⊢
  split at hf
  · cases hf
    exact if_pos ‹_›
  · next ha =>
    rw [if_neg ha]
    dsimp only at hf ⊢
    split at hf
    · next hfull =>
      rw [if_pos hfull]
      exact assemble_sign hf s
    · next hfull =>
      rw [if_neg hfull]
      exact assemble_sign hf s

theorem ofDecimal_sign {m : Nat} {e : Int} {h : Canonical m e}
    (hf : ofDecimal false n x = .finite false m e h) (s : Bool) :
    ofDecimal s n x = .finite s m e h := by
  unfold ofDecimal at hf ⊢
  split at hf
  · cases hf
    exact if_pos ‹_›
  · next hn =>
    rw [if_neg hn]
    dsimp only at hf ⊢
    split at hf
    · cases hf
    · next hlarge =>
      rw [if_neg hlarge]
      split at hf
      · next hsmall =>
        cases hf
        exact if_pos hsmall
      · next hsmall =>
        rw [if_neg hsmall]
        exact ofRatio_sign hf s

end Binary64

namespace Decimal

open Binary64

variable {m : Nat} {e : Int}

/-- The digits of a large double do not reach beyond what can be rounded. -/
theorem decimalLength_scaled_le {m j : Nat} (hm : m < 2 ^ 53) (hj : j ≤ 971) (k : Nat) :
    decimalLength (m * 2 ^ j * 5 ^ k) ≤ 310 + k := by
  have hdecimal : 2 ^ 53 * 2 ^ 971 ≤ 10 ^ 310 := by decide +kernel
  have hpow : 2 ^ j ≤ 2 ^ 971 := by
    apply Nat.pow_le_pow_right
    · exact Nat.two_pos
    · exact hj
  have hlargest : 0 < 2 ^ 971 := Nat.lt_of_lt_of_le Nat.one_le_two_pow hpow
  have hfive : 5 ^ k ≤ 10 ^ k := Nat.pow_le_pow_left (by decide) k
  rw [decimalLength_le_iff (by omega)]
  calc
    m * 2 ^ j * 5 ^ k ≤ m * 2 ^ 971 * 10 ^ k :=
      Nat.mul_le_mul (Nat.mul_le_mul_left m hpow) hfive
    _ < 10 ^ 310 * 10 ^ k := by
      apply Nat.mul_lt_mul_of_pos_right _ (Nat.pow_pos (by decide))
      exact Nat.lt_of_lt_of_le (Nat.mul_lt_mul_of_pos_right hm hlargest) hdecimal
    _ = 10 ^ (310 + k) := by rw [Nat.pow_add]

/-- The digits of a small double begin before what is rounded to zero. -/
theorem lt_decimalLength_scaled {m k : Nat} (hm : 0 < m) (hk : k ≤ 1074) (j : Nat) :
    k < decimalLength (m * 2 ^ j * 5 ^ k) + 331 := by
  have hpos := decimalLength_pos (m * 2 ^ j * 5 ^ k)
  apply Decidable.byContradiction
  intro hshort
  have hlength : decimalLength (m * 2 ^ j * 5 ^ k) ≤ k - 331 := by omega
  rw [decimalLength_le_iff (by omega)] at hlength
  -- Otherwise the double would be less than the least one.
  have hsmallest : ¬10 ^ 331 < 2 ^ 1074 := by decide +kernel
  have hfive : 5 ^ k ≤ m * 2 ^ j * 5 ^ k :=
    Nat.le_mul_of_pos_left _ (Nat.mul_pos hm (Nat.pow_pos (by decide)))
  have htwo : 2 ^ k ≤ 2 ^ 1074 := by
    apply Nat.pow_le_pow_right
    · exact Nat.two_pos
    · exact hk
  have hpositive : 0 < 2 ^ 1074 := Nat.lt_of_lt_of_le Nat.one_le_two_pow htwo
  have hsplit : (10 : Nat) ^ k = 10 ^ (k - 331) * 10 ^ 331 := by
    rw [← Nat.pow_add]
    congr 1
    omega
  have hten : (10 : Nat) ^ k = 5 ^ k * 2 ^ k := by rw [← Nat.mul_pow]
  have hcontra : 10 ^ (k - 331) * 10 ^ 331 < 10 ^ (k - 331) * 2 ^ 1074 := by
    calc
      10 ^ (k - 331) * 10 ^ 331 = 5 ^ k * 2 ^ k := by rw [← hsplit, hten]
      _ ≤ m * 2 ^ j * 5 ^ k * 2 ^ 1074 := Nat.mul_le_mul hfive htwo
      _ < 10 ^ (k - 331) * 2 ^ 1074 := Nat.mul_lt_mul_of_pos_right hlength hpositive
  exact hsmallest (Nat.lt_of_mul_lt_mul_left hcontra)

/-- The exact decimal of a double is neither too large nor too small to be rounded. -/
theorem size_exact (hm : 0 < m) (h : Canonical m e) :
    (decimalLength (exact m e).coefficient : Int) + (exact m e).exponent ≤ 310 ∧
      -330 ≤ (decimalLength (exact m e).coefficient : Int) + (exact m e).exponent := by
  obtain ⟨hlt, hleast, hmost, _⟩ := h
  have hcoefficient : (exact m e).coefficient = m * 2 ^ e.toNat * 5 ^ (-e).toNat := rfl
  have hexponent : (exact m e).exponent = -((-e).toNat : Int) := rfl
  rw [hcoefficient, hexponent]
  have hlarge := decimalLength_scaled_le hlt (show e.toNat ≤ 971 by omega) (-e).toNat
  have hsmall := lt_decimalLength_scaled hm (show (-e).toNat ≤ 1074 by omega) e.toNat
  constructor
  · omega
  · omega

theorem toBinary64_exact (hm : 0 < m) (h : Canonical m e) :
    (exact m e).toBinary64 false = .finite false m e h := by
  obtain ⟨hlarge, hsmall⟩ := size_exact hm h
  have hcoefficient : ¬(exact m e).coefficient = 0 := by
    apply Nat.ne_of_gt
    exact Nat.mul_pos (Nat.mul_pos hm (wholePower_pos (by decide) e))
      (wholePower_pos (by decide) (-e))
  have hratio : (exact m e).coefficient * wholePower 10 (exact m e).exponent * denominator e =
      numerator m e * wholePower 10 (-(exact m e).exponent) := by
    have hzero : (-((-e).toNat : Int)).toNat = 0 := by omega
    have hback : (-(-((-e).toNat : Int))).toNat = (-e).toNat := by omega
    change m * 2 ^ e.toNat * 5 ^ (-e).toNat * 10 ^ (-((-e).toNat : Int)).toNat * 2 ^ (-e).toNat =
      m * 2 ^ e.toNat * 10 ^ (-(-((-e).toNat : Int))).toNat
    have hten : (10 : Nat) ^ (-e).toNat = 5 ^ (-e).toNat * 2 ^ (-e).toNat := by
      rw [← Nat.mul_pow]
    rw [hzero, hback, hten, Nat.pow_zero, Nat.mul_one, Nat.mul_assoc]
  unfold toBinary64 ofDecimal
  rw [if_neg hcoefficient]
  dsimp only
  rw [if_neg (Int.not_lt.mpr hlarge), if_neg (Int.not_lt.mpr hsmall),
    ofRatio_congr false (wholePower_pos (by decide) _) (wholePower_pos (by decide) _) hratio]
  exact ofRatio_exact false hm h

/-- The decimal that a double is written as is read back as that double. -/
theorem toBinary64_shortest (hm : 0 < m) (h : Canonical m e) (s : Bool) :
    (shortest m e).toBinary64 s = .finite s m e h := by
  have hpositive : (shortest m e).toBinary64 false = .finite false m e h := by
    unfold shortest
    dsimp only
    cases hf : (candidates (numerator m e) (denominator e)).find? fun d =>
        d.toBinary64 false = assemble false m e with
    | none => exact toBinary64_exact hm h
    | some d =>
      have hd := List.find?_some (p := fun d : Decimal =>
        decide (d.toBinary64 false = assemble false m e)) hf
      rw [Option.getD_some, of_decide_eq_true hd]
      exact dif_pos h
  exact ofDecimal_sign hpositive s

theorem coefficient_pos_of_toBinary64 {d : Decimal} {h : Canonical m e} (hm : 0 < m)
    (hd : d.toBinary64 false = .finite false m e h) : 0 < d.coefficient := by
  apply Nat.pos_of_ne_zero
  intro hzero
  unfold toBinary64 ofDecimal at hd
  rw [if_pos hzero] at hd
  have heq : 0 = m := (Binary64.finite.inj hd).2.1
  omega

section Digits

theorem head?_toDigits {n : Nat} (hn : 0 < n) : (Nat.toDigits 10 n).head? ≠ some '0' := by
  induction n using Nat.strongRecOn with
  | _ n ih =>
    rw [Nat.toDigits_eq_if (by decide)]
    split
    · next hlt =>
      have hall : ∀ d < 10, 0 < d → some (Nat.digitChar d) ≠ some '0' := by decide
      exact hall n hlt hn
    · next hge =>
      have hne : Nat.toDigits 10 (n / 10) ≠ [] := Nat.toDigits_ne_nil
      rw [List.head?_append_of_ne_nil _ hne]
      exact ih (n / 10) (by omega) (by omega)

theorem isDigit_of_mem_toDigits {n : Nat} {c : Char} (hc : c ∈ Nat.toDigits 10 n) :
    c.isDigit = true := Nat.isDigit_of_mem_toDigits (by decide) (by decide) hc

/-- Some zeros are dropped at the end of the digits, and nothing else. -/
theorem exists_zeros (digits : List Char) :
    ∃ z, digits = (digits.reverse.dropWhile (· = '0')).reverse ++ List.replicate z '0' := by
  have hsplit := List.takeWhile_append_dropWhile (p := (· = '0')) (l := digits.reverse)
  generalize hzeros : digits.reverse.takeWhile (· = '0') = zeros at hsplit
  have hall : ∀ c ∈ zeros, c = '0' := by
    intro c hc
    have hzero := List.all_takeWhile (p := (· = '0')) (l := digits.reverse)
    rw [hzeros, List.all_eq_true] at hzero
    exact of_decide_eq_true (hzero c hc)
  refine ⟨zeros.length, ?_⟩
  calc
    digits = digits.reverse.reverse := (List.reverse_reverse digits).symm
    _ = (zeros ++ digits.reverse.dropWhile (· = '0')).reverse := by rw [hsplit]
    _ = (digits.reverse.dropWhile (· = '0')).reverse ++ zeros.reverse := List.reverse_append
    _ = (digits.reverse.dropWhile (· = '0')).reverse ++
        (List.replicate zeros.length '0').reverse := by rw [← List.eq_replicate_of_mem hall]
    _ = (digits.reverse.dropWhile (· = '0')).reverse ++ List.replicate zeros.length '0' := by
      rw [List.reverse_replicate]

/-- The digits of a positive decimal, read with the place of the point, stand for the same double,
and neither the first nor the last of them is a zero. -/
theorem digitsAndPoint_spec {d : Decimal} (hd : 0 < d.coefficient) :
    (d.digitsAndPoint.1 ≠ [] ∧ d.digitsAndPoint.1.head? ≠ some '0' ∧
      ∀ c ∈ d.digitsAndPoint.1, c.isDigit = true) ∧
    ∀ s, ofDecimal s (Nat.ofDigitChars 10 d.digitsAndPoint.1 0)
      (d.digitsAndPoint.2 - d.digitsAndPoint.1.length) = d.toBinary64 s := by
  let digits := Nat.toDigits 10 d.coefficient
  let kept := (digits.reverse.dropWhile (· = '0')).reverse
  obtain ⟨z, hz⟩ : ∃ z, digits = kept ++ List.replicate z '0' := exists_zeros digits
  -- The zeros that are dropped at the end are made good by the place of the point.
  have hvalue : Nat.ofDigitChars 10 kept 0 * 10 ^ z = d.coefficient := by
    calc
      Nat.ofDigitChars 10 kept 0 * 10 ^ z =
          Nat.ofDigitChars 10 (kept ++ List.replicate z '0') 0 := by
        rw [Nat.ofDigitChars_append, Nat.ofDigitChars_replicate_zero, Nat.mul_comm]
      _ = Nat.ofDigitChars 10 digits 0 := by rw [← hz]
      _ = d.coefficient := Nat.ofDigitChars_ten_toDigits
  have hne : kept ≠ [] := by
    intro hnil
    rw [hnil, Nat.ofDigitChars_nil, Nat.zero_mul] at hvalue
    omega
  have hpair : d.digitsAndPoint = (kept, (digits.length : Int) + d.exponent) := by
    unfold digitsAndPoint
    dsimp only
    rw [if_neg hne]
  rw [hpair]
  refine ⟨⟨hne, ?_, ?_⟩, ?_⟩
  · have hhead := head?_toDigits hd
    change digits.head? ≠ some '0' at hhead
    rw [hz, List.head?_append_of_ne_nil _ hne] at hhead
    exact hhead
  · intro c hc
    apply isDigit_of_mem_toDigits (n := d.coefficient)
    change c ∈ digits
    rw [hz]
    exact List.mem_append_left _ hc
  · intro s
    have hlength : (digits.length : Int) = kept.length + z := by
      rw [hz, List.length_append, List.length_replicate]
      push_cast
      rfl
    have hexponent : (digits.length : Int) + d.exponent - kept.length = d.exponent + z := by omega
    change ofDecimal s _ ((digits.length : Int) + d.exponent - kept.length) = _
    rw [hexponent, ← ofDecimal_mul_pow, hvalue]
    rfl

end Digits

end Decimal

end RequestWindows
