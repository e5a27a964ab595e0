import RequestWindows.EventLog.Name
import RequestWindows.Proofs.Json.RoundTrip
import RequestWindows.Proofs.Number.Shortest

namespace RequestWindows

namespace Numeral

theorem isDigit_of_isDigit {c : Char} (h : c.isDigit = true) : isDigit c = true := by
  have hrange : '0' ≤ c ∧ c ≤ '9' := by
    unfold Char.isDigit at h
    simpa [Char.le_def] using h
  unfold isDigit Text.asciiDigit?
  rw [if_pos hrange]
  rfl

/-- The text of a number with these parts. Its exponent has at least `width` digits. -/
def text (width : Nat) (n : Numeral) : List Char :=
  n.sign.toList ++ (n.whole ++ ((n.fraction.map ('.' :: ·)).getD [] ++
    (n.exponent.map fun e => 'e' :: FloatLayout.exponentText width e).getD []))

/-- Parts that are of the right kind: a sign, and digits, at least one of them before the point. -/
structure WellFormed (n : Numeral) : Prop where
  sign : ∀ c, n.sign = some c → c = '-' ∨ c = '+'
  whole_ne : n.whole ≠ []
  whole : ∀ c ∈ n.whole, c.isDigit = true
  fraction : ∀ f, n.fraction = some f → ∀ c ∈ f, c.isDigit = true

theorem splitSign_of_isDigit {c : Char} (h : c.isDigit = true) (rest : List Char) :
    splitSign (c :: rest) = (none, c :: rest) := by
  unfold splitSign
  split
  · next heq =>
    cases heq
    exact absurd h (by decide)
  · next heq =>
    cases heq
    exact absurd h (by decide)
  · rfl

theorem splitSign_append {sign : Option Char} (hsign : ∀ c, sign = some c → c = '-' ∨ c = '+')
    {c : Char} (h : c.isDigit = true) (rest : List Char) :
    splitSign (sign.toList ++ c :: rest) = (sign, c :: rest) := by
  cases sign with
  | none => exact splitSign_of_isDigit h rest
  | some sign =>
    rcases hsign sign rfl with rfl | rfl
    · rfl
    · rfl

theorem scanExponent_of_splitSign {text digits : List Char} {sign : Option Char}
    (hsplit : splitSign text = (sign, digits)) (hne : digits ≠ [])
    (hall : digits.all isDigit = true) :
    scanExponent text = some (signed (sign = some '-') (Nat.ofDigitChars 10 digits 0)) := by
  unfold scanExponent
  rw [hsplit]
  exact if_pos ⟨hne, hall⟩

theorem scanExponent_exponentText (width : Nat) (e : Int) :
    scanExponent (FloatLayout.exponentText width e) = some e := by
  let digits :=
    List.replicate (width - (Nat.toDigits 10 e.natAbs).length) '0' ++ Nat.toDigits 10 e.natAbs
  have hne : digits ≠ [] := by
    intro h
    exact Nat.toDigits_ne_nil (List.append_eq_nil_iff.mp h).2
  have hall : digits.all isDigit = true := by
    rw [List.all_eq_true]
    intro c hc
    apply isDigit_of_isDigit
    rcases List.mem_append.mp hc with hc | hc
    · rw [List.eq_of_mem_replicate hc]
      rfl
    · exact LogName.isDigit_of_mem_toDigits hc
  have hvalue : Nat.ofDigitChars 10 digits 0 = e.natAbs := by
    rw [Nat.ofDigitChars_append, Nat.ofDigitChars_replicate_zero, Nat.mul_zero,
      Nat.ofDigitChars_ten_toDigits]
  -- The sign of an exponent is always written, a plus as well.
  by_cases hneg : e < 0
  · have hsplit : splitSign (FloatLayout.exponentText width e) = (some '-', digits) := by
      unfold FloatLayout.exponentText
      rw [if_pos hneg]
      rfl
    rw [scanExponent_of_splitSign hsplit hne hall, hvalue, decide_eq_true rfl]
    change some (-(e.natAbs : Int)) = some e
    congr 1
    omega
  · have hsplit : splitSign (FloatLayout.exponentText width e) = (some '+', digits) := by
      unfold FloatLayout.exponentText
      rw [if_neg hneg]
      rfl
    rw [scanExponent_of_splitSign hsplit hne hall, hvalue, decide_eq_false (by decide)]
    change some (e.natAbs : Int) = some e
    congr 1
    omega

theorem scanTail_exponent (sign : Option Char) (whole : List Char) (fraction : Option (List Char))
    (width : Nat) (exponent : Option Int) :
    scanTail sign whole fraction
      ((exponent.map fun e => 'e' :: FloatLayout.exponentText width e).getD []) =
        some ⟨sign, whole, fraction, exponent⟩ := by
  cases exponent with
  | none => rfl
  | some e =>
    change (if 'e' = 'e' ∨ 'e' = 'E' then
      (scanExponent (FloatLayout.exponentText width e)).map _ else none) = _
    rw [if_pos (Or.inl rfl), scanExponent_exponentText]
    rfl

theorem exponent_cases (width : Nat) (exponent : Option Int) :
    (exponent.map fun e => 'e' :: FloatLayout.exponentText width e).getD [] = [] ∨
      ∃ more, (exponent.map fun e => 'e' :: FloatLayout.exponentText width e).getD [] =
        'e' :: more := by
  cases exponent with
  | none => exact Or.inl rfl
  | some e => exact Or.inr ⟨_, rfl⟩

/-- A written number is taken apart into the parts it was written from. -/
theorem scan_text {n : Numeral} (h : n.WellFormed) (width : Nat) :
    scan (n.text width) = some n := by
  obtain ⟨sign, whole, fraction, exponent⟩ := n
  have hwhole : ∀ c ∈ whole, isDigit c = true := fun c hc => isDigit_of_isDigit (h.whole c hc)
  -- The exponent is empty or begins with a letter, so the digits before it end where it begins.
  have hcases := exponent_cases width exponent
  have hread := scanTail_exponent sign whole fraction width exponent
  have hsplit (rest : List Char) :
      splitSign (sign.toList ++ (whole ++ rest)) = (sign, whole ++ rest) := by
    obtain ⟨c, more, rfl⟩ := List.exists_cons_of_ne_nil h.whole_ne
    exact splitSign_append h.sign (h.whole c (.head _)) _
  unfold text scan
  rw [hsplit]
  dsimp only
  rw [List.takeWhile_append_of_pos hwhole, List.dropWhile_append_of_pos hwhole]
  generalize (exponent.map fun e => 'e' :: FloatLayout.exponentText width e).getD [] = tail
    at hcases hread ⊢
  cases fraction with
  | none =>
    rcases hcases with rfl | ⟨more, rfl⟩
    · rw [← hread]
      change scanTail sign (whole ++ []) none [] = _
      rw [List.append_nil]
    · rw [← hread]
      change scanTail sign (whole ++ []) none ('e' :: more) = _
      rw [List.append_nil]
  | some fraction =>
    have hfraction : ∀ c ∈ fraction, isDigit c = true :=
      fun c hc => isDigit_of_isDigit (h.fraction fraction rfl c hc)
    have htail : tail.takeWhile isDigit = [] ∧ tail.dropWhile isDigit = tail := by
      rcases hcases with rfl | ⟨more, rfl⟩
      · exact ⟨rfl, rfl⟩
      · exact ⟨rfl, rfl⟩
    change scanTail sign (whole ++ []) (some ((fraction ++ tail).takeWhile isDigit))
      ((fraction ++ tail).dropWhile isDigit) = _
    rw [List.takeWhile_append_of_pos hfraction, List.dropWhile_append_of_pos hfraction, htail.1,
      htail.2, List.append_nil, List.append_nil, hread]

end Numeral

namespace Json

variable {limits : Limits}

theorem ofWord_of_scan {word : List Char} {n : Numeral} (h : Numeral.scan word = some n) :
    ofWord limits word = ofNumeral limits n := by
  have hname {name : String} (hnone : Numeral.scan name.toList = none) : word ≠ name.toList := by
    rintro rfl
    rw [hnone] at h
    cases h
  unfold ofWord
  rw [if_neg (hname (by decide)), if_neg (hname (by decide)), if_neg (hname (by decide)),
    if_neg (hname (by decide)), if_neg (hname (by decide)), if_neg (hname (by decide)), h]
  rfl

theorem isLetter_of_isDigit {c : Char} (h : c.isDigit = true) : Scanner.isLetter c = true := by
  have hall : ∀ n < 58, 48 ≤ n → Scanner.isLetter (Char.ofNat n) = true := by decide
  have hrange : 48 ≤ c.toNat ∧ c.toNat < 58 := by
    obtain ⟨hlow, hhigh⟩ := Char.isDigit_iff_toNat.mp h
    exact ⟨hlow, Nat.lt_succ_of_le hhigh⟩
  rw [← Char.ofNat_toNat c]
  exact hall c.toNat hrange.2 hrange.1

theorem isLetter_of_mem_exponentText {width : Nat} {e : Int} {c : Char}
    (hc : c ∈ FloatLayout.exponentText width e) : Scanner.isLetter c = true := by
  unfold FloatLayout.exponentText at hc
  rcases List.mem_cons.mp hc with rfl | hc
  · split
    · rfl
    · rfl
  · rcases List.mem_append.mp hc with hc | hc
    · rw [List.eq_of_mem_replicate hc]
      rfl
    · exact isLetter_of_isDigit (LogName.isDigit_of_mem_toDigits hc)

theorem isLetter_of_mem_text {n : Numeral} (h : n.WellFormed) {width : Nat} {c : Char}
    (hc : c ∈ n.text width) : Scanner.isLetter c = true := by
  unfold Numeral.text at hc
  simp only [List.mem_append, Option.mem_toList] at hc
  rcases hc with hsign | hwhole | hfraction | hexponent
  · rcases h.sign c hsign with rfl | rfl
    · rfl
    · rfl
  · exact isLetter_of_isDigit (h.whole c hwhole)
  · cases hf : n.fraction with
    | none =>
      rw [hf] at hfraction
      cases hfraction
    | some f =>
      rw [hf] at hfraction
      rcases List.mem_cons.mp hfraction with rfl | hc
      · rfl
      · exact isLetter_of_isDigit (h.fraction f hf c hc)
  · cases he : n.exponent with
    | none =>
      rw [he] at hexponent
      cases hexponent
    | some e =>
      rw [he] at hexponent
      rcases List.mem_cons.mp hexponent with rfl | hc
      · rfl
      · exact isLetter_of_mem_exponentText hc

/-- A number is read back from the text of its parts. -/
theorem reads_numeral {v : Json} {n : Numeral} {width : Nat} (h : n.WellFormed)
    (htext : v.text = n.text width) (hvalue : ofNumeral limits n = some v) :
    Reads limits v 0 [.word (n.text width)] := by
  have hne : n.text width ≠ [] := by
    intro hnil
    unfold Numeral.text at hnil
    simp [h.whole_ne] at hnil
  have hword : ofWord limits (n.text width) = some v := by
    rw [ofWord_of_scan (Numeral.scan_text h width), hvalue]
  exact reads_word htext (fun c hc => isLetter_of_mem_text h hc) hne hword

/-- The parts of a written integer. -/
def intParts (n : Int) : Numeral :=
  ⟨if n < 0 then some '-' else none, Nat.toDigits 10 n.natAbs, none, none⟩

theorem intText_eq (n : Int) : intText n = (intParts n).text 0 := by
  have hdigits : intText n =
      if n < 0 then '-' :: Nat.toDigits 10 n.natAbs else Nat.toDigits 10 n.natAbs :=
    toList_sealedName n
  rw [hdigits]
  unfold intParts Numeral.text
  by_cases hneg : n < 0
  · rw [if_pos hneg, if_pos hneg]
    simp
  · rw [if_neg hneg, if_neg hneg]
    simp

theorem wellFormed_intParts (n : Int) : (intParts n).WellFormed := by
  refine ⟨?_, Nat.toDigits_ne_nil, fun c hc => LogName.isDigit_of_mem_toDigits hc, ?_⟩
  · intro c hc
    change (if n < 0 then some '-' else none) = some c at hc
    split at hc
    · cases hc
      exact Or.inl rfl
    · cases hc
  · intro f hf
    cases hf

theorem isNumber_intParts (n : Int) : isNumber (intParts n) = true := by
  have hsign : (intParts n).sign ≠ some '+' := by
    change (if n < 0 then some '-' else none) ≠ some '+'
    split
    · decide
    · decide
  have hfirst : (intParts n).whole.length = 1 ∨ (intParts n).whole.head? ≠ some '0' := by
    by_cases hzero : n.natAbs = 0
    · refine Or.inl ?_
      change (Nat.toDigits 10 n.natAbs).length = 1
      rw [hzero]
      rfl
    · exact Or.inr (Decimal.head?_toDigits (Nat.pos_of_ne_zero hzero))
  unfold isNumber
  rw [decide_eq_true hsign, decide_eq_true (wellFormed_intParts n).whole_ne, Bool.true_and,
    Bool.true_and, Bool.and_eq_true, Bool.or_eq_true, decide_eq_true_eq, decide_eq_true_eq]
  exact ⟨hfirst, rfl⟩

theorem signed_intParts (n : Int) :
    signed (intParts n).negative (Nat.ofDigitChars 10 (intParts n).whole 0) = n := by
  change signed (decide ((if n < 0 then some '-' else none) = some '-'))
    (Nat.ofDigitChars 10 (Nat.toDigits 10 n.natAbs) 0) = n
  rw [Nat.ofDigitChars_ten_toDigits]
  unfold signed
  by_cases hneg : n < 0
  · rw [if_pos hneg, decide_eq_true rfl, if_pos rfl]
    omega
  · rw [if_neg hneg, decide_eq_false (by decide), if_neg Bool.false_ne_true]
    omega

theorem reads_int {n : Int} (h : (Nat.toDigits 10 n.natAbs).length ≤ limits.digits) :
    ∃ ts, Reads limits (.int n) 0 ts := by
  have hread : ofNumeral limits (intParts n) = some (.int n) := by
    have hlength : (intParts n).whole.length ≤ limits.digits := h
    unfold ofNumeral
    rw [if_neg (by rw [isNumber_intParts]; simpa using hlength), if_pos ⟨rfl, rfl⟩,
      signed_intParts]
  have htext : (Json.int n).text = (intParts n).text 0 := by
    rw [text]
    exact intText_eq n
  exact ⟨_, reads_numeral (wellFormed_intParts n) htext hread⟩

section Floats

variable {s : Bool} {digits : List Char} {point : Int}

/-- A number with a fraction or an exponent whose parts may stand in JSON text. -/
structure Fractional (n : Numeral) : Prop extends n.WellFormed where
  minus : n.sign ≠ some '+'
  first : n.whole.length = 1 ∨ n.whole.head? ≠ some '0'
  fraction_ne : n.fraction ≠ some []
  not_int : ¬(n.fraction = none ∧ n.exponent = none)

theorem ofNumeral_of_fractional {n : Numeral} (h : Fractional n)
    (hlength : n.whole.length ≤ limits.digits) :
    ofNumeral limits n = some (.float n.toBinary64) := by
  have hnumber : isNumber n = true := by
    unfold isNumber
    rw [decide_eq_true h.minus, decide_eq_true h.whole_ne, decide_eq_true h.fraction_ne,
      Bool.true_and, Bool.true_and, Bool.and_true, Bool.or_eq_true, decide_eq_true_eq,
      decide_eq_true_eq]
    exact h.first
  unfold ofNumeral
  rw [if_neg (by rw [hnumber]; simpa using hlength), if_neg h.not_int]

/-- Digits as the digits of a double are written: without a zero in front. -/
structure Leading (digits : List Char) : Prop where
  ne_nil : digits ≠ []
  first : digits.head? ≠ some '0'
  isDigit : ∀ c ∈ digits, c.isDigit = true

/-- What the text of a positive number is made of: its parts, which stand for the double that the
digits and the place of the point stand for. -/
structure Written (s : Bool) (digits : List Char) (point : Int) (n : Numeral) : Prop where
  fractional : Fractional n
  length : n.whole.length ≤ 16
  value : n.toBinary64 = Binary64.ofDecimal s (Nat.ofDigitChars 10 digits 0) (point - digits.length)

theorem written_of_parts {n : Numeral} (hsign : n.sign = if s then some '-' else none)
    (hne : n.whole ≠ []) (hdigits : ∀ c ∈ n.digits, c.isDigit = true)
    (hfirst : n.whole.length = 1 ∨ n.whole.head? ≠ some '0') (hfraction : n.fraction ≠ some [])
    (hfloat : ¬(n.fraction = none ∧ n.exponent = none)) (hlength : n.whole.length ≤ 16)
    (hvalue : Binary64.ofDecimal s (Nat.ofDigitChars 10 n.digits 0)
      (n.exponent.getD 0 - (n.fraction.getD []).length) =
        Binary64.ofDecimal s (Nat.ofDigitChars 10 digits 0) (point - digits.length)) :
    Written s digits point n := by
  have hminus : ∀ c, n.sign = some c → c = '-' := by
    intro c hc
    rw [hsign] at hc
    cases s with
    | true =>
      cases hc
      rfl
    | false => cases hc
  have hnegative : n.negative = s := by
    unfold Numeral.negative
    rw [hsign]
    cases s with
    | true => rfl
    | false => rfl
  refine ⟨⟨⟨fun c hc => Or.inl (hminus c hc), hne, ?_, ?_⟩, ?_, hfirst, hfraction, hfloat⟩,
    hlength, ?_⟩
  · intro c hc
    exact hdigits c (List.mem_append_left _ hc)
  · intro f hf c hc
    apply hdigits c (List.mem_append_right _ _)
    rw [hf]
    exact hc
  · intro hplus
    exact absurd (hminus '+' hplus) (by decide)
  · unfold Numeral.toBinary64
    rw [hnegative, ← hvalue]
    rfl

theorem ofDigitChars_zeros_append (k : Nat) (digits : List Char) :
    Nat.ofDigitChars 10 (List.replicate k '0' ++ digits) 0 = Nat.ofDigitChars 10 digits 0 := by
  rw [Nat.ofDigitChars_append, Nat.ofDigitChars_replicate_zero, Nat.mul_zero]

theorem isDigit_of_mem_zeros_append {k : Nat} (h : ∀ c ∈ digits, c.isDigit = true) :
    ∀ c ∈ List.replicate k '0' ++ digits, c.isDigit = true := by
  intro c hc
  rcases List.mem_append.mp hc with hc | hc
  · rw [List.eq_of_mem_replicate hc]
    rfl
  · exact h c hc

/-- A numeral with a point and without an exponent. -/
def pointed (s : Bool) (whole fraction : List Char) : Numeral :=
  ⟨if s then some '-' else none, whole, some fraction, none⟩

theorem text_pointed (s : Bool) (whole fraction : List Char) (width : Nat) :
    (pointed s whole fraction).text width =
      (if s then some '-' else none).toList ++ (whole ++ '.' :: fraction) := by
  unfold Numeral.text pointed
  simp

theorem written_pointed {whole fraction : List Char} (hwhole : whole ≠ [])
    (hfraction : fraction ≠ []) (hdigits : ∀ c ∈ whole ++ fraction, c.isDigit = true)
    (hfirst : whole.length = 1 ∨ whole.head? ≠ some '0') (hlength : whole.length ≤ 16)
    (hvalue : Binary64.ofDecimal s (Nat.ofDigitChars 10 (whole ++ fraction) 0) (-fraction.length) =
      Binary64.ofDecimal s (Nat.ofDigitChars 10 digits 0) (point - digits.length)) :
    Written s digits point (pointed s whole fraction) := by
  apply written_of_parts rfl hwhole
  · exact hdigits
  · exact hfirst
  · exact fun hnil => hfraction (Option.some.inj hnil)
  · rintro ⟨hnone, _⟩
    cases hnone
  · exact hlength
  · have hexponent : (0 : Int) - fraction.length = -fraction.length := by omega
    change Binary64.ofDecimal s (Nat.ofDigitChars 10 (whole ++ fraction) 0)
      ((0 : Int) - fraction.length) = _
    rw [hexponent]
    exact hvalue

/-- Zeros stand between the point and the digits. -/
theorem written_zeros_before (h : Leading digits) (hpoint : point ≤ 0) (s : Bool) :
    Written s digits point (pointed s ['0'] (List.replicate (-point).toNat '0' ++ digits)) := by
  apply written_pointed (List.cons_ne_nil _ _)
  · exact fun hnil => h.ne_nil (List.append_eq_nil_iff.mp hnil).2
  · exact isDigit_of_mem_zeros_append (k := 1) (isDigit_of_mem_zeros_append h.isDigit)
  · exact Or.inl rfl
  · exact Nat.le_add_left 1 15
  · have hzero : ['0'] = List.replicate 1 '0' := rfl
    have hexponent : -((List.replicate (-point).toNat '0' ++ digits).length : Int) =
        point - digits.length := by
      rw [List.length_append, List.length_replicate]
      omega
    rw [hzero, ofDigitChars_zeros_append, ofDigitChars_zeros_append, hexponent]

/-- Zeros stand between the digits and the point. -/
theorem written_zeros_after (h : Leading digits) (hlarge : (digits.length : Int) ≤ point)
    (hpoint : point ≤ 16) (s : Bool) :
    Written s digits point
      (pointed s (digits ++ List.replicate (point - digits.length).toNat '0') ['0']) := by
  let zeros := (point - digits.length).toNat
  apply written_pointed
  · exact fun hnil => h.ne_nil (List.append_eq_nil_iff.mp hnil).1
  · exact List.cons_ne_nil _ _
  · intro c hc
    rcases List.mem_append.mp hc with hc | hc
    · rcases List.mem_append.mp hc with hc | hc
      · exact h.isDigit c hc
      · rw [List.eq_of_mem_replicate hc]
        rfl
    · rw [List.mem_singleton.mp hc]
      rfl
  · right
    rw [List.head?_append_of_ne_nil _ h.ne_nil]
    exact h.first
  · rw [List.length_append, List.length_replicate]
    omega
  · -- With the zero after the point there is one zero more than the value needs.
    have hvalue : Nat.ofDigitChars 10 (digits ++ List.replicate zeros '0' ++ ['0']) 0 =
        Nat.ofDigitChars 10 digits 0 * 10 ^ (zeros + 1) := by
      rw [List.append_assoc, ← List.replicate_succ', Nat.ofDigitChars_append,
        Nat.ofDigitChars_replicate_zero, Nat.mul_comm]
    have hexponent : -1 + ((zeros + 1 : Nat) : Int) = point - digits.length := by omega
    change Binary64.ofDecimal s
      (Nat.ofDigitChars 10 (digits ++ List.replicate zeros '0' ++ ['0']) 0) (-1) = _
    rw [hvalue, Binary64.ofDecimal_mul_pow, hexponent]

theorem written_split (h : Leading digits) (hsmall : 0 < point) (hlarge : point < digits.length)
    (hpoint : point ≤ 16) (s : Bool) :
    Written s digits point
      (pointed s (digits.take point.toNat) (digits.drop point.toNat)) := by
  have hsplit := List.take_append_drop point.toNat digits
  have htake : (digits.take point.toNat).length = point.toNat := by
    rw [List.length_take]
    omega
  have hdrop : (digits.drop point.toNat).length = digits.length - point.toNat := List.length_drop
  have hwhole : digits.take point.toNat ≠ [] := by
    apply List.ne_nil_of_length_pos
    omega
  apply written_pointed hwhole
  · apply List.ne_nil_of_length_pos
    omega
  · rw [hsplit]
    exact h.isDigit
  · right
    have hfirst := h.first
    rw [← hsplit, List.head?_append_of_ne_nil _ hwhole] at hfirst
    exact hfirst
  · omega
  · have hexponent : -((digits.drop point.toNat).length : Int) = point - digits.length := by omega
    rw [hsplit, hexponent]

theorem exists_written_positional (h : Leading digits) (hpoint : point ≤ 16) (s : Bool)
    (width : Nat) : ∃ n, Written s digits point n ∧
      n.text width =
        (if s then some '-' else none).toList ++ FloatLayout.positional digits point := by
  unfold FloatLayout.positional
  by_cases hsmall : point ≤ 0
  · rw [if_pos hsmall]
    exact ⟨_, written_zeros_before h hsmall s, text_pointed s _ _ width⟩
  · rw [if_neg hsmall]
    by_cases hlarge : (digits.length : Int) ≤ point
    · rw [if_pos hlarge]
      refine ⟨_, written_zeros_after h hlarge hpoint s, ?_⟩
      rw [text_pointed]
    · rw [if_neg hlarge]
      exact ⟨_, written_split h (Int.not_le.mp hsmall) (Int.not_le.mp hlarge) hpoint s,
        text_pointed s _ _ width⟩

theorem exists_written_scientific (h : Leading digits) (point : Int) (s : Bool) (width : Nat) :
    ∃ n, Written s digits point n ∧ n.text width =
      (if s then some '-' else none).toList ++ FloatLayout.scientific width digits (point - 1) := by
  obtain ⟨first, more, rfl⟩ := List.exists_cons_of_ne_nil h.ne_nil
  -- A single digit is written without a point, and then there is no fraction.
  let fraction := if more = [] then none else some more
  have hfraction : fraction.getD [] = more := by
    by_cases hmore : more = []
    · change (if more = [] then none else some more).getD [] = more
      rw [if_pos hmore, hmore]
      rfl
    · change (if more = [] then none else some more).getD [] = more
      rw [if_neg hmore]
      rfl
  refine ⟨⟨if s then some '-' else none, [first], fraction, some (point - 1)⟩, ?_, ?_⟩
  · apply written_of_parts rfl (List.cons_ne_nil _ _)
    · intro c hc
      apply h.isDigit c
      change c ∈ [first] ++ fraction.getD [] at hc
      rw [hfraction] at hc
      exact hc
    · exact Or.inl rfl
    · intro hnil
      have hmore : more = [] := by
        rw [← hfraction]
        change fraction = some [] at hnil
        rw [hnil]
        rfl
      change (if more = [] then none else some more) = some [] at hnil
      rw [if_pos hmore] at hnil
      cases hnil
    · rintro ⟨_, hnone⟩
      cases hnone
    · exact Nat.le_add_left 1 15
    · have hexponent :
          point - 1 - (more.length : Int) = point - ((first :: more).length : Nat) := by
        rw [List.length_cons]
        push_cast
        omega
      change Binary64.ofDecimal s (Nat.ofDigitChars 10 ([first] ++ fraction.getD []) 0)
        (point - 1 - ((fraction.getD []).length : Int)) = _
      rw [hfraction, hexponent]
      rfl
  · unfold Numeral.text FloatLayout.scientific
    by_cases hmore : more = []
    · simp [fraction, hmore]
    · have hlong : ¬(first :: more).length ≤ 1 := by
        have hpos := List.length_pos_of_ne_nil hmore
        rw [List.length_cons]
        omega
      simp [fraction, hmore]

/-- The text of a finite double is that of parts that stand for the double. -/
theorem exists_written {m : Nat} {e : Int} (s : Bool) (h : Binary64.Canonical m e) :
    ∃ n, n.text 1 = FloatLayout.line.finite s m e ∧ Fractional n ∧ n.whole.length ≤ 16 ∧
      n.toBinary64 = .finite s m e h := by
  have hsign (magnitude : List Char) : (if s then some '-' else none).toList ++ magnitude =
      if s then '-' :: magnitude else magnitude := by
    cases s with
    | true => rfl
    | false => rfl
  unfold FloatLayout.finite
  by_cases hm : m = 0
  · -- Zero has no shortest decimal and is written on its own.
    subst hm
    have he : e = -1074 := h.2.2.2.resolve_left (by decide)
    subst he
    have hn : Written s ['0'] 0 (pointed s ['0'] ['0']) := by
      have hall : ['0', '0'].all Char.isDigit = true := by decide
      apply written_pointed (List.cons_ne_nil _ _) (List.cons_ne_nil _ _)
      · exact List.all_eq_true.mp hall
      · exact Or.inl rfl
      · exact Nat.le_add_left 1 15
      · rfl
    refine ⟨pointed s ['0'] ['0'], ?_, hn.fractional, hn.length, ?_⟩
    · rw [if_pos rfl, text_pointed]
      exact hsign ['0', '.', '0']
    · rw [hn.value]
      rfl
  · rw [if_neg hm]
    have hpos : 0 < m := Nat.pos_of_ne_zero hm
    -- The digits and the point stand for the shortest decimal, and that one for the double.
    have hdecimal := Decimal.toBinary64_shortest hpos h
    obtain ⟨⟨hne, hfirst, hall⟩, hvalue⟩ :=
      Decimal.digitsAndPoint_spec (Decimal.coefficient_pos_of_toBinary64 hpos (hdecimal false))
    generalize (Decimal.shortest m e).digitsAndPoint = pair at hne hfirst hall hvalue
    obtain ⟨digits, point⟩ := pair
    have hleading : Leading digits := ⟨hne, hfirst, hall⟩
    dsimp only at hvalue ⊢
    unfold FloatLayout.write
    by_cases hrange : FloatLayout.line.lowest ≤ point - 1 ∧ point - 1 ≤ FloatLayout.line.highest
    · rw [if_pos hrange]
      have hpoint : point ≤ 16 := by
        have : point - 1 ≤ 15 := hrange.2
        omega
      obtain ⟨n, hn, htext⟩ := exists_written_positional hleading hpoint s 1
      refine ⟨n, ?_, hn.fractional, hn.length, ?_⟩
      · rw [htext, hsign]
      · rw [hn.value, hvalue, hdecimal]
    · rw [if_neg hrange]
      obtain ⟨n, hn, htext⟩ := exists_written_scientific hleading point s 1
      refine ⟨n, ?_, hn.fractional, hn.length, ?_⟩
      · rw [htext, hsign]
        rfl
      · rw [hn.value, hvalue, hdecimal]

theorem reads_float {x : Binary64} (hx : x.isFinite = true) (hlimit : 16 ≤ limits.digits) :
    ∃ ts, Reads limits (.float x) 0 ts := by
  cases x with
  | nan => cases hx
  | infinite s => cases hx
  | finite s m e h =>
    obtain ⟨n, htext, hn, hlength, hvalue⟩ := exists_written s h
    have hread := ofNumeral_of_fractional hn (Nat.le_trans hlength hlimit)
    rw [hvalue] at hread
    have htext' : (Json.float (.finite s m e h)).text = n.text 1 := by
      rw [text]
      exact htext.symm
    exact ⟨_, reads_numeral hn.toWellFormed htext' hread⟩

end Floats

end Json

end RequestWindows
