import Mathlib.Data.String.Basic
import RequestWindows.Proofs.Text.Utf8

namespace RequestWindows.Text

/-- Bytes compare by the first one, and by the rest only where that one is the same. -/
theorem ofNat_cons_lt_cons {a b : Nat} {l m : List UInt8} (hb : b < 256) (hle : a ≤ b)
    (h : a = b → l < m) : UInt8.ofNat a :: l < UInt8.ofNat b :: m := by
  rw [List.cons_lt_cons_iff]
  by_cases hab : a = b
  · exact .inr ⟨congrArg UInt8.ofNat hab, h hab⟩
  · left
    rw [UInt8.lt_iff_toNat_lt, toNat_ofNat_of_lt (by omega), toNat_ofNat_of_lt hb]
    omega

/-- The bytes of the smaller of two characters are smaller, whatever follows them. -/
theorem utf8EncodeChar_append_lt {c d : Char} (h : c < d) (s t : List UInt8) :
    String.utf8EncodeChar c ++ s < String.utf8EncodeChar d ++ t := by
  have hlt : c.val.toNat < d.val.toNat := UInt32.lt_iff_toNat_lt.mp (Char.lt_def.mp h)
  have hlast : d.val.toNat < 0x110000 := by
    rcases d.valid with hd | hd
    · exact Nat.lt_trans hd (by decide)
    · exact hd.2
  unfold String.utf8EncodeChar
  generalize c.val.toNat = n at hlt
  generalize d.val.toNat = v at hlt hlast
  dsimp only
  -- A character with fewer bytes has a smaller first byte; with equally many bytes, all bits
  -- decide.
  split
  · split
    · exact ofNat_cons_lt_cons (by omega) (by omega) (by omega)
    · split
      · exact ofNat_cons_lt_cons (by omega) (by omega) (by omega)
      · split <;> exact ofNat_cons_lt_cons (by omega) (by omega) (by omega)
  · rw [if_neg (by omega : ¬v ≤ 127)]
    split
    · split
      · refine ofNat_cons_lt_cons (by omega) (by omega) fun h₁ => ?_
        exact ofNat_cons_lt_cons (by omega) (by omega) (by omega)
      · split <;> exact ofNat_cons_lt_cons (by omega) (by omega) (by omega)
    · rw [if_neg (by omega : ¬v ≤ 2047)]
      split
      · split
        · refine ofNat_cons_lt_cons (by omega) (by omega) fun h₁ => ?_
          refine ofNat_cons_lt_cons (by omega) (by omega) fun h₂ => ?_
          exact ofNat_cons_lt_cons (by omega) (by omega) (by omega)
        · exact ofNat_cons_lt_cons (by omega) (by omega) (by omega)
      · rw [if_neg (by omega : ¬v ≤ 65535)]
        refine ofNat_cons_lt_cons (by omega) (by omega) fun h₁ => ?_
        refine ofNat_cons_lt_cons (by omega) (by omega) fun h₂ => ?_
        refine ofNat_cons_lt_cons (by omega) (by omega) fun h₃ => ?_
        exact ofNat_cons_lt_cons (by omega) (by omega) (by omega)

theorem encodeUtf8_lt_of_lt {s t : List Char} (h : s < t) : encodeUtf8 s < encodeUtf8 t := by
  induction s generalizing t with
  | nil =>
    cases t with
    | nil => exact absurd h (List.lt_irrefl [])
    | cons d t =>
      change [] < String.utf8EncodeChar d ++ encodeUtf8 t
      unfold String.utf8EncodeChar
      dsimp only
      repeat' split
      all_goals exact List.nil_lt_cons _ _
  | cons c s ih =>
    cases t with
    | nil => exact absurd h (List.not_lt_nil _)
    | cons d t =>
      change String.utf8EncodeChar c ++ encodeUtf8 s < String.utf8EncodeChar d ++ encodeUtf8 t
      rcases List.cons_lt_cons_iff.mp h with hcd | ⟨rfl, hst⟩
      · exact utf8EncodeChar_append_lt hcd _ _
      · exact List.append_left_lt (ih hst)

/-- Texts compare as the bytes that encode them. -/
theorem lt_iff_encodeUtf8_lt {a b : String} :
    a < b ↔ encodeUtf8 a.toList < encodeUtf8 b.toList := by
  rw [String.lt_iff_toList_lt]
  constructor
  · exact encodeUtf8_lt_of_lt
  · intro h
    rcases lt_trichotomy a.toList b.toList with hlt | heq | hgt
    · exact hlt
    · rw [heq] at h
      exact absurd h (List.lt_irrefl _)
    · exact absurd h (List.lt_asymm (encodeUtf8_lt_of_lt hgt))

end RequestWindows.Text
