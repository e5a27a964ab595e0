import RequestWindows.Text.Utf8

namespace RequestWindows.Text

theorem decodeBytes_cons {p q : PartialChar} {b : UInt8} {found : Option Char}
    (h : p.step b.toNat = some (found, q)) (rest : List UInt8) :
    decodeBytes p (b :: rest) =
      (decodeBytes q rest).map fun t => (found.toList ++ t.1, t.2) := by
  rw [decodeBytes, h]
  simp only [Option.bind_eq_bind, Option.bind_some]
  cases decodeBytes q rest <;> rfl

theorem decodeBytes_append (p : PartialChar) (first second : List UInt8) :
    decodeBytes p (first ++ second) =
      (decodeBytes p first).bind fun t =>
        (decodeBytes t.2 second).map fun u => (t.1 ++ u.1, u.2) := by
  induction first generalizing p with
  | nil =>
    rw [List.nil_append, decodeBytes, Option.bind_some]
    simp
  | cons b rest ih =>
    rw [List.cons_append, decodeBytes, decodeBytes]
    cases p.step b.toNat with
    | none => rfl
    | some t =>
      simp only [Option.bind_eq_bind, Option.bind_some, ih]
      cases decodeBytes t.2 rest with
      | none => rfl
      | some u =>
        simp only [Option.bind_some, Option.pure_def]
        cases decodeBytes u.2 second with
        | none => rfl
        | some v =>
          simp only [Option.map_some, Option.bind_some, List.append_assoc]

section Character

variable {n v owed low high : Nat}

theorem toNat_ofNat_of_lt (h : n < 256) : (UInt8.ofNat n).toNat = n := by
  rw [UInt8.toNat_ofNat']
  exact Nat.mod_eq_of_lt h

/-- A last byte gives its six bits and completes the character. -/
theorem decodeBytes_last (hlow : low ≤ 0x80) (hhigh : 0xBF ≤ high) :
    decodeBytes ⟨v, 1, low, high⟩ [UInt8.ofNat (n % 64 + 128)] =
      some ([Char.ofNat (v * 64 + n % 64)], .start) := by
  have hstep : PartialChar.step ⟨v, 1, low, high⟩ (UInt8.ofNat (n % 64 + 128)).toNat =
      some (some (Char.ofNat (v * 64 + n % 64)), .start) := by
    have hbits : n % 64 + 128 - 0x80 = n % 64 := Nat.add_sub_cancel ..
    have hwithin : low ≤ n % 64 + 128 ∧ n % 64 + 128 ≤ high := by omega
    rw [toNat_ofNat_of_lt (by omega)]
    unfold PartialChar.step
    rw [if_neg Nat.one_ne_zero, if_pos hwithin, if_pos rfl, hbits]
  rw [decodeBytes_cons hstep]
  rfl

/-- A byte in the middle gives its six bits, unless a surrogate would come of it. -/
theorem decodeBytes_middle (howed : 1 < owed) (hlow : low ≤ n % 64 + 128)
    (hhigh : n % 64 + 128 ≤ high)
    (hplain : ¬(owed = 2 ∧ 0x360 ≤ v * 64 + n % 64 ∧ v * 64 + n % 64 ≤ 0x37F))
    (rest : List UInt8) :
    decodeBytes ⟨v, owed, low, high⟩ (UInt8.ofNat (n % 64 + 128) :: rest) =
      decodeBytes ⟨v * 64 + n % 64, owed - 1, 0x80, 0xBF⟩ rest := by
  have hcontinued : PartialChar.continued (v * 64 + n % 64) (owed - 1) =
      ⟨v * 64 + n % 64, owed - 1, 0x80, 0xBF⟩ := by
    unfold PartialChar.continued
    rw [if_neg]
    intro h
    exact hplain ⟨by omega, h.2.1, h.2.2⟩
  have hstep : PartialChar.step ⟨v, owed, low, high⟩ (UInt8.ofNat (n % 64 + 128)).toNat =
      some (none, ⟨v * 64 + n % 64, owed - 1, 0x80, 0xBF⟩) := by
    have hbits : n % 64 + 128 - 0x80 = n % 64 := Nat.add_sub_cancel ..
    have hsome : ¬owed = 0 := by omega
    have hmore : ¬owed = 1 := by omega
    rw [toNat_ofNat_of_lt (by omega)]
    unfold PartialChar.step
    rw [if_neg hsome, if_pos ⟨hlow, hhigh⟩, if_neg hmore, hbits, hcontinued]
  rw [decodeBytes_cons hstep]
  cases decodeBytes ⟨v * 64 + n % 64, owed - 1, 0x80, 0xBF⟩ rest <;> rfl

theorem decodeBytes_lead {q : PartialChar} {found : Option Char} (hn : n < 256)
    (h : PartialChar.lead n = some (found, q)) (rest : List UInt8) :
    decodeBytes .start (UInt8.ofNat n :: rest) =
      (decodeBytes q rest).map fun t => (found.toList ++ t.1, t.2) := by
  apply decodeBytes_cons
  rw [toNat_ofNat_of_lt hn]
  exact h

/-- The first of two bytes gives the five bits of the character that it holds. -/
theorem lead_of_two {v : Nat} (hleast : 2 ≤ v) (hmost : v < 32) :
    PartialChar.lead (v % 32 + 192) = some (none, ⟨v, 1, 0x80, 0xBF⟩) := by
  have hbits : v % 32 + 192 - 0xC0 = v := by omega
  unfold PartialChar.lead
  rw [if_neg (by omega), if_pos ⟨by omega, by omega⟩, hbits]

theorem lead_of_three {v : Nat} (hmost : v < 16) :
    PartialChar.lead (v % 16 + 224) =
      some (none, ⟨v, 2, if v = 0 then 0xA0 else 0x80, 0xBF⟩) := by
  have hbits : v % 16 + 224 - 0xE0 = v := by omega
  have hzero : v % 16 + 224 = 0xE0 ↔ v = 0 := by omega
  unfold PartialChar.lead
  rw [if_neg (by omega), if_neg (by omega), if_pos ⟨by omega, by omega⟩, hbits]
  simp only [hzero]

theorem lead_of_four {v : Nat} (hmost : v ≤ 4) :
    PartialChar.lead (v % 8 + 240) =
      some (none, ⟨v, 3, if v = 0 then 0x90 else 0x80, if v = 4 then 0x8F else 0xBF⟩) := by
  have hbits : v % 8 + 240 - 0xF0 = v := by omega
  have hzero : v % 8 + 240 = 0xF0 ↔ v = 0 := by omega
  have hfour : v % 8 + 240 = 0xF4 ↔ v = 4 := by omega
  unfold PartialChar.lead
  rw [if_neg (by omega), if_neg (by omega), if_neg (by omega), if_pos ⟨by omega, by omega⟩, hbits]
  simp only [hzero, hfour]

/-- The bytes of a character are read back as that character. -/
theorem decodeBytes_utf8EncodeChar (c : Char) :
    decodeBytes .start (String.utf8EncodeChar c) = some ([c], .start) := by
  have hvalid : c.val.toNat < 0xD800 ∨ 0xDFFF < c.val.toNat ∧ c.val.toNat < 0x110000 := c.valid
  have hback : Char.ofNat c.val.toNat = c := Char.ofNat_toNat c
  -- A case for each of the four lengths.
  unfold String.utf8EncodeChar
  generalize c.val.toNat = v at hvalid hback
  dsimp only
  split
  · next h =>
    have hlead : PartialChar.lead v = some (some (Char.ofNat v), .start) := if_pos (by omega)
    rw [decodeBytes_lead (by omega) hlead, hback]
    rfl
  · split
    · next h₁ h₂ =>
      have hvalue : v / 64 * 64 + v % 64 = v := by omega
      rw [decodeBytes_lead (by omega) (lead_of_two (by omega) (by omega)),
        decodeBytes_last (Nat.le_refl _) (Nat.le_refl _)]
      simp only [hvalue, hback]
      rfl
    · split
      · next h₁ h₂ h₃ =>
        have hvalue : v / 4096 * 64 + v / 64 % 64 = v / 64 := by omega
        have hvalue' : v / 64 * 64 + v % 64 = v := by omega
        rw [decodeBytes_lead (by omega) (lead_of_three (by omega)), decodeBytes_middle (by omega),
          decodeBytes_last (Nat.le_refl _) (Nat.le_refl _)]
        · simp only [hvalue, hvalue', hback]
          rfl
        · split <;> omega
        · omega
        · omega
      · next h₁ h₂ h₃ =>
        have hvalue : v / 262144 * 64 + v / 4096 % 64 = v / 4096 := by omega
        have hvalue' : v / 4096 * 64 + v / 64 % 64 = v / 64 := by omega
        have hvalue'' : v / 64 * 64 + v % 64 = v := by omega
        rw [decodeBytes_lead (by omega) (lead_of_four (by omega)), decodeBytes_middle (by decide),
          decodeBytes_middle (by omega),
          decodeBytes_last (Nat.le_refl _) (Nat.le_refl _)]
        · simp only [hvalue, hvalue', hvalue'', hback]
          rfl
        · omega
        · omega
        · omega
        · split <;> omega
        · split <;> omega
        · omega

end Character

theorem decodeBytes_encodeUtf8 (text : List Char) :
    decodeBytes .start (encodeUtf8 text) = some (text, .start) := by
  induction text with
  | nil => rfl
  | cons c rest ih =>
    change decodeBytes .start (String.utf8EncodeChar c ++ encodeUtf8 rest) = _
    rw [decodeBytes_append, decodeBytes_utf8EncodeChar, Option.bind_some, ih]
    rfl

section Blocks

/-- Bytes that can be decoded at once can be decoded block by block. -/
theorem decodeBlocks_of_decodeBytes {p q : PartialChar} {text : List Char}
    {pieces : List (List UInt8)} (h : decodeBytes p pieces.flatten = some (text, q)) :
    decodeBlocks p pieces = ⟨text, q.owed = 0⟩ := by
  -- A block may end inside a character, so the state before it is arbitrary.
  induction pieces generalizing p text with
  | nil =>
    cases h
    rfl
  | cons block rest ih =>
    rw [List.flatten_cons, decodeBytes_append] at h
    rw [decodeBlocks]
    cases hb : decodeBytes p block with
    | none =>
      rw [hb] at h
      cases h
    | some t =>
      rw [hb, Option.bind_some] at h
      cases hr : decodeBytes t.2 rest.flatten with
      | none =>
        rw [hr] at h
        cases h
      | some u =>
        rw [hr] at h
        cases h
        have hlater := ih hr
        simp only [hlater]

theorem flatten_blocks {size : Nat} (hsize : 0 < size) (bytes : List UInt8) :
    (blocks size bytes).flatten = bytes := by
  have hpieces : ∀ n, ((List.range n).map fun i => (bytes.drop (i * size)).take size).flatten =
      bytes.take (n * size) := by
    intro n
    induction n with
    | zero => simp
    | succ n ih =>
      rw [List.range_succ, List.map_append, List.flatten_append, ih, Nat.succ_mul, List.take_add]
      simp
  have hall : bytes.length ≤ (bytes.length + size - 1) / size * size := by
    have hdiv := Nat.div_add_mod (bytes.length + size - 1) size
    have hmod := Nat.mod_lt (bytes.length + size - 1) hsize
    rw [Nat.mul_comm] at hdiv
    omega
  unfold blocks
  rw [hpieces, List.take_of_length_le hall]

end Blocks

/-- An encoded text is read back as a whole. -/
theorem decodeUtf8_encodeUtf8 (text : List Char) :
    decodeUtf8 (encodeUtf8 text) = ⟨text, true⟩ := by
  have h : decodeBytes .start (blocks blockSize (encodeUtf8 text)).flatten =
      some (text, .start) := by
    rw [flatten_blocks (by decide)]
    exact decodeBytes_encodeUtf8 text
  exact decodeBlocks_of_decodeBytes h

section LineFeeds

/-- The byte of a line feed does not occur in the bytes of any other character. -/
theorem count_utf8EncodeChar (c : Char) :
    (String.utf8EncodeChar c).count 10 = if c = '\n' then 1 else 0 := by
  have hfeed : c = '\n' ↔ c.val.toNat = 10 := by
    rw [Char.ext_iff, ← UInt32.toNat_inj]
    rfl
  have hother {n : Nat} (h : n < 256) (hne : n ≠ 10) : 10 ≠ UInt8.ofNat n := by
    intro heq
    have hbyte : (10 : UInt8).toNat = n := by rw [heq, toNat_ofNat_of_lt h]
    exact hne hbyte.symm
  simp only [hfeed]
  unfold String.utf8EncodeChar
  generalize c.val.toNat = v
  dsimp only
  by_cases hv : v = 10
  · subst hv
    rfl
  · rw [if_neg hv, List.count_eq_zero]
    -- A case for each of the four lengths. From two bytes on, all of them are above 127.
    split
    · rw [List.mem_singleton]
      exact hother (by omega) hv
    · split
      · simp only [List.mem_cons, List.not_mem_nil, or_false, not_or]
        exact ⟨hother (by omega) (by omega), hother (by omega) (by omega)⟩
      · split
        · simp only [List.mem_cons, List.not_mem_nil, or_false, not_or]
          exact ⟨hother (by omega) (by omega), hother (by omega) (by omega),
            hother (by omega) (by omega)⟩
        · simp only [List.mem_cons, List.not_mem_nil, or_false, not_or]
          exact ⟨hother (by omega) (by omega), hother (by omega) (by omega),
            hother (by omega) (by omega), hother (by omega) (by omega)⟩

theorem count_encodeUtf8 (text : List Char) : (encodeUtf8 text).count 10 = text.count '\n' := by
  induction text with
  | nil => rfl
  | cons c rest ih =>
    change (String.utf8EncodeChar c ++ encodeUtf8 rest).count 10 = _
    rw [List.count_append, count_utf8EncodeChar, ih, List.count_cons, Nat.add_comm]
    simp only [beq_iff_eq]

end LineFeeds

end RequestWindows.Text
