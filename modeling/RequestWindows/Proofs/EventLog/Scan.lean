import RequestWindows.EventLog.Basic
import RequestWindows.Proofs.Collection.Bindings
import RequestWindows.Store.Table

namespace RequestWindows

namespace LogName

theorem exists_digitChar {c : Char} (h : c.isDigit = true) : ∃ d < 10, c = Nat.digitChar d := by
  have hbounds : 48 ≤ c.toNat ∧ c.toNat ≤ 57 := by
    unfold Char.isDigit at h
    rw [Bool.and_eq_true, decide_eq_true_eq, decide_eq_true_eq] at h
    exact h
  refine ⟨c.toNat - 48, by omega, ?_⟩
  apply Char.toNat_inj.mp
  rw [Nat.toNat_digitChar_of_lt_ten (by omega)]
  omega

theorem digitValue?_of_isDigit {c : Char} (h : c.isDigit = true) :
    Text.digitValue? c = some (c.toNat - 48) := by
  have hall : ∀ d < 10, Text.digitValue? (Nat.digitChar d) =
      some ((Nat.digitChar d).toNat - 48) := by decide +kernel
  obtain ⟨d, hd, rfl⟩ := exists_digitChar h
  exact hall d hd

theorem isSpace_of_isDigit {c : Char} (h : c.isDigit = true) : Text.isSpace c = false := by
  have hall : ∀ d < 10, Text.isSpace (Nat.digitChar d) = false := by decide +kernel
  obtain ⟨d, hd, rfl⟩ := exists_digitChar h
  exact hall d hd

theorem dropWhile_isSpace_of_digits {ds : List Char} (h : ∀ c ∈ ds, c.isDigit = true) :
    ds.dropWhile Text.isSpace = ds := by
  cases ds with
  | nil => rfl
  | cons c rest =>
    rw [List.dropWhile_cons_of_neg]
    rw [isSpace_of_isDigit (h c (.head _))]
    exact Bool.false_ne_true

theorem trimSpaces_of_digits {ds : List Char} (h : ∀ c ∈ ds, c.isDigit = true) :
    Text.trimSpaces ds = ds := by
  have hreverse : ∀ c ∈ ds.reverse, c.isDigit = true := by
    intro c hc
    exact h c (List.mem_reverse.mp hc)
  unfold Text.trimSpaces Text.trimBy
  rw [dropWhile_isSpace_of_digits h, dropWhile_isSpace_of_digits hreverse, List.reverse_reverse]

theorem splitSign_of_digits {ds : List Char} (h : ∀ c ∈ ds, c.isDigit = true) :
    splitSign ds = (false, ds) := by
  unfold splitSign
  split
  · exact absurd (h '-' (.head _)) (by decide)
  · exact absurd (h '+' (.head _)) (by decide)
  · rfl

theorem groupedDigits_of_digits {ds : List Char} (h : ∀ c ∈ ds, c.isDigit = true) (after : Bool)
    (hne : after = true ∨ ds ≠ []) :
    groupedDigits Text.digitValue? after ds = some (ds.map fun c => c.toNat - 48) := by
  induction ds generalizing after with
  | nil =>
    have hafter : after = true := hne.resolve_right (fun hn => hn rfl)
    rw [hafter]
    rfl
  | cons c rest ih =>
    have hc : c.isDigit = true := h c (.head _)
    have hunderscore : c ≠ '_' := by
      rintro rfl
      exact absurd hc (by decide)
    have hrest := ih (fun d hd => h d (.tail _ hd)) true (Or.inl rfl)
    rw [groupedDigits, if_neg hunderscore, digitValue?_of_isDigit hc]
    simp only [Option.bind_eq_bind, Option.bind_some, hrest]
    rfl

theorem ofDigits_eq_ofDigitChars (ds : List Char) (n : Nat) :
    (ds.map fun c => c.toNat - 48).foldl (fun n d => 10 * n + d) n = Nat.ofDigitChars 10 ds n := by
  rw [Nat.ofDigitChars_eq_foldl, List.foldl_map]
  rfl

theorem readInt_toDigits {n : Nat} (h : (Nat.toDigits 10 n).length ≤ maxDigits) :
    readInt (Nat.toDigits 10 n) = some (n : Int) := by
  have hdigits : ∀ c ∈ Nat.toDigits 10 n, c.isDigit = true := fun c hc => isDigit_of_mem_toDigits hc
  have hne : Nat.toDigits 10 n ≠ [] := List.ne_nil_of_length_pos Nat.length_toDigits_pos
  have hvalue : ofDigits ((Nat.toDigits 10 n).map fun c => c.toNat - 48) = n := by
    unfold ofDigits
    rw [ofDigits_eq_ofDigitChars, Nat.ofDigitChars_toDigits (by decide) (by decide)]
  unfold readInt
  rw [trimSpaces_of_digits hdigits, splitSign_of_digits hdigits]
  change (do
    let digits ← groupedDigits Text.digitValue? false (Nat.toDigits 10 n)
    if digits.length ≤ maxDigits then return signed false (ofDigits digits) else none) = _
  rw [groupedDigits_of_digits hdigits false (Or.inr hne)]
  simp only [Option.bind_eq_bind, Option.bind_some, List.length_map, if_pos h, hvalue]
  rfl

/-- A numeral of digits alone has no sign. -/
theorem nonneg_of_readInt {ds : List Char} {k : Int} (h : ∀ c ∈ ds, Text.isDigit c = true)
    (hread : readInt ds = some k) : 0 ≤ k := by
  have htrim : ∀ c ∈ Text.trimSpaces ds, Text.isDigit c = true := by
    intro c hc
    unfold Text.trimSpaces Text.trimBy at hc
    rw [List.mem_reverse] at hc
    have hinner := List.mem_reverse.mp ((List.dropWhile_suffix _).subset hc)
    exact h c ((List.dropWhile_suffix _).subset hinner)
  have hsign : (splitSign (Text.trimSpaces ds)).1 = false := by
    unfold splitSign
    split
    · next rest heq =>
      have hminus := htrim '-' (by rw [heq]; exact .head _)
      exact absurd hminus (by decide +kernel)
    · rfl
    · rfl
  unfold readInt at hread
  simp only [Option.bind_eq_bind, Option.bind_eq_some_iff] at hread
  obtain ⟨digits, _, hread⟩ := hread
  split at hread
  · rw [hsign] at hread
    cases hread
    exact Int.natCast_nonneg _
  · cases hread

theorem isDigit_of_mem_stem {name : String} {n : LogName} (h : ofString? name = some n) :
    ∀ c ∈ n.stem, Text.isDigit c = true := by
  unfold ofString? at h
  dsimp only at h
  rw [Option.ite_none_right_eq_some] at h
  obtain ⟨⟨_, hdigits⟩, heq⟩ := h
  cases heq
  exact List.all_eq_true.mp hdigits

end LogName

theorem utf8ByteSize_ofList {cs : List Char} (h : ∀ c ∈ cs, c.utf8Size = 1) :
    (String.ofList cs).utf8ByteSize = cs.length := by
  induction cs with
  | nil => rfl
  | cons c rest ih =>
    have hrest := ih fun d hd => h d (.tail _ hd)
    rw [String.ofList_cons, String.utf8ByteSize_append, String.utf8ByteSize_singleton,
      h c (.head _), hrest, List.length_cons]
    omega

theorem utf8ByteSize_sealedName (key : Int) :
    (sealedName key).utf8ByteSize =
      (if key < 0 then 1 else 0) + (Nat.toDigits 10 key.natAbs).length := by
  have hone : ∀ d < 10, (Nat.digitChar d).utf8Size = 1 := by decide
  have hdigits : ∀ c ∈ Nat.toDigits 10 key.natAbs, c.utf8Size = 1 := by
    intro c hc
    obtain ⟨d, hd, rfl⟩ := LogName.exists_digitChar (LogName.isDigit_of_mem_toDigits hc)
    exact hone d hd
  have hlist := toList_sealedName key
  rw [← String.ofList_toList (s := sealedName key), hlist]
  split
  · have hall : ∀ c ∈ '-' :: Nat.toDigits 10 key.natAbs, c.utf8Size = 1 := by
      intro c hc
      rcases List.mem_cons.mp hc with hc | hc
      · rw [hc]
        rfl
      · exact hdigits c hc
    rw [utf8ByteSize_ofList hall, List.length_cons]
    omega
  · rw [utf8ByteSize_ofList hdigits]
    omega

namespace EventLog

variable {log : EventLog} {key : Int}

theorem find_of_isSealed (h : log.isSealed key = .ok true) :
    (sealedName key).utf8ByteSize ≤ Directory.maxNameSize ∧
      ∃ e, log.directory.get? (sealedName key) = some e ∧ e.isFile = true := by
  unfold isSealed Directory.hasFile at h
  cases hf : log.directory.find (sealedName key) with
  | error e =>
    rw [hf] at h
    cases h
  | ok entry =>
    have hget := Directory.get?_of_find hf
    rw [hf] at h
    have hany : entry.any Entry.isFile = true := Except.ok.inj h
    obtain ⟨e, rfl, hfile⟩ := (Option.any_eq_true ..).mp hany
    refine ⟨?_, e, hget, hfile⟩
    apply Nat.le_of_not_lt
    intro hlong
    unfold Directory.find at hf
    rw [if_pos hlong] at hf
    cases hf

theorem mem_keysOfNames {names : List LogName} {found : List (Int × Bool)} {n : LogName}
    (h : keysOfNames names = .ok found) (hn : n ∈ names) (hkey : n.key? = some key) :
    (key, n.isSealed) ∈ found := by
  induction names generalizing found with
  | nil => cases hn
  | cons m rest ih =>
    rw [keysOfNames] at h
    cases hm : m.key? with
    | none =>
      rw [hm] at h
      cases h
    | some k =>
      rw [hm] at h
      cases hrest : keysOfNames rest with
      | error e =>
        rw [hrest] at h
        cases h
      | ok later =>
        rw [hrest] at h
        have hfound : found = (k, m.isSealed) :: later := (Except.ok.inj h).symm
        rw [hfound]
        rcases List.mem_cons.mp hn with rfl | hn
        · rw [hkey] at hm
          cases hm
          exact .head _
        · exact .tail _ (ih hrest hn)

theorem exists_of_mem_keysOfNames {names : List LogName} {found : List (Int × Bool)}
    (h : keysOfNames names = .ok found) {f : Int × Bool} (hf : f ∈ found) :
    ∃ n ∈ names, n.key? = some f.1 ∧ n.isSealed = f.2 := by
  induction names generalizing found with
  | nil =>
    cases h
    cases hf
  | cons n rest ih =>
    rw [keysOfNames] at h
    cases hn : n.key? with
    | none =>
      rw [hn] at h
      cases h
    | some k =>
      rw [hn] at h
      cases hrest : keysOfNames rest with
      | error e =>
        rw [hrest] at h
        cases h
      | ok later =>
        rw [hrest] at h
        cases h
        rcases List.mem_cons.mp hf with rfl | hf
        · exact ⟨n, .head _, hn, rfl⟩
        · obtain ⟨m, hm, hkey⟩ := ih hrest hf
          exact ⟨m, .tail _ hm, hkey⟩

theorem ofString?_sealedName (h : 0 ≤ key) :
    LogName.ofString? (sealedName key) = some ⟨Nat.toDigits 10 key.natAbs, true⟩ := by
  have hlist : (sealedName key).toList = Nat.toDigits 10 key.natAbs := by
    rw [toList_sealedName, if_neg (by omega)]
  have hdigit {c : Char} (hc : c ∈ Nat.toDigits 10 key.natAbs) : c.isDigit = true :=
    LogName.isDigit_of_mem_toDigits hc
  have hending : ¬openEnding.toList <:+ Nat.toDigits 10 key.natAbs := by
    intro hsuffix
    have hm : 'm' ∈ Nat.toDigits 10 key.natAbs := hsuffix.subset (by decide)
    exact absurd (hdigit hm) (by decide)
  have hall : (Nat.toDigits 10 key.natAbs).all Text.isDigit = true := by
    rw [List.all_eq_true]
    intro c hc
    unfold Text.isDigit
    rw [LogName.digitValue?_of_isDigit (hdigit hc)]
    rfl
  have hne : Nat.toDigits 10 key.natAbs ≠ [] := List.ne_nil_of_length_pos Nat.length_toDigits_pos
  unfold LogName.ofString?
  simp [hlist, List.isSuffixOf_iff_suffix, hending, hne, hall]

/-- A sealed log is found by a scan, unless its key is negative. -/
theorem mem_sealedKeys {sealed : List Int} (hkeys : log.sealedKeys = .ok sealed) (hk : 0 ≤ key)
    (h : log.isSealed key = .ok true) : key ∈ sealed := by
  obtain ⟨hshort, e, hget, hfile⟩ := find_of_isSealed h
  rw [utf8ByteSize_sealedName] at hshort
  have hlength : (Nat.toDigits 10 key.natAbs).length ≤ maxDigits := by
    have hmax : Directory.maxNameSize ≤ maxDigits := by decide
    omega
  have hname : (⟨Nat.toDigits 10 key.natAbs, true⟩ : LogName) ∈ logNames log.directory := by
    refine List.mem_filterMap.mpr ⟨(sealedName key, e), ?_, ofString?_sealedName hk⟩
    exact List.mem_filter.mpr ⟨KeyedList.mem_entries_iff.mpr hget, hfile⟩
  have hread : LogName.key? ⟨Nat.toDigits 10 key.natAbs, true⟩ = some key := by
    unfold LogName.key?
    rw [LogName.readInt_toDigits hlength, Int.natAbs_of_nonneg hk]
  unfold sealedKeys at hkeys
  cases hscan : log.scan with
  | error err =>
    rw [hscan] at hkeys
    cases hkeys
  | ok found =>
    rw [hscan] at hkeys
    have hsorted := Except.ok.inj hkeys
    have hmem : (key, true) ∈ found := mem_keysOfNames hscan hname hread
    have hfiltered : key ∈ (found.filter fun f => f.2).map Prod.fst :=
      List.mem_map_of_mem (f := Prod.fst) (List.mem_filter.mpr ⟨hmem, rfl⟩)
    rw [← hsorted]
    exact (sortBy_perm _ _).mem_iff.mpr hfiltered

/-- No sealed log that a scan finds has a negative key. -/
theorem nonneg_of_mem_sealedKeys {sealed : List Int} (hkeys : log.sealedKeys = .ok sealed)
    (hk : key ∈ sealed) : 0 ≤ key := by
  unfold sealedKeys scan at hkeys
  cases hfound : keysOfNames (logNames log.directory) with
  | error err =>
    rw [hfound] at hkeys
    cases hkeys
  | ok found =>
    rw [hfound] at hkeys
    have hsorted : sortInts ((found.filter fun f => f.2).map Prod.fst) = sealed :=
      Except.ok.inj hkeys
    rw [← hsorted, sortInts, (sortBy_perm _ _).mem_iff] at hk
    obtain ⟨f, hf, rfl⟩ := List.mem_map.mp hk
    obtain ⟨n, hn, hread, _⟩ := exists_of_mem_keysOfNames hfound (List.mem_filter.mp hf).1
    obtain ⟨b, _, hname⟩ := List.mem_filterMap.mp hn
    exact LogName.nonneg_of_readInt (LogName.isDigit_of_mem_stem hname) hread

/-- The oldest of the sealed windows comes first. -/
theorem head_le_of_mem {sealed : List Int} (hkeys : log.sealedKeys = .ok sealed)
    (hm : key ∈ sealed) (other : Int) : sealed.head?.getD other ≤ key := by
  have hsorted : sealed.Pairwise fun a b => decide (a ≤ b) = true := by
    unfold sealedKeys at hkeys
    cases hscan : log.scan with
    | error err =>
      rw [hscan] at hkeys
      cases hkeys
    | ok found =>
      rw [hscan] at hkeys
      rw [← Except.ok.inj hkeys]
      apply pairwise_sortBy
      · intro a b c hab hbc
        have h1 : a ≤ b := of_decide_eq_true hab
        have h2 : b ≤ c := of_decide_eq_true hbc
        exact decide_eq_true (Int.le_trans h1 h2)
      · intro a b
        rcases Int.le_total a b with h | h
        · exact Or.inl (decide_eq_true h)
        · exact Or.inr (decide_eq_true h)
  cases sealed with
  | nil => cases hm
  | cons first rest =>
    rw [List.head?_cons, Option.getD_some]
    rcases List.mem_cons.mp hm with rfl | hm
    · exact Int.le_refl _
    · exact of_decide_eq_true (List.rel_of_pairwise_cons hsorted hm)

theorem isSealed_of_short (log : EventLog)
    (h : (sealedName key).utf8ByteSize ≤ Directory.maxNameSize) :
    ∃ b, log.isSealed key = .ok b := by
  unfold isSealed Directory.hasFile Directory.find
  rw [if_neg (Nat.not_lt.mpr h)]
  exact ⟨_, rfl⟩

/-- Asking for a window whose key has 64 bits does not fail. -/
theorem isSealed_of_fits (log : EventLog) (h : fitsBits 64 key = true) :
    ∃ b, log.isSealed key = .ok b := by
  have hsmall : key.natAbs < 10 ^ 19 := by
    have hbounds := fitsBits_iff.mp h
    have hpow : Nat.pow 2 (64 - 1) < 10 ^ 19 := by decide
    omega
  have hlength : (Nat.toDigits 10 key.natAbs).length ≤ 19 :=
    (Nat.length_toDigits_le_iff (by decide) (by decide)).mpr hsmall
  apply log.isSealed_of_short
  rw [utf8ByteSize_sealedName]
  have hmax : Directory.maxNameSize = 255 := rfl
  split <;> omega

/-- Nor does asking for one before a sealed window, if no key is negative: its name is no longer. -/
theorem isSealed_of_le {k : Int} (h : log.isSealed key = .ok true) (hk : 0 ≤ k) (hle : k ≤ key) :
    ∃ b, log.isSealed k = .ok b := by
  have hmax : 0 < Directory.maxNameSize := by decide
  have hshort := (find_of_isSealed h).1
  rw [utf8ByteSize_sealedName, if_neg (by omega), Nat.zero_add,
    Nat.length_toDigits_le_iff (by decide) hmax] at hshort
  apply log.isSealed_of_short
  rw [utf8ByteSize_sealedName, if_neg (by omega), Nat.zero_add,
    Nat.length_toDigits_le_iff (by decide) hmax]
  exact Nat.lt_of_le_of_lt (by omega) hshort

end EventLog

end RequestWindows
