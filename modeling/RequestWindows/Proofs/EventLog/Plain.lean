import RequestWindows.Proofs.EventLog.Files
import RequestWindows.Proofs.EventLog.Scan

namespace RequestWindows

section Names

variable {key : Int}

theorem ofString?_openName (h : 0 ≤ key) :
    LogName.ofString? (openName key) = some ⟨Nat.toDigits 10 key.natAbs, false⟩ := by
  have hlist : (openName key).toList = Nat.toDigits 10 key.natAbs ++ openEnding.toList := by
    unfold openName
    rw [String.toList_append]
    change (sealedName key).toList ++ _ = _
    rw [toList_sealedName, if_neg (by omega)]
  have hending : openEnding.toList.isSuffixOf (openName key).toList = true := by
    rw [List.isSuffixOf_iff_suffix, hlist]
    exact List.suffix_append _ _
  have htake : (openName key).toList.take
      ((openName key).toList.length - openEnding.toList.length) = Nat.toDigits 10 key.natAbs := by
    rw [hlist, List.length_append, Nat.add_sub_cancel, List.take_left]
  have hall : (Nat.toDigits 10 key.natAbs).all Text.isDigit = true := by
    rw [List.all_eq_true]
    intro c hc
    unfold Text.isDigit
    rw [LogName.digitValue?_of_isDigit (LogName.isDigit_of_mem_toDigits hc)]
    rfl
  have hne : Nat.toDigits 10 key.natAbs ≠ [] := Nat.toDigits_ne_nil
  unfold LogName.ofString?
  simp [hending, htake, hne, hall]

theorem ofString?_logName (h : 0 ≤ key) (isSealed : Bool) :
    LogName.ofString? (logName key isSealed) =
      some ⟨Nat.toDigits 10 key.natAbs, isSealed⟩ := by
  cases isSealed with
  | true => exact EventLog.ofString?_sealedName h
  | false => exact ofString?_openName h

theorem length_toDigits_of_fits (h : fitsBits 64 key = true) :
    (Nat.toDigits 10 key.natAbs).length ≤ 19 := by
  have hbounds := fitsBits_iff.mp h
  have hpow : Nat.pow 2 (64 - 1) < 10 ^ 19 := by decide
  exact (Nat.length_toDigits_le_iff (by decide) (by decide)).mpr (by omega)

theorem key?_of_fits (hk : 0 ≤ key) (h : fitsBits 64 key = true) (isSealed : Bool) :
    LogName.key? ⟨Nat.toDigits 10 key.natAbs, isSealed⟩ = some key := by
  have hlength : (Nat.toDigits 10 key.natAbs).length ≤ maxDigits :=
    Nat.le_trans (length_toDigits_of_fits h) (by decide)
  unfold LogName.key?
  rw [LogName.readInt_toDigits hlength, Int.natAbs_of_nonneg hk]

theorem utf8ByteSize_logName_le (h : fitsBits 64 key = true) (isSealed : Bool) :
    (logName key isSealed).utf8ByteSize ≤ Directory.maxNameSize := by
  have hsealed : (sealedName key).utf8ByteSize ≤ 20 := by
    have hlength := length_toDigits_of_fits h
    rw [utf8ByteSize_sealedName]
    split
    · omega
    · omega
  cases isSealed with
  | true => exact Nat.le_trans hsealed (by decide)
  | false =>
    change (sealedName key ++ openEnding).utf8ByteSize ≤ _
    rw [String.utf8ByteSize_append]
    have hending : openEnding.utf8ByteSize = 4 := rfl
    have hmax : Directory.maxNameSize = 255 := rfl
    omega

end Names

namespace EventLog

variable {log : EventLog} {key : Int}

/-- A directory with window logs and nothing else. Their keys have 64 bits and are not negative. -/
def Plain (log : EventLog) : Prop :=
  ∀ name entry, log.directory.get? name = some entry → entry.isFile = true ∧
    ∃ key isSealed, name = logName key isSealed ∧ 0 ≤ key ∧ fitsBits 64 key = true

theorem Plain.key_of_logAt (h : log.Plain) {isSealed : Bool} {entry : Entry}
    (hlog : log.logAt key isSealed = some entry) :
    entry.isFile = true ∧ 0 ≤ key ∧ fitsBits 64 key = true := by
  obtain ⟨hfile, k, b, hname, hk, hfits⟩ := h _ _ hlog
  obtain ⟨rfl, _⟩ := logName_inj.mp hname
  exact ⟨hfile, hk, hfits⟩

theorem find_of_fits (log : EventLog) (h : fitsBits 64 key = true) (isSealed : Bool) :
    log.directory.find (logName key isSealed) = .ok (log.logAt key isSealed) :=
  log.find_logName (utf8ByteSize_logName_le h isSealed)

theorem isSealed_eq_of_fits (h : fitsBits 64 key = true) :
    log.isSealed key = .ok ((log.logAt key true).any Entry.isFile) := by
  have hfind : log.directory.find (sealedName key) = .ok (log.logAt key true) :=
    log.find_of_fits h true
  unfold isSealed Directory.hasFile
  rw [hfind]
  rfl

theorem keysOfNames_of_forall {names : List LogName} (h : ∀ n ∈ names, ∃ k, n.key? = some k) :
    ∃ found, keysOfNames names = .ok found := by
  induction names with
  | nil => exact ⟨[], rfl⟩
  | cons n rest ih =>
    obtain ⟨k, hk⟩ := h n (.head _)
    obtain ⟨found, hfound⟩ := ih fun m hm => h m (.tail _ hm)
    refine ⟨(k, n.isSealed) :: found, ?_⟩
    rw [keysOfNames, hk, hfound]
    rfl

theorem Plain.exists_of_mem_logNames (h : log.Plain) {n : LogName}
    (hn : n ∈ logNames log.directory) :
    ∃ key, n.key? = some key ∧ log.logAt key n.isSealed ≠ none := by
  obtain ⟨⟨name, entry⟩, hentry, hname⟩ := List.mem_filterMap.mp hn
  have hget := KeyedList.mem_entries_iff.mp (List.mem_filter.mp hentry).1
  obtain ⟨_, key, isSealed, rfl, hk, hfits⟩ := h name entry hget
  rw [ofString?_logName hk] at hname
  cases hname
  refine ⟨key, key?_of_fits hk hfits isSealed, ?_⟩
  unfold logAt
  rw [hget]
  exact Option.some_ne_none _

/-- A scan of a directory with window logs only finds the sealed windows. -/
theorem Plain.sealedKeys (h : log.Plain) :
    ∃ sealed, log.sealedKeys = .ok sealed ∧ ∀ k, k ∈ sealed ↔ log.logAt k true ≠ none := by
  have hread : ∀ n ∈ logNames log.directory, ∃ k, n.key? = some k := by
    intro n hn
    obtain ⟨key, hkey, _⟩ := h.exists_of_mem_logNames hn
    exact ⟨key, hkey⟩
  -- A single name that is no key would make the whole scan fail.
  obtain ⟨found, hfound⟩ := keysOfNames_of_forall hread
  have hkeys : log.sealedKeys =
      .ok (sortInts ((found.filter fun f => f.2).map Prod.fst)) := by
    unfold EventLog.sealedKeys scan
    rw [hfound]
    rfl
  refine ⟨_, hkeys, ?_⟩
  intro k
  constructor
  · intro hk
    rw [sortInts, (sortBy_perm _ _).mem_iff] at hk
    obtain ⟨f, hf, rfl⟩ := List.mem_map.mp hk
    obtain ⟨hf, hsealed⟩ := List.mem_filter.mp hf
    obtain ⟨n, hn, hread, hisSealed⟩ := exists_of_mem_keysOfNames hfound hf
    obtain ⟨key, hkey, hlog⟩ := h.exists_of_mem_logNames hn
    rw [hread] at hkey
    cases hkey
    rw [hisSealed, hsealed] at hlog
    exact hlog
  · intro hlog
    obtain ⟨entry, hentry⟩ := Option.ne_none_iff_exists'.mp hlog
    obtain ⟨hfile, hk, hfits⟩ := h.key_of_logAt hentry
    apply mem_sealedKeys hkeys hk
    rw [isSealed_eq_of_fits hfits, hentry, Option.any_some, hfile]

theorem Plain.isSealed_iff (h : log.Plain) (hkey : fitsBits 64 key = true) :
    log.isSealed key = .ok true ↔ log.logAt key true ≠ none := by
  rw [isSealed_eq_of_fits hkey]
  cases hentry : log.logAt key true with
  | none => simp
  | some entry => simp [(h.key_of_logAt hentry).1]

end EventLog

end RequestWindows
