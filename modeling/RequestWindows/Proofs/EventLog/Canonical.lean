import Mathlib.Data.List.Forall2
import Mathlib.Data.List.Nodup
import RequestWindows.Proofs.EventLog.Plain

/-! A scan reads keys off the names that it meets, a question writes the name of its key. They
disagree about digits of other scripts and leading zeros, which are read but never written. -/
namespace RequestWindows

namespace LogName

/-- A name is its stem, followed by the ending of an open log unless that is missing. -/
theorem toList_of_ofString? {name : String} {n : LogName} (h : ofString? name = some n) :
    name.toList = n.stem ++ if n.isSealed then [] else openEnding.toList := by
  unfold ofString? at h
  dsimp only at h
  rw [Option.ite_none_right_eq_some] at h
  obtain ⟨_, heq⟩ := h
  rw [← Option.some.inj heq]
  by_cases hending : openEnding.toList.isSuffixOf name.toList = true
  · obtain ⟨front, hfront⟩ := List.isSuffixOf_iff_suffix.mp hending
    have hlength : name.toList.length - openEnding.toList.length = front.length := by
      rw [← hfront, List.length_append, Nat.add_sub_cancel]
    have htake : name.toList.take front.length = front := by
      rw [← hfront, List.take_left]
    simp [hending, hlength, htake, hfront]
  · simp [hending]

theorem ofString?_injective {a b : String} {n : LogName} (ha : ofString? a = some n)
    (hb : ofString? b = some n) : a = b := by
  apply String.ext
  rw [toList_of_ofString? ha, toList_of_ofString? hb]

end LogName

namespace Directory

/-- Whether a file stands under a name. -/
def fileAt (d : Directory) (name : String) : Bool := (d.get? name).any Entry.isFile

/-- Whether the file of that name is the log of a window from 0 on. -/
def LogFile (d : Directory) (name : String) : Prop :=
  d.fileAt name = true ∧ ∃ key kind, 0 ≤ key ∧ name = logName key kind

variable {d : Directory} {name : String}

theorem fileAt_iff : d.fileAt name = true ↔ ∃ bytes, d.get? name = some (.file bytes) := by
  unfold fileAt
  cases hentry : d.get? name with
  | none => simp
  | some entry => cases entry <;> simp [Entry.isFile]

theorem hasFile_eq_ok_true_iff :
    d.hasFile name = .ok true ↔ name.utf8ByteSize ≤ maxNameSize ∧ d.fileAt name = true := by
  unfold hasFile find fileAt
  by_cases hlong : maxNameSize < name.utf8ByteSize
  · rw [if_pos hlong]
    constructor
    · intro h
      cases h
    · rintro ⟨hshort, _⟩
      exact absurd hlong (Nat.not_lt.mpr hshort)
  · rw [if_neg hlong]
    have hshort : name.utf8ByteSize ≤ maxNameSize := Nat.not_lt.mp hlong
    constructor
    · intro h
      exact ⟨hshort, Except.ok.inj h⟩
    · rintro ⟨_, h⟩
      exact congrArg Except.ok h

end Directory

namespace EventLog

variable {log : EventLog} {d : Directory} {key : Int} {kind : Bool} {keys : List Int}

/-- The windows that have a log of one kind, as a scan finds them: sealed logs or open ones. -/
def listed (log : EventLog) (kind : Bool) : Except LogError (List Int) :=
  if kind then log.sealedKeys else log.openKeys

/-- Whether a window has a log of one kind. -/
def holds (log : EventLog) (key : Int) (kind : Bool) : Except LogError Bool :=
  if kind then log.isSealed key else log.isOpen key

/-- The windows from 0 on that have a log of one kind, each once and in ascending order. -/
structure Lists (log : EventLog) (kind : Bool) (keys : List Int) : Prop where
  ascending : keys.Pairwise (· < ·)
  mem_iff : ∀ key, 0 ≤ key → (key ∈ keys ↔ log.holds key kind = .ok true)

/-- Every file with the name of a log, a stem of digits, has a name that is written for a key. No
file has a name with more bytes than a name may have. -/
def Canonical (log : EventLog) : Prop :=
  ∀ name, log.directory.fileAt name = true → LogName.ofString? name ≠ none →
    name.utf8ByteSize ≤ Directory.maxNameSize ∧
      ∃ key kind, 0 ≤ key ∧ name = logName key kind

theorem holds_eq_ok_true_iff : log.holds key kind = .ok true ↔
    (logName key kind).utf8ByteSize ≤ Directory.maxNameSize ∧
      log.directory.fileAt (logName key kind) = true := by
  have hholds : log.holds key kind =
      (log.directory.hasFile (logName key kind)).mapError .file := by
    cases kind <;> rfl
  rw [hholds, ← Directory.hasFile_eq_ok_true_iff]
  cases log.directory.hasFile (logName key kind) with
  | error e => simp [Except.mapError]
  | ok b => simp [Except.mapError]

section Names

theorem mem_logNames {n : LogName} :
    n ∈ logNames d ↔ ∃ name, d.fileAt name = true ∧ LogName.ofString? name = some n := by
  constructor
  · intro hn
    obtain ⟨⟨name, entry⟩, hentry, hname⟩ := List.mem_filterMap.mp hn
    obtain ⟨hmem, hfile⟩ := List.mem_filter.mp hentry
    have hget : d.get? name = some entry := KeyedList.mem_entries_iff.mp hmem
    refine ⟨name, ?_, hname⟩
    rw [Directory.fileAt, hget, Option.any_some]
    exact hfile
  · rintro ⟨name, hfile, hname⟩
    obtain ⟨bytes, hget⟩ := Directory.fileAt_iff.mp hfile
    refine List.mem_filterMap.mpr ⟨(name, .file bytes), ?_, hname⟩
    exact List.mem_filter.mpr ⟨KeyedList.mem_entries_iff.mpr hget, rfl⟩

/-- Files have different names, which are read differently. -/
theorem nodup_logNames (d : Directory) : (logNames d).Nodup := by
  have hnames : logNames d =
      ((d.entries.filter fun b => b.2.isFile).map Prod.fst).filterMap LogName.ofString? := by
    rw [List.filterMap_map]
    rfl
  rw [hnames]
  apply List.Nodup.filterMap
  · intro a b n ha hb
    exact LogName.ofString?_injective ha hb
  · exact d.nodup_keys.sublist (List.filter_sublist.map _)

/-- The name that is written for a key is read as that key. -/
theorem key?_logName (hk : 0 ≤ key)
    (hshort : (logName key kind).utf8ByteSize ≤ Directory.maxNameSize) :
    LogName.key? ⟨Nat.toDigits 10 key.natAbs, kind⟩ = some key := by
  have hsealed : (sealedName key).utf8ByteSize ≤ (logName key kind).utf8ByteSize := by
    cases kind with
    | true => exact Nat.le_refl _
    | false =>
      change _ ≤ (sealedName key ++ openEnding).utf8ByteSize
      rw [String.utf8ByteSize_append]
      exact Nat.le_add_right _ _
  have hlength : (Nat.toDigits 10 key.natAbs).length ≤ maxDigits := by
    have hmax : Directory.maxNameSize ≤ maxDigits := by decide
    rw [utf8ByteSize_sealedName, if_neg (by omega)] at hsealed
    omega
  unfold LogName.key?
  rw [LogName.readInt_toDigits hlength, Int.natAbs_of_nonneg hk]

/-- Names are canonical where every file that is read as a log is found among those of the first
windows. -/
theorem canonical_of_entries (bound : Nat)
    (h : ∀ b ∈ log.directory.entries, b.2.isFile = true → LogName.ofString? b.1 ≠ none →
      b.1.utf8ByteSize ≤ Directory.maxNameSize ∧
        ∃ key < bound, b.1 = sealedName key ∨ b.1 = openName key) : log.Canonical := by
  intro name hfile hname
  obtain ⟨bytes, hget⟩ := Directory.fileAt_iff.mp hfile
  obtain ⟨hshort, key, _, hkey⟩ :=
    h (name, .file bytes) (KeyedList.mem_entries_iff.mpr hget) rfl hname
  refine ⟨hshort, key, ?_⟩
  rcases hkey with hsealed | hopen
  · exact ⟨true, Int.natCast_nonneg key, hsealed⟩
  · exact ⟨false, Int.natCast_nonneg key, hopen⟩

theorem Canonical.logFile_iff (h : log.Canonical) {name : String} :
    log.directory.LogFile name ↔
      log.directory.fileAt name = true ∧ LogName.ofString? name ≠ none := by
  constructor
  · rintro ⟨hfile, key, kind, hk, rfl⟩
    rw [ofString?_logName hk]
    exact ⟨hfile, Option.some_ne_none _⟩
  · rintro ⟨hfile, hname⟩
    exact ⟨hfile, (h name hfile hname).2⟩

/-- The names that a scan meets in a directory with canonical names. -/
theorem Canonical.exists_of_mem_logNames (h : log.Canonical) {n : LogName}
    (hn : n ∈ logNames log.directory) :
    ∃ key, 0 ≤ key ∧ n = ⟨Nat.toDigits 10 key.natAbs, n.isSealed⟩ ∧ n.key? = some key ∧
      log.holds key n.isSealed = .ok true := by
  obtain ⟨name, hfile, hname⟩ := mem_logNames.mp hn
  obtain ⟨hshort, key, kind, hk, rfl⟩ := h name hfile (by rw [hname]; exact Option.some_ne_none n)
  rw [ofString?_logName hk, Option.some.injEq] at hname
  rw [← hname]
  exact ⟨key, hk, rfl, key?_logName hk hshort, holds_eq_ok_true_iff.mpr ⟨hshort, hfile⟩⟩

end Names

section Listing

/-- What is found is what a name stands for. -/
def Read (n : LogName) (f : Int × Bool) : Prop := n.key? = some f.1 ∧ n.isSealed = f.2

/-- A scan reads the names one after another. -/
theorem forall₂_of_keysOfNames {names : List LogName} {found : List (Int × Bool)}
    (h : keysOfNames names = .ok found) : List.Forall₂ Read names found := by
  induction names generalizing found with
  | nil =>
    rw [← Except.ok.inj h]
    exact .nil
  | cons n rest ih =>
    rw [keysOfNames] at h
    cases hkey : n.key? with
    | none =>
      rw [hkey] at h
      cases h
    | some k =>
      rw [hkey] at h
      cases hrest : keysOfNames rest with
      | error e =>
        rw [hrest] at h
        cases h
      | ok later =>
        rw [hrest] at h
        rw [← Except.ok.inj h]
        exact .cons ⟨hkey, rfl⟩ (ih hrest)

theorem map_key?_filter {names : List LogName} {found : List (Int × Bool)}
    (h : List.Forall₂ Read names found) (kind : Bool) :
    (names.filter (·.isSealed = kind)).map LogName.key? =
      ((found.filter (·.2 = kind)).map Prod.fst).map some := by
  induction h with
  | nil => rfl
  | @cons n f names found hread _ ih =>
    rw [List.filter_cons, List.filter_cons, hread.2]
    by_cases hkind : f.2 = kind
    · simp [hkind, hread.1, ih]
    · simp [hkind, ih]

theorem pairwise_sortInts (l : List Int) : (sortInts l).Pairwise (· ≤ ·) := by
  have hsorted : (sortInts l).Pairwise fun a b => decide (a ≤ b) = true := by
    apply pairwise_sortBy
    · intro a b c hab hbc
      exact decide_eq_true (Int.le_trans (of_decide_eq_true hab) (of_decide_eq_true hbc))
    · intro a b
      exact (Int.le_total a b).imp decide_eq_true decide_eq_true
  exact hsorted.imp of_decide_eq_true

theorem listed_eq (log : EventLog) (kind : Bool) :
    log.listed kind =
      log.scan.map fun found => sortInts ((found.filter (·.2 = kind)).map Prod.fst) := by
  have hfilter (found : List (Int × Bool)) : found.filter (·.2 = kind) =
      found.filter fun f => if kind then f.2 else !f.2 := by
    apply List.filter_congr
    rintro ⟨k, b⟩ _
    cases b <;> cases kind <;> rfl
  simp only [hfilter]
  cases kind <;> rfl

theorem listed_eq_ok (h : log.listed kind = .ok keys) :
    ∃ found, log.scan = .ok found ∧
      keys = sortInts ((found.filter (·.2 = kind)).map Prod.fst) := by
  rw [listed_eq] at h
  cases hscan : log.scan with
  | error e =>
    rw [hscan] at h
    cases h
  | ok found =>
    rw [hscan] at h
    exact ⟨found, rfl, (Except.ok.inj h).symm⟩

theorem pairwise_of_listed (h : log.listed kind = .ok keys) : keys.Pairwise (· ≤ ·) := by
  obtain ⟨found, _, rfl⟩ := listed_eq_ok h
  exact pairwise_sortInts _

/-- The keys that are listed are those of the names that are met, as often as they are met. -/
theorem perm_of_listed (h : log.listed kind = .ok keys) :
    (keys.map some).Perm
      (((logNames log.directory).filter (·.isSealed = kind)).map LogName.key?) := by
  obtain ⟨found, hscan, rfl⟩ := listed_eq_ok h
  rw [map_key?_filter (forall₂_of_keysOfNames hscan) kind]
  exact (sortBy_perm _ _).map some

theorem mem_of_listed (h : log.listed kind = .ok keys) :
    key ∈ keys ↔ ∃ n ∈ logNames log.directory, n.isSealed = kind ∧ n.key? = some key := by
  calc key ∈ keys
      ↔ some key ∈ keys.map some := by simp
    _ ↔ some key ∈ ((logNames log.directory).filter (·.isSealed = kind)).map LogName.key? :=
      (perm_of_listed h).mem_iff
    _ ↔ _ := by simp [and_assoc]

theorem listed_eq_ok_of_forall (h : ∀ n ∈ logNames log.directory, ∃ k, n.key? = some k)
    (kind : Bool) : ∃ keys, log.listed kind = .ok keys := by
  obtain ⟨found, hfound⟩ := keysOfNames_of_forall h
  have hscan : log.scan = .ok found := hfound
  rw [listed_eq, hscan]
  exact ⟨_, rfl⟩

/-- Different canonical names are read as different keys, so none is listed twice. -/
theorem Canonical.nodup_of_listed (h : log.Canonical) (hlisted : log.listed kind = .ok keys) :
    keys.Nodup := by
  apply List.Nodup.of_map some
  rw [(perm_of_listed hlisted).nodup_iff]
  apply List.Nodup.map_on
  · intro m hm n hn hkey
    obtain ⟨hm, hmkind⟩ := List.mem_filter.mp hm
    obtain ⟨hn, hnkind⟩ := List.mem_filter.mp hn
    obtain ⟨j, _, hmname, hmkey, _⟩ := h.exists_of_mem_logNames hm
    obtain ⟨k, _, hnname, hnkey, _⟩ := h.exists_of_mem_logNames hn
    rw [hmkey, hnkey, Option.some.injEq] at hkey
    rw [hmname, hnname, hkey, of_decide_eq_true hmkind, of_decide_eq_true hnkind]
  · exact (nodup_logNames log.directory).filter _

theorem Canonical.lists (h : log.Canonical) (kind : Bool) :
    ∃ keys, log.listed kind = .ok keys ∧ log.Lists kind keys := by
  obtain ⟨keys, hlisted⟩ := listed_eq_ok_of_forall (fun n hn => by
    obtain ⟨k, _, _, hkey, _⟩ := h.exists_of_mem_logNames hn
    exact ⟨k, hkey⟩) kind
  refine ⟨keys, hlisted, ?_, ?_⟩
  · have hle := pairwise_of_listed hlisted
    have hne : keys.Pairwise (· ≠ ·) := h.nodup_of_listed hlisted
    exact hle.imp₂ (fun a b hle hne => Int.lt_iff_le_and_ne.mpr ⟨hle, hne⟩) hne
  · intro k hk
    rw [mem_of_listed hlisted, holds_eq_ok_true_iff]
    constructor
    · rintro ⟨n, hn, rfl, hkey⟩
      obtain ⟨j, _, _, hread, hholds⟩ := h.exists_of_mem_logNames hn
      rw [hkey, Option.some.injEq] at hread
      rw [hread]
      exact holds_eq_ok_true_iff.mp hholds
    · rintro ⟨hshort, hfile⟩
      exact ⟨_, mem_logNames.mpr ⟨_, hfile, ofString?_logName hk kind⟩, rfl,
        key?_logName hk hshort⟩

/-- Where the listings are right, every name that is read as that of a log is written for its key.
Otherwise the key would be listed without a log, or twice. -/
theorem canonical_of_lists
    (h : ∀ kind, ∃ keys, log.listed kind = .ok keys ∧ log.Lists kind keys) : log.Canonical := by
  intro name hfile hname
  obtain ⟨n, hn⟩ := Option.ne_none_iff_exists'.mp hname
  obtain ⟨keys, hlisted, hlists⟩ := h n.isSealed
  have hmem : n ∈ logNames log.directory := mem_logNames.mpr ⟨name, hfile, hn⟩
  obtain ⟨found, hscan, _⟩ := listed_eq_ok hlisted
  obtain ⟨key, hkey⟩ : ∃ key, n.key? = some key := by
    have hread := map_key?_filter (forall₂_of_keysOfNames hscan) n.isSealed
    have hn' : n.key? ∈ ((logNames log.directory).filter (·.isSealed = n.isSealed)).map
        LogName.key? :=
      List.mem_map_of_mem (List.mem_filter.mpr ⟨hmem, decide_eq_true rfl⟩)
    rw [hread] at hn'
    obtain ⟨key, _, hkey⟩ := List.mem_map.mp hn'
    exact ⟨key, hkey.symm⟩
  have hk : 0 ≤ key := LogName.nonneg_of_readInt (LogName.isDigit_of_mem_stem hn) hkey
  have hlist : key ∈ keys := (mem_of_listed hlisted).mpr ⟨n, hmem, rfl, hkey⟩
  obtain ⟨hshort, hwritten⟩ := holds_eq_ok_true_iff.mp ((hlists.mem_iff key hk).mp hlist)
  -- The file of that name is met too, and read as the same key.
  have hread := ofString?_logName hk n.isSealed
  have hmet : (⟨Nat.toDigits 10 key.natAbs, n.isSealed⟩ : LogName) ∈ logNames log.directory :=
    mem_logNames.mpr ⟨_, hwritten, hread⟩
  have hnodup : (((logNames log.directory).filter (·.isSealed = n.isSealed)).map
      LogName.key?).Nodup := by
    have hkeys : keys.Nodup := hlists.ascending.imp fun hlt => Int.ne_of_lt hlt
    rw [← (perm_of_listed hlisted).nodup_iff]
    exact hkeys.map fun _ _ => Option.some.inj
  have hsame : n = ⟨Nat.toDigits 10 key.natAbs, n.isSealed⟩ := by
    apply List.inj_on_of_nodup_map hnodup
    · exact List.mem_filter.mpr ⟨hmem, decide_eq_true rfl⟩
    · exact List.mem_filter.mpr ⟨hmet, decide_eq_true rfl⟩
    · rw [hkey, key?_logName hk hshort]
  have hname : name = logName key n.isSealed := by
    apply LogName.ofString?_injective hn
    rw [hread, ← hsame]
  rw [hname]
  exact ⟨hshort, key, n.isSealed, hk, rfl⟩

end Listing

end EventLog

end RequestWindows
