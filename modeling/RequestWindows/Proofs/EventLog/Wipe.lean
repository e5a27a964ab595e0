import RequestWindows.Proofs.EventLog.Canonical
import RequestWindows.Reader.Load

namespace RequestWindows

namespace KeyedList

universe u v

variable {κ : Type u} {α : Type v} [DecidableEq κ]

theorem size_erase {m : KeyedList κ α} {k : κ} (h : m.get? k ≠ none) :
    (m.erase k).size + 1 = m.size := by
  have hmem : k ∈ m.keys := by
    rw [mem_keys_iff]
    exact Option.isSome_iff_ne_none.mpr h
  have hkeys : (m.erase k).keys = m.keys.erase k := by
    have hnodup : m.keys.Nodup := m.nodup_keys
    rw [hnodup.erase_eq_filter, keys, keys, List.filter_map]
    change (m.entries.filter _).map Prod.fst = _
    congr 1
    apply List.filter_congr
    intro b _
    by_cases hb : b.1 = k <;> simp [hb]
  calc (m.erase k).size + 1
      = (m.erase k).keys.length + 1 := by rw [keys, List.length_map, size]
    _ = m.keys.length := by
      rw [hkeys, List.length_erase_of_mem hmem]
      exact Nat.sub_add_cancel (List.length_pos_of_mem hmem)
    _ = m.size := by rw [keys, List.length_map, size]

end KeyedList

namespace Directory

variable {d d' : Directory} {name : String}

/-- What is removed is a file: a folder cannot be removed so. -/
theorem fileAt_of_removeIfPresent {had : Bool}
    (h : EventLog.removeIfPresent d name = .ok (d', had)) (hsome : d.get? name ≠ none) :
    d.fileAt name = true := by
  unfold EventLog.removeIfPresent remove at h
  cases hfind : d.find name with
  | error e =>
    rw [hfind] at h
    unfold find at hfind
    split at hfind
    · rw [← Except.error.inj hfind] at h
      cases h
    · cases hfind
  | ok entry =>
    rw [hfind] at h
    have hget := get?_of_find hfind
    cases entry with
    | none => exact absurd hget hsome
    | some e =>
      cases e with
      | folder => cases h
      | file bytes => exact fileAt_iff.mpr ⟨bytes, hget⟩

theorem removeIfPresent_of_fileAt (hshort : name.utf8ByteSize ≤ maxNameSize)
    (hfile : d.fileAt name = true) :
    EventLog.removeIfPresent d name = .ok (d.erase name, true) := by
  obtain ⟨bytes, hget⟩ := fileAt_iff.mp hfile
  have hfind : d.find name = .ok (some (.file bytes)) := by
    rw [find, if_neg (Nat.not_lt.mpr hshort), hget]
  unfold EventLog.removeIfPresent remove
  rw [hfind]
  rfl

end Directory

namespace EventLog

variable {log : EventLog} {d : Directory} {found : List (Int × Bool)} {n : Nat}

/-- The names of the logs that a scan has found. -/
def namesOf (found : List (Int × Bool)) : List String := found.map fun f => logName f.1 f.2

section Found

variable {f : Int × Bool} {rest : List (Int × Bool)}

theorem wipeFound_of_error {e : FileError}
    (h : removeIfPresent d (logName f.1 f.2) = .error e) :
    wipeFound d (f :: rest) = (d, .error e) := by
  change removeIfPresent d (if f.2 then sealedName f.1 else openName f.1) = _ at h
  rw [wipeFound, h]

theorem wipeFound_of_ok {d' : Directory} {had : Bool}
    (h : removeIfPresent d (logName f.1 f.2) = .ok (d', had)) :
    wipeFound d (f :: rest) =
      ((wipeFound d' rest).1, (wipeFound d' rest).2.map (· + 1)) := by
  change removeIfPresent d (if f.2 then sealedName f.1 else openName f.1) = _ at h
  rw [wipeFound, h]

/-- A wipe takes away nothing but files, and of these only the ones that it is told of. -/
theorem get?_wipeFound (d : Directory) (found : List (Int × Bool)) (name : String) :
    (wipeFound d found).1.get? name = d.get? name ∨
      (wipeFound d found).1.get? name = none ∧ d.fileAt name = true ∧ name ∈ namesOf found := by
  induction found generalizing d with
  | nil => exact Or.inl rfl
  | cons f rest ih =>
    cases hremove : removeIfPresent d (logName f.1 f.2) with
    | error e =>
      rw [wipeFound_of_error hremove]
      exact Or.inl rfl
    | ok r =>
      obtain ⟨d', had⟩ := r
      have hget := Directory.get?_of_removeIfPresent hremove name
      rw [wipeFound_of_ok hremove]
      rcases ih d' with hsame | ⟨hnone, hfile, hmem⟩
      · rw [hsame, hget]
        by_cases hname : name = logName f.1 f.2
        · rw [if_pos hname]
          by_cases hsome : d.get? name = none
          · exact Or.inl hsome.symm
          · rw [hname] at hsome ⊢
            exact Or.inr ⟨rfl, Directory.fileAt_of_removeIfPresent hremove hsome, .head _⟩
        · rw [if_neg hname]
          exact Or.inl rfl
      · have hsame : d'.get? name = d.get? name := by
          rw [hget]
          split
          · next hname =>
            rw [Directory.fileAt, hget, if_pos hname] at hfile
            cases hfile
          · rfl
        rw [Directory.fileAt, hsame] at hfile
        exact Or.inr ⟨hnone, hfile, .tail _ hmem⟩

/-- A wipe that comes to its end has counted all that it was told of, and nothing of that is
left. -/
theorem wipeFound_eq_ok (h : (wipeFound d found).2 = .ok n) :
    n = found.length ∧ ∀ name, (wipeFound d found).1.get? name =
      if name ∈ namesOf found then none else d.get? name := by
  induction found generalizing d n with
  | nil => exact ⟨(Except.ok.inj h).symm, fun name => (if_neg List.not_mem_nil).symm⟩
  | cons f rest ih =>
    cases hremove : removeIfPresent d (logName f.1 f.2) with
    | error e =>
      rw [wipeFound_of_error hremove] at h
      cases h
    | ok r =>
      obtain ⟨d', had⟩ := r
      rw [wipeFound_of_ok hremove] at h ⊢
      cases hrest : (wipeFound d' rest).2 with
      | error e =>
        rw [hrest] at h
        cases h
      | ok m =>
        rw [hrest] at h
        obtain ⟨hcount, hget⟩ := ih hrest
        refine ⟨?_, ?_⟩
        · rw [← Except.ok.inj h, hcount, List.length_cons]
        · intro name
          rw [hget, Directory.get?_of_removeIfPresent hremove]
          change _ = if name ∈ logName f.1 f.2 :: namesOf rest then none else d.get? name
          simp only [List.mem_cons]
          by_cases hname : name = logName f.1 f.2 <;> simp [hname]

/-- Different files that are all there can all be removed, and the directory has so many fewer. -/
theorem size_wipeFound (hnodup : (namesOf found).Nodup)
    (hfiles : ∀ name ∈ namesOf found,
      name.utf8ByteSize ≤ Directory.maxNameSize ∧ d.fileAt name = true) :
    (wipeFound d found).2 = .ok found.length ∧
      (wipeFound d found).1.size + found.length = d.size := by
  induction found generalizing d with
  | nil => exact ⟨rfl, rfl⟩
  | cons f rest ih =>
    change (logName f.1 f.2 :: namesOf rest).Nodup at hnodup
    rw [List.nodup_cons] at hnodup
    obtain ⟨hshort, hfile⟩ := hfiles (logName f.1 f.2) (.head _)
    rw [wipeFound_of_ok (Directory.removeIfPresent_of_fileAt hshort hfile)]
    have hothers : ∀ name ∈ namesOf rest, name.utf8ByteSize ≤ Directory.maxNameSize ∧
        Directory.fileAt (d.erase (logName f.1 f.2)) name = true := by
      intro name hname
      obtain ⟨hle, hat⟩ := hfiles name (.tail _ hname)
      refine ⟨hle, ?_⟩
      have hne : name ≠ logName f.1 f.2 := ne_of_mem_of_not_mem hname hnodup.1
      rw [Directory.fileAt, KeyedList.get?_erase, if_neg hne]
      exact hat
    obtain ⟨hok, hsize⟩ := ih hnodup.2 hothers
    obtain ⟨bytes, hget⟩ := Directory.fileAt_iff.mp hfile
    have herase : (d.erase (logName f.1 f.2)).size + 1 = d.size := by
      apply KeyedList.size_erase
      rw [hget]
      exact Option.some_ne_none _
    rw [hok, List.length_cons]
    refine ⟨rfl, ?_⟩
    change (wipeFound _ rest).1.size + (rest.length + 1) = d.size
    omega

end Found

section Wipe

theorem wipe_of_scan (hfault : log.faults.wipe = false) (hscan : log.scan = .ok found) :
    log.wipe = ({ log with directory := (wipeFound log.directory found).1 },
      (wipeFound log.directory found).2.mapError .file) := by
  unfold wipe
  rw [hfault, hscan]
  rfl

/-- A wipe is broken off before it removes anything, or it goes through what a scan finds. -/
theorem wipe_cases (log : EventLog) :
    (log.wipe.1 = log ∧ ∃ e, log.wipe.2 = .error e) ∨
      log.faults.wipe = false ∧ ∃ found, log.scan = .ok found := by
  unfold wipe
  by_cases hfault : log.faults.wipe = true
  · rw [if_pos hfault]
    exact Or.inl ⟨rfl, .failure, rfl⟩
  · rw [if_neg hfault]
    cases hscan : log.scan with
    | error e => exact Or.inl ⟨rfl, e, rfl⟩
    | ok found => exact Or.inr ⟨Bool.eq_false_iff.mpr hfault, found, rfl⟩

theorem faults_wipe (log : EventLog) : log.wipe.1.faults = log.faults := by
  rcases log.wipe_cases with ⟨hsame, _⟩ | ⟨hfault, found, hscan⟩
  · rw [hsame]
  · rw [wipe_of_scan hfault hscan]

theorem strictNames_wipe (log : EventLog) : log.wipe.1.strictNames = log.strictNames := by
  rcases log.wipe_cases with ⟨hsame, _⟩ | ⟨hfault, found, hscan⟩
  · rw [hsame]
  · rw [wipe_of_scan hfault hscan]

theorem wipe_eq_ok (h : log.wipe.2 = .ok n) : ∃ found, log.scan = .ok found ∧
    log.wipe.1 = { log with directory := (wipeFound log.directory found).1 } ∧
    (wipeFound log.directory found).2 = .ok n := by
  rcases log.wipe_cases with ⟨_, e, herror⟩ | ⟨hfault, found, hscan⟩
  · rw [herror] at h
    cases h
  · rw [wipe_of_scan hfault hscan] at h ⊢
    refine ⟨found, hscan, rfl, ?_⟩
    cases hfound : (wipeFound log.directory found).2 with
    | error e =>
      rw [hfound] at h
      cases h
    | ok m =>
      rw [hfound] at h
      exact congrArg Except.ok (Except.ok.inj h)

/-- The names that a scan finds are written for keys from 0 on. -/
theorem exists_of_mem_namesOf {name : String} (hscan : log.scan = .ok found)
    (hname : name ∈ namesOf found) : ∃ key kind, 0 ≤ key ∧ name = logName key kind := by
  obtain ⟨f, hf, rfl⟩ := List.mem_map.mp hname
  obtain ⟨n, hn, hread, _⟩ := exists_of_mem_keysOfNames hscan hf
  obtain ⟨_, _, hname⟩ := mem_logNames.mp hn
  exact ⟨f.1, f.2, LogName.nonneg_of_readInt (LogName.isDigit_of_mem_stem hname) hread, rfl⟩

/-- A wipe leaves all but window logs as it is, whatever names there are, also when it fails. -/
theorem wipe_spares (log : EventLog) {name : String} (hother : ¬log.directory.LogFile name) :
    log.wipe.1.directory.get? name = log.directory.get? name := by
  rcases log.wipe_cases with ⟨hsame, _⟩ | ⟨hfault, found, hscan⟩
  · rw [hsame]
  · rw [wipe_of_scan hfault hscan]
    apply (get?_wipeFound log.directory found name).resolve_right
    rintro ⟨_, hfile, hname⟩
    exact hother ⟨hfile, exists_of_mem_namesOf hscan hname⟩

/-- The files that are found in a directory with canonical names are those with names of logs. -/
theorem Canonical.map_ofString? (h : log.Canonical) (hscan : log.scan = .ok found) :
    (namesOf found).map LogName.ofString? = (logNames log.directory).map some := by
  have hnames : ∀ n ∈ logNames log.directory, ∀ f, Read n f →
      LogName.ofString? (logName f.1 f.2) = some n := by
    intro n hn f hread
    obtain ⟨key, hk, hname, hkey, _⟩ := h.exists_of_mem_logNames hn
    rw [hread.1, Option.some.injEq] at hkey
    rw [hname, ← hkey, hread.2]
    exact ofString?_logName (by rw [hkey]; exact hk) f.2
  have hread := forall₂_of_keysOfNames hscan
  clear hscan
  generalize logNames log.directory = names at hnames hread
  induction hread with
  | nil => rfl
  | @cons n f names found hread _ ih =>
    have hrest := ih fun m hm => hnames m (.tail _ hm)
    change LogName.ofString? (logName f.1 f.2) :: (namesOf found).map LogName.ofString? = _
    rw [hnames n (.head _) f hread, hrest, List.map_cons]

theorem Canonical.nodup_namesOf (h : log.Canonical) (hscan : log.scan = .ok found) :
    (namesOf found).Nodup := by
  apply List.Nodup.of_map LogName.ofString?
  rw [h.map_ofString? hscan]
  exact (nodup_logNames log.directory).map fun _ _ => Option.some.inj

theorem Canonical.mem_namesOf (h : log.Canonical) (hscan : log.scan = .ok found)
    (name : String) : name ∈ namesOf found ↔ log.directory.LogFile name := by
  have hmap := h.map_ofString? hscan
  rw [h.logFile_iff]
  constructor
  · intro hname
    have hread : LogName.ofString? name ∈ (logNames log.directory).map some := by
      rw [← hmap]
      exact List.mem_map_of_mem hname
    obtain ⟨n, hn, hsome⟩ := List.mem_map.mp hread
    obtain ⟨name', hfile, hname'⟩ := mem_logNames.mp hn
    rw [LogName.ofString?_injective hsome.symm hname', hname']
    exact ⟨hfile, Option.some_ne_none n⟩
  · rintro ⟨hfile, hne⟩
    obtain ⟨n, hn⟩ := Option.ne_none_iff_exists'.mp hne
    have hread : some n ∈ (namesOf found).map LogName.ofString? := by
      rw [hmap]
      exact List.mem_map_of_mem (mem_logNames.mpr ⟨name, hfile, hn⟩)
    obtain ⟨name', hname', hn'⟩ := List.mem_map.mp hread
    rw [LogName.ofString?_injective hn hn']
    exact hname'

/-- A wipe that comes to its end removes all window logs. -/
theorem Canonical.get?_wipe (h : log.Canonical) (hok : log.wipe.2 = .ok n) {name : String}
    (hname : log.directory.LogFile name) : log.wipe.1.directory.get? name = none := by
  obtain ⟨found, hscan, hleft, hcount⟩ := wipe_eq_ok hok
  rw [hleft]
  rw [(wipeFound_eq_ok hcount).2 name, if_pos ((h.mem_namesOf hscan name).mpr hname)]

/-- What a wipe is to leave of a directory: no window log, everything else as it was, and so many
files less as were removed. -/
structure Wiped (d d' : Directory) (removed : Nat) : Prop where
  gone : ∀ name, ¬d'.LogFile name
  others : ∀ name, ¬d.LogFile name → d'.get? name = d.get? name
  size : d'.size + removed = d.size

/-- No window log is left by a wipe that comes to its end. -/
theorem Canonical.gone_of_wipe (h : log.Canonical) (hok : log.wipe.2 = .ok n) (name : String) :
    ¬log.wipe.1.directory.LogFile name := by
  rintro ⟨hfile, hlog⟩
  by_cases hbefore : log.directory.LogFile name
  · rw [Directory.fileAt, h.get?_wipe hok hbefore] at hfile
    cases hfile
  · rw [Directory.fileAt, log.wipe_spares hbefore] at hfile
    exact hbefore ⟨hfile, hlog⟩

theorem Canonical.wiped (h : log.Canonical) (hfault : log.faults.wipe = false) :
    ∃ n, log.wipe.2 = .ok n ∧ Wiped log.directory log.wipe.1.directory n := by
  obtain ⟨keys, hlisted, _⟩ := h.lists true
  obtain ⟨found, hscan, _⟩ := listed_eq_ok hlisted
  have hfiles : ∀ name ∈ namesOf found, name.utf8ByteSize ≤ Directory.maxNameSize ∧
      log.directory.fileAt name = true := by
    intro name hname
    obtain ⟨hfile, hread⟩ := h.logFile_iff.mp ((h.mem_namesOf hscan name).mp hname)
    exact ⟨(h name hfile hread).1, hfile⟩
  obtain ⟨hcount, hsize⟩ := size_wipeFound (h.nodup_namesOf hscan) hfiles
  have hwipe := wipe_of_scan hfault hscan
  have hok : log.wipe.2 = .ok found.length := by
    rw [hwipe, hcount]
    rfl
  refine ⟨found.length, hok, h.gone_of_wipe hok, fun name => log.wipe_spares, ?_⟩
  rw [hwipe]
  exact hsize

end Wipe

/-- A scan agrees with the questions for single windows: it lists the windows with a sealed or an
open log, the newest sealed window has a sealed log, and a wipe removes all window logs, nothing
else, and as many files as it says, unless it is made to fail. -/
structure Agrees (log : EventLog) : Prop where
  lists : ∀ kind, ∃ keys, log.listed kind = .ok keys ∧ log.Lists kind keys
  latest : ∀ key, log.latestSealed = .ok (some key) → log.isSealed key = .ok true
  wipes : log.faults.wipe = false →
    ∃ n, log.wipe.2 = .ok n ∧ Wiped log.directory log.wipe.1.directory n

/-- The newest sealed window has a sealed log where the listing of sealed windows is right. -/
theorem Lists.isSealed_of_latest {keys : List Int} {key : Int} (h : log.Lists true keys)
    (hlisted : log.listed true = .ok keys) (hlatest : log.latestSealed = .ok (some key)) :
    log.isSealed key = .ok true := by
  have hkeys : log.sealedKeys = .ok keys := hlisted
  have hlast : keys.getLast? = some key := by
    unfold latestSealed at hlatest
    rw [hkeys] at hlatest
    exact Except.ok.inj hlatest
  have hmem : key ∈ keys := List.mem_of_getLast? hlast
  exact (h.mem_iff key (nonneg_of_mem_sealedKeys hkeys hmem)).mp hmem

/-- Scan, questions and wipe agree in exactly those directories where every file whose stem is all
digits has a name that is written for a key from 0 on. A wipe spares all other entries in every
directory. -/
theorem agrees_iff_canonical (log : EventLog) :
    (log.Agrees ↔ log.Canonical) ∧ ∀ name, ¬log.directory.LogFile name →
      log.wipe.1.directory.get? name = log.directory.get? name := by
  refine ⟨⟨?_, ?_⟩, fun name => log.wipe_spares⟩
  · intro h
    exact canonical_of_lists h.lists
  · intro h
    refine ⟨h.lists, ?_, h.wiped⟩
    intro key hlatest
    obtain ⟨keys, hlisted, hlists⟩ := h.lists true
    exact hlists.isSealed_of_latest hlisted hlatest

/-- Leading zeros are read as a key whose log is not there and cannot be wiped, and a digit without
a decimal value makes every scan fail. -/
theorem digits_are_not_names :
    let zeros : EventLog := ⟨KeyedList.ofList [("007", .file [])], .none, false⟩
    let superscript : EventLog :=
      ⟨KeyedList.ofList [("²", .file []), ("7", .file [])], .none, false⟩
    (zeros.sealedKeys = .ok [7] ∧ zeros.latestSealed = .ok (some 7) ∧
      zeros.isSealed 7 = .ok false ∧ zeros.wipe = (zeros, .ok 1) ∧ ¬zeros.Agrees) ∧
    (superscript.isSealed 7 = .ok true ∧ superscript.sealedKeys = .error (.badName ['²']) ∧
      superscript.wipe = (superscript, .error (.badName ['²'])) ∧ ¬superscript.Agrees) := by
  intro zeros superscript
  have hzeros : zeros.latestSealed = .ok (some 7) ∧ zeros.isSealed 7 = .ok false := by
    decide +kernel
  have hsuperscript : superscript.sealedKeys = .error (.badName ['²']) := by decide +kernel
  refine ⟨⟨by decide +kernel, hzeros.1, hzeros.2, by decide +kernel, ?_⟩,
    ⟨by decide +kernel, hsuperscript, by decide +kernel, ?_⟩⟩
  · intro h
    have hsealed := h.latest 7 hzeros.1
    rw [hzeros.2] at hsealed
    cases hsealed
  · intro h
    obtain ⟨keys, hlisted, _⟩ := h.lists true
    have hkeys : superscript.sealedKeys = .ok keys := hlisted
    rw [hsuperscript] at hkeys
    cases hkeys

end EventLog

end RequestWindows
