import RequestWindows.Proofs.EventLog.Canonical
import RequestWindows.Proofs.Writer.Settled

namespace RequestWindows

open EventLog (TooLong)

/-- A directory holds files and nothing else, and each has the name of a log of a window from 0 on.
The name of the window's open log, which is the longer one, is not too long. -/
def Directory.Tidy (d : Directory) : Prop :=
  ∀ name entry, d.get? name = some entry →
    entry.isFile = true ∧ ∃ key kind, name = logName key kind ∧ 0 ≤ key ∧ ¬TooLong key

namespace Directory

variable {d d' : Directory} {name : String} {key : Int}

theorem tidy_empty : Tidy ∅ := by
  intro name entry hget
  cases hget

/-- A directory stays tidy where nothing new comes in. -/
theorem Tidy.of_get? (h : d.Tidy)
    (hold : ∀ name, d'.get? name = none ∨ d'.get? name = d.get? name) : d'.Tidy := by
  intro name entry hget
  rcases hold name with hnone | hsame
  · rw [hnone] at hget
    cases hget
  · exact h name entry (hsame.symm.trans hget)

theorem Tidy.key_of_get? (h : d.Tidy) {kind : Bool} {entry : Entry}
    (hget : d.get? (logName key kind) = some entry) :
    entry.isFile = true ∧ 0 ≤ key ∧ ¬TooLong key := by
  obtain ⟨hfile, k, b, hname, hk, hshort⟩ := h _ _ hget
  obtain ⟨rfl, _⟩ := logName_inj.mp hname
  exact ⟨hfile, hk, hshort⟩

/-- In a tidy directory a file can always be removed under a name that is not too long. -/
theorem Tidy.removeIfPresent (h : d.Tidy) (hshort : name.utf8ByteSize ≤ maxNameSize) :
    ∃ d' had, EventLog.removeIfPresent d name = .ok (d', had) ∧ d'.Tidy := by
  cases hget : d.get? name with
  | none => exact ⟨d, false, EventLog.removeIfPresent_of_absent hshort hget, h⟩
  | some entry =>
    have hfile := (h name entry hget).1
    cases entry with
    | folder => cases hfile
    | file bytes =>
      refine ⟨d.erase name, true, EventLog.removeIfPresent_of_file hshort hget, ?_⟩
      apply h.of_get?
      intro other
      rw [KeyedList.get?_erase]
      split
      · exact Or.inl rfl
      · exact Or.inr rfl

end Directory

namespace EventLog

/-- Whether something stands under the name of a window's sealed log. -/
def SealedAt (log : EventLog) (key : Int) : Prop := log.logAt key true ≠ none

variable {log log' : EventLog} {d : Directory} {key k : Int} {keys : List Int}
  {bytes : List UInt8}

section Newest

theorem canonical_of_tidy (h : log.directory.Tidy) : log.Canonical := by
  intro name hfile _
  obtain ⟨bytes, hget⟩ := Directory.fileAt_iff.mp hfile
  obtain ⟨_, key, kind, rfl, hk, hshort⟩ := h _ _ hget
  exact ⟨size_logName_le hshort kind, key, kind, hk, rfl⟩

theorem holds_iff_sealedAt (h : log.directory.Tidy) :
    log.holds key true = .ok true ↔ log.SealedAt key := by
  rw [holds_eq_ok_true_iff]
  constructor
  · rintro ⟨_, hfile⟩ hnone
    obtain ⟨bytes, hget⟩ := Directory.fileAt_iff.mp hfile
    rw [show log.directory.get? (logName key true) = none from hnone] at hget
    cases hget
  · intro hsealed
    obtain ⟨entry, hget⟩ := Option.ne_none_iff_exists'.mp hsealed
    obtain ⟨hfile, _, hshort⟩ := h.key_of_get? hget
    refine ⟨size_logName_le hshort true, ?_⟩
    change (log.directory.get? (logName key true)).any Entry.isFile = true
    rw [show log.directory.get? (logName key true) = some entry from hget]
    exact hfile

theorem nonneg_of_sealedAt (h : log.directory.Tidy) (hsealed : log.SealedAt key) : 0 ≤ key := by
  obtain ⟨entry, hget⟩ := Option.ne_none_iff_exists'.mp hsealed
  exact (h.key_of_get? hget).2.1

theorem not_tooLong_of_sealedAt (h : log.directory.Tidy) (hsealed : log.SealedAt key) :
    ¬TooLong key := by
  obtain ⟨entry, hget⟩ := Option.ne_none_iff_exists'.mp hsealed
  exact (h.key_of_get? hget).2.2

theorem hasLog_of_sealedAt (h : log.directory.Tidy) (hsealed : log.SealedAt key) :
    log.HasLog key := by
  obtain ⟨entry, hget⟩ := Option.ne_none_iff_exists'.mp hsealed
  have hfile := (h.key_of_get? hget).1
  cases entry with
  | folder => cases hfile
  | file bytes => exact ⟨true, bytes, hget⟩

theorem sealedKeys_of_tidy (h : log.directory.Tidy) :
    ∃ sealed, log.sealedKeys = .ok sealed ∧ sealed.Pairwise (· < ·) ∧
      ∀ k, k ∈ sealed ↔ log.SealedAt k := by
  obtain ⟨sealed, hkeys, hlists⟩ := (canonical_of_tidy h).lists true
  refine ⟨sealed, hkeys, hlists.ascending, ?_⟩
  intro k
  have hmem (hk : 0 ≤ k) : k ∈ sealed ↔ log.SealedAt k :=
    (hlists.mem_iff k hk).trans (holds_iff_sealedAt h)
  constructor
  · intro hk
    exact (hmem (nonneg_of_mem_sealedKeys hkeys hk)).mp hk
  · intro hk
    exact (hmem (nonneg_of_sealedAt h hk)).mpr hk

/-- The newest sealed window of a tidy directory is found, unless no window is sealed. -/
theorem latestSealed_of_tidy (h : log.directory.Tidy) :
    (log.latestSealed = .ok none ∧ ∀ k, ¬log.SealedAt k) ∨
      ∃ newest, log.latestSealed = .ok (some newest) ∧ log.SealedAt newest ∧
        ∀ k, log.SealedAt k → k ≤ newest := by
  obtain ⟨sealed, hkeys, hascending, hmem⟩ := sealedKeys_of_tidy h
  have hlatest : log.latestSealed = .ok sealed.getLast? := by
    unfold latestSealed
    rw [hkeys]
    rfl
  rw [hlatest]
  rcases List.eq_nil_or_concat sealed with rfl | ⟨earlier, newest, rfl⟩
  · left
    refine ⟨rfl, ?_⟩
    intro k hk
    exact absurd ((hmem k).mpr hk) List.not_mem_nil
  · right
    rw [List.concat_eq_append] at hascending hmem ⊢
    refine ⟨newest, by rw [List.getLast?_concat], (hmem newest).mp (by simp), ?_⟩
    intro k hk
    -- All other windows come before the last one of an ascending list.
    have hbefore := (List.pairwise_append.mp hascending).2.2
    rcases List.mem_append.mp ((hmem k).mpr hk) with hearlier | hlast
    · exact Int.le_of_lt (hbefore k hearlier newest (.head _))
    · exact Int.le_of_eq (List.mem_singleton.mp hlast)

end Newest

section Steps

theorem tidy_addBytes (h : log.directory.Tidy) (hkey : 0 ≤ key)
    (hadd : log.addBytes key bytes = .ok log') : log'.directory.Tidy := by
  obtain ⟨d, hdirectory, rfl⟩ := of_addBytes hadd
  have hshort : ¬TooLong key := by
    intro hlong
    have hfind : log.directory.find (openName key) = .error .nameTooLong := if_pos hlong
    unfold Directory.append at hdirectory
    rw [hfind] at hdirectory
    cases hdirectory
  intro name entry hget
  change d.get? name = some entry at hget
  rw [Directory.get?_of_append hdirectory] at hget
  split at hget
  · next hname =>
    cases hget
    exact ⟨rfl, key, false, hname, hkey, hshort⟩
  · exact h name entry hget

theorem sealedAt_addBytes_iff (hadd : log.addBytes key bytes = .ok log') :
    log'.SealedAt k ↔ log.SealedAt k := by
  unfold SealedAt
  rw [logAt_of_addBytes hadd, if_neg fun hb => Bool.noConfusion hb.2]

/-- Sealing puts the open log under another name. -/
theorem directory_of_sealWindow (h : log.sealWindow key = .ok (log', true)) :
    ∃ entry, log.logAt key false = some entry ∧ log'.directory =
      (log.directory.erase (openName key)).insert (sealedName key) entry := by
  unfold sealWindow at h
  split at h
  · cases h
  · split at h
    · cases h
    · cases h
    · cases h
    · cases h
    · next entry hopen _ =>
      cases h
      exact ⟨entry, Directory.get?_of_find hopen, rfl⟩

theorem tidy_sealWindow (h : log.directory.Tidy)
    (hseal : log.sealWindow key = .ok (log', true)) : log'.directory.Tidy := by
  obtain ⟨entry, hentry, hdirectory⟩ := directory_of_sealWindow hseal
  obtain ⟨hfile, hkey, hshort⟩ := h.key_of_get? hentry
  intro name found hget
  rw [hdirectory, KeyedList.get?_insert, KeyedList.get?_erase] at hget
  split at hget
  · next hname =>
    cases hget
    exact ⟨hfile, key, true, hname, hkey, hshort⟩
  · split at hget
    · cases hget
    · exact h name found hget

theorem sealedAt_sealWindow_iff (hseal : log.sealWindow key = .ok (log', true)) :
    log'.SealedAt k ↔ log.SealedAt k ∨ k = key := by
  rcases sealWindow_cases hseal with ⟨hfalse, _⟩ | ⟨_, _, _, entry, _, hafter⟩
  · cases hfalse
  unfold SealedAt
  rw [hafter]
  by_cases hk : k = key
  · simp [hk]
  · simp [hk]

theorem tidy_seals (h : log.directory.Tidy) (hseals : Ingestion.Seals log keys log') :
    log'.directory.Tidy := by
  induction hseals with
  | nil log => exact h
  | cons first _ ih => exact ih (tidy_sealWindow h first)

theorem sealedAt_seals_iff (hseals : Ingestion.Seals log keys log') :
    log'.SealedAt k ↔ log.SealedAt k ∨ k ∈ keys := by
  induction hseals with
  | nil log => simp
  | cons first _ ih => rw [ih, sealedAt_sealWindow_iff first, List.mem_cons, or_assoc]

end Steps

section Delete

theorem tidy_deleteWindow (h : d.Tidy) (key : Int) : (deleteWindow d key).1.Tidy :=
  h.of_get? fun name => get?_deleteWindow d key name

theorem tidy_deleteWindows (h : d.Tidy) (keys : List Int) : (deleteWindows d keys).1.Tidy := by
  induction keys generalizing d with
  | nil => exact h
  | cons key rest ih =>
    have hrest := ih (tidy_deleteWindow h key)
    rw [deleteWindows]
    cases hout : (deleteWindow d key).2 <;> simp only [hout] <;> exact hrest

theorem tidy_delete (h : log.directory.Tidy) (keys : List Int) :
    (log.delete keys).1.directory.Tidy := tidy_deleteWindows h _

/-- In a tidy directory, deleting the logs of a window fails only where a name is too long. -/
theorem tooLong_of_deleteWindow (h : d.Tidy) (hfailed : (deleteWindow d key).2 = .failed) :
    TooLong key := by
  apply Decidable.byContradiction
  intro hshort
  obtain ⟨d₁, hadSealed, hfirst, htidy⟩ := h.removeIfPresent (size_logName_le hshort true)
  obtain ⟨d₂, hadOpen, hsecond, _⟩ := htidy.removeIfPresent (size_logName_le hshort false)
  change removeIfPresent d (sealedName key) = .ok (d₁, hadSealed) at hfirst
  change removeIfPresent d₁ (openName key) = .ok (d₂, hadOpen) at hsecond
  unfold deleteWindow at hfailed
  rw [hfirst] at hfailed
  dsimp only at hfailed
  rw [hsecond] at hfailed
  dsimp only at hfailed
  split at hfailed <;> cases hfailed

theorem tooLong_of_mem_failed (h : d.Tidy) (hk : k ∈ (deleteWindows d keys).2.2) : TooLong k := by
  induction keys generalizing d with
  | nil => cases hk
  | cons key rest ih =>
    have hlater := ih (tidy_deleteWindow h key)
    rw [deleteWindows] at hk
    cases hout : (deleteWindow d key).2 <;> simp only [hout] at hk
    · exact hlater hk
    · exact hlater hk
    · rcases List.mem_cons.mp hk with rfl | hk
      · exact tooLong_of_deleteWindow h hout
      · exact hlater hk

/-- A deletion takes the sealed logs of all windows that it is given, and no others. -/
theorem sealedAt_delete_iff (h : log.directory.Tidy) (hfaults : log.faults = .none) :
    (log.delete keys).1.SealedAt k ↔ log.SealedAt k ∧ k ∉ keys := by
  obtain ⟨⟨gone, hgone⟩, _⟩ := log.delete_deleted keys
  have hleft : (log.delete keys).1.logAt k true =
      if (k, true) ∈ gone then none else log.logAt k true := hgone.left k true
  unfold SealedAt
  rw [hleft]
  constructor
  · intro hsealed
    have hstays : (k, true) ∉ gone := fun hmem => hsealed (if_pos hmem)
    rw [if_neg hstays] at hsealed
    refine ⟨hsealed, ?_⟩
    intro hmem
    -- What is left of the windows to be deleted is what failed, and its name would be too long.
    have hfailed : k ∈ (log.delete keys).2.2 := by
      apply Decidable.byContradiction
      intro hnot
      exact hstays (hgone.all_gone k hmem hnot true)
    apply not_tooLong_of_sealedAt h hsealed
    rw [delete_eq_deleteWindows hfaults] at hfailed
    exact tooLong_of_mem_failed h hfailed
  · rintro ⟨hsealed, hnot⟩
    rw [if_neg fun hmem => hnot (hgone.mem_keys _ hmem)]
    exact hsealed

end Delete

end EventLog

end RequestWindows
