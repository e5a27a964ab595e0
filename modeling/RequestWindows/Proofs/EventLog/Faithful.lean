import RequestWindows.Proofs.Event.Line
import RequestWindows.Proofs.EventLog.Orderly
import RequestWindows.Proofs.EventLog.Plain

namespace RequestWindows

/-- The events of one window. -/
def Event.ofWindow (i : Interval) (events : List Event) (key : Int) : List Event :=
  events.filter fun e => e.window i = key

theorem Event.mem_ofWindow {i : Interval} {events : List Event} {key : Int} {e : Event} :
    e ∈ ofWindow i events key ↔ e ∈ events ∧ e.window i = key := by
  rw [ofWindow, List.mem_filter, decide_eq_true_eq]

namespace EventLog

/-- The logs of a directory hold the events `group` of each window, in the sealed log where the
window is closed and in the open one where it is not. Nothing else is there, and no failure is to
come. -/
structure Faithful (log : EventLog) (group : Int → List Event) (closed : Int → Bool) : Prop where
  plain : log.Plain
  faultless : log.faults = .none
  logs : ∀ k b, log.logAt k b =
    if group k ≠ [] ∧ b = closed k then some (.file (linesOf (group k))) else none

variable {log : EventLog} {group : Int → List Event} {closed : Int → Bool} {key : Int}
  {events : List Event}

theorem Faithful.congr {closed' : Int → Bool} (h : log.Faithful group closed)
    (hclosed : ∀ k, group k ≠ [] → closed k = closed' k) : log.Faithful group closed' := by
  refine ⟨h.plain, h.faultless, ?_⟩
  intro k b
  rw [h.logs]
  by_cases hk : group k = []
  · rw [if_neg fun hb => hb.1 hk, if_neg fun hb => hb.1 hk]
  · rw [hclosed k hk]

theorem Faithful.logAt_closed (h : log.Faithful group closed) (hk : group key ≠ []) :
    log.logAt key (closed key) = some (.file (linesOf (group key))) := by
  rw [h.logs, if_pos ⟨hk, rfl⟩]

theorem Faithful.fits (h : log.Faithful group closed) (hk : group key ≠ []) :
    0 ≤ key ∧ fitsBits 64 key = true :=
  (h.plain.key_of_logAt (h.logAt_closed hk)).2

theorem Faithful.bytesOf (h : log.Faithful group closed) (key : Int) :
    log.bytesOf key (closed key) = linesOf (group key) := by
  by_cases hk : group key = []
  · have hnone : log.logAt key (closed key) = none := by
      rw [h.logs, if_neg fun hb => hb.1 hk]
    rw [bytesOf_of_none hnone, hk]
    rfl
  · unfold EventLog.bytesOf
    rw [h.logAt_closed hk]

section Append

theorem Plain.addBytes {log' : EventLog} {bytes : List UInt8} (hplain : log.Plain)
    (hkey : 0 ≤ key) (hfits : fitsBits 64 key = true)
    (h : log.addBytes key bytes = .ok log') : log'.Plain := by
  obtain ⟨d, ha, rfl⟩ := of_addBytes h
  intro name entry hget
  rw [Directory.get?_of_append ha] at hget
  split at hget
  · next hname =>
    cases hget
    exact ⟨rfl, key, false, hname, hkey, hfits⟩
  · exact hplain name entry hget

/-- Without failures to come, a batch that can be written is written as a whole. -/
theorem append_of_faultless {log' : EventLog} (h : log.faults = .none) (hne : events ≠ [])
    (hwritable : ¬Unwritable log.strictNames events)
    (hadd : log.addBytes key (linesOf events) = .ok log') :
    log.append key events = (log', .ok ()) := by
  have hfault : key ∉ log.faults.appends := by
    rw [h]
    exact List.not_mem_nil
  have hreached : log.faults.reached key (linesOf events) = linesOf events := by
    rw [h]
    rfl
  have hpartial : ¬(log.faults.partials.lookup key).isSome = true := by
    rw [h]
    exact Bool.false_ne_true
  unfold append
  rw [if_neg hfault, if_neg hne, if_neg (not_not_intro (all_isWritable_iff.mpr hwritable)),
    hreached, hadd]
  dsimp only
  rw [if_neg hpartial]

/-- A batch that can be written is added to the events of a window that is not closed. -/
theorem Faithful.append (h : log.Faithful group closed) (hopen : closed key = false)
    (hkey : 0 ≤ key) (hfits : fitsBits 64 key = true) (hne : events ≠ [])
    (hwritable : ¬Unwritable log.strictNames events) :
    ∃ log', log.append key events = (log', .ok ()) ∧
      log'.Faithful (fun k => if k = key then group k ++ events else group k) closed := by
  -- Under the name of the open log there is a file or nothing, and both can be appended to.
  obtain ⟨log', hadd⟩ : ∃ log', log.addBytes key (linesOf events) = .ok log' := by
    have hfind : log.directory.find (openName key) = .ok (log.logAt key false) :=
      log.find_of_fits hfits false
    unfold EventLog.addBytes Directory.append
    rw [hfind]
    by_cases hgroup : group key ≠ [] ∧ false = closed key
    · rw [h.logs, if_pos hgroup]
      exact ⟨_, rfl⟩
    · rw [h.logs, if_neg hgroup]
      exact ⟨_, rfl⟩
  have hfaults : log'.faults = log.faults := by
    obtain ⟨d, _, rfl⟩ := of_addBytes hadd
    rfl
  refine ⟨log', append_of_faultless h.faultless hne hwritable hadd,
    h.plain.addBytes hkey hfits hadd, hfaults.trans h.faultless, ?_⟩
  intro k b
  rw [logAt_of_addBytes hadd]
  by_cases hk : k = key
  · subst hk
    have hbytes := h.bytesOf k
    have hnew : group k ++ events ≠ [] := by simp [hne]
    rw [hopen] at hbytes ⊢
    rw [if_pos rfl]
    cases b with
    | false => rw [if_pos ⟨rfl, rfl⟩, if_pos ⟨hnew, rfl⟩, hbytes, linesOf_append]
    | true =>
      rw [if_neg fun hb => Bool.noConfusion hb.2, if_neg fun hb => Bool.noConfusion hb.2, h.logs,
        hopen, if_neg fun hb => Bool.noConfusion hb.2]
  · rw [if_neg fun hb => hk hb.1, if_neg hk]
    exact h.logs k b

end Append

section Seal

/-- The open log of a window is sealed, and the window is closed then. -/
theorem Faithful.seal (h : log.Faithful group closed) (hgroup : group key ≠ [])
    (hopen : closed key = false) :
    ∃ log', log.sealWindow key = .ok (log', true) ∧
      log'.Faithful group fun k => closed k || k = key := by
  obtain ⟨hkey, hfits⟩ := h.fits hgroup
  have hfault : key ∉ log.faults.seals := by
    rw [h.faultless]
    exact List.not_mem_nil
  have hthere : log.directory.find (openName key) = .ok (some (.file (linesOf (group key)))) := by
    have hfind := log.find_of_fits hfits false
    have hlog := h.logAt_closed hgroup
    rw [hopen] at hlog
    rw [hlog] at hfind
    exact hfind
  have hfree : log.directory.find (sealedName key) = .ok none := by
    have hfind := log.find_of_fits hfits true
    rw [h.logs, if_neg (by rw [hopen]; exact fun hb => Bool.noConfusion hb.2)] at hfind
    exact hfind
  -- The bytes of the open log go to the name of the sealed one, under which there is nothing yet.
  refine ⟨⟨(log.directory.erase (openName key)).insert (sealedName key)
    (.file (linesOf (group key))), log.faults, log.strictNames⟩, ?_, ?_, h.faultless, ?_⟩
  · unfold sealWindow
    rw [if_neg hfault, hthere, hfree]
  · intro name entry hget
    rw [KeyedList.get?_insert] at hget
    split at hget
    · next hname =>
      cases hget
      exact ⟨rfl, key, true, hname, hkey, hfits⟩
    · rw [KeyedList.get?_erase] at hget
      split at hget
      · cases hget
      · exact h.plain name entry hget
  · intro k b
    have hold := h.logs k b
    have hs : logName k b = sealedName key ↔ k = key ∧ b = true := logName_inj (b := true)
    have ho : logName k b = openName key ↔ k = key ∧ b = false := logName_inj (b := false)
    unfold logAt at hold ⊢
    rw [KeyedList.get?_insert, KeyedList.get?_erase, hold]
    simp only [hs, ho]
    by_cases hk : k = key
    · subst hk
      cases b with
      | true => simp [hgroup]
      | false => simp
    · simp [hk]

end Seal

section Delete

variable {d : Directory}

theorem removeIfPresent_of_absent {name : String}
    (hshort : name.utf8ByteSize ≤ Directory.maxNameSize) (h : d.get? name = none) :
    removeIfPresent d name = .ok (d, false) := by
  unfold removeIfPresent Directory.remove Directory.find
  rw [if_neg (Nat.not_lt.mpr hshort), h]
  rfl

theorem removeIfPresent_of_none {name : String} (h : d.get? name = none) :
    removeIfPresent d name = .ok (d, false) ∨ ∃ e, removeIfPresent d name = .error e := by
  by_cases hlong : Directory.maxNameSize < name.utf8ByteSize
  · right
    unfold removeIfPresent Directory.remove Directory.find
    rw [if_pos hlong]
    exact ⟨.nameTooLong, rfl⟩
  · exact Or.inl (removeIfPresent_of_absent (Nat.not_lt.mp hlong) h)

theorem removeIfPresent_of_file {name : String} {bytes : List UInt8}
    (hshort : name.utf8ByteSize ≤ Directory.maxNameSize) (h : d.get? name = some (.file bytes)) :
    removeIfPresent d name = .ok (d.erase name, true) := by
  unfold removeIfPresent Directory.remove Directory.find
  rw [if_neg (Nat.not_lt.mpr hshort), h]
  rfl

/-- Deleting the logs of a window that has none changes nothing. -/
theorem deleteWindow_of_absent (hsealed : d.get? (sealedName key) = none)
    (hopen : d.get? (openName key) = none) :
    (deleteWindow d key).1 = d ∧ (deleteWindow d key).2 ≠ .removed := by
  unfold deleteWindow
  rcases removeIfPresent_of_none hsealed with h | ⟨e, h⟩
  · rw [h]
    dsimp only
    rcases removeIfPresent_of_none hopen with h' | ⟨e, h'⟩
    · rw [h']
      exact ⟨rfl, Deletion.noConfusion⟩
    · rw [h']
      exact ⟨rfl, Deletion.noConfusion⟩
  · rw [h]
    exact ⟨rfl, Deletion.noConfusion⟩

/-- A log is always reported when it is deleted. -/
theorem deleteWindow_of_present {bytes : List UInt8} {b : Bool} (hfits : fitsBits 64 key = true)
    (h : d.get? (logName key b) = some (.file bytes)) (hother : d.get? (logName key !b) = none) :
    (deleteWindow d key).2 = .removed := by
  have hshort (b : Bool) := utf8ByteSize_logName_le hfits b
  unfold deleteWindow
  -- The sealed log is tried first; whether it is there decides at which step the log is removed.
  cases b with
  | true =>
    have hfirst : removeIfPresent d (sealedName key) = .ok (d.erase (sealedName key), true) :=
      removeIfPresent_of_file (hshort true) h
    have hopen : (d.erase (sealedName key)).get? (openName key) = none := by
      rw [KeyedList.get?_erase]
      split
      · rfl
      · exact hother
    have hsecond : removeIfPresent (d.erase (sealedName key)) (openName key) =
        .ok (d.erase (sealedName key), false) := removeIfPresent_of_absent (hshort false) hopen
    rw [hfirst]
    dsimp only
    rw [hsecond]
    rfl
  | false =>
    have hfirst : removeIfPresent d (sealedName key) = .ok (d, false) :=
      removeIfPresent_of_absent (hshort true) hother
    have hsecond : removeIfPresent d (openName key) = .ok (d.erase (openName key), true) :=
      removeIfPresent_of_file (hshort false) h
    rw [hfirst]
    dsimp only
    rw [hsecond]
    rfl

theorem deleteWindows_of_nothing {keys : List Int} (hfaithful : log.Faithful group closed)
    (h : (deleteWindows log.directory keys).2.1 = []) :
    (deleteWindows log.directory keys).1 = log.directory ∧ ∀ k ∈ keys, group k = [] := by
  induction keys with
  | nil => exact ⟨rfl, fun k hk => nomatch hk⟩
  | cons key rest ih =>
    -- A window with events has a log, and its deletion would have been reported.
    have hempty : group key = [] := by
      apply Decidable.byContradiction
      intro hne
      have hthere : log.directory.get? (logName key (closed key)) =
          some (.file (linesOf (group key))) := hfaithful.logAt_closed hne
      have hother : log.directory.get? (logName key !closed key) = none := by
        have hlog := hfaithful.logs key (!closed key)
        rw [if_neg fun hb => by cases hc : closed key <;> rw [hc] at hb <;> cases hb.2] at hlog
        exact hlog
      have hremoved := deleteWindow_of_present (hfaithful.fits hne).2 hthere hother
      rw [deleteWindows] at h
      simp only [hremoved] at h
      cases h
    have hnone (b : Bool) : log.directory.get? (logName key b) = none := by
      have hlog := hfaithful.logs key b
      rw [if_neg fun hb => hb.1 hempty] at hlog
      exact hlog
    obtain ⟨hsame, hout⟩ := deleteWindow_of_absent (hnone true) (hnone false)
    rw [deleteWindows] at h ⊢
    generalize deleteWindow log.directory key = result at h hsame hout ⊢
    obtain ⟨d, outcome⟩ := result
    dsimp only at h hsame hout ⊢
    subst hsame
    cases outcome with
    | removed => exact absurd rfl hout
    | absent =>
      obtain ⟨hrest, hall⟩ := ih h
      exact ⟨hrest, List.forall_mem_cons.mpr ⟨hempty, hall⟩⟩
    | failed =>
      obtain ⟨hrest, hall⟩ := ih h
      exact ⟨hrest, List.forall_mem_cons.mpr ⟨hempty, hall⟩⟩

/-- Without failures to come, a deletion goes through all windows that it is given. -/
theorem delete_eq_deleteWindows (h : log.faults = .none) (keys : List Int) :
    log.delete keys =
      ({ log with directory := (deleteWindows log.directory keys).1 },
        (deleteWindows log.directory keys).2.1, (deleteWindows log.directory keys).2.2) := by
  have hno : keys.filter (· ∈ log.faults.deletions) = [] := by
    rw [List.filter_eq_nil_iff, h]
    intro k _ hk
    exact absurd (of_decide_eq_true hk) List.not_mem_nil
  have hall : keys.filter (· ∉ log.faults.deletions) = keys := by
    rw [List.filter_eq_self, h]
    intro k _
    exact decide_eq_true List.not_mem_nil
  unfold delete
  rw [hno, hall]
  dsimp only
  rw [List.append_nil]

/-- Where no window is reported as deleted, nothing changes. -/
theorem Faithful.delete_of_nothing {keys : List Int} (h : log.Faithful group closed)
    (hnone : (log.delete keys).2.1 = []) :
    (log.delete keys).1 = log ∧ ∀ k ∈ keys, group k = [] := by
  rw [delete_eq_deleteWindows h.faultless] at hnone ⊢
  obtain ⟨hsame, hempty⟩ := deleteWindows_of_nothing h hnone
  refine ⟨?_, hempty⟩
  change { log with directory := (deleteWindows log.directory keys).1 } = log
  rw [hsame]

/-- A deletion puts nothing under any name. -/
theorem get?_deleteWindow (d : Directory) (key : Int) (name : String) :
    (deleteWindow d key).1.get? name = none ∨
      (deleteWindow d key).1.get? name = d.get? name := by
  have hremoved {d d' : Directory} {j : String} {had : Bool}
      (h : removeIfPresent d j = .ok (d', had)) :
      d'.get? name = none ∨ d'.get? name = d.get? name := by
    rw [Directory.get?_of_removeIfPresent h]
    split
    · exact Or.inl rfl
    · exact Or.inr rfl
  unfold deleteWindow
  cases h₁ : removeIfPresent d (sealedName key) with
  | error e => exact Or.inr rfl
  | ok r₁ =>
    obtain ⟨d₁, hadSealed⟩ := r₁
    cases h₂ : removeIfPresent d₁ (openName key) with
    | error e =>
      simp only [h₂]
      exact hremoved h₁
    | ok r₂ =>
      obtain ⟨d₂, hadOpen⟩ := r₂
      simp only [h₂]
      rcases hremoved h₂ with hnone | hsame
      · exact Or.inl hnone
      · rw [hsame]
        exact hremoved h₁

/-- Deleting the logs of a window succeeds where its names are short enough and stand for
nothing. -/
theorem deleteWindow_of_fits (hfits : fitsBits 64 key = true)
    (h : ∀ b, d.get? (logName key b) = none) : (deleteWindow d key).2 = .absent := by
  have hsealed : removeIfPresent d (sealedName key) = .ok (d, false) :=
    removeIfPresent_of_absent (utf8ByteSize_logName_le hfits true) (h true)
  have hopen : removeIfPresent d (openName key) = .ok (d, false) :=
    removeIfPresent_of_absent (utf8ByteSize_logName_le hfits false) (h false)
  unfold deleteWindow
  rw [hsealed]
  dsimp only
  rw [hopen]
  rfl

/-- The events of one window are deleted, and that fails only where its names are too long. -/
theorem Faithful.deleteOne (h : log.Faithful group closed) (key : Int) :
    { log with directory := (EventLog.deleteWindow log.directory key).1 }.Faithful
        (fun k => if k = key then [] else group k) closed ∧
      ((EventLog.deleteWindow log.directory key).2 = .failed → ¬fitsBits 64 key = true) := by
  have hplain : { log with directory := (EventLog.deleteWindow log.directory key).1 }.Plain := by
    intro name entry hget
    rcases get?_deleteWindow log.directory key name with hnone | hsame
    · change (EventLog.deleteWindow log.directory key).1.get? name = _ at hget
      rw [hnone] at hget
      cases hget
    · exact h.plain name entry (hsame.symm.trans hget)
  -- A window without events has no log; any other one has a single log, which is removed.
  by_cases hgroup : group key = []
  · have hnone (b : Bool) : log.directory.get? (logName key b) = none :=
      (h.logs key b).trans (if_neg fun hb => hb.1 hgroup)
    have hsame := (deleteWindow_of_absent (hnone true) (hnone false)).1
    have hgroups : (fun k => if k = key then [] else group k) = group := by
      funext k
      split
      · next hk => rw [hk, hgroup]
      · rfl
    rw [hsame, hgroups]
    refine ⟨h, ?_⟩
    intro hfailed hfits
    rw [deleteWindow_of_fits hfits hnone] at hfailed
    cases hfailed
  · have hthere : log.directory.get? (logName key (closed key)) =
        some (.file (linesOf (group key))) := h.logAt_closed hgroup
    have hother : log.directory.get? (logName key !closed key) = none := by
      refine (h.logs key (!closed key)).trans (if_neg ?_)
      rintro ⟨_, hb⟩
      cases hc : closed key <;> rw [hc] at hb <;> cases hb
    have hremoved := deleteWindow_of_present (h.fits hgroup).2 hthere hother
    obtain ⟨gone, hgone⟩ := deleteWindow_deleted log.directory key
    rw [hremoved, if_neg Deletion.noConfusion] at hgone
    refine ⟨⟨hplain, h.faultless, ?_⟩, ?_⟩
    · intro k b
      refine (hgone.left k b).trans ?_
      by_cases hk : k = key
      · subst hk
        rw [if_pos (hgone.all_gone k (.head _) List.not_mem_nil b), if_pos rfl,
          if_neg fun hb => hb.1 rfl]
      · have hstays : (k, b) ∉ gone :=
          fun hmem => hk (List.mem_singleton.mp (hgone.mem_keys _ hmem))
        rw [if_neg hstays, if_neg hk]
        exact h.logs k b
    · intro hfailed
      rw [hremoved] at hfailed
      cases hfailed

theorem Faithful.deleteAll (h : log.Faithful group closed) (keys : List Int) :
    { log with directory := (deleteWindows log.directory keys).1 }.Faithful
        (fun k => if k ∈ keys then [] else group k) closed ∧
      ∀ k ∈ (deleteWindows log.directory keys).2.2, ¬fitsBits 64 k = true := by
  induction keys generalizing log group with
  | nil =>
    have hgroups : (fun k => if k ∈ ([] : List Int) then [] else group k) = group := by
      funext k
      exact if_neg List.not_mem_nil
    rw [hgroups]
    exact ⟨h, fun k hk => nomatch hk⟩
  | cons key rest ih =>
    obtain ⟨hone, hfailed⟩ := h.deleteOne key
    obtain ⟨hrest, hlater⟩ := ih hone
    have hgroups : (fun k => if k ∈ rest then [] else if k = key then [] else group k) =
        fun k => if k ∈ key :: rest then [] else group k := by
      funext k
      by_cases hk : k = key <;> by_cases hmem : k ∈ rest <;> simp [hk, hmem]
    rw [hgroups] at hrest
    rw [deleteWindows]
    cases hout : (EventLog.deleteWindow log.directory key).2 with
    | removed =>
      simp only [hout]
      exact ⟨hrest, hlater⟩
    | absent =>
      simp only [hout]
      exact ⟨hrest, hlater⟩
    | failed =>
      simp only [hout]
      exact ⟨hrest, List.forall_mem_cons.mpr ⟨hfailed hout, hlater⟩⟩

/-- The events of the deleted windows are gone, and deleting fails for no window with events. -/
theorem Faithful.delete (h : log.Faithful group closed) (keys : List Int) :
    (log.delete keys).1.Faithful (fun k => if k ∈ keys then [] else group k) closed ∧
      ∀ k ∈ (log.delete keys).2.2, group k = [] := by
  obtain ⟨hfaithful, hfailed⟩ := h.deleteAll keys
  rw [delete_eq_deleteWindows h.faultless]
  refine ⟨hfaithful, ?_⟩
  intro k hk
  apply Decidable.byContradiction
  intro hgroup
  exact hfailed k hk (h.fits hgroup).2

end Delete

section Read

theorem Faithful.logAt_sealed_iff (h : log.Faithful group closed) :
    log.logAt key true ≠ none ↔ group key ≠ [] ∧ closed key = true := by
  rw [h.logs]
  split
  · next hb => exact ⟨fun _ => ⟨hb.1, hb.2.symm⟩, fun _ => Option.some_ne_none _⟩
  · next hb => exact ⟨fun hne => absurd rfl hne, fun hk => absurd ⟨hk.1, hk.2.symm⟩ hb⟩

theorem Faithful.isSealed_iff (h : log.Faithful group closed) (hfits : fitsBits 64 key = true) :
    log.isSealed key = .ok true ↔ group key ≠ [] ∧ closed key = true := by
  rw [h.plain.isSealed_iff hfits, h.logAt_sealed_iff]

theorem Faithful.isSealed_of_closed (h : log.Faithful group closed) (hk : group key ≠ [])
    (hclosed : closed key = true) : log.isSealed key = .ok true :=
  (h.isSealed_iff (h.fits hk).2).mpr ⟨hk, hclosed⟩

theorem Faithful.read_eq (h : log.Faithful group closed) (hk : group key ≠ [])
    (hclosed : closed key = true) : log.read key = .ok (transcribe (linesOf (group key))) := by
  have hlog := h.logAt_closed hk
  rw [hclosed] at hlog
  have hfind : log.directory.find (sealedName key) = .ok (some (.file (linesOf (group key)))) := by
    have hfound := log.find_of_fits (h.fits hk).2 true
    rw [hlog] at hfound
    exact hfound
  unfold EventLog.read Directory.content
  rw [hfind]
  rfl

theorem Faithful.read (h : log.Faithful group closed) (hk : group key ≠ [])
    (hclosed : closed key = true) (hreadable : ∀ e ∈ group key, e.Readable)
    (hplain : ∀ e ∈ group key, e.isPlain = true) :
    log.read key = .ok ⟨(group key).map some, true⟩ := by
  rw [h.read_eq hk hclosed, transcribe_linesOf hreadable hplain]

/-- Logs that lack nothing are orderly, and their closed windows are sealed. -/
theorem Faithful.orderly {i : Interval} (h : log.Faithful (Event.ofWindow i events) closed)
    (hreadable : ∀ e ∈ events, e.Readable) (hplain : ∀ e ∈ events, e.isPlain = true) :
    ∃ sealed, log.Orderly i sealed ∧
      ∀ k, k ∈ sealed ↔ Event.ofWindow i events k ≠ [] ∧ closed k = true := by
  obtain ⟨sealed, hkeys, hmem⟩ := h.plain.sealedKeys
  have hmem' (k : Int) : k ∈ sealed ↔ Event.ofWindow i events k ≠ [] ∧ closed k = true := by
    rw [hmem, h.logAt_sealed_iff]
  refine ⟨sealed, ⟨hkeys, ?_, ?_⟩, hmem'⟩
  · intro k hk
    obtain ⟨e, he⟩ := List.exists_mem_of_ne_nil _ ((hmem' k).mp hk).1
    rw [← (Event.mem_ofWindow.mp he).2]
    exact i.aligned_key _
  · intro k t e hread he
    -- What can be read is the log of a closed window.
    obtain ⟨bytes, hfind, _⟩ := find_of_read hread
    have hthere : log.logAt k true ≠ none := by
      have hget : log.logAt k true = _ := Directory.get?_of_find hfind
      rw [hget]
      exact Option.some_ne_none _
    obtain ⟨hk, hclosed⟩ := h.logAt_sealed_iff.mp hthere
    have hevents : ∀ e ∈ Event.ofWindow i events k, e.Readable :=
      fun e he => hreadable e (Event.mem_ofWindow.mp he).1
    rw [h.read hk hclosed hevents fun e he => hplain e (Event.mem_ofWindow.mp he).1] at hread
    cases hread
    obtain ⟨e', he', heq⟩ := List.mem_map.mp he
    cases heq
    exact (Event.mem_ofWindow.mp he').2

end Read

end EventLog

end RequestWindows
