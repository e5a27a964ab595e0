import RequestWindows.EventLog.Basic

namespace RequestWindows

/-- The name of a window's log, sealed or open. -/
def logName (key : Int) (isSealed : Bool) : String :=
  if isSealed then sealedName key else openName key

theorem logName_inj {j k : Int} {a b : Bool} : logName j a = logName k b ↔ j = k ∧ a = b := by
  constructor
  · intro h
    cases a <;> cases b
    · exact ⟨openName_injective h, rfl⟩
    · exact absurd h.symm (sealedName_ne_openName k j)
    · exact absurd h (sealedName_ne_openName j k)
    · exact ⟨sealedName_injective h, rfl⟩
  · rintro ⟨rfl, rfl⟩
    rfl

namespace Directory

variable {d d' : Directory} {name : String}

theorem get?_of_missing (h : d.remove name = .error .missing) : d.get? name = none := by
  unfold remove at h
  cases hf : d.find name with
  | error e =>
    rw [hf] at h
    have he : e = .missing := Except.error.inj h
    unfold find at hf
    split at hf
    · rw [he] at hf
      cases hf
    · cases hf
  | ok entry =>
    rw [hf] at h
    cases entry with
    | none => exact get?_of_find hf
    | some found => cases found <;> cases h

/-- Removing a file can only take away what has its name. -/
theorem get?_of_removeIfPresent {had : Bool} (h : EventLog.removeIfPresent d name = .ok (d', had))
    (j : String) : d'.get? j = if j = name then none else d.get? j := by
  unfold EventLog.removeIfPresent at h
  cases hr : d.remove name with
  | ok d₁ =>
    rw [hr] at h
    cases h
    exact get?_of_remove hr j
  | error e =>
    rw [hr] at h
    cases e with
    | missing =>
      cases h
      split
      · next hj =>
        rw [hj]
        exact get?_of_missing hr
      · rfl
    | _ => cases h

end Directory

namespace EventLog

/-- What stands under the name of a window's log, sealed or open. -/
def logAt (log : EventLog) (key : Int) (isSealed : Bool) : Option Entry :=
  log.directory.get? (logName key isSealed)

variable {log log' : EventLog} {key : Int} {events : List Event}

/-- What stands under the name of a log is found where the name is not too long. -/
theorem find_logName (log : EventLog) {b : Bool}
    (h : (logName key b).utf8ByteSize ≤ Directory.maxNameSize) :
    log.directory.find (logName key b) = .ok (log.logAt key b) :=
  if_neg (Nat.not_lt.mpr h)

section Append

variable {bytes : List UInt8}

/-- The bytes of a log; where there is none, or a folder in its place, there are no bytes. -/
def bytesOf (log : EventLog) (key : Int) (isSealed : Bool) : List UInt8 :=
  match log.logAt key isSealed with
  | some (.file bytes) => bytes
  | _ => []

theorem bytesOf_eq {j k : Int} {b c : Bool} (h : log'.logAt k c = log.logAt j b) :
    log'.bytesOf k c = log.bytesOf j b := by
  unfold bytesOf
  rw [h]

theorem bytesOf_of_none {k : Int} {b : Bool} (h : log.logAt k b = none) :
    log.bytesOf k b = [] := by
  unfold bytesOf
  rw [h]

theorem linesOf_append (l m : List Event) : linesOf (l ++ m) = linesOf l ++ linesOf m := by
  unfold linesOf Text.encodeUtf8
  rw [List.flatMap_append, List.flatMap_append]

/-- Adding bytes changes the directory and nothing else. -/
theorem of_addBytes (h : log.addBytes key bytes = .ok log') :
    ∃ d, log.directory.append (openName key) bytes = .ok d ∧
      log' = { log with directory := d } := by
  unfold addBytes at h
  cases ha : log.directory.append (openName key) bytes with
  | error e =>
    rw [ha] at h
    cases h
  | ok d =>
    rw [ha] at h
    cases h
    exact ⟨d, rfl, rfl⟩

theorem of_addBytes_error {e : LogError} (h : log.addBytes key bytes = .error e) :
    e.isSystem = true := by
  unfold addBytes at h
  split at h
  · cases h
  · cases h
    rfl

/-- Bytes are added to the open log of their window and to no other. -/
theorem logAt_of_addBytes (h : log.addBytes key bytes = .ok log') (j : Int) (b : Bool) :
    log'.logAt j b =
      if j = key ∧ b = false then some (.file (log.bytesOf key false ++ bytes))
      else log.logAt j b := by
  obtain ⟨d, ha, rfl⟩ := of_addBytes h
  have hname : logName j b = openName key ↔ j = key ∧ b = false := logName_inj (b := false)
  refine (Directory.get?_of_append ha (logName j b)).trans ?_
  by_cases hj : j = key ∧ b = false
  · rw [if_pos (hname.mpr hj), if_pos hj]
    unfold bytesOf logAt
    change some (Entry.file _) = some (Entry.file ((match log.directory.get? (openName key) with
      | some (.file bytes) => bytes
      | _ => []) ++ bytes))
    split <;> simp_all
  · rw [if_neg (mt hname.mp hj), if_neg hj]
    rfl

theorem bytesOf_of_addBytes (h : log.addBytes key bytes = .ok log') :
    log'.bytesOf key false = log.bytesOf key false ++ bytes := by
  have hentry := logAt_of_addBytes h key false
  rw [if_pos ⟨rfl, rfl⟩] at hentry
  unfold bytesOf at hentry ⊢
  rw [hentry]

/-- What an append writes: where the lines of its batch begin, or all of them unless it is made to
break off. -/
structure Writes (log : EventLog) (key : Int) (events : List Event) (bytes : List UInt8) :
    Prop where
  begins : bytes <+: linesOf events
  whole : log.faults.partials.lookup key = none → bytes = linesOf events

theorem writes_reached (log : EventLog) (key : Int) (events : List Event) :
    log.Writes key events (log.faults.reached key (linesOf events)) := by
  unfold Faults.reached
  split
  · next n hn => exact ⟨List.take_prefix _ _, fun hnone => by rw [hn] at hnone; cases hnone⟩
  · exact ⟨List.prefix_refl _, fun _ => rfl⟩

/-- Whether a batch has an event that cannot be written. -/
def Unwritable (strictNames : Bool) (events : List Event) : Prop :=
  ∃ e ∈ events, e.isWritable strictNames = false

instance (strictNames : Bool) (events : List Event) : Decidable (Unwritable strictNames events) :=
  inferInstanceAs (Decidable (∃ e ∈ events, _))

/-- What appending a batch comes to: there is nothing to append, or an event of it cannot be
written, or another failure comes before anything is written, or it breaks off half way, or it is
written as a whole. -/
inductive Appends (log : EventLog) (key : Int) (events : List Event) :
    EventLog × Except LogError Unit → Prop
  | nothing (hfault : key ∉ log.faults.appends) (h : events = []) :
      Appends log key events (log, .ok ())
  | unencodable (hfault : key ∉ log.faults.appends) (h : Unwritable log.strictNames events) :
      Appends log key events (log, .error .unencodable)
  | failed {e : LogError} (hsystem : e.isSystem = true)
      (h : key ∉ log.faults.appends → ¬Unwritable log.strictNames events) :
      Appends log key events (log, .error e)
  | broken {log' : EventLog} {bytes : List UInt8} (hne : events ≠ [])
      (hwritable : ¬Unwritable log.strictNames events) (hwrites : log.Writes key events bytes)
      (hpartial : (log.faults.partials.lookup key).isSome = true)
      (h : log.addBytes key bytes = .ok log') : Appends log key events (log', .error .failure)
  | written {log' : EventLog} (hne : events ≠ []) (hfault : key ∉ log.faults.appends)
      (hwritable : ¬Unwritable log.strictNames events)
      (h : log.addBytes key (linesOf events) = .ok log') : Appends log key events (log', .ok ())

theorem all_isWritable_iff {strictNames : Bool} {events : List Event} :
    events.all (·.isWritable strictNames) = true ↔ ¬Unwritable strictNames events := by
  unfold Unwritable
  simp

/-- An append is refused for what is in the batch exactly if it is not made to fail before that is
found out. -/
theorem Appends.unencodable_iff {r : EventLog × Except LogError Unit}
    (h : Appends log key events r) :
    r.2 = .error .unencodable ↔
      key ∉ log.faults.appends ∧ Unwritable log.strictNames events := by
  cases h with
  | nothing _ hnil =>
    subst hnil
    simp [Unwritable]
  | unencodable hfault hbad => simp [hfault, hbad]
  | failed hsystem hgood =>
    constructor
    · intro he
      rw [Except.error.inj he] at hsystem
      cases hsystem
    · intro hbad
      exact absurd hbad.2 (hgood hbad.1)
  | broken _ hgood _ _ _ => simp [hgood]
  | written _ _ hgood _ => simp [hgood]

theorem append_appends (log : EventLog) (key : Int) (events : List Event) :
    Appends log key events (log.append key events) := by
  unfold append
  split
  · next hfault => exact .failed rfl fun h => absurd hfault h
  · next hfault =>
    split
    · next hnil => exact .nothing hfault hnil
    · next hne =>
      split
      · next h =>
        rw [all_isWritable_iff, Classical.not_not] at h
        exact .unencodable hfault h
      · next h =>
        rw [Classical.not_not, all_isWritable_iff] at h
        cases ha : log.addBytes key (log.faults.reached key (linesOf events)) with
        | error e => exact .failed (of_addBytes_error ha) fun _ => h
        | ok log' =>
          dsimp only
          cases hpartial : log.faults.partials.lookup key with
          | none =>
            unfold Faults.reached at ha
            rw [hpartial] at ha
            exact .written hne hfault h ha
          | some n =>
            have hsome : (log.faults.partials.lookup key).isSome = true := by rw [hpartial]; rfl
            exact .broken hne h (log.writes_reached key events) hsome ha

end Append

section Seal

/-- Sealing finds no open log and does nothing, or it moves the open log of its window to a name
that nothing had. -/
theorem sealWindow_cases {renamed : Bool} (h : log.sealWindow key = .ok (log', renamed)) :
    (renamed = false ∧ log' = log ∧ log.logAt key false = none) ∨
      (renamed = true ∧ log'.faults = log.faults ∧ log.logAt key true = none ∧
        ∃ e, log.logAt key false = some e ∧ ∀ j b, log'.logAt j b =
          if j = key then if b then some e else none else log.logAt j b) := by
  unfold sealWindow at h
  split at h
  · cases h
  · split at h
    · cases h
    · next hopen =>
      cases h
      exact Or.inl ⟨rfl, rfl, Directory.get?_of_find hopen⟩
    · cases h
    · cases h
    · next entry hopen hsealed =>
      cases h
      right
      refine ⟨rfl, rfl, Directory.get?_of_find hsealed, entry, Directory.get?_of_find hopen, ?_⟩
      intro j b
      have hs : logName j b = sealedName key ↔ j = key ∧ b = true := logName_inj (b := true)
      have ho : logName j b = openName key ↔ j = key ∧ b = false := logName_inj (b := false)
      unfold logAt
      rw [KeyedList.get?_insert, KeyedList.get?_erase]
      simp only [hs, ho]
      by_cases hj : j = key <;> cases b <;> simp [hj]

theorem strictNames_of_sealWindow {renamed : Bool} (h : log.sealWindow key = .ok (log', renamed)) :
    log'.strictNames = log.strictNames := by
  unfold sealWindow at h
  split at h
  · cases h
  · split at h
    all_goals cases h
    all_goals rfl

/-- Sealing is refused for a sealed log only where both logs of a window are there. -/
theorem both_of_alreadySealed {j : Int} (h : log.sealWindow key = .error (.alreadySealed j)) :
    log.logAt key false ≠ none ∧ log.logAt key true ≠ none := by
  unfold sealWindow at h
  split at h
  · cases h
  · split at h
    · cases h
    · cases h
    · cases h
    · next hopen hsealed =>
      have ho : log.logAt key false = some _ := Directory.get?_of_find hopen
      have hs : log.logAt key true = some _ := Directory.get?_of_find hsealed
      rw [ho, hs]
      exact ⟨Option.some_ne_none _, Option.some_ne_none _⟩
    · cases h

end Seal

section Delete

/-- The logs `gone` are deleted; `keys` are the windows that were to be deleted, and deleting failed
for those of `failed`. -/
structure Deleted (d d' : Directory) (keys failed : List Int) (gone : List (Int × Bool)) :
    Prop where
  left : ∀ j b, d'.get? (logName j b) = if (j, b) ∈ gone then none else d.get? (logName j b)
  mem_keys : ∀ f ∈ gone, f.1 ∈ keys
  failed_mem : ∀ j ∈ failed, j ∈ keys
  all_gone : ∀ j ∈ keys, j ∉ failed → ∀ b, (j, b) ∈ gone
  /-- The sealed log of a window goes first. -/
  sealed_first : ∀ j, (j, false) ∈ gone → (j, true) ∈ gone

variable {d d' : Directory} {keys failed : List Int} {gone : List (Int × Bool)}

theorem Deleted.none (d : Directory) {keys : List Int} : Deleted d d keys keys [] := by
  refine ⟨?_, ?_, fun _ hj => hj, ?_, ?_⟩
  · intro j b
    rw [if_neg List.not_mem_nil]
  · intro f hf
    cases hf
  · intro j hj hnot
    exact absurd hj hnot
  · intro j hj
    cases hj

theorem Deleted.trans {e : Directory} {more failed' : List Int} {gone' : List (Int × Bool)}
    (h₁ : Deleted d d' keys failed gone) (h₂ : Deleted d' e more failed' gone') :
    Deleted d e (keys ++ more) (failed ++ failed') (gone ++ gone') := by
  refine ⟨?_, ?_, ?_, ?_, ?_⟩
  · intro j b
    rw [h₂.left, h₁.left]
    simp only [List.mem_append]
    by_cases hgone : (j, b) ∈ gone <;> by_cases hgone' : (j, b) ∈ gone' <;> simp [hgone, hgone']
  · intro f hf
    exact List.mem_append.mpr ((List.mem_append.mp hf).imp (h₁.mem_keys f) (h₂.mem_keys f))
  · intro j hj
    exact List.mem_append.mpr ((List.mem_append.mp hj).imp (h₁.failed_mem j) (h₂.failed_mem j))
  · intro j hj hnot b
    rw [List.mem_append, not_or] at hnot
    rw [List.mem_append]
    exact (List.mem_append.mp hj).imp (fun hk => h₁.all_gone j hk hnot.1 b)
      (fun hm => h₂.all_gone j hm hnot.2 b)
  · intro j hj
    exact List.mem_append.mpr ((List.mem_append.mp hj).imp (h₁.sealed_first j)
      (h₂.sealed_first j))

/-- A file that is removed is the only one to go. -/
theorem get?_logName_of_removed {key : Int} {c had : Bool}
    (h : removeIfPresent d (logName key c) = .ok (d', had)) (j : Int) (b : Bool) :
    d'.get? (logName j b) = if (j, b) ∈ [(key, c)] then none else d.get? (logName j b) := by
  rw [Directory.get?_of_removeIfPresent h]
  simp only [logName_inj, List.mem_singleton, Prod.mk.injEq]

theorem deleteWindow_deleted (d : Directory) (key : Int) :
    ∃ gone, Deleted d (deleteWindow d key).1 [key]
      (if (deleteWindow d key).2 = .failed then [key] else []) gone := by
  unfold deleteWindow
  cases h₁ : removeIfPresent d (sealedName key) with
  | error e => exact ⟨[], Deleted.none d⟩
  | ok r₁ =>
    obtain ⟨d₁, hadSealed⟩ := r₁
    have hd₁ := get?_logName_of_removed (c := true) h₁
    cases h₂ : removeIfPresent d₁ (openName key) with
    | error e =>
      simp only [h₂]
      refine ⟨[(key, true)], hd₁, by simp, by simp, ?_, by simp⟩
      intro j hj hnot
      exact absurd hj hnot
    | ok r₂ =>
      obtain ⟨d₂, hadOpen⟩ := r₂
      have hd₂ := get?_logName_of_removed (c := false) h₂
      have hfailed : ¬(if (hadSealed || hadOpen) = true then Deletion.removed else .absent) =
          .failed := by
        split <;> exact Deletion.noConfusion
      simp only [h₂, if_neg hfailed]
      refine ⟨[(key, true), (key, false)], ?_, by simp, by simp, by simp, by simp⟩
      intro j b
      rw [hd₂, hd₁]
      simp only [List.mem_cons, List.not_mem_nil, or_false]
      by_cases ht : (j, b) = (key, true) <;> by_cases hf : (j, b) = (key, false) <;> simp [ht, hf]

theorem deleteWindows_deleted (d : Directory) (keys : List Int) :
    (∃ gone, Deleted d (deleteWindows d keys).1 keys (deleteWindows d keys).2.2 gone) ∧
      ∀ j ∈ (deleteWindows d keys).2.1, j ∈ keys := by
  induction keys generalizing d with
  | nil => exact ⟨⟨[], Deleted.none d⟩, fun j hj => hj⟩
  | cons key rest ih =>
    obtain ⟨⟨later, hrest⟩, hsub⟩ := ih (deleteWindow d key).1
    obtain ⟨first, hone⟩ := deleteWindow_deleted d key
    have hboth := hone.trans hrest
    rw [deleteWindows]
    cases hout : (deleteWindow d key).2 <;> rw [hout] at hboth <;> simp only [hout]
    · refine ⟨⟨_, hboth⟩, ?_⟩
      intro j hj
      rcases List.mem_cons.mp hj with rfl | hj
      · exact .head _
      · exact .tail _ (hsub j hj)
    · exact ⟨⟨_, hboth⟩, fun j hj => .tail _ (hsub j hj)⟩
    · exact ⟨⟨_, hboth⟩, fun j hj => .tail _ (hsub j hj)⟩

/-- Windows whose deletion is made to fail are among those that failed. -/
theorem delete_deleted (log : EventLog) (keys : List Int) :
    (∃ gone, Deleted log.directory (log.delete keys).1.directory keys (log.delete keys).2.2 gone) ∧
      ∀ j ∈ (log.delete keys).2.1, j ∈ keys := by
  obtain ⟨⟨gone, h⟩, hsub⟩ := deleteWindows_deleted log.directory
    (keys.filter (· ∉ log.faults.deletions))
  unfold delete
  refine ⟨⟨gone, h.left, ?_, ?_, ?_, h.sealed_first⟩, ?_⟩
  · intro f hf
    exact (List.mem_filter.mp (h.mem_keys f hf)).1
  · intro j hj
    rcases List.mem_append.mp hj with hj | hj
    · exact (List.mem_filter.mp (h.failed_mem j hj)).1
    · exact (List.mem_filter.mp hj).1
  · intro j hj hnot b
    rw [List.mem_append, not_or, List.mem_filter] at hnot
    apply h.all_gone j _ hnot.1 b
    rw [List.mem_filter]
    refine ⟨hj, decide_eq_true ?_⟩
    intro hfault
    exact hnot.2 ⟨hj, decide_eq_true hfault⟩
  · intro j hj
    exact (List.mem_filter.mp (hsub j hj)).1

end Delete

end EventLog

end RequestWindows
