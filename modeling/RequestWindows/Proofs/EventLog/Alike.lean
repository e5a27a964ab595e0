import RequestWindows.EventLog.Basic

namespace RequestWindows

universe u v

/-- Two computations end in the same way: with the same error, or with results that are related. -/
inductive EndAlike {ε : Type u} {α : Type v} (R : α → α → Prop) :
    Except ε α → Except ε α → Prop
  | error (e : ε) : EndAlike R (.error e) (.error e)
  | ok {a b : α} (h : R a b) : EndAlike R (.ok a) (.ok b)

namespace Directory

/-- The same stands under every name. -/
def Alike (d e : Directory) : Prop := ∀ name, d.get? name = e.get? name

variable {d e : Directory}

theorem Alike.find (h : Alike d e) (name : String) : d.find name = e.find name := by
  unfold Directory.find
  rw [h name]

theorem Alike.insert (h : Alike d e) (name : String) (entry : Entry) :
    Alike (d.insert name entry) (e.insert name entry) := by
  intro other
  rw [KeyedList.get?_insert, KeyedList.get?_insert, h other]

theorem Alike.erase (h : Alike d e) (name : String) : Alike (d.erase name) (e.erase name) := by
  intro other
  rw [KeyedList.get?_erase, KeyedList.get?_erase, h other]

theorem Alike.append (h : Alike d e) (name : String) (bytes : List UInt8) :
    EndAlike Alike (d.append name bytes) (e.append name bytes) := by
  unfold Directory.append
  rw [h.find name]
  match e.find name with
  | .error err => exact .error _
  | .ok none => exact .ok (h.insert name _)
  | .ok (some .folder) => exact .error _
  | .ok (some (.file old)) => exact .ok (h.insert name _)

theorem Alike.removeIfPresent (h : Alike d e) (name : String) :
    EndAlike (fun p q => Alike p.1 q.1 ∧ p.2 = q.2) (EventLog.removeIfPresent d name)
      (EventLog.removeIfPresent e name) := by
  unfold EventLog.removeIfPresent Directory.remove
  rw [h.find name]
  match e.find name with
  | .error .nameTooLong => exact .error _
  | .error .folder => exact .error _
  | .error .missing => exact .ok ⟨h, rfl⟩
  | .error .exists => exact .error _
  | .ok none => exact .ok ⟨h, rfl⟩
  | .ok (some .folder) => exact .error _
  | .ok (some (.file old)) => exact .ok ⟨h.erase name, rfl⟩

end Directory

namespace EventLog

/-- The directories are alike, the same failures are to come, and the same names are refused. -/
structure Alike (log log' : EventLog) : Prop where
  faults : log.faults = log'.faults
  strictNames : log.strictNames = log'.strictNames
  directory : Directory.Alike log.directory log'.directory

variable {log log' : EventLog} {d e : Directory}

theorem Alike.addBytes (h : log.Alike log') (key : Int) (bytes : List UInt8) :
    EndAlike Alike (log.addBytes key bytes) (log'.addBytes key bytes) := by
  have happend := h.directory.append (openName key) bytes
  unfold EventLog.addBytes
  generalize log.directory.append (openName key) bytes = left at happend ⊢
  generalize log'.directory.append (openName key) bytes = right at happend ⊢
  cases happend with
  | error err => exact .error _
  | ok hafter => exact .ok ⟨h.faults, h.strictNames, hafter⟩

theorem Alike.append (h : log.Alike log') (key : Int) (events : List Event) :
    (log.append key events).1.Alike (log'.append key events).1 ∧
      (log.append key events).2 = (log'.append key events).2 := by
  have hadd := h.addBytes key (log.faults.reached key (linesOf events))
  unfold EventLog.append
  rw [← h.faults, ← h.strictNames]
  by_cases hfault : key ∈ log.faults.appends
  · rw [if_pos hfault, if_pos hfault]
    exact ⟨h, rfl⟩
  · rw [if_neg hfault, if_neg hfault]
    by_cases hempty : events = []
    · rw [if_pos hempty, if_pos hempty]
      exact ⟨h, rfl⟩
    · rw [if_neg hempty, if_neg hempty]
      by_cases hbad : ¬events.all (·.isWritable log.strictNames) = true
      · rw [if_pos hbad, if_pos hbad]
        exact ⟨h, rfl⟩
      · rw [if_neg hbad, if_neg hbad]
        generalize log.addBytes key (log.faults.reached key (linesOf events)) = left at hadd ⊢
        generalize log'.addBytes key (log.faults.reached key (linesOf events)) = right at hadd ⊢
        cases hadd with
        | error err => exact ⟨h, rfl⟩
        | ok hafter => exact ⟨hafter, rfl⟩

theorem Alike.sealWindow (h : log.Alike log') (key : Int) :
    EndAlike (fun p q => p.1.Alike q.1 ∧ p.2 = q.2) (log.sealWindow key)
      (log'.sealWindow key) := by
  obtain ⟨d, faults, strictNames⟩ := log
  obtain ⟨e, _, _⟩ := log'
  obtain ⟨rfl, rfl, hd⟩ := h
  unfold EventLog.sealWindow
  dsimp only
  rw [Directory.Alike.find hd, Directory.Alike.find hd]
  by_cases hfault : key ∈ faults.seals
  · rw [if_pos hfault, if_pos hfault]
    exact .error _
  · rw [if_neg hfault, if_neg hfault]
    match e.find (openName key), e.find (sealedName key) with
    | .error err, _ => exact .error _
    | .ok none, _ => exact .ok ⟨⟨rfl, rfl, hd⟩, rfl⟩
    | .ok (some _), .error err => exact .error _
    | .ok (some _), .ok (some _) => exact .error _
    | .ok (some entry), .ok none =>
      exact .ok ⟨⟨rfl, rfl, Directory.Alike.insert (Directory.Alike.erase hd _) _ entry⟩, rfl⟩

theorem alike_deleteWindow (h : Directory.Alike d e) (key : Int) :
    Directory.Alike (deleteWindow d key).1 (deleteWindow e key).1 ∧
      (deleteWindow d key).2 = (deleteWindow e key).2 := by
  unfold deleteWindow
  have hsealed := h.removeIfPresent (sealedName key)
  generalize removeIfPresent d (sealedName key) = left at hsealed ⊢
  generalize removeIfPresent e (sealedName key) = right at hsealed ⊢
  cases hsealed with
  | error err => exact ⟨h, rfl⟩
  | @ok p q hpq =>
    obtain ⟨d₁, had⟩ := p
    obtain ⟨e₁, _⟩ := q
    obtain ⟨h₁, rfl⟩ := hpq
    have hopen := Directory.Alike.removeIfPresent h₁ (openName key)
    dsimp only at hopen ⊢
    generalize removeIfPresent d₁ (openName key) = left at hopen ⊢
    generalize removeIfPresent e₁ (openName key) = right at hopen ⊢
    cases hopen with
    | error err => exact ⟨h₁, rfl⟩
    | @ok p q hpq =>
      obtain ⟨d₂, hadOpen⟩ := p
      obtain ⟨e₂, _⟩ := q
      obtain ⟨h₂, rfl⟩ := hpq
      exact ⟨h₂, rfl⟩

theorem alike_deleteWindows (h : Directory.Alike d e) (keys : List Int) :
    Directory.Alike (deleteWindows d keys).1 (deleteWindows e keys).1 ∧
      (deleteWindows d keys).2 = (deleteWindows e keys).2 := by
  induction keys generalizing d e with
  | nil => exact ⟨h, rfl⟩
  | cons key rest ih =>
    obtain ⟨hfirst, houtcome⟩ := alike_deleteWindow h key
    obtain ⟨hlater, hkeys⟩ := ih hfirst
    obtain ⟨hdeleted, hfailed⟩ := Prod.ext_iff.mp hkeys
    rw [deleteWindows, deleteWindows]
    dsimp only
    rw [houtcome, hdeleted, hfailed]
    cases (deleteWindow e key).2 <;> exact ⟨hlater, rfl⟩

theorem Alike.delete (h : log.Alike log') (keys : List Int) :
    (log.delete keys).1.Alike (log'.delete keys).1 ∧
      (log.delete keys).2 = (log'.delete keys).2 := by
  obtain ⟨d, faults, strictNames⟩ := log
  obtain ⟨e, _, _⟩ := log'
  obtain ⟨rfl, rfl, hd⟩ := h
  obtain ⟨hleft, hkeys⟩ := alike_deleteWindows hd (keys.filter (· ∉ faults.deletions))
  obtain ⟨hdeleted, hfailed⟩ := Prod.ext_iff.mp hkeys
  refine ⟨⟨rfl, rfl, hleft⟩, Prod.ext hdeleted ?_⟩
  exact congrArg (· ++ keys.filter (· ∈ faults.deletions)) hfailed

end EventLog

end RequestWindows
