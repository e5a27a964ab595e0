import RequestWindows.Event.Line
import RequestWindows.EventLog.Directory
import RequestWindows.EventLog.Name
import RequestWindows.Text.Line

/-! Window logs. The log of an open window is only appended to; sealing renames it and never
replaces a log that is sealed already. Operations can be made to fail for chosen windows. -/
namespace RequestWindows

/-- The failures to come: the windows whose appends, seals and deletions fail before they do
anything, those whose appends break off half way, and whether wiping fails. -/
structure Faults where
  appends : List Int
  /-- With each window, how many bytes of a batch are written before its append breaks off. -/
  partials : List (Int × Nat)
  seals : List Int
  deletions : List Int
  wipe : Bool
deriving DecidableEq

namespace Faults

def none : Faults := ⟨[], [], [], [], false⟩

/-- What is written of a batch. -/
def reached (f : Faults) (key : Int) (bytes : List UInt8) : List UInt8 :=
  match f.partials.lookup key with
  | some n => bytes.take n
  | Option.none => bytes

end Faults

/-- The window logs of a directory, which may hold other entries too. -/
structure EventLog where
  directory : Directory
  faults : Faults
  /-- Whether an event with a torn name is refused; otherwise the name is written with its halves
  replaced. -/
  strictNames : Bool
deriving DecidableEq

/-- Why an operation on logs failed. -/
inductive LogError
  | file (e : FileError)
  /-- Sealing would replace a sealed log. -/
  | alreadySealed (key : Int)
  | notSealed (key : Int)
  /-- The name of a file is all digits but stands for no key. -/
  | badName (stem : List Char)
  /-- The log is not UTF-8. -/
  | undecodable
  /-- An event of a batch has a torn text, so that it cannot be written. -/
  | unencodable
  /-- An append or a wipe that was made to fail. -/
  | failure
  /-- A seal that was made to fail. -/
  | forbidden
deriving DecidableEq

namespace LogError

/-- Whether an error comes from the file system, so that the writer goes on after it. -/
def isSystem : LogError → Bool
  | file _ | alreadySealed _ | failure | forbidden => true
  | notSealed _ | badName _ | undecodable | unencodable => false

/-- What is said of an error, where it has words of its own. -/
def message? : LogError → Option String
  | file _ | undecodable | unencodable => none
  | alreadySealed key => some ("sealed log for window " ++ toString key ++ " already exists")
  | notSealed key => some ("window " ++ toString key ++ " has no sealed log")
  | badName stem => some (LogName.refusal stem)
  | failure | forbidden => some "injected"

end LogError

/-- What reading a log gives: an item for each line that is not blank, with an event where the line
holds one, and whether the log was decoded to its end. -/
structure Transcript where
  items : List (Option Event)
  whole : Bool
deriving DecidableEq

namespace EventLog

/-- An empty directory without failures to come. -/
def empty : EventLog := ⟨∅, .none, false⟩

/-- The bytes that a batch of events is appended as, a line for each. -/
def linesOf (events : List Event) : List UInt8 :=
  Text.encodeUtf8 (events.flatMap fun e => e.text ++ ['\n'])

/-- Add bytes to the open log of a window, which is made if it is missing. -/
def addBytes (log : EventLog) (key : Int) (bytes : List UInt8) : Except LogError EventLog :=
  match log.directory.append (openName key) bytes with
  | .ok d => .ok { log with directory := d }
  | .error e => .error (.file e)

/-- Append events to the open log of a window. An empty batch leaves no trace, and one with an event
that cannot be written neither; a batch that breaks off leaves what it had written. -/
def append (log : EventLog) (key : Int) (events : List Event) : EventLog × Except LogError Unit :=
  if key ∈ log.faults.appends then (log, .error .failure)
  else if events = [] then (log, .ok ())
  -- All lines are made before the file is opened.
  else if ¬events.all (·.isWritable log.strictNames) then (log, .error .unencodable)
  else
    match log.addBytes key (log.faults.reached key (linesOf events)) with
    | .error e => (log, .error e)
    | .ok appended =>
      (appended, if (log.faults.partials.lookup key).isSome then .error .failure else .ok ())

/-- Seal the log of a window, if it has an open one: the answer says whether it had. -/
def sealWindow (log : EventLog) (key : Int) : Except LogError (EventLog × Bool) :=
  if key ∈ log.faults.seals then .error .forbidden
  else
    match log.directory.find (openName key), log.directory.find (sealedName key) with
    | .error e, _ => .error (.file e)
    -- Nothing was written to the window, so there is nothing to seal.
    | .ok none, _ => .ok (log, false)
    | .ok (some _), .error e => .error (.file e)
    | .ok (some _), .ok (some _) => .error (.alreadySealed key)
    | .ok (some entry), .ok none =>
      .ok ({ log with
        directory := (log.directory.erase (openName key)).insert (sealedName key) entry }, true)

/-- Whether a window has a sealed log. -/
def isSealed (log : EventLog) (key : Int) : Except LogError Bool :=
  (log.directory.hasFile (sealedName key)).mapError .file

/-- Whether a window has an open log. -/
def isOpen (log : EventLog) (key : Int) : Except LogError Bool :=
  (log.directory.hasFile (openName key)).mapError .file

/-- The names of the files in a directory that are names of logs. -/
def logNames (d : Directory) : List LogName :=
  (d.entries.filter fun b => b.2.isFile).filterMap fun b => LogName.ofString? b.1

/-- The keys of the logs with these names, and whether each is sealed. -/
def keysOfNames : List LogName → Except LogError (List (Int × Bool))
  | [] => .ok []
  | n :: rest =>
    match n.key? with
    | none => .error (.badName n.stem)
    | some key => (keysOfNames rest).map ((key, n.isSealed) :: ·)

/-- The keys of all logs, and whether each is sealed. -/
def scan (log : EventLog) : Except LogError (List (Int × Bool)) :=
  keysOfNames (logNames log.directory)

/-- The keys of all sealed logs, in ascending order. -/
def sealedKeys (log : EventLog) : Except LogError (List Int) :=
  log.scan.map fun found => sortInts ((found.filter fun f => f.2).map Prod.fst)

/-- The keys of all open logs, in ascending order. -/
def openKeys (log : EventLog) : Except LogError (List Int) :=
  log.scan.map fun found => sortInts ((found.filter fun f => !f.2).map Prod.fst)

/-- The item that a line of a log holds, unless the line is blank. -/
def itemOfLine (line : List Char) : Option (Option Event) :=
  let text := Text.trim line
  if text = [] then none else some (Event.ofText text).toOption

/-- Read the content of a log. -/
def transcribe (bytes : List UInt8) : Transcript :=
  let decoded := Text.decodeUtf8 bytes
  ⟨decoded.lines.filterMap itemOfLine, decoded.whole⟩

/-- Read the sealed log of a window. -/
def read (log : EventLog) (key : Int) : Except LogError Transcript :=
  match log.directory.content (sealedName key) with
  | .ok bytes => .ok (transcribe bytes)
  -- A missing file is a window that was never sealed, or one that was deleted since.
  | .error .missing => .error (.notSealed key)
  | .error e => .error (.file e)

/-- Remove a file that may be missing: the answer says whether it was there. -/
def removeIfPresent (d : Directory) (name : String) : Except FileError (Directory × Bool) :=
  match d.remove name with
  | .ok d' => .ok (d', true)
  | .error .missing => .ok (d, false)
  | .error e => .error e

/-- What deleting the logs of one window came to. -/
inductive Deletion
  | removed
  | absent
  | failed
deriving DecidableEq

/-- Delete the sealed and the open log of a window. A failure leaves what comes after it. -/
def deleteWindow (d : Directory) (key : Int) : Directory × Deletion :=
  match removeIfPresent d (sealedName key) with
  | .error _ => (d, .failed)
  | .ok (d₁, hadSealed) =>
    match removeIfPresent d₁ (openName key) with
    -- The sealed log is gone even so.
    | .error _ => (d₁, .failed)
    | .ok (d₂, hadOpen) => (d₂, if hadSealed || hadOpen then .removed else .absent)

/-- Delete the logs of several windows one after another: the directory that is left, the windows
whose logs were deleted and those where deleting failed. -/
def deleteWindows (d : Directory) : List Int → Directory × List Int × List Int
  | [] => (d, [], [])
  | key :: rest =>
    let (d₁, outcome) := deleteWindow d key
    let (d₂, deleted, failed) := deleteWindows d₁ rest
    match outcome with
    | .removed => (d₂, key :: deleted, failed)
    | .absent => (d₂, deleted, failed)
    | .failed => (d₂, deleted, key :: failed)

/-- Delete the logs of several windows: what is left, the windows whose logs were deleted and those
where deleting failed. The windows that are made to fail are left alone and come last. -/
def delete (log : EventLog) (keys : List Int) : EventLog × List Int × List Int :=
  let (d, deleted, failed) :=
    deleteWindows log.directory (keys.filter (· ∉ log.faults.deletions))
  ({ log with directory := d }, deleted, failed ++ keys.filter (· ∈ log.faults.deletions))

/-- Remove the files that these logs are named after, up to the first that cannot be removed. -/
def wipeFound (d : Directory) : List (Int × Bool) → Directory × Except FileError Nat
  | [] => (d, .ok 0)
  | (key, isSealed) :: rest =>
    match removeIfPresent d (if isSealed then sealedName key else openName key) with
    | .error e => (d, .error e)
    | .ok (d₁, _) =>
      let (d₂, count) := wipeFound d₁ rest
      (d₂, count.map (· + 1))

/-- Delete all logs: what is left, and the number of logs that were found. -/
def wipe (log : EventLog) : EventLog × Except LogError Nat :=
  if log.faults.wipe then (log, .error .failure)
  else
    match log.scan with
    | .error e => (log, .error e)
    | .ok found =>
      let (d, count) := wipeFound log.directory found
      ({ log with directory := d }, count.mapError .file)

end EventLog

end RequestWindows
