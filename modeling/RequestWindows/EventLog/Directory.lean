import RequestWindows.Collection.KeyedList

namespace RequestWindows

/-- What stands under a name in a directory. -/
inductive Entry
  | file (content : List UInt8)
  | folder
deriving DecidableEq

def Entry.isFile : Entry → Bool
  | file _ => true
  | folder => false

/-- A directory: what stands under each name. -/
abbrev Directory := KeyedList String Entry

/-- Why an operation on a directory failed. -/
inductive FileError
  /-- The name has more bytes than a name may have. -/
  | nameTooLong
  /-- A folder stands where a file is needed. -/
  | folder
  /-- Nothing has that name. -/
  | missing
  /-- The name is taken. -/
  | exists
deriving DecidableEq

namespace Directory

/-- The number of bytes that a name may have. -/
def maxNameSize : Nat := 255

def find (d : Directory) (name : String) : Except FileError (Option Entry) :=
  if maxNameSize < name.utf8ByteSize then .error .nameTooLong else .ok (d.get? name)

/-- Whether a name belongs to a file. -/
def hasFile (d : Directory) (name : String) : Except FileError Bool :=
  (d.find name).map (·.any Entry.isFile)

def content (d : Directory) (name : String) : Except FileError (List UInt8) := do
  match ← d.find name with
  | none => throw .missing
  | some .folder => throw .folder
  | some (.file bytes) => return bytes

/-- Put a file under a name, in the place of a file that it may have. -/
def write (d : Directory) (name : String) (bytes : List UInt8) : Except FileError Directory := do
  match ← d.find name with
  | some .folder => throw .folder
  | _ => return d.insert name (.file bytes)

/-- Add bytes to the end of a file, which is made if it is missing. -/
def append (d : Directory) (name : String) (bytes : List UInt8) : Except FileError Directory := do
  match ← d.find name with
  | none => return d.insert name (.file bytes)
  | some .folder => throw .folder
  | some (.file old) => return d.insert name (.file (old ++ bytes))

def remove (d : Directory) (name : String) : Except FileError Directory := do
  match ← d.find name with
  | none => throw .missing
  | some .folder => throw .folder
  | some (.file _) => return d.erase name

def removeEntry (d : Directory) (name : String) : Except FileError Directory := do
  match ← d.find name with
  | none => throw .missing
  | some _ => return d.erase name

def makeFolder (d : Directory) (name : String) : Except FileError Directory := do
  match ← d.find name with
  | some _ => throw .exists
  | none => return d.insert name .folder

theorem get?_of_find {d : Directory} {name : String} {e : Option Entry}
    (h : d.find name = .ok e) : d.get? name = e := by
  rw [find] at h
  split at h
  · cases h
  · exact Except.ok.inj h

/-- An append adds to what the file held, or to nothing, and leaves all other entries. -/
theorem get?_of_append {d d' : Directory} {name : String} {bytes : List UInt8}
    (h : d.append name bytes = .ok d') (j : String) :
    d'.get? j =
      if j = name then
        some (.file (match d.get? name with | some (.file old) => old ++ bytes | _ => bytes))
      else d.get? j := by
  rw [append] at h
  cases hf : d.find name with
  | error e => rw [hf] at h; cases h
  | ok e =>
    rw [hf] at h
    rw [get?_of_find hf]
    match e, h with
    | none, h | some (.file _), h =>
      cases h
      exact KeyedList.get?_insert ..

theorem get?_of_remove {d d' : Directory} {name : String} (h : d.remove name = .ok d')
    (j : String) : d'.get? j = if j = name then none else d.get? j := by
  rw [remove] at h
  cases hf : d.find name with
  | error e => rw [hf] at h; cases h
  | ok e =>
    rw [hf] at h
    match e, h with
    | some (.file _), h =>
      cases h
      exact KeyedList.get?_erase ..

end Directory

end RequestWindows
