import RequestWindows.Number.Binary64

/-! The counters of a pipeline. They count in double precision: exactly below `2 ^ 53`, rounded
above it, and not at all beyond the largest double. -/
namespace RequestWindows

/-- What is counted. -/
inductive Counter
  /-- Events appended to a window log. -/
  | eventsWritten
  /-- Drained events whose window was neither the reference window nor the next one. -/
  | staleEvents
  /-- Events dropped because they could not be read. -/
  | malformedEvents
  /-- Events dropped because the queue was full. -/
  | queueOverflow
  /-- Failed appends to an open log. -/
  | writeErrors
  /-- Failed attempts to seal an open log. -/
  | sealErrors
  /-- Failed deletions of expired logs. -/
  | deleteErrors
  /-- Logs sealed by rotation. -/
  | windowsSealed
  /-- Logs deleted by cleanup. -/
  | windowsDeleted
  /-- Events drained while the writer was disabled. -/
  | eventsDiscarded
deriving DecidableEq

namespace Counter

/-- The counters in the order in which they are listed. -/
def all : List Counter :=
  [eventsWritten, staleEvents, malformedEvents, queueOverflow, writeErrors, sealErrors,
    deleteErrors, windowsSealed, windowsDeleted, eventsDiscarded]

def name : Counter → String
  | eventsWritten => "events_written"
  | staleEvents => "stale_events"
  | malformedEvents => "malformed_events"
  | queueOverflow => "queue_overflow"
  | writeErrors => "write_errors"
  | sealErrors => "seal_errors"
  | deleteErrors => "delete_errors"
  | windowsSealed => "windows_sealed"
  | windowsDeleted => "windows_deleted"
  | eventsDiscarded => "events_discarded"

def ofName? (s : String) : Option Counter := all.find? fun c => c.name = s

theorem mem_all (c : Counter) : c ∈ all := by cases c <;> decide

end Counter

/-- The values of all counters. A value of `2 ^ 1024` or more stands for infinity. -/
structure Counters where
  get : Counter → Nat

/-- Why a counter could not be increased or read. -/
inductive CounterError
  | unknown (name : String)
  | negativeAmount
  | amountTooLarge
  | unreadable
deriving DecidableEq

namespace Counters

@[ext] theorem ext {a b : Counters} (h : ∀ c, a.get c = b.get c) : a = b := by
  cases a; cases b; simp only [mk.injEq]; exact funext h

instance : DecidableEq Counters := fun a b =>
  decidable_of_iff (∀ c ∈ Counter.all, a.get c = b.get c)
    ⟨fun h => ext fun c => h c (Counter.mem_all c), fun h _ _ => by rw [h]⟩

def zero : Counters := ⟨fun _ => 0⟩

instance : Inhabited Counters := ⟨zero⟩

/-- The counters after `c` has been increased by `n`. -/
def add (s : Counters) (c : Counter) (n : Nat) : Counters :=
  let value := roundNat (s.get c + roundNat n)
  ⟨fun d => if d = c then value else s.get d⟩

theorem get_add_ne {s : Counters} {c d : Counter} (h : d ≠ c) (n : Nat) :
    (s.add c n).get d = s.get d := if_neg h

theorem get_add_of_lt {s : Counters} {c : Counter} {n : Nat}
    (h : s.get c + n < Nat.pow 2 53) :
    (s.add c n).get c = s.get c + n := by
  have hn : n < Nat.pow 2 53 := Nat.lt_of_le_of_lt (Nat.le_add_left n _) h
  change (if c = c then roundNat (s.get c + roundNat n) else s.get c) = s.get c + n
  rw [if_pos rfl, roundNat_of_lt hn, roundNat_of_lt h]

/-- Whether a value is too large to be read. -/
def isInfinite (n : Nat) : Bool := Nat.pow 2 1024 ≤ n

/-- Increase the counter of the given name. An amount of zero is not looked at any further. -/
def increase (s : Counters) (name : String) (amount : Int) : Except CounterError Counters :=
  if amount = 0 then .ok s
  else
    match Counter.ofName? name with
    | none => .error (.unknown name)
    -- The sign is judged before the size.
    | some c =>
      if amount < 0 then .error .negativeAmount
      else if Binary64.overflows amount then .error .amountTooLarge
      else .ok (s.add c amount.toNat)

def read (s : Counters) (c : Counter) : Except CounterError Nat :=
  if isInfinite (s.get c) then .error .unreadable else .ok (s.get c)

def readNamed (s : Counters) (name : String) : Except CounterError Nat :=
  match Counter.ofName? name with
  | some c => s.read c
  | none => .error (.unknown name)

/-- Read all counters, in their order. -/
def snapshot (s : Counters) : Except CounterError (List (Counter × Nat)) :=
  Counter.all.mapM fun c => (s.read c).map (c, ·)

end Counters

end RequestWindows
