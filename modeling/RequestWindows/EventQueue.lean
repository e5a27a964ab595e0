import RequestWindows.Counters
import RequestWindows.Event.Validation

namespace RequestWindows

/-- A bounded queue of events. -/
structure EventQueue where
  capacity : Nat
  /-- The events in the queue, the oldest first. -/
  events : List Event
  length_le : events.length ≤ capacity
deriving DecidableEq

/-- What instrumentation offers: an event, or a record from which to make one. A record with torn
texts is worth the event made of it, or any record that is refused. -/
inductive Offer
  | event (e : Event)
  | record (v : Json)

def Offer.event? : Offer → Option Event
  | event e => some e
  | record v => (Event.ofJson v).toOption

namespace EventQueue

def empty (capacity : Nat) : EventQueue := ⟨capacity, [], Nat.zero_le _⟩

/-- The empty queue with the given capacity, if that is positive. -/
def ofCapacity? (capacity : Int) : Option EventQueue :=
  if 0 < capacity then some (empty capacity.toNat) else none

/-- What is said of a capacity that is not positive. -/
def refusal (capacity : Int) : String := "max_size must be > 0. Got: " ++ toString capacity

def size (q : EventQueue) : Nat := q.events.length

/-- The queue with an event at its end, if there is room. -/
def push? (q : EventQueue) (e : Event) : Option EventQueue :=
  if h : q.events.length < q.capacity then
    some ⟨q.capacity, q.events ++ [e], by rw [List.length_append]; exact h⟩
  else none

/-- Offer an event. The answer says whether the queue took it; an event that it did not take is
counted as malformed or as overflow. -/
def put (q : EventQueue) (counters : Counters) (o : Offer) : EventQueue × Counters × Bool :=
  match o.event? with
  | none => (q, counters.add .malformedEvents 1, false)
  | some e =>
    match q.push? e with
    | none => (q, counters.add .queueOverflow 1, false)
    | some q' => (q', counters, true)

/-- Take all events out of the queue. -/
def drain (q : EventQueue) : List Event × EventQueue := (q.events, empty q.capacity)

@[simp] theorem events_drain (q : EventQueue) : q.drain.1 = q.events := rfl

@[simp] theorem drain_empty (q : EventQueue) : q.drain.2.events = [] := rfl

theorem events_of_push? {q q' : EventQueue} {e : Event} (h : q.push? e = some q') :
    q'.events = q.events ++ [e] := by
  rw [push?] at h
  split at h
  · cases h; rfl
  · cases h

theorem capacity_of_push? {q q' : EventQueue} {e : Event} (h : q.push? e = some q') :
    q'.capacity = q.capacity := by
  rw [push?] at h
  split at h
  · cases h; rfl
  · cases h

theorem push?_eq_none_iff {q : EventQueue} {e : Event} :
    q.push? e = none ↔ q.events.length = q.capacity := by
  have := q.length_le
  rw [push?]
  split <;> simp <;> omega

end EventQueue

end RequestWindows
