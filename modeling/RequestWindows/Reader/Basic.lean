import RequestWindows.Counters
import RequestWindows.EventLog.Basic
import RequestWindows.Store.Basic

namespace RequestWindows

structure Reader where
  interval : Interval
  /-- How long a request is in flight before it expires. -/
  expiry : Int
  /-- How many stores are kept. -/
  capacity : Nat
  /-- A chain of windows needs the store before and the store being built. -/
  two_le_capacity : 2 ≤ capacity
  /-- The database that the stores share, if they share one. -/
  shared : Option String
  /-- The stores that are kept, the least recently used one first. -/
  cache : KeyedList Int WindowStore
deriving DecidableEq

/-- Why a query failed, or a reader cannot be set up. -/
inductive ReaderError
  | intervalNotPositive (millis : Int)
  | capacityTooSmall (capacity : Int)
  /-- The key is not that of a window. -/
  | misaligned (key interval : Int)
  | log (e : LogError)
  | store (e : StoreError)
  /-- The store of a window that has just been built is not kept. -/
  | lost (key : Int)
deriving DecidableEq

/-- What is said of an error, where it has words of its own. -/
def ReaderError.message? : ReaderError → Option String
  | intervalNotPositive n => some ("sampling_interval_ms must be > 0. Got: " ++ toString n)
  | capacityTooSmall n => some ("max_cached_windows must be >= 2. Got: " ++ toString n)
  | misaligned key interval =>
    some ("window key " ++ toString key ++ " is not aligned to " ++ toString interval ++ " ms")
  | log e => e.message?
  | store e => e.message?
  | lost key => some (toString key)

namespace Reader

/-- Set up a reader. -/
def create (interval expiry capacity : Int) (shared : Option String) : Except ReaderError Reader :=
  if hi : 0 < interval then
    if hc : 2 ≤ capacity then .ok ⟨⟨interval, hi⟩, expiry, capacity.toNat, by omega, shared, ∅⟩
    else .error (.capacityTooSmall capacity)
  else .error (.intervalNotPositive interval)

/-- The number of windows before `key` that can matter to it: none is older than the oldest sealed
log, nor so old that its requests expire before they reach `key`. -/
def depth (r : Reader) (key oldest : Int) : Nat :=
  let sinceOldest := (key - oldest) / r.interval.millis
  -- Requests reach `key` from the window before it, which keeps those that began no earlier than
  -- `key - interval - expiry`; the first window that ends after that time is the last to matter.
  let sinceExpiry := (2 * r.interval.millis + r.expiry - 1) / r.interval.millis
  (min sinceOldest sinceExpiry).toNat

/-- Walk back from `key` by at most `depth` windows, up to one that is kept: the windows passed,
oldest first, and then `later`. -/
def reachBack (r : Reader) : Nat → Int → List Int → List Int
  | 0, _, later => later
  | depth + 1, key, later =>
    let before := key - r.interval.millis
    if before ∈ r.cache.keys then later else r.reachBack depth before (before :: later)

/-- The windows to build for `key`, oldest first and ending with it, where `oldest` is the oldest
sealed one. They reach back to a window that is kept or to the last one that can matter. -/
def chain (r : Reader) (key oldest : Int) : List Int :=
  r.reachBack (r.depth key oldest) key [key]

/-- The keys of the `n` windows before `key`, the newest first. -/
def earlier (r : Reader) (n : Nat) (key : Int) : List Int :=
  (List.range n).map fun (k : Nat) => key - (k + 1) * r.interval.millis

theorem earlier_succ (r : Reader) (n : Nat) (key : Int) :
    r.earlier (n + 1) key =
      (key - r.interval.millis) :: r.earlier n (key - r.interval.millis) := by
  rw [earlier, earlier, List.range_succ_eq_map, List.map_cons, List.map_map]
  congr 1
  · simp
  · refine List.map_congr_left fun k _ => ?_
    simp only [Function.comp_apply, Nat.succ_eq_add_one, Int.natCast_add, Int.add_mul]
    omega

theorem reachBack_eq (r : Reader) (n : Nat) (key : Int) (later : List Int) :
    r.reachBack n key later =
      ((r.earlier n key).takeWhile (· ∉ r.cache.keys)).reverse ++ later := by
  induction n generalizing key later with
  | zero => rfl
  | succ n ih =>
    rw [reachBack, earlier_succ]
    by_cases h : key - r.interval.millis ∈ r.cache.keys
    · simp [h]
    · simp [h, ih]

/-- The chain is the longest run of earlier windows that are not kept, with `key` at its end. -/
theorem chain_eq (r : Reader) (key oldest : Int) :
    r.chain key oldest =
      ((r.earlier (r.depth key oldest) key).takeWhile (· ∉ r.cache.keys)).reverse ++ [key] :=
  r.reachBack_eq _ _ _

/-- The stores that have to go when only `capacity` are kept. -/
def surplus (r : Reader) : List WindowStore :=
  (r.cache.entries.take (r.cache.size - r.capacity)).map Prod.snd

end Reader

/-- The reading side of a pipeline. -/
structure Correlation where
  reader : Reader
  warehouse : Warehouse
  counters : Counters
deriving DecidableEq

namespace Correlation

def removeAll (s : Correlation) (stores : List WindowStore) : Correlation :=
  { s with warehouse := stores.foldl Warehouse.remove s.warehouse }

/-- Make a store the most recently used one. -/
def touch (s : Correlation) (key : Int) (store : WindowStore) : Correlation :=
  { s with reader := { s.reader with cache := s.reader.cache.insertLast key store } }

/-- Keep a store that has been built, and remove the least recently used one if there are now too
many. -/
def keep (s : Correlation) (key : Int) (store : WindowStore) : Correlation :=
  let s := s.touch key store
  let size := s.reader.cache.size - s.reader.capacity
  let s := s.removeAll s.reader.surplus
  { s with reader := { s.reader with cache := s.reader.cache.dropOldest size } }

/-- Remove all stores that are kept. -/
def close (s : Correlation) : Correlation :=
  let s := s.removeAll (s.reader.cache.entries.map Prod.snd)
  { s with reader := { s.reader with cache := ∅ } }

end Correlation

end RequestWindows
