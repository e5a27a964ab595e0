import RequestWindows.Proofs.Store.Carry
import RequestWindows.Proofs.Window

namespace RequestWindows

namespace EventLog

/-- The entries of a window's sealed log, none if it has no log. -/
def entriesOf (log : EventLog) (key : Int) : List (Option Event) :=
  match log.read key with
  | .ok t => t.items
  | .error _ => []

/-- The halves that the log of a window records, in their order. -/
def recordedIn (log : EventLog) (key : Int) : List (String × Half × HalfRow) :=
  recorded (log.entriesOf key)

/-- The last row that the log of a window records for one half of a request. -/
def last (log : EventLog) (key : Int) (id : String) (half : Half) : Option HalfRow :=
  lastRow (log.recordedIn key) id half

/-- The rows of the `n`-th window after `first`, where `first` has the rows `base` and each later
window begins with the requests that are in flight at the end of the one before. -/
def tableFrom (log : EventLog) (i : Interval) (expiry : Int) (base : Table) (first : Int) :
    Nat → Table
  | 0 => base
  | n + 1 =>
    ((log.tableFrom i expiry base first n).carried (i.after first n - expiry)).feed
      (log.recordedIn (i.after first (n + 1)))

/-- The rows of a window that begins without any. -/
def opening (log : EventLog) (first : Int) : Table := Table.empty.feed (log.recordedIn first)

/-- The rows of the `n`-th window after `first`, where `first` begins without any. -/
def tableAfter (log : EventLog) (i : Interval) (expiry first : Int) : Nat → Table :=
  log.tableFrom i expiry (log.opening first) first

/-- A request that window `w` starts is still open when window `v` begins: it has neither been
started again nor ended in between. -/
structure OpenFrom (log : EventLog) (i : Interval) (id : String) (row : HalfRow) (w v : Int) :
    Prop where
  started : log.last w id .start = some row
  notRestarted : ∀ j, 0 < j → i.after w j < v → log.last (i.after w j) id .start = none
  notEnded : ∀ j, i.after w j < v → log.last (i.after w j) id .finish = none

variable {log : EventLog} {i : Interval} {expiry first : Int} {id : String} {row : HalfRow}

theorem finish_tableAfter (n : Nat) :
    (log.tableAfter i expiry first n).get? id .finish =
      log.last (i.after first n) id .finish := by
  cases n with
  | zero =>
    rw [tableAfter, tableFrom, opening, Table.get?_feed, Table.get?_empty, Option.or_none,
      i.after_zero, last]
  | succ n =>
    rw [tableAfter, tableFrom, Table.get?_feed, Table.get?_carried_finish, Option.or_none, last]

theorem start_tableAfter_zero :
    (log.tableAfter i expiry first 0).get? id .start = log.last first id .start := by
  rw [tableAfter, tableFrom, opening, Table.get?_feed, Table.get?_empty, Option.or_none, last]

/-- A start in a window is recorded by its own log, or carried over from the window before. -/
theorem start_tableAfter_succ (n : Nat) :
    (log.tableAfter i expiry first (n + 1)).get? id .start = some row ↔
      log.last (i.after first (n + 1)) id .start = some row ∨
        log.last (i.after first (n + 1)) id .start = none ∧
          (log.tableAfter i expiry first n).get? id .start = some row ∧
          log.last (i.after first n) id .finish = none ∧ i.after first n - expiry ≤ row.time := by
  have hfinish : (log.tableFrom i expiry (log.opening first) first n).get? id .finish =
      log.last (i.after first n) id .finish := finish_tableAfter n
  rw [tableAfter, tableFrom, Table.get?_feed, Option.or_eq_some_iff, Table.get?_carried, hfinish]
  rfl

theorem OpenFrom.ofAdjacent {w : Int} (hs : log.last w id .start = some row)
    (he : log.last w id .finish = none) : log.OpenFrom i id row w (w + i.millis) := by
  have step (j : Nat) (h : i.after w j < w + i.millis) : j = 0 := by
    have h1 : i.after w j < i.after w 1 := by
      rw [i.after_succ w 0, i.after_zero]
      exact h
    have := Interval.after_lt_iff.mp h1
    omega
  refine ⟨hs, fun j hj h => ?_, fun j h => ?_⟩
  · have := step j h
    omega
  · rw [step j h, i.after_zero]
    exact he

theorem OpenFrom.extend {m n : Nat}
    (h : log.OpenFrom i id row (i.after first m) (i.after first n))
    (hs : log.last (i.after first n) id .start = none)
    (he : log.last (i.after first n) id .finish = none) :
    log.OpenFrom i id row (i.after first m) (i.after first (n + 1)) := by
  have split (j : Nat) (hj : i.after (i.after first m) j < i.after first (n + 1)) :
      i.after (i.after first m) j < i.after first n ∨
        i.after (i.after first m) j = i.after first n := by
    rw [← i.after_add] at hj ⊢
    have := Interval.after_lt_iff.mp hj
    rcases Nat.lt_or_ge (m + j) n with hlt | hge
    · exact Or.inl (Interval.after_lt hlt)
    · exact Or.inr (Interval.after_inj.mpr (by omega))
  refine ⟨h.started, fun j hj hlt => ?_, fun j hlt => ?_⟩
  · rcases split j hlt with hlt | heq
    · exact h.notRestarted j hj hlt
    · rw [heq]
      exact hs
  · rcases split j hlt with hlt | heq
    · exact h.notEnded j hlt
    · rw [heq]
      exact he

theorem OpenFrom.restrict {v v' : Int} {w : Int} (h : log.OpenFrom i id row w v) (hv : v' ≤ v) :
    log.OpenFrom i id row w v' :=
  ⟨h.started, fun j hj hlt => h.notRestarted j hj (by omega), fun j hlt => h.notEnded j (by omega)⟩

/-- A start in a window is the last one that its own log records, or, where the log records
none, one that is still open from an earlier window of the run and has not expired when the
window begins. -/
theorem start_tableAfter (n : Nat) :
    (log.tableAfter i expiry first n).get? id .start = some row ↔
      log.last (i.after first n) id .start = some row ∨
        log.last (i.after first n) id .start = none ∧
          ∃ m < n, log.OpenFrom i id row (i.after first m) (i.after first n) ∧
            i.after first n - i.millis - expiry ≤ row.time := by
  -- Horizons only grow, so of the horizons that a start has passed on its way only the last
  -- matters.
  induction n with
  | zero =>
    rw [start_tableAfter_zero, i.after_zero]
    constructor
    · exact Or.inl
    · rintro (h | ⟨_, m, hm, _⟩)
      · exact h
      · omega
  | succ n ih =>
    have hnext : i.after first (n + 1) - i.millis - expiry = i.after first n - expiry := by
      rw [i.after_succ]
      omega
    rw [start_tableAfter_succ, ih, hnext]
    apply or_congr Iff.rfl
    apply and_congr Iff.rfl
    constructor
    · rintro ⟨hs | ⟨hs, m, hm, hopen, _⟩, he, htime⟩
      · refine ⟨n, by omega, ?_, htime⟩
        rw [i.after_succ]
        exact OpenFrom.ofAdjacent hs he
      · exact ⟨m, by omega, hopen.extend hs he, htime⟩
    · rintro ⟨m, hm, hopen, htime⟩
      rcases Nat.eq_or_lt_of_le (Nat.le_of_lt_succ hm) with rfl | hlt
      · have he := hopen.notEnded 0 (by rw [i.after_zero]; exact Interval.after_lt (by omega))
        rw [i.after_zero] at he
        exact ⟨Or.inl hopen.started, he, htime⟩
      · -- The window before `n + 1` is one of those between the start and it.
        have hreach : i.after (i.after first m) (n - m) = i.after first n := by
          rw [← i.after_add, Nat.add_sub_cancel' (Nat.le_of_lt hlt)]
        have hbefore : i.after (i.after first m) (n - m) < i.after first (n + 1) := by
          rw [hreach]
          exact Interval.after_lt (by omega)
        have hs := hopen.notRestarted (n - m) (by omega) hbefore
        have he := hopen.notEnded (n - m) hbefore
        rw [hreach] at hs he
        have htighter : i.after first n - i.millis - expiry ≤ row.time := by
          have := i.pos
          omega
        refine ⟨Or.inr ⟨hs, m, hlt, hopen.restrict ?_, htighter⟩, he, htime⟩
        exact Interval.after_le (by omega)

end EventLog

end RequestWindows
