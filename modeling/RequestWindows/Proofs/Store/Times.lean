import Mathlib.Algebra.Group.Int.Defs
import RequestWindows.Proofs.Store.Isolation

/-! An event has no negative time, a row is stored only if its time fits 64 bits, and a rollover
carries rows over as they are: so all times in the stores of a run lie between the same two
bounds. -/
namespace RequestWindows

/-- Whether an integer is a time that a signed column of 64 bits holds. -/
def IsTime (n : Int) : Prop := 0 ≤ n ∧ n < 2 ^ 63

instance (n : Int) : Decidable (IsTime n) := inferInstanceAs (Decidable (_ ∧ _))

theorem fitsBits_64_iff {n : Int} : fitsBits 64 n = true ↔ -2 ^ 63 ≤ n ∧ n < 2 ^ 63 := fitsBits_iff

theorem IsTime.fits {n : Int} (h : IsTime n) : fitsBits 64 n = true := by
  apply fitsBits_64_iff.mpr
  obtain ⟨hlow, hhigh⟩ := h
  omega

/-- The difference of two times is strictly between the bounds of a signed column. -/
theorem IsTime.sub_lt {m n : Int} (hm : IsTime m) (hn : IsTime n) :
    -2 ^ 63 < m - n ∧ m - n < 2 ^ 63 := by
  obtain ⟨hmlow, hmhigh⟩ := hm
  obtain ⟨hnlow, hnhigh⟩ := hn
  omega

/-- The time of a row that is stored fits, so it only remains that it is not negative. -/
theorem HalfRow.isTime_iff {row : HalfRow} : IsTime row.time ↔ 0 ≤ row.time := by
  have hfits : fitsBits 64 row.time = true := (Bool.and_eq_true_iff.mp row.fits).2
  exact and_iff_left (fitsBits_64_iff.mp hfits).2

/-- What may be done to the stores: the times that are written are not negative, and the windows and
their expiries fit. -/
def StoreAction.InRange : StoreAction → Prop
  | .create _ window expiry => IsTime window ∧ IsTime expiry
  | .put _ _ _ time _ => 0 ≤ time
  | .rollover .. | .remove _ => True

/-- Whether all times of a table are in range. -/
def Table.Timed (t : Table) : Prop := ∀ id half row, t.get? id half = some row → IsTime row.time

namespace Table

theorem timed_empty : empty.Timed := by
  intro id half row h
  cases h

theorem Timed.feed {t : Table} {halves : List (String × Half × HalfRow)} (ht : t.Timed)
    (h : ∀ r ∈ halves, IsTime r.2.2.time) : (t.feed halves).Timed := by
  intro id half row hrow
  rw [get?_feed] at hrow
  cases hlast : lastRow halves id half with
  | none =>
    rw [hlast, Option.none_or] at hrow
    exact ht id half row hrow
  | some last =>
    rw [hlast, Option.some_or] at hrow
    cases hrow
    exact h _ (mem_of_lastRow hlast)

theorem Timed.completed {t : Table} (ht : t.Timed) {r : CompletedRequest} (h : r ∈ t.completed) :
    -2 ^ 63 < r.latency ∧ r.latency < 2 ^ 63 := by
  obtain ⟨start, finish, _, _, hstart, hfinish, hr⟩ := mem_completed.mp h
  have htimes : r.latency = finish.time - start.time := by
    rw [CompletedRequest.latency, hr]
  rw [htimes]
  exact (ht _ _ _ hfinish).sub_lt (ht _ _ _ hstart)

end Table

namespace Warehouse

/-- Whether all times in a warehouse are in range. -/
def Timed (w : Warehouse) : Prop := ∀ n t, w.tables.get? n = some t → t.rows.Timed

variable {w : Warehouse} {a : StoreAction}

theorem Timed.inFlightRows (hw : w.Timed) {source : WindowStore} {starts : List (String × HalfRow)}
    (h : w.inFlightRows source = .ok starts) : ∀ r ∈ starts, IsTime r.2.time := by
  cases hsource : w.tables.get? source.serial with
  | none =>
    have hgone : w.inFlightRows source = .error (.removed source.window) := by
      unfold Warehouse.inFlightRows rows table
      rw [hsource]
      rfl
    rw [hgone] at h
    cases h
  | some old =>
    by_cases hc : old.rows.Comparable source.horizon
    · rw [inFlightRows_of_comparable hsource hc] at h
      cases h
      intro r hr
      exact hw _ _ hsource _ _ _ (Table.mem_inFlight.mp hr).1
    · obtain ⟨e, he⟩ := inFlightRows_of_not_comparable hsource hc
      rw [he] at h
      cases h

/-- The rows that an action writes: a new one with the time that it is given, or rows that another
store has already. -/
theorem Timed.written (hw : w.Timed) (ha : a.InRange) (n : Nat) :
    ∀ r ∈ w.written n a, IsTime r.2.2.time := by
  intro r hr
  cases a with
  | create => cases hr
  | remove => cases hr
  | put s half id time dimensions =>
    rw [Warehouse.written] at hr
    split at hr
    · obtain ⟨row, hrow, rfl⟩ := Option.map_eq_some_iff.mp (Option.mem_toList.mp hr)
      cases hmade : rowOf time dimensions with
      | error e =>
        rw [hmade] at hrow
        cases hrow
      | ok row' =>
        rw [hmade] at hrow
        cases hrow
        apply HalfRow.isTime_iff.mpr
        rw [(value?_of_rowOf hmade).1]
        exact ha
    · cases hr
  | rollover target source =>
    rw [Warehouse.written] at hr
    split at hr
    · obtain ⟨start, hstart, rfl⟩ := List.mem_map.mp hr
      cases hstarts : w.inFlightRows source with
      | error e =>
        rw [hstarts] at hstart
        cases hstart
      | ok starts =>
        rw [hstarts] at hstart
        exact hw.inFlightRows hstarts start hstart
    · cases hr

end Warehouse

namespace Family

open Warehouse

/-- All times in the stores are in range, and so are the windows and expiries of the live ones. -/
structure InRange (f : Family) : Prop where
  timed : f.warehouse.Timed
  stores : ∀ m ∈ f.live, IsTime m.store.window ∧ IsTime m.store.expiry

/-- A store that is created is empty, and has the window and the expiry that it is created with. -/
theorem inRange_of_mem_created {w : Warehouse} {a : StoreAction} {m : Member} (hw : w.Sound)
    (ha : a.InRange) (hm : m ∈ w.created a) :
    (IsTime m.store.window ∧ IsTime m.store.expiry) ∧ m.table.rows.Timed := by
  cases a with
  | put => cases hm
  | rollover => cases hm
  | remove => cases hm
  | create shared window expiry =>
    obtain ⟨r, hr, rfl⟩ := Option.map_eq_some_iff.mp hm
    refine ⟨?_, Table.timed_empty⟩
    cases hcreate : w.create shared window expiry with
    | error e =>
      rw [hcreate] at hr
      cases hr
    | ok r' =>
      rw [hcreate] at hr
      cases hr
      have hstore : r.2 = ⟨w.next, window, expiry⟩ := (adds_of_create hw hcreate).1
      show IsTime r.2.window ∧ IsTime r.2.expiry
      rw [hstore]
      exact ha

variable {f : Family}

/-- No action brings a time out of range into a store. -/
theorem InRange.act (h : f.InRange) (hf : f.Coherent) {a : StoreAction} (ha : a.InRange) :
    (f.act a).InRange := by
  constructor
  · intro n t ht
    rw [warehouse_act] at ht
    obtain ⟨old, hold, _, rfl⟩ | ⟨m, hm, _, rfl⟩ := (get?_act_iff hf.sound).mp ht
    · exact (h.timed n old hold).feed (h.timed.written ha n)
    · exact (inRange_of_mem_created hf.sound ha hm).2
  · intro m hm
    obtain ⟨m', hm', _, rfl⟩ | hm := mem_live_act.mp hm
    · exact h.stores m' hm'
    · exact (inRange_of_mem_created hf.sound ha hm).1

theorem inRange_after {actions : List StoreAction} (h : ∀ a ∈ actions, a.InRange) :
    (after actions).InRange := by
  -- The stores are coherent after every action, which is what says that tables only grow by rows
  -- that are written.
  have hrun : ∀ f : Family, f.Coherent → f.InRange →
      (actions.foldl Family.act f).InRange := by
    induction actions with
    | nil => exact fun f _ hf => hf
    | cons a rest ih =>
      intro f hcoherent hf
      exact ih (fun b hb => h b (.tail _ hb)) _ (hcoherent.act a) (hf.act hcoherent (h a (.head _)))
  apply hrun
  · exact coherent_after []
  · constructor
    · intro n t ht
      cases ht
    · intro m hm
      cases hm

/-- The horizon of a live store can be compared with any time that is stored. -/
theorem InRange.comparable (h : f.InRange) {m : Member} (hm : m ∈ f.live) (t : Table) :
    t.Comparable m.store.horizon :=
  comparable_sub (h.stores m hm).1.fits (h.stores m hm).2.fits

/-- After puts of times that are not negative and any rollovers, failing or not, no view of a live
store fails: every time in it is in range, every latency is strictly between the bounds of a signed
column of 64 bits, and each view shows what the table of the store has. -/
theorem views_do_not_overflow {actions : List StoreAction} (h : ∀ a ∈ actions, a.InRange) :
    let w := (after actions).warehouse
    ∀ m ∈ (after actions).live,
      (∀ id half row, m.table.rows.get? id half = some row → IsTime row.time) ∧
      (∀ r ∈ m.table.rows.completed, -2 ^ 63 < r.latency ∧ r.latency < 2 ^ 63) ∧
      w.grouped m.store = .ok m.table.rows.requests ∧
      w.latencies m.store = .ok m.table.rows.completed ∧
      w.aggregates m.store = .ok (aggregate m.table.rows.completed) ∧
      w.inFlight m.store = .ok
        ((m.table.rows.inFlight m.store.horizon).map fun r => .started r.1 r.2) := by
  intro w m hm
  have hcoherent : (after actions).Coherent := coherent_after actions
  have hrange : (after actions).InRange := inRange_after h
  have htable := hcoherent.get?_of_live hm
  have hrows : w.rows m.store = .ok m.table.rows := hcoherent.rows_of_live hm
  have htimed : m.table.rows.Timed := hrange.timed _ _ htable
  -- Every latency is the difference of two times that are not negative, so all of them fit.
  have hfits : m.table.rows.completed.all (fun r => fitsBits 64 r.latency) = true := by
    apply List.all_eq_true.mpr
    intro r hr
    have hlatency := htimed.completed hr
    exact fitsBits_64_iff.mpr ⟨by omega, hlatency.2⟩
  have hlatencies : w.latencies m.store = .ok m.table.rows.completed := by
    unfold latencies
    rw [hrows]
    change (if m.table.rows.completed.all (fun r => fitsBits 64 r.latency) = true
      then _ else _) = _
    rw [if_pos hfits]
    rfl
  refine ⟨htimed, fun r hr => htimed.completed hr, ?_, hlatencies, ?_, ?_⟩
  · show (w.rows m.store).map (·.requests) = _
    rw [hrows]
    rfl
  · show (w.latencies m.store).map aggregate = _
    rw [hlatencies]
    rfl
  · show (w.inFlightRows m.store).map _ = _
    rw [inFlightRows_of_comparable htable (hrange.comparable hm _)]
    rfl

section Example

/-- A request that begins at the least time and ends at the greatest, in the window after the one
in which it began. Its first end is refused. -/
def longestRequest : List StoreAction :=
  [.create none 0 (2 ^ 63 - 1), .put ⟨0, 0, 2 ^ 63 - 1⟩ .start "a" 0 [],
    .create none 10 (2 ^ 63 - 1), .rollover ⟨1, 10, 2 ^ 63 - 1⟩ ⟨0, 0, 2 ^ 63 - 1⟩,
    .put ⟨1, 10, 2 ^ 63 - 1⟩ .finish "a" 7 [("response_code", .str "x")],
    .put ⟨1, 10, 2 ^ 63 - 1⟩ .finish "a" (2 ^ 63 - 1) []]

theorem longest_request_has_latency :
    (∀ a ∈ longestRequest, a.InRange) ∧
      (after longestRequest).warehouse.latencies ⟨1, 10, 2 ^ 63 - 1⟩ =
        .ok [⟨"a", .empty, 0, 2 ^ 63 - 1⟩] := by
  have hrange : ∀ a ∈ longestRequest, a.InRange := by
    simp [longestRequest, StoreAction.InRange, IsTime]
  refine ⟨hrange, ?_⟩
  have hm : (after longestRequest).live[1] ∈ (after longestRequest).live := List.getElem_mem _
  obtain ⟨_, _, _, hlatencies, _⟩ := views_do_not_overflow hrange _ hm
  exact hlatencies

/-- One negative time would make the latencies of a whole window fail. -/
example :
    (after [.create none 0 0, .put ⟨0, 0, 0⟩ .start "a" (-1) [],
      .put ⟨0, 0, 0⟩ .finish "a" (2 ^ 63 - 1) []]).warehouse.latencies ⟨0, 0, 0⟩ =
        .error .latencyOutOfRange := by rfl

end Example

end Family

end RequestWindows
