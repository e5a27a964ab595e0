import Mathlib.Algebra.Order.BigOperators.Group.List
import Mathlib.Algebra.Order.Ring.Int
import RequestWindows.Proofs.Store.LastWrite

namespace RequestWindows

/-- Whether one value comes before another where a missing one comes last. -/
def BeforeMissing {α : Type} (before : α → α → Prop) : Option α → Option α → Prop
  | some a, some b => before a b
  | some _, none => True
  | none, _ => False

/-- Whether the bytes that encode one text come before those of another. -/
def BytesBefore (a b : String) : Prop := Text.encodeUtf8 a.toList < Text.encodeUtf8 b.toList

namespace GroupKey

/-- Whether one group comes before another: the first of operation, response code, indices and
exception in which they differ decides. -/
def Before (k j : GroupKey) : Prop :=
  BeforeMissing BytesBefore k.operation j.operation ∨ k.operation = j.operation ∧
    (BeforeMissing (· < ·) k.responseCode j.responseCode ∨ k.responseCode = j.responseCode ∧
      (BeforeMissing BytesBefore k.indices j.indices ∨ k.indices = j.indices ∧
        BeforeMissing BytesBefore k.exception j.exception))

end GroupKey

section Order

open Std

variable {α : Type} {a b : Option α}

/-- Values in an order stay in it where a missing one comes last. -/
theorem transCmp_missingLast [Ord α] [TransOrd α] : TransCmp (compareMissingLast (α := α)) where
  eq_swap := by
    intro a b
    cases a with
    | none => cases b <;> rfl
    | some a =>
      cases b with
      | none => rfl
      | some b =>
        change compare a b = (compare b a).swap
        exact OrientedCmp.eq_swap
  isLE_trans := by
    intro a b c hab hbc
    cases a with
    | none =>
      cases b with
      | none => exact hbc
      | some _ => cases hab
    | some a =>
      cases c with
      | none => rfl
      | some c =>
        cases b with
        | none => cases hbc
        | some b =>
          have hab : (compare a b).isLE = true := hab
          have hbc : (compare b c).isLE = true := hbc
          change (compare a c).isLE = true
          exact TransCmp.isLE_trans hab hbc

theorem transCmp_on {β : Type} {cmp : β → β → Ordering} (h : TransCmp cmp) (f : α → β) :
    TransCmp fun a b => cmp (f a) (f b) where
  eq_swap := h.eq_swap
  isLE_trans := h.isLE_trans

theorem beforeMissing_bytes {a b : Option String} :
    BeforeMissing BytesBefore a b ↔ BeforeMissing (· < ·) a b := by
  cases a with
  | none => exact Iff.rfl
  | some a =>
    cases b with
    | none => exact Iff.rfl
    | some b => exact Text.lt_iff_encodeUtf8_lt.symm

variable [LinearOrder α]

theorem compareMissingLast_eq_lt : compareMissingLast a b = .lt ↔ BeforeMissing (· < ·) a b := by
  cases a <;> cases b <;> simp [compareMissingLast, BeforeMissing, compare_lt_iff_lt]

theorem compareMissingLast_eq_eq : compareMissingLast a b = .eq ↔ a = b := by
  cases a <;> cases b <;> simp [compareMissingLast]

end Order

namespace GroupKey

variable {k j : GroupKey}

theorem compare_eq_lt : k.compare j = .lt ↔ k.Before j := by
  unfold compare Before
  rw [Ordering.then_eq_lt, Ordering.then_eq_lt, Ordering.then_eq_lt]
  simp only [beforeMissing_bytes]
  rw [compareMissingLast_eq_lt, compareMissingLast_eq_eq, compareMissingLast_eq_lt,
    compareMissingLast_eq_eq, compareMissingLast_eq_lt, compareMissingLast_eq_eq,
    compareMissingLast_eq_lt]

theorem compare_eq_eq : k.compare j = .eq ↔ k = j := by
  unfold compare
  rw [Ordering.then_eq_eq, Ordering.then_eq_eq, Ordering.then_eq_eq, compareMissingLast_eq_eq,
    compareMissingLast_eq_eq, compareMissingLast_eq_eq, compareMissingLast_eq_eq]
  exact (GroupKey.mk.injEq ..).symm.to_iff

theorem le_iff : k.le j = true ↔ k.Before j ∨ k = j := by
  unfold le
  rw [Ordering.isLE_iff_eq_lt_or_eq_eq, compare_eq_lt, compare_eq_eq]

/-- Groups are ordered: each part is, and the first one that differs decides. -/
theorem transCmp_compare : Std.TransCmp compare := by
  have hoperation := transCmp_on (transCmp_missingLast (α := String)) operation
  have hcode := transCmp_on (transCmp_missingLast (α := Int)) responseCode
  have hindices := transCmp_on (transCmp_missingLast (α := String)) indices
  have hexception := transCmp_on (transCmp_missingLast (α := String)) exception
  exact inferInstanceAs (Std.TransCmp (compareLex _ (compareLex _ (compareLex _ _))))

theorem pairwise_le_sortBy (keys : List GroupKey) : (sortBy le keys).Pairwise (le · · = true) := by
  have hcompare := transCmp_compare
  apply pairwise_sortBy
  · intro a b c hab hbc
    exact hcompare.isLE_trans hab hbc
  · intro a b
    unfold le
    rw [hcompare.eq_swap (a := b)]
    cases a.compare b <;> simp

end GroupKey

theorem nodup_eraseDups {α : Type} [DecidableEq α] (l : List α) : l.eraseDups.Nodup := by
  -- What is left of the tail is shorter than the tail, but need not be a part of it.
  induction h : l.length using Nat.strong_induction_on generalizing l with
  | _ n ih =>
    cases l with
    | nil => simp
    | cons a rest =>
      rw [List.eraseDups_cons, List.nodup_cons, List.mem_eraseDups]
      constructor
      · simp
      · have hle := List.length_filter_le (fun b => !b == a) rest
        rw [List.length_cons] at h
        exact ih _ (by omega) _ rfl

/-- Elements that are put together group by group are all there, if each has its key among those of
the groups. -/
theorem flatMap_filter_perm {α κ : Type} [DecidableEq α] [DecidableEq κ] (f : α → κ) {keys : List κ}
    (hkeys : keys.Nodup) {l : List α} (hl : ∀ a ∈ l, f a ∈ keys) :
    (keys.flatMap fun k => l.filter fun a => f a = k).Perm l := by
  induction keys generalizing l with
  | nil => simp [List.eq_nil_iff_forall_not_mem.mpr fun a ha => List.not_mem_nil (hl a ha)]
  | cons k keys ih =>
    obtain ⟨hk, hkeys⟩ := List.nodup_cons.mp hkeys
    have hothers : ∀ a ∈ l.filter (fun a => ¬f a = k), f a ∈ keys := by
      intro a ha
      obtain ⟨hm, hne⟩ := List.mem_filter.mp ha
      exact (List.mem_cons.mp (hl a hm)).resolve_left (of_decide_eq_true hne)
    -- The later groups are the same without the elements of the first one.
    have hsame : (keys.flatMap fun j => (l.filter fun a => ¬f a = k).filter fun a => f a = j) =
        keys.flatMap fun j => l.filter fun a => f a = j := by
      apply List.flatMap_congr
      intro j hj
      rw [List.filter_filter]
      apply List.filter_congr
      intro a _
      have hjk : j ≠ k := fun h => hk (h ▸ hj)
      by_cases ha : f a = j <;> simp [ha, hjk]
    have htail := ih hkeys hothers
    rw [hsame] at htail
    rw [List.flatMap_cons]
    exact (htail.append_left _).trans (by simpa using List.filter_append_perm (fun a => f a = k) l)

namespace Summary

/-- `s` is the number, sum, least and greatest of some integers. -/
structure Of (s : Summary) (values : List Int) : Prop where
  count : s.count = values.length
  sum : s.sum = values.sum
  least : s.least ∈ values ∧ ∀ v ∈ values, s.least ≤ v
  greatest : s.greatest ∈ values ∧ ∀ v ∈ values, v ≤ s.greatest

theorem ofList?_cons (n : Int) (rest : List Int) :
    ∃ s, ofList? (n :: rest) = some s ∧ s.Of (n :: rest) := by
  refine ⟨_, rfl, rfl, ?_, ?_, ?_⟩
  · have hassoc : rest.foldl (· + ·) (n + 0) = n + rest.foldl (· + ·) 0 := List.foldl_assoc
    rw [Int.add_zero, ← List.sum_eq_foldl] at hassoc
    rw [List.sum_cons, ← hassoc]
  · exact List.min?_eq_some_iff.mp List.min?_cons'
  · exact List.max?_eq_some_iff.mp List.max?_cons'

theorem of_ofList? {values : List Int} {s : Summary} (h : ofList? values = some s) :
    s.Of values := by
  cases values with
  | nil => cases h
  | cons n rest =>
    obtain ⟨s', hs', hof⟩ := ofList?_cons n rest
    rw [hs'] at h
    cases h
    exact hof

theorem ofList?_eq_none {values : List Int} : ofList? values = none ↔ values = [] := by
  cases values with
  | nil => exact iff_of_true rfl rfl
  | cons n rest => exact iff_of_false (by simp [ofList?]) (by simp)

/-- The mean of some integers lies between the least and the greatest of them. -/
theorem Of.bounds {s : Summary} {values : List Int} (h : s.Of values) :
    s.least * s.count ≤ s.sum ∧ s.sum ≤ s.greatest * s.count := by
  have hlow := List.card_nsmul_le_sum values s.least h.least.2
  have hhigh := List.sum_le_card_nsmul values s.greatest h.greatest.2
  rw [nsmul_eq_mul, mul_comm] at hlow hhigh
  rw [h.count, h.sum]
  exact ⟨hlow, hhigh⟩

end Summary

/-- The group that a request is counted in. -/
def CompletedRequest.group (r : CompletedRequest) : GroupKey := .ofColumns r.columns

/-- The request that has both times, if it has. -/
def Request.completed? (r : Request) : Option CompletedRequest :=
  match r.startTime, r.endTime with
  | some a, some b => some ⟨r.correlationId, r.columns, a, b⟩
  | _, _ => none

theorem Table.completed_eq_filterMap (t : Table) :
    t.completed = t.requests.filterMap Request.completed? := by
  unfold completed requests
  rw [List.filterMap_map]
  congr 1
  funext e
  unfold Halves.completed? Request.completed? Halves.request
  dsimp only [Function.comp]
  cases e.2.start <;> cases e.2.finish <;> rfl

/-- Rows that partition some completed requests: one for each group that occurs, in ascending order,
with the summary of its latencies and one of its item counts as far as there are any. -/
structure Partitions (requests : List CompletedRequest) (rows : List OperationAggregate) :
    Prop where
  distinct : (rows.map (·.key)).Nodup
  ascending : rows.Pairwise fun a b => a.key.Before b.key
  mem_keys : ∀ key, key ∈ rows.map (·.key) ↔ ∃ r ∈ requests, r.group = key
  latency : ∀ row ∈ rows,
    row.latency.Of ((requests.filter (·.group = row.key)).map (·.latency))
  items : ∀ row ∈ rows, ∀ s, row.items = some s →
    s.Of ((requests.filter (·.group = row.key)).filterMap (·.columns.itemCount))
  no_items : ∀ row ∈ rows, row.items = none ↔
    ∀ r ∈ requests, r.group = row.key → r.columns.itemCount = none
  exhaustive : (rows.flatMap fun row => requests.filter (·.group = row.key)).Perm requests
  count_sum : (rows.map (·.latency.count)).sum = requests.length
  latency_sum : (rows.map (·.latency.sum)).sum = (requests.map (·.latency)).sum
  bounds : ∀ row ∈ rows, row.latency.least * row.latency.count ≤ row.latency.sum ∧
    row.latency.sum ≤ row.latency.greatest * row.latency.count

section Aggregate

variable {requests : List CompletedRequest} {key : GroupKey} {row : OperationAggregate}

theorem mem_groupKeys : key ∈ groupKeys requests ↔ ∃ r ∈ requests, r.group = key := by
  unfold groupKeys
  rw [(sortBy_perm _ _).mem_iff, List.mem_eraseDups, List.mem_map]
  rfl

theorem nodup_groupKeys (requests : List CompletedRequest) : (groupKeys requests).Nodup :=
  (sortBy_perm _ _).nodup_iff.mpr (nodup_eraseDups _)

theorem ascending_groupKeys (requests : List CompletedRequest) :
    (groupKeys requests).Pairwise GroupKey.Before := by
  have hle : (groupKeys requests).Pairwise (GroupKey.le · · = true) := GroupKey.pairwise_le_sortBy _
  refine (hle.and (nodup_groupKeys requests)).imp ?_
  intro a b ⟨hab, hne⟩
  exact (GroupKey.le_iff.mp hab).resolve_right hne

/-- A group that occurs has a row, with its own key and the summaries of its requests. -/
theorem aggregateGroup?_of_mem (h : key ∈ groupKeys requests) :
    ∃ row, aggregateGroup? requests key = some row ∧ row.key = key := by
  obtain ⟨r, hr, hkey⟩ := mem_groupKeys.mp h
  have hgroup : r ∈ requests.filter (·.group = key) :=
    List.mem_filter.mpr ⟨hr, decide_eq_true hkey⟩
  cases hsum : Summary.ofList? ((requests.filter (·.group = key)).map (·.latency)) with
  | none =>
    have hnil := List.map_eq_nil_iff.mp (Summary.ofList?_eq_none.mp hsum)
    rw [hnil] at hgroup
    cases hgroup
  | some latency =>
    let items := (requests.filter (·.group = key)).filterMap (·.columns.itemCount)
    refine ⟨⟨key, latency, Summary.ofList? items⟩, ?_, rfl⟩
    exact congrArg (Option.map _) hsum

theorem keys_aggregate (requests : List CompletedRequest) :
    (aggregate requests).map (·.key) = groupKeys requests := by
  unfold aggregate
  rw [List.map_filterMap]
  refine (List.filterMap_congr fun key hkey => ?_).trans List.filterMap_some
  obtain ⟨row, hrow, hsame⟩ := aggregateGroup?_of_mem hkey
  rw [hrow, Option.map_some, hsame]

theorem summaries_of_mem_aggregate (h : row ∈ aggregate requests) :
    Summary.ofList? ((requests.filter (·.group = row.key)).map (·.latency)) = some row.latency ∧
      row.items = Summary.ofList?
        ((requests.filter (·.group = row.key)).filterMap (·.columns.itemCount)) := by
  obtain ⟨key, _, hrow⟩ := List.mem_filterMap.mp h
  obtain ⟨latency, hlatency, rfl⟩ := Option.map_eq_some_iff.mp hrow
  exact ⟨hlatency, rfl⟩

theorem exhaustive_aggregate (requests : List CompletedRequest) :
    ((aggregate requests).flatMap fun row => requests.filter (·.group = row.key)).Perm
      requests := by
  have hperm := flatMap_filter_perm CompletedRequest.group (nodup_groupKeys requests)
    (l := requests) fun r hr => mem_groupKeys.mpr ⟨r, hr, rfl⟩
  rw [← keys_aggregate, List.flatMap_map] at hperm
  exact hperm

theorem partitions_aggregate (requests : List CompletedRequest) :
    Partitions requests (aggregate requests) := by
  have hlatency : ∀ row ∈ aggregate requests,
      row.latency.Of ((requests.filter (·.group = row.key)).map (·.latency)) :=
    fun row hrow => Summary.of_ofList? (summaries_of_mem_aggregate hrow).1
  have hexhaustive := exhaustive_aggregate requests
  constructor
  · rw [keys_aggregate]
    exact nodup_groupKeys requests
  · have hascending := ascending_groupKeys requests
    rw [← keys_aggregate, List.pairwise_map] at hascending
    exact hascending
  · intro key
    rw [keys_aggregate]
    exact mem_groupKeys
  · exact hlatency
  · intro row hrow s hs
    rw [(summaries_of_mem_aggregate hrow).2] at hs
    exact Summary.of_ofList? hs
  · intro row hrow
    rw [(summaries_of_mem_aggregate hrow).2, Summary.ofList?_eq_none, List.filterMap_eq_nil_iff]
    simp only [List.mem_filter, decide_eq_true_eq, and_imp]
  · exact hexhaustive
  · have hlength := hexhaustive.length_eq
    rw [List.length_flatMap] at hlength
    rw [← hlength]
    congr 1
    apply List.map_congr_left
    intro row hrow
    rw [(hlatency row hrow).count, List.length_map]
  · have hsum := (hexhaustive.map (·.latency)).sum_eq
    rw [List.map_flatMap, List.flatMap_def, List.sum_flatten, List.map_map] at hsum
    rw [← hsum]
    congr 1
    apply List.map_congr_left
    intro row hrow
    exact (hlatency row hrow).sum
  · intro row hrow
    exact (hlatency row hrow).bounds

end Aggregate

namespace Warehouse

variable {w : Warehouse} {s : WindowStore} {writes : List (String × Half × HalfRow)}

/-- Where no latency of a live store overflows 64 bits, its aggregates are an exact partition of its
completed requests, which are the requests that have both times. -/
theorem aggregates_partition (h : w.Lives s writes)
    (hfit : ∀ requests, w.grouped s = .ok requests →
      ∀ r ∈ requests.filterMap Request.completed?, fitsBits 64 r.latency = true) :
    ∃ requests completed rows, w.grouped s = .ok requests ∧
      completed = requests.filterMap Request.completed? ∧ w.latencies s = .ok completed ∧
      w.aggregates s = .ok rows ∧ Partitions completed rows := by
  have hrows := h.rows_eq
  have hgrouped : w.grouped s = .ok (Table.empty.feed writes).requests := by
    unfold grouped
    rw [hrows]
    rfl
  have hfits := hfit _ hgrouped
  rw [← Table.completed_eq_filterMap] at hfits
  have hlatencies : w.latencies s = .ok (Table.empty.feed writes).completed := by
    unfold latencies
    rw [hrows]
    change (if (Table.empty.feed writes).completed.all (fun r => fitsBits 64 r.latency) = true
      then _ else _) = _
    rw [if_pos (List.all_eq_true.mpr hfits)]
    rfl
  refine ⟨_, _, _, hgrouped, Table.completed_eq_filterMap _, hlatencies, ?_,
    partitions_aggregate _⟩
  unfold aggregates
  rw [hlatencies]
  rfl

section Example

/-- Three requests of which two have an operation, and one of these an item count. -/
def threeRequests : List StoreAction :=
  [.put firstStore .start "a" 5 [("operation", .str "search"), ("item_count", .int 4)],
    .put firstStore .finish "a" 9 [],
    .put firstStore .start "b" 1 [],
    .put firstStore .finish "b" 3 [("response_code", .int 200)],
    .put firstStore .start "c" 2 [("operation", .str "search")],
    .put firstStore .finish "c" 12 []]

/-- The requests with the operation are in one row, of which only one has an item count; the missing
operation comes last. -/
theorem three_requests_in_two_groups :
    let w := withFirstStore.perform threeRequests
    ∃ completed rows, w.latencies firstStore = .ok completed ∧ w.aggregates firstStore = .ok rows ∧
      Partitions completed rows ∧
      rows = [⟨⟨some "search", none, none, none⟩, ⟨2, 14, 4, 10⟩, some ⟨1, 4, 4, 4⟩⟩,
        ⟨⟨none, some 200, none, none⟩, ⟨1, 2, 2, 2⟩, none⟩] := by
  intro w
  have hlives : w.Lives firstStore (withFirstStore.writtenIn 0 threeRequests) :=
    lives_withFirstStore (by simp [threeRequests, StoreAction.Removes])
  have hgrouped : w.grouped firstStore = .ok
      [⟨"a", ⟨some "search", none, none, none, some 4⟩, some 5, some 9⟩,
        ⟨"b", ⟨none, none, some 200, none, none⟩, some 1, some 3⟩,
        ⟨"c", ⟨some "search", none, none, none, none⟩, some 2, some 12⟩] := by decide +kernel
  obtain ⟨requests, completed, rows, _, _, hlatencies, hrows, hpartitions⟩ :=
    aggregates_partition hlives (by
      intro requests h
      rw [hgrouped] at h
      cases h
      decide)
  refine ⟨completed, rows, hlatencies, hrows, hpartitions, ?_⟩
  have hcomputed : w.aggregates firstStore = .ok
      [⟨⟨some "search", none, none, none⟩, ⟨2, 14, 4, 10⟩, some ⟨1, 4, 4, 4⟩⟩,
        ⟨⟨none, some 200, none, none⟩, ⟨1, 2, 2, 2⟩, none⟩] := by decide +kernel
  rw [hcomputed] at hrows
  exact (Except.ok.inj hrows).symm

end Example

end Warehouse

end RequestWindows
