import RequestWindows.Proofs.Store.LastWrite

namespace RequestWindows

/-- Whether a request has started no earlier than `horizon` and has not ended. -/
def Request.inFlightSince (horizon : Int) (r : Request) : Bool :=
  r.endTime.isNone && r.startTime.any fun t => decide (horizon ≤ t)

theorem Columns.merge_empty (c : Columns) : c.merge .empty = c := by
  have hgreater : ∀ {α : Type} [LT α] [DecidableLT α] (a : Option α), greater? a none = a := by
    intro α _ _ a
    cases a <;> rfl
  unfold merge empty
  simp only [hgreater]

/-- What is in flight of a request is a start alone, which makes the same request. -/
theorem Halves.map_started_inFlight? (h : Halves) (id : String) (horizon : Int) :
    (h.inFlight? horizon).map (Request.started id) =
      Option.guard (Request.inFlightSince horizon) (h.request id) := by
  obtain ⟨start, finish, _⟩ := h
  cases start with
  | none => simp [inFlight?, pending?, request, Request.inFlightSince, Option.guard]
  | some row =>
    cases finish with
    | some row' => simp [inFlight?, pending?, request, Request.inFlightSince, Option.guard]
    | none =>
      have hmerge := Columns.merge_empty row.columns
      by_cases ht : horizon ≤ row.time <;>
        simp [inFlight?, pending?, request, columns, Option.filter, Request.inFlightSince,
          Request.started, Option.guard, ht, hmerge]

namespace Table

variable {t : Table} {a b : Int}

theorem map_started_inFlight (t : Table) (horizon : Int) :
    (t.inFlight horizon).map (fun r => .started r.1 r.2) =
      t.requests.filter (·.inFlightSince horizon) := by
  unfold inFlight requests
  rw [List.map_filterMap, ← List.filterMap_eq_filter, List.filterMap_map]
  congr 1
  funext e
  rw [Option.map_map]
  exact e.2.map_started_inFlight? e.1 horizon

/-- The table that holds the starts of a table that are in flight, and nothing else. -/
def starts (t : Table) (horizon : Int) : Table where
  entries := t.entries.filterMap fun e =>
    (e.2.inFlight? horizon).map fun row => (e.1, ⟨some row, none, rfl⟩)
  ascending := by
    refine t.ascending.filterMap _ ?_
    intro e e' hlt c hc c' hc'
    obtain ⟨_, _, rfl⟩ := Option.map_eq_some_iff.mp hc
    obtain ⟨_, _, rfl⟩ := Option.map_eq_some_iff.mp hc'
    exact hlt

theorem requests_starts (t : Table) (horizon : Int) :
    (t.starts horizon).requests = (t.inFlight horizon).map fun r => .started r.1 r.2 := by
  unfold inFlight starts requests
  rw [List.map_filterMap, List.map_filterMap]
  congr 1
  funext e
  rw [Option.map_map, Option.map_map]
  congr 1
  funext row
  change (⟨e.1, row.columns.merge .empty, some row.time, none⟩ : Request) = _
  rw [Columns.merge_empty]
  rfl

theorem mem_entries_starts {id : String} {h : Halves} {horizon : Int} :
    (id, h) ∈ (t.starts horizon).entries ↔
      ∃ row, (id, row) ∈ t.inFlight horizon ∧ h = ⟨some row, none, rfl⟩ := by
  unfold starts inFlight
  simp only [List.mem_filterMap, Option.map_eq_some_iff, Prod.mk.injEq]
  constructor
  · rintro ⟨e, he, row, hrow, rfl, rfl⟩
    exact ⟨row, ⟨e, he, row, hrow, rfl, rfl⟩, rfl⟩
  · rintro ⟨row, ⟨e, he, _, hrow, rfl, rfl⟩, rfl⟩
    exact ⟨e, he, _, hrow, rfl, rfl⟩

theorem carried_eq_starts (t : Table) (horizon : Int) : t.carried horizon = t.starts horizon := by
  ext1 id half
  cases half with
  | start =>
    refine Option.ext fun row => ?_
    rw [get?_carried, ← mem_inFlight]
    constructor
    · intro hm
      have hentry := mem_entries_starts.mpr ⟨row, hm, rfl⟩
      rw [get?_of_find? (mem_entries_iff.mp hentry)]
      rfl
    · intro hget
      obtain ⟨h, hfind, hstart⟩ := find?_of_get? hget
      obtain ⟨row', hm, rfl⟩ := mem_entries_starts.mp (mem_entries_iff.mpr hfind)
      cases hstart
      exact hm
  | finish =>
    rw [get?_carried_finish]
    cases hget : (t.starts horizon).get? id .finish with
    | none => rfl
    | some row =>
      obtain ⟨h, hfind, hfinish⟩ := find?_of_get? hget
      obtain ⟨_, _, rfl⟩ := mem_entries_starts.mp (mem_entries_iff.mpr hfind)
      cases hfinish

/-- The requests of a window that begins with what is carried over are those that were in flight. -/
theorem requests_carried (t : Table) (horizon : Int) :
    (t.carried horizon).requests = t.requests.filter (·.inFlightSince horizon) := by
  rw [carried_eq_starts, requests_starts, map_started_inFlight]

/-- Of what has been carried over, the second horizon decides what is carried on. -/
theorem carried_carried (hab : a ≤ b) : (t.carried a).carried b = t.carried b := by
  ext1 id half
  cases half with
  | start =>
    refine Option.ext fun row => ?_
    rw [get?_carried, get?_carried, get?_carried, get?_carried_finish]
    constructor
    · rintro ⟨⟨hs, hf, _⟩, _, hb⟩
      exact ⟨hs, hf, hb⟩
    · rintro ⟨hs, hf, hb⟩
      exact ⟨⟨hs, hf, hab.trans hb⟩, rfl, hb⟩
  | finish => rw [get?_carried_finish, get?_carried_finish]

/-- Rows that are written again change nothing. -/
theorem carry_carry (t : Table) (starts : List (String × HalfRow)) :
    (t.carry starts).carry starts = t.carry starts := by
  rw [carry_eq_feed, carry_eq_feed]
  ext1 id half
  rw [get?_feed, get?_feed, ← Option.or_assoc, Option.or_self]

end Table

theorem assign_of_lookup {κ α : Type} [DecidableEq κ] {k : κ} {a : α} {l : List (κ × α)}
    (h : l.lookup k = some a) : assign k a l = l := by
  induction l with
  | nil => cases h
  | cons e rest ih =>
    obtain ⟨c, v⟩ := e
    rw [lookup_cons_eq_ite] at h
    rw [assign]
    by_cases hk : c = k
    · rw [if_pos hk.symm] at h
      cases h
      rw [if_pos hk, hk]
    · rw [if_neg (Ne.symm hk)] at h
      rw [if_neg hk, ih h]

/-- Binding a key to the value that it has changes nothing. -/
theorem KeyedList.insert_of_get? {κ α : Type} [DecidableEq κ] {m : KeyedList κ α} {k : κ} {a : α}
    (h : m.get? k = some a) : m.insert k a = m :=
  KeyedList.ext (assign_of_lookup h)

namespace Warehouse

variable {w : Warehouse}

/-- Requests in flight that can be found are written to the target as starts, and counted. -/
theorem rollover_eq {target source : WindowStore} {t : StoredTable}
    {starts : List (String × HalfRow)} (hne : target.serial ≠ source.serial)
    (ht : w.tables.get? target.serial = some t) (hstarts : w.inFlightRows source = .ok starts) :
    w.rollover target source =
      .ok (⟨w.tables.insert target.serial { t with rows := t.rows.carry starts }, w.next⟩,
        starts.length) := by
  have hmodify : w.modify target (·.carry starts) =
      .ok ⟨w.tables.insert target.serial { t with rows := t.rows.carry starts }, w.next⟩ := by
    unfold modify
    rw [table_eq_ok.mpr ht]
    rfl
  unfold rollover
  rw [if_neg hne, hstarts]
  change (if starts = [] then _ else _) = _
  by_cases hnil : starts = []
  · have hsame : w.tables.insert target.serial { t with rows := t.rows.carry [] } = w.tables :=
      KeyedList.insert_of_get? ht
    rw [if_pos hnil, hnil, hsame]
    rfl
  · rw [if_neg hnil, hmodify]
    rfl

/-- A store answers all queries in `w'` as it does in `w`. -/
structure SameViews (w w' : Warehouse) (s : WindowStore) : Prop where
  grouped : w'.grouped s = w.grouped s
  latencies : w'.latencies s = w.latencies s
  aggregates : w'.aggregates s = w.aggregates s
  inFlight : w'.inFlight s = w.inFlight s
  halfRows : w'.halfRows s = w.halfRows s
  size : w'.size s = w.size s

theorem sameViews_of_rows {w w' : Warehouse} {s : WindowStore} (h : w'.rows s = w.rows s) :
    w.SameViews w' s := by
  obtain ⟨hgrouped, hlatencies, haggregates, hinFlight⟩ := views_congr h rfl
  refine ⟨hgrouped, hlatencies, haggregates, hinFlight, ?_, ?_⟩
  · unfold Warehouse.halfRows
    rw [h]
  · unfold Warehouse.size
    rw [h]

/-- The rollovers of the first `n` stores of a chain, each into the next one. -/
def rollovers (store : Nat → WindowStore) (n : Nat) : List StoreAction :=
  (List.range n).map fun i => .rollover (store (i + 1)) (store i)

/-- `n` stores without writes after one with any, with ascending windows and one expiry. -/
structure ChainOf (w : Warehouse) (store : Nat → WindowStore) (n : Nat) (expiry : Int)
    (writes : List (String × Half × HalfRow)) : Prop where
  first : w.Lives (store 0) writes
  fresh : ∀ i < n, w.Lives (store (i + 1)) []
  distinct : ∀ i j, i < j → j ≤ n → (store i).serial ≠ (store j).serial
  expiry_eq : ∀ i ≤ n, (store i).expiry = expiry
  expiry_fits : fitsBits 64 expiry = true
  window_fits : ∀ i ≤ n, fitsBits 64 (store i).window = true
  ascending : ∀ i < n, (store i).window ≤ (store (i + 1)).window

section Chain

variable {store : Nat → WindowStore} {n : Nat} {expiry : Int}
  {writes : List (String × Half × HalfRow)}

theorem ChainOf.horizon_eq (h : w.ChainOf store n expiry writes) {i : Nat} (hi : i ≤ n) :
    (store i).horizon = (store i).window - expiry := by
  rw [WindowStore.horizon, h.expiry_eq i hi]

theorem ChainOf.horizon_le (h : w.ChainOf store n expiry writes) {i : Nat} (hi : i < n) :
    (store i).horizon ≤ (store (i + 1)).horizon := by
  have hwindow := h.ascending i hi
  rw [h.horizon_eq (Nat.le_of_lt hi), h.horizon_eq (i := i + 1) hi]
  omega

theorem ChainOf.comparable (h : w.ChainOf store n expiry writes) {i : Nat} (hi : i ≤ n)
    (t : Table) : t.Comparable (store i).horizon := by
  rw [h.horizon_eq hi]
  exact comparable_sub (h.window_fits i hi) h.expiry_fits

/-- The rows of the `j`th store once it has been rolled over into: what of the first store's
requests was in flight for the store before it. -/
def settled (t : Table) (store : Nat → WindowStore) : Nat → Table
  | 0 => t
  | j + 1 => t.carried (store j).horizon

theorem ChainOf.carried_settled (h : w.ChainOf store n expiry writes) (t : Table) {i : Nat}
    (hi : i < n) :
    (settled t store i).carried (store i).horizon = settled t store (i + 1) := by
  cases i with
  | zero => rfl
  | succ i => exact Table.carried_carried (h.horizon_le (Nat.lt_of_succ_lt hi))

theorem perform_rollovers_succ (store : Nat → WindowStore) (i : Nat) :
    w.perform (rollovers store (i + 1)) =
      (w.perform (rollovers store i)).act (.rollover (store (i + 1)) (store i)) := by
  unfold rollovers perform
  rw [List.range_succ, List.map_append, List.foldl_append]
  rfl

/-- After `i` rollovers the stores up to the `i`th have been rolled over into, and no other. -/
theorem ChainOf.rows_at (h : w.ChainOf store n expiry writes) {i : Nat} (hi : i ≤ n) {j : Nat}
    (hj : j ≤ n) :
    ∃ stored, (w.perform (rollovers store i)).tables.get? (store j).serial = some stored ∧
      stored.rows = if j ≤ i then settled (Table.empty.feed writes) store j else .empty := by
  induction i generalizing j with
  | zero =>
    cases j with
    | zero =>
      obtain ⟨_, stored, hget, hrows⟩ := h.first.rows
      exact ⟨stored, hget, hrows⟩
    | succ j =>
      obtain ⟨_, stored, hget, hrows⟩ := (h.fresh j hj).rows
      exact ⟨stored, hget, hrows⟩
  | succ i ih =>
    -- The next rollover finds the `i`th store settled and the one after it empty, and it changes
    -- only the latter.
    obtain ⟨old, hold, hrows⟩ := ih (Nat.le_of_lt hi) (Nat.le_of_lt hi)
    obtain ⟨new, hnew, hempty⟩ := ih (Nat.le_of_lt hi) hi
    rw [if_pos (Nat.le_refl i)] at hrows
    rw [if_neg (Nat.not_succ_le_self i)] at hempty
    have hne := (h.distinct i (i + 1) (Nat.lt_succ_self i) hi).symm
    have hstarts := inFlightRows_of_comparable hold (h.comparable (Nat.le_of_lt hi) _)
    have hroll := rollover_eq hne hnew hstarts
    have hact : (w.perform (rollovers store i)).attempt (.rollover (store (i + 1)) (store i)) =
        .ok _ := congrArg (Except.map Prod.fst) hroll
    rw [perform_rollovers_succ, act, hact]
    change ∃ stored, (KeyedList.insert _ _ _).get? (store j).serial = some stored ∧ _
    rw [KeyedList.get?_insert]
    by_cases hji : j = i + 1
    · subst hji
      refine ⟨_, if_pos rfl, ?_⟩
      rw [if_pos (Nat.le_refl _), ← h.carried_settled _ hi, ← hrows]
      change new.rows.carry _ = _
      rw [hempty]
      rfl
    · have hserial : (store j).serial ≠ (store (i + 1)).serial := by
        rcases Nat.lt_or_gt_of_ne hji with hlt | hgt
        · exact h.distinct j (i + 1) hlt hi
        · exact (h.distinct (i + 1) j hgt hj).symm
      obtain ⟨stored, hget, hstored⟩ := ih (Nat.le_of_lt hi) hj
      refine ⟨stored, (if_neg hserial).trans hget, ?_⟩
      have hiff : j ≤ i ↔ j ≤ i + 1 := by omega
      rw [hstored]
      simp only [hiff]

/-- From the `i`th rollover on the rows of the `i`th store stay as they are. -/
theorem ChainOf.rows_settled (h : w.ChainOf store n expiry writes) {i j : Nat} (hij : i ≤ j)
    (hj : j ≤ n) :
    ∃ stored, (w.perform (rollovers store j)).tables.get? (store i).serial = some stored ∧
      stored.rows = settled (Table.empty.feed writes) store i := by
  obtain ⟨stored, hget, hrows⟩ := h.rows_at hj (hij.trans hj)
  rw [if_pos hij] at hrows
  exact ⟨stored, hget, hrows⟩

theorem ChainOf.requests_settled (h : w.ChainOf store n expiry writes) {i : Nat} (hi : i < n) :
    (settled (Table.empty.feed writes) store (i + 1)).requests =
      (Table.empty.feed writes).requests.filter
        (·.inFlightSince ((store i).window - expiry)) := by
  rw [← h.horizon_eq (Nat.le_of_lt hi)]
  exact Table.requests_carried _ _

/-- As many requests are in flight for the `i`th store as the one after it receives. -/
theorem ChainOf.length_inFlight (h : w.ChainOf store n expiry writes) {i : Nat} (hi : i < n) :
    ((settled (Table.empty.feed writes) store i).inFlight (store i).horizon).length =
      ((Table.empty.feed writes).requests.filter
        (·.inFlightSince ((store i).window - expiry))).length := by
  rw [← h.requests_settled hi, ← h.carried_settled _ hi, Table.requests_carried,
    ← Table.map_started_inFlight, List.length_map]

/-- The rollover of one store of a chain into the next, when it is its turn. -/
theorem ChainOf.rollover_next (h : w.ChainOf store n expiry writes) {i : Nat} (hi : i < n) :
    (w.perform (rollovers store i)).rollover (store (i + 1)) (store i) =
      .ok (w.perform (rollovers store (i + 1)), ((Table.empty.feed writes).requests.filter
        (·.inFlightSince ((store i).window - expiry))).length) := by
  obtain ⟨old, hold, hrows⟩ := h.rows_settled (Nat.le_refl i) (Nat.le_of_lt hi)
  obtain ⟨new, hnew, _⟩ := h.rows_at (Nat.le_of_lt hi) (j := i + 1) hi
  have hne := (h.distinct i (i + 1) (Nat.lt_succ_self i) hi).symm
  have hstarts := inFlightRows_of_comparable hold (h.comparable (Nat.le_of_lt hi) _)
  have hroll := rollover_eq hne hnew hstarts
  have hact : (w.perform (rollovers store i)).attempt (.rollover (store (i + 1)) (store i)) =
      .ok _ := congrArg (Except.map Prod.fst) hroll
  rw [perform_rollovers_succ, act, hact, hroll, ← h.length_inFlight hi, hrows]
  rfl

/-- A rollover that is repeated finds the rows in place that it writes. -/
theorem ChainOf.rollover_again (h : w.ChainOf store n expiry writes) {i j : Nat} (hij : i < j)
    (hj : j ≤ n) :
    (w.perform (rollovers store j)).rollover (store (i + 1)) (store i) =
      .ok (w.perform (rollovers store j), ((Table.empty.feed writes).requests.filter
        (·.inFlightSince ((store i).window - expiry))).length) := by
  have hi : i < n := Nat.lt_of_lt_of_le hij hj
  obtain ⟨old, hold, hrows⟩ := h.rows_settled (Nat.le_of_lt hij) hj
  obtain ⟨new, hnew, hcarried⟩ := h.rows_settled (i := i + 1) hij hj
  have hne := (h.distinct i (i + 1) (Nat.lt_succ_self i) hi).symm
  have hstarts := inFlightRows_of_comparable hold (h.comparable (Nat.le_of_lt hi) _)
  have hroll := rollover_eq hne hnew hstarts
  have hsame : new.rows.carry (old.rows.inFlight (store i).horizon) = new.rows := by
    rw [hcarried, ← h.carried_settled _ hi, hrows]
    exact Table.carry_carry _ _
  rw [hroll, hsame, KeyedList.insert_of_get? hnew, hrows, h.length_inFlight hi]

theorem ChainOf.inFlight_next (h : w.ChainOf store n expiry writes) {i : Nat} (hi : i < n) :
    (w.perform (rollovers store (i + 1))).inFlight (store (i + 1)) =
      .ok (((Table.empty.feed writes).requests.filter
          (·.inFlightSince ((store i).window - expiry))).filter
        (·.inFlightSince ((store (i + 1)).window - expiry))) := by
  obtain ⟨new, hnew, hrows⟩ := h.rows_settled (Nat.le_refl (i + 1)) hi
  unfold inFlight
  rw [inFlightRows_of_comparable hnew (h.comparable hi _), hrows]
  refine congrArg Except.ok ((Table.map_started_inFlight _ _).trans ?_)
  rw [h.requests_settled hi, h.horizon_eq (i := i + 1) hi]

theorem grouped_of_get? {w : Warehouse} {s : WindowStore} {stored : StoredTable}
    (h : w.tables.get? s.serial = some stored) : w.grouped s = .ok stored.rows.requests := by
  unfold grouped
  rw [rows_eq_ok.mpr ⟨stored, h, rfl⟩]
  rfl

/-- Along a chain of rollovers every store receives the requests of the first one that are in flight
for the store before it, and they are counted; of these its own horizon decides which are in flight.
No store changes once the next one has been reached, and repeating a rollover changes nothing and
gives the same number. -/
theorem requests_along_chain (h : w.ChainOf store n expiry writes) :
    let state := fun i => w.perform (rollovers store i)
    ∃ requests, w.grouped (store 0) = .ok requests ∧
      (∀ i < n,
        let carried := requests.filter (·.inFlightSince ((store i).window - expiry))
        (state i).rollover (store (i + 1)) (store i) = .ok (state (i + 1), carried.length) ∧
          (state (i + 1)).grouped (store (i + 1)) = .ok carried ∧
          (state (i + 1)).inFlight (store (i + 1)) =
            .ok (carried.filter (·.inFlightSince ((store (i + 1)).window - expiry))) ∧
          ∀ j, i < j → j ≤ n →
            (state j).rollover (store (i + 1)) (store i) = .ok (state j, carried.length)) ∧
      ∀ i j, i ≤ j → j ≤ n → (state i).SameViews (state j) (store i) := by
  intro state
  obtain ⟨first, hfirst, hrows⟩ := h.rows_settled (Nat.le_refl 0) (Nat.zero_le n)
  change first.rows = Table.empty.feed writes at hrows
  refine ⟨(Table.empty.feed writes).requests, ?_, ?_, ?_⟩
  · rw [← hrows]
    exact grouped_of_get? hfirst
  · intro i hi carried
    refine ⟨h.rollover_next hi, ?_, h.inFlight_next hi, fun j hij hj => h.rollover_again hij hj⟩
    obtain ⟨new, hnew, hsettled⟩ := h.rows_settled (Nat.le_refl (i + 1)) hi
    rw [grouped_of_get? hnew, hsettled, h.requests_settled hi]
  · intro i j hij hj
    obtain ⟨stored, hget, hsettled⟩ := h.rows_settled (Nat.le_refl i) (hij.trans hj)
    obtain ⟨stored', hget', hsettled'⟩ := h.rows_settled hij hj
    apply sameViews_of_rows
    rw [rows_eq_ok.mpr ⟨stored', hget', hsettled'⟩, rows_eq_ok.mpr ⟨stored, hget, hsettled⟩]

end Chain

section Example

/-- Three stores of their own databases, for windows ten apart; the first has two requests that have
not ended, and one that has. -/
def threeStores : List StoreAction :=
  [.create none 0 15, .create none 10 15, .create none 20 15,
    .put ⟨0, 0, 15⟩ .start "a" (-12) [],
    .put ⟨0, 0, 15⟩ .start "b" 2 [("item_count", .int 7)],
    .put ⟨0, 0, 15⟩ .start "c" 3 [],
    .put ⟨0, 0, 15⟩ .finish "c" 4 []]

def storeAt (i : Nat) : WindowStore := ⟨i, 10 * i, 15⟩

theorem chainOf_threeStores :
    ∃ writes, (empty.perform threeStores).ChainOf storeAt 2 15 writes := by
  have hcreated : ∀ i ≤ 2, ∃ w, (empty.perform (threeStores.take i)).create none (10 * i) 15 =
      .ok (w, storeAt i) ∧ empty.perform threeStores = w.perform (threeStores.drop (i + 1)) ∧
      (0 < i → w.writtenIn i (threeStores.drop (i + 1)) = []) := by
    intro i hi
    have hcases : i = 0 ∨ i = 1 ∨ i = 2 := by omega
    rcases hcases with rfl | rfl | rfl
    all_goals exact ⟨_, rfl, by decide +kernel, by decide +kernel⟩
  have hlive : ∀ i ≤ 2, ∃ writes, (empty.perform threeStores).Lives (storeAt i) writes ∧
      (0 < i → writes = []) := by
    intro i hi
    obtain ⟨w, hcreate, hsame, hwrites⟩ := hcreated i hi
    rw [hsame]
    refine ⟨_, (Lives.created hcreate).perform ?_, ?_⟩
    · have hkept : ∀ a ∈ threeStores, ¬a.Removes (storeAt i).serial := by
        simp [threeStores, StoreAction.Removes]
      exact fun a ha => hkept a (List.mem_of_mem_drop ha)
    · intro hpos
      rw [List.nil_append]
      exact hwrites hpos
  obtain ⟨writes, hfirst, _⟩ := hlive 0 (by decide)
  refine ⟨writes, hfirst, ?_, ?_, ?_, by decide, ?_, ?_⟩
  · intro i hi
    obtain ⟨writes', hfresh, hnil⟩ := hlive (i + 1) hi
    rw [hnil (Nat.succ_pos i)] at hfresh
    exact hfresh
  · intro i j hij _
    exact Nat.ne_of_lt hij
  · intro i _
    rfl
  · intro i hi
    have hcases : i = 0 ∨ i = 1 ∨ i = 2 := by omega
    rcases hcases with rfl | rfl | rfl <;> decide
  · intro i _
    change (10 * i : Int) ≤ 10 * ((i + 1 : Nat) : Int)
    omega

/-- The request that expires in the first window reaches the second one, but is not carried on from
there. -/
theorem expired_request_goes_one_window :
    let w := empty.perform threeStores
    ∃ requests, w.grouped (storeAt 0) = .ok requests ∧
      (w.perform (rollovers storeAt 1)).grouped (storeAt 1) =
        .ok (requests.filter (·.inFlightSince (-15))) ∧
      (requests.filter (·.inFlightSince (-15))).length = 2 ∧
      (w.perform (rollovers storeAt 2)).grouped (storeAt 2) =
        .ok [⟨"b", ⟨none, none, none, none, some 7⟩, some 2, none⟩] := by
  intro w
  obtain ⟨writes, hchain⟩ := chainOf_threeStores
  obtain ⟨requests, hfirst, hcarried, _⟩ := requests_along_chain hchain
  have hgrouped : w.grouped (storeAt 0) = .ok
      [⟨"a", .empty, some (-12), none⟩, ⟨"b", ⟨none, none, none, none, some 7⟩, some 2, none⟩,
        ⟨"c", .empty, some 3, some 4⟩] := by decide +kernel
  have hsame := hgrouped
  rw [hfirst] at hsame
  cases hsame
  refine ⟨_, hgrouped, (hcarried 0 (by decide)).2.1, by decide, ?_⟩
  rw [(hcarried 1 (by decide)).2.1]
  decide

end Example

end Warehouse

end RequestWindows
