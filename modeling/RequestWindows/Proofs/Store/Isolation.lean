import RequestWindows.Proofs.Reader.Sharing
import RequestWindows.Proofs.Store.Frame

/-! The live stores of a run are recorded beside the warehouse, each with what it has been handed
since its creation. The tables are those of the live stores and hold no more than that. -/
namespace RequestWindows

theorem find?_eq_some_of_unique {α : Type} {l : List α} {p : α → Bool} {a : α} (ha : a ∈ l)
    (hp : p a = true) (hunique : ∀ b ∈ l, p b = true → b = a) : l.find? p = some a := by
  cases hfind : l.find? p with
  | none => exact absurd hp (List.find?_eq_none.mp hfind a ha)
  | some b => rw [hunique b (List.mem_of_find?_eq_some hfind) (List.find?_some hfind)]

theorem tableName_injective {j k : Int} (h : tableName j = tableName k) : j = k :=
  sealedName_injective ((String.append_right_inj _).mp h)

/-- What a store is handed: half a request to record, or the starts that are rolled into it. -/
inductive Input
  | put (half : Half) (id : String) (time : Int) (dimensions : List (String × Json))
  | carried (starts : List (String × HalfRow))

/-- The rows that an input makes. What cannot be stored makes none. -/
def Input.rows : Input → List (String × Half × HalfRow)
  | put half id time dimensions => ((rowOf time dimensions).toOption.map (id, half, ·)).toList
  | carried starts => starts.map fun r => (r.1, .start, r.2)

/-- A live store with its database and what it has been handed since its creation. -/
structure Member where
  store : WindowStore
  database : Database
  inputs : List Input

/-- The table that a live store should have. -/
def Member.table (m : Member) : StoredTable :=
  ⟨m.database, m.store.window, Table.empty.feed (m.inputs.flatMap Input.rows)⟩

namespace Warehouse

/-- What an action hands to the live store with serial number `n`. -/
def handed (w : Warehouse) (n : Nat) : StoreAction → List Input
  | .put s half id time dimensions => if s.serial = n then [.put half id time dimensions] else []
  | .rollover target source =>
    if target.serial = n ∧ source.serial ≠ n then
      [.carried ((w.inFlightRows source).toOption.getD [])]
    else []
  | .create .. | .remove _ => []

/-- The store that an action creates, if any. -/
def created (w : Warehouse) : StoreAction → Option Member
  | .create shared window expiry =>
    (w.create shared window expiry).toOption.map fun r => ⟨r.2, w.nextDatabase shared, []⟩
  | .put .. | .rollover .. | .remove _ => none

/-- The rows of the table with a name, if the database has one. -/
def named? (w : Warehouse) (database : Database) (name : String) : Option Table :=
  (w.tables.entries.find? fun b => b.2.database = database && tableName b.2.window = name).map
    (·.2.rows)

end Warehouse

/-- A warehouse with its live stores and with those that have been removed. -/
structure Family where
  warehouse : Warehouse
  live : List Member
  gone : List WindowStore

namespace Family

def act (f : Family) (a : StoreAction) : Family where
  warehouse := (f.warehouse.execute a).1
  live := (f.live.filter fun m => ¬a.Removes m.store.serial).map
      (fun m => { m with inputs := m.inputs ++ f.warehouse.handed m.store.serial a }) ++
    (f.warehouse.created a).toList
  gone := f.gone ++ (f.live.filter fun m => a.Removes m.store.serial).map (·.store)

/-- All stores after some actions, from an empty warehouse on. To look at a store changes nothing,
so there is no action for it. -/
def after (actions : List StoreAction) : Family := actions.foldl act ⟨.empty, [], []⟩

/-- All stores that there have been. -/
def stores (f : Family) : List WindowStore := f.live.map (·.store) ++ f.gone

def liveIn (f : Family) (database : Database) : List Member :=
  f.live.filter (·.database = database)

/-- The tables are those of the live stores, with the rows that these have been handed, no two of
them with one name; the stores that are gone have none, and their serial numbers do not come
again. -/
structure Coherent (f : Family) : Prop where
  sound : f.warehouse.Sound
  serials : (f.live.map (·.store.serial)).Nodup
  listed : ∀ {n t}, f.warehouse.tables.get? n = some t ↔
    ∃ m ∈ f.live, m.store.serial = n ∧ m.table = t
  distinct : ∀ database, f.warehouse.Distinct database
  gone : ∀ s ∈ f.gone, s.serial < f.warehouse.next ∧ f.warehouse.tables.get? s.serial = none

end Family

section Step

variable {w : Warehouse} {a : StoreAction} {n : Nat}

theorem rows_handed (w : Warehouse) (n : Nat) (a : StoreAction) :
    (w.handed n a).flatMap Input.rows = w.written n a := by
  cases a with
  | put s half id time dimensions =>
    rw [Warehouse.handed, Warehouse.written]
    split
    · exact List.append_nil _
    · rfl
  | rollover target source =>
    rw [Warehouse.handed, Warehouse.written]
    split
    · exact List.append_nil _
    · rfl
  | create => rfl
  | remove => rfl

/-- The table of a live store once an action has handed it more. -/
theorem table_handed (w : Warehouse) (m : Member) (n : Nat) (a : StoreAction) :
    Member.table { m with inputs := m.inputs ++ w.handed n a } =
      { m.table with rows := m.table.rows.feed (w.written n a) } := by
  unfold Member.table
  rw [List.flatMap_append, Table.feed_append, rows_handed]

theorem created_of_subject (h : a.subject? = some n) : w.created a = none := by
  cases a with
  | create => cases h
  | put => rfl
  | rollover => rfl
  | remove => rfl

/-- A store that is created has the next serial number and a name that is free. -/
theorem of_mem_created {m : Member} (hw : w.Sound) (h : m ∈ w.created a) :
    m.store.serial = w.next ∧ ¬w.hasTable m.database m.store.window = true := by
  cases hsubject : a.subject? with
  | some k =>
    rw [created_of_subject hsubject] at h
    cases h
  | none =>
    obtain ⟨shared, window, expiry, rfl, ⟨e, hcreate, _⟩ | ⟨hcreate, hfree, _⟩⟩ :=
      Warehouse.act_of_no_subject hw hsubject
    · rw [Warehouse.created, hcreate] at h
      cases h
    · rw [Warehouse.created, hcreate] at h
      cases h
      exact ⟨rfl, hfree⟩

/-- What there is after an action: the tables that there were, with the rows that the action writes,
unless it removes them, and the table of the store that it creates. -/
theorem get?_act_iff (hw : w.Sound) {t' : StoredTable} :
    (w.act a).tables.get? n = some t' ↔
      (∃ t, w.tables.get? n = some t ∧ ¬a.Removes n ∧
        { t with rows := t.rows.feed (w.written n a) } = t') ∨
      ∃ m ∈ w.created a, m.store.serial = n ∧ m.table = t' := by
  by_cases hon : a.subject? = some n
  · rw [created_of_subject hon]
    cases ht : w.tables.get? n with
    | none => simp [Warehouse.act_of_gone ht hon, ht]
    | some t =>
      by_cases hremoves : a.Removes n
      · simp [Warehouse.get?_act_of_removes hremoves, hremoves]
      · simp [(Warehouse.puts_act ht hon hremoves).at, hremoves]
  · -- Nothing is written to this store or removed, but it may be the one that is created.
    have hkept : ¬a.Removes n := fun h => hon (StoreAction.subject?_of_removes h)
    rw [Warehouse.written_of_other hon]
    cases hsubject : a.subject? with
    | some k =>
      have hne : n ≠ k := by
        rintro rfl
        exact hon hsubject
      rw [created_of_subject hsubject, Warehouse.get?_act_of_ne hsubject hne]
      simp [hkept, Table.feed]
    | none =>
      obtain ⟨shared, window, expiry, rfl, ⟨e, hcreate, hsame⟩ | ⟨hcreate, _, hadds⟩⟩ :=
        Warehouse.act_of_no_subject hw hsubject
      · have hnone : w.created (.create shared window expiry) = none := by
          rw [Warehouse.created, hcreate]
          rfl
        rw [hsame, hnone]
        simp [hkept, Table.feed]
      · have hone : w.created (.create shared window expiry) =
            some ⟨⟨w.next, window, expiry⟩, w.nextDatabase shared, []⟩ := by
          rw [Warehouse.created, hcreate]
          rfl
        rw [hadds.get?, hone]
        by_cases hn : n = w.next
        · subst hn
          simp [hw.get?_next, Member.table, Table.feed]
        · simp [hn, Ne.symm hn, hkept, Table.feed]

/-- No action gives a database two tables with one name. -/
theorem distinct_act (hw : w.Sound) (h : ∀ database, w.Distinct database) (a : StoreAction)
    (database : Database) : (w.act a).Distinct database := by
  -- A store that is created shares its name with no table that there is.
  have hfree : ∀ {m : Member} {k : Nat} {t : StoredTable}, m ∈ w.created a →
      w.tables.get? k = some t → t.database = m.table.database → t.window ≠ m.table.window := by
    intro m k t hm ht hdatabase hwindow
    exact (of_mem_created hw hm).2 (Warehouse.hasTable_iff.mpr ⟨k, t, ht, hdatabase, hwindow⟩)
  constructor
  intro m n t u ht hu hdatabase hdatabase' hwindow
  obtain ⟨t₀, ht₀, _, rfl⟩ | ⟨x, hx, rfl, rfl⟩ := (get?_act_iff hw).mp ht
  · obtain ⟨u₀, hu₀, _, rfl⟩ | ⟨y, hy, rfl, rfl⟩ := (get?_act_iff hw).mp hu
    · exact (h database).serial_eq ht₀ hu₀ hdatabase hdatabase' hwindow
    · have hother := hfree hy ht₀ (hdatabase.trans hdatabase'.symm)
      exact absurd hwindow hother
  · obtain ⟨u₀, hu₀, _, rfl⟩ | ⟨y, hy, rfl, rfl⟩ := (get?_act_iff hw).mp hu
    · have hother := hfree hx hu₀ (hdatabase'.trans hdatabase.symm)
      exact absurd hwindow.symm hother
    · rw [(of_mem_created hw hx).1, (of_mem_created hw hy).1]

end Step

namespace Family

section Coherent

variable {f : Family} {a : StoreAction} {m : Member} {s : WindowStore}

theorem warehouse_act (f : Family) (a : StoreAction) :
    (f.act a).warehouse = f.warehouse.act a :=
  Warehouse.execute_fst f.warehouse a

theorem mem_live_act :
    m ∈ (f.act a).live ↔
      (∃ m' ∈ f.live, ¬a.Removes m'.store.serial ∧
        { m' with inputs := m'.inputs ++ f.warehouse.handed m'.store.serial a } = m) ∨
      m ∈ f.warehouse.created a := by
  simp [act, and_assoc]

theorem mem_gone_act :
    s ∈ (f.act a).gone ↔
      s ∈ f.gone ∨ ∃ m ∈ f.live, a.Removes m.store.serial ∧ m.store = s := by
  simp [act, and_assoc]

theorem Coherent.get?_of_live (h : f.Coherent) (hm : m ∈ f.live) :
    f.warehouse.tables.get? m.store.serial = some m.table :=
  h.listed.mpr ⟨m, hm, rfl, rfl⟩

theorem Coherent.serial_lt_of_live (h : f.Coherent) (hm : m ∈ f.live) :
    m.store.serial < f.warehouse.next :=
  h.sound.serial_lt (h.get?_of_live hm)

/-- The serial number of a store that is created is a new one. -/
theorem Coherent.serials_act (h : f.Coherent) (a : StoreAction) :
    ((f.act a).live.map (·.store.serial)).Nodup := by
  unfold Family.act
  rw [List.map_append, List.map_map, List.nodup_append]
  refine ⟨h.serials.sublist (List.filter_sublist.map _), ?_, ?_⟩
  · cases f.warehouse.created a with
    | none => exact .nil
    | some m => exact List.nodup_singleton _
  · intro n hold k hnew
    obtain ⟨m, hm, rfl⟩ := List.mem_map.mp hold
    obtain ⟨m', hm', rfl⟩ := List.mem_map.mp hnew
    -- All serial numbers that have been given are below the next one.
    have hlt := h.serial_lt_of_live (List.mem_of_mem_filter hm)
    have hnext := (of_mem_created h.sound (Option.mem_toList.mp hm')).1
    rw [hnext]
    exact Nat.ne_of_lt hlt

theorem Coherent.listed_act (h : f.Coherent) (a : StoreAction) {n : Nat} {t : StoredTable} :
    (f.act a).warehouse.tables.get? n = some t ↔
      ∃ m ∈ (f.act a).live, m.store.serial = n ∧ m.table = t := by
  rw [warehouse_act, get?_act_iff h.sound]
  constructor
  · rintro (⟨t, ht, hkept, rfl⟩ | ⟨m, hm, hserial, htable⟩)
    · obtain ⟨m, hm, rfl, rfl⟩ := h.listed.mp ht
      exact ⟨_, mem_live_act.mpr (.inl ⟨m, hm, hkept, rfl⟩), rfl, table_handed _ m _ a⟩
    · exact ⟨m, mem_live_act.mpr (.inr hm), hserial, htable⟩
  · rintro ⟨m, hm, rfl, rfl⟩
    obtain ⟨m₀, hm₀, hkept, rfl⟩ | hm := mem_live_act.mp hm
    · exact .inl ⟨m₀.table, h.get?_of_live hm₀, hkept, (table_handed _ m₀ _ a).symm⟩
    · exact .inr ⟨m, hm, rfl, rfl⟩

/-- A serial number that a removed store has had is not given to another one. -/
theorem Coherent.gone_act (h : f.Coherent) (a : StoreAction) (hs : s ∈ (f.act a).gone) :
    s.serial < (f.act a).warehouse.next ∧ (f.act a).warehouse.tables.get? s.serial = none := by
  rw [warehouse_act]
  have hgone : s.serial < f.warehouse.next ∧
      (a.Removes s.serial ∨ f.warehouse.tables.get? s.serial = none) := by
    obtain hold | ⟨m, hm, hremoves, rfl⟩ := mem_gone_act.mp hs
    · exact ⟨(h.gone s hold).1, .inr (h.gone s hold).2⟩
    · exact ⟨h.serial_lt_of_live hm, .inl hremoves⟩
  obtain ⟨hlt, hnone⟩ := hgone
  refine ⟨Nat.lt_of_lt_of_le hlt (Warehouse.next_le_act h.sound a), ?_⟩
  refine Option.eq_none_iff_forall_not_mem.mpr fun t ht => ?_
  -- A table under that number would be one that has been kept, or one with the next number.
  obtain ⟨u, hu, hkept, _⟩ | ⟨m, hm, hserial, _⟩ := (get?_act_iff h.sound).mp ht
  · rcases hnone with hremoves | hnone
    · exact hkept hremoves
    · rw [hnone] at hu
      cases hu
  · rw [(of_mem_created h.sound hm).1] at hserial
    omega

theorem Coherent.act (h : f.Coherent) (a : StoreAction) : (f.act a).Coherent where
  sound := by
    rw [warehouse_act]
    exact h.sound.act a
  serials := h.serials_act a
  listed := h.listed_act a
  distinct database := by
    rw [warehouse_act]
    exact distinct_act h.sound h.distinct a database
  gone _ hs := h.gone_act a hs

theorem coherent_after (actions : List StoreAction) : (after actions).Coherent := by
  have hrun : ∀ f : Family, f.Coherent → (actions.foldl Family.act f).Coherent := by
    induction actions with
    | nil => exact fun f h => h
    | cons a rest ih => exact fun f h => ih (f.act a) (h.act a)
  apply hrun
  constructor
  · exact Warehouse.sound_empty
  · exact .nil
  · intro n t
    simp [Warehouse.empty]
  · intro database
    constructor
    intro m n t u ht
    cases ht
  · intro s hs
    cases hs

theorem Coherent.rows_of_live (h : f.Coherent) (hm : m ∈ f.live) :
    f.warehouse.rows m.store = .ok m.table.rows :=
  Warehouse.rows_eq_ok.mpr ⟨m.table, h.get?_of_live hm, rfl⟩

theorem Coherent.hasTable_iff (h : f.Coherent) {database : Database} {window : Int} :
    f.warehouse.hasTable database window = true ↔
      ∃ m ∈ f.liveIn database, m.store.window = window := by
  rw [Warehouse.hasTable_iff]
  constructor
  · rintro ⟨n, t, ht, hdatabase, hwindow⟩
    obtain ⟨m, hm, rfl, rfl⟩ := h.listed.mp ht
    exact ⟨m, List.mem_filter.mpr ⟨hm, decide_eq_true hdatabase⟩, hwindow⟩
  · rintro ⟨m, hm, hwindow⟩
    obtain ⟨hm, hdatabase⟩ := List.mem_filter.mp hm
    exact ⟨_, _, h.get?_of_live hm, of_decide_eq_true hdatabase, hwindow⟩

/-- The tables in a database are those of its live stores. -/
theorem Coherent.tableNames_perm (h : f.Coherent) (database : Database) :
    (f.warehouse.tableNames database).Nodup ∧ (f.warehouse.tableNames database).Perm
      ((f.liveIn database).map fun m => tableName m.store.window) := by
  have hwindows : ((f.liveIn database).map (·.store.window)).Nodup := by
    apply List.Nodup.map_on _ ((List.Nodup.of_map _ h.serials).filter _)
    intro m hm m' hm' hwindow
    obtain ⟨hm, hdatabase⟩ := List.mem_filter.mp hm
    obtain ⟨hm', hdatabase'⟩ := List.mem_filter.mp hm'
    have hserial : m.store.serial = m'.store.serial :=
      (h.distinct database).serial_eq (h.get?_of_live hm) (h.get?_of_live hm')
        (of_decide_eq_true hdatabase) (of_decide_eq_true hdatabase') hwindow
    exact List.inj_on_of_nodup_map h.serials hm hm' hserial
  have hperm := (h.distinct database).tableNames_perm hwindows fun k => by
    rw [h.hasTable_iff, List.mem_map]
  refine ⟨hperm.nodup_iff.mpr (hwindows.map fun _ _ => tableName_injective), ?_⟩
  rw [List.map_map] at hperm
  exact hperm

/-- The name of a live store's table leads to no other table. -/
theorem Coherent.named?_of_live (h : f.Coherent) (hm : m ∈ f.live) :
    f.warehouse.named? m.database (tableName m.store.window) = some m.table.rows := by
  have hentry : (m.store.serial, m.table) ∈ f.warehouse.tables.entries :=
    KeyedList.mem_entries_iff.mpr (h.get?_of_live hm)
  unfold Warehouse.named?
  rw [find?_eq_some_of_unique hentry (by simp [Member.table])]
  · rfl
  · rintro ⟨n, t⟩ hb hmatch
    rw [Bool.and_eq_true, decide_eq_true_eq, decide_eq_true_eq] at hmatch
    have ht : f.warehouse.tables.get? n = some t := KeyedList.mem_entries_iff.mp hb
    obtain rfl := (h.distinct m.database).serial_eq ht (h.get?_of_live hm) hmatch.1 rfl
      (tableName_injective hmatch.2)
    rw [h.get?_of_live hm] at ht
    cases ht
    rfl

theorem Coherent.create_fails_iff (h : f.Coherent) (shared : Option String) (window : Int)
    {expiry : Int} (he : 0 ≤ expiry) :
    (f.warehouse.create shared window expiry = .error .tableExists ↔
      ∃ m ∈ f.liveIn (f.warehouse.nextDatabase shared), m.store.window = window) ∧
    ∀ e, f.warehouse.create shared window expiry = .error e → e = .tableExists := by
  rw [← h.hasTable_iff, Warehouse.hasTable_nextDatabase h.sound]
  by_cases htaken : f.warehouse.Taken shared window
  · rw [Warehouse.create_of_taken h.sound he htaken]
    exact ⟨iff_of_true rfl htaken, fun e heq => (Except.error.inj heq).symm⟩
  · obtain ⟨w', hcreate, _⟩ := Warehouse.create_of_free h.sound he htaken
    rw [hcreate]
    refine ⟨iff_of_false ?_ htaken, ?_⟩
    · intro hfailed
      cases hfailed
    · intro e hfailed
      cases hfailed

end Coherent

/-- Whatever has been done, in whatever order, an action changes no store but the one it is on, also
if it fails. The answers of a live store are a function of its window, its expiry and what it has
been handed; the tables of a database are those of its live stores, found by name as well; a window
is refused a store if it has a live one in the same database, and for no other reason; and a store
that has been removed refuses every statement. -/
theorem stores_isolated (actions : List StoreAction) :
    let f := after actions
    let w := f.warehouse
    (∀ a : StoreAction, ∀ s ∈ f.stores, a.subject? ≠ some s.serial →
      (w.execute a).1.rows s = w.rows s ∧ (w.execute a).1.views s = w.views s) ∧
    (∀ actions' : List StoreAction, ∀ m ∈ f.live, ∀ m' ∈ (after actions').live,
      m'.store.window = m.store.window → m'.store.expiry = m.store.expiry → m'.inputs = m.inputs →
        (after actions').warehouse.views m'.store = w.views m.store) ∧
    (∀ database, (w.tableNames database).Nodup ∧
      (w.tableNames database).Perm ((f.liveIn database).map fun m => tableName m.store.window)) ∧
    (∀ m ∈ f.live, w.rows m.store = .ok m.table.rows ∧
      w.named? m.database (tableName m.store.window) = some m.table.rows) ∧
    (∀ shared window expiry, 0 ≤ expiry →
      (w.create shared window expiry = .error .tableExists ↔
        ∃ m ∈ f.liveIn (w.nextDatabase shared), m.store.window = window) ∧
      ∀ e, w.create shared window expiry = .error e → e = .tableExists) ∧
    ∀ s ∈ f.gone, w.Refuses s := by
  intro f w
  have h : f.Coherent := coherent_after actions
  refine ⟨?_, ?_, h.tableNames_perm, ?_, ?_, ?_⟩
  · intro a s hs ha
    have hlt : s.serial < w.next := by
      rcases List.mem_append.mp hs with hlive | hgone
      · obtain ⟨m, hm, rfl⟩ := List.mem_map.mp hlive
        exact h.serial_lt_of_live hm
      · exact (h.gone s hgone).1
    exact Warehouse.views_execute_of_other h.sound hlt ha
  · intro actions' m hm m' hm' hwindow hexpiry hinputs
    have hrows : (after actions').warehouse.rows m'.store = w.rows m.store := by
      rw [(coherent_after actions').rows_of_live hm', h.rows_of_live hm]
      unfold Member.table
      rw [hinputs]
    have hhorizon : m'.store.horizon = m.store.horizon := by
      rw [WindowStore.horizon, WindowStore.horizon, hwindow, hexpiry]
    exact Warehouse.views_eq_of_rows hrows hhorizon
  · exact fun m hm => ⟨h.rows_of_live hm, h.named?_of_live hm⟩
  · exact fun shared window expiry he => h.create_fails_iff shared window he
  · exact fun s hs => Warehouse.refuses_of_gone (h.gone s hs).2

section Example

/-- A store is created in a shared database, written to and removed, and then another one under its
name. -/
def createdAgain : List StoreAction :=
  [.create (some "memory") 10 15, .put ⟨0, 10, 15⟩ .start "a" 12 [], .remove ⟨0, 10, 15⟩,
    .create (some "memory") 10 15]

/-- The old store cannot write to the table that now has its name, the new store sees nothing of it,
and there is no third one. -/
theorem old_store_is_refused :
    let w := (after createdAgain).warehouse
    let old : WindowStore := ⟨0, 10, 15⟩
    let new : WindowStore := ⟨1, 10, 15⟩
    let late : StoreAction := .put old .finish "a" 14 []
    w.execute late = (w, some (.removed 10)) ∧ (w.execute late).1.views new = w.views new ∧
      w.named? (.shared "memory") "http_rq_10" = some .empty ∧
      w.create (some "memory") 10 15 = .error .tableExists := by
  intro w old new late
  have hlive : (after createdAgain).live = [⟨new, .shared "memory", []⟩] := rfl
  have hgone : (after createdAgain).gone = [old] := rfl
  obtain ⟨hother, _, _, hnamed, hcreate, hrefuses⟩ := stores_isolated createdAgain
  have hnew : new ∈ (after createdAgain).stores := by
    rw [stores, hlive]
    exact .head _
  refine ⟨?_, (hother late new hnew (by decide)).2, ?_, ?_⟩
  · have hold := hrefuses old (by rw [hgone]; exact .head _)
    exact hold.put .finish "a" 14 [] [] rfl
  · exact (hnamed ⟨new, .shared "memory", []⟩ (by rw [hlive]; exact .head _)).2
  · refine ((hcreate (some "memory") 10 15 (by decide)).1).mpr ?_
    refine ⟨⟨new, .shared "memory", []⟩, ?_, rfl⟩
    rw [liveIn, hlive]
    exact .head _

end Example

end Family

end RequestWindows
