import RequestWindows.Proofs.Collection.Bindings
import RequestWindows.Store.Basic

namespace RequestWindows

namespace Warehouse

/-- `w'` is `w` with the table of serial number `n` put in the place of what `w` has there. -/
structure Puts (w : Warehouse) (n : Nat) (t : StoredTable) (w' : Warehouse) : Prop where
  next : w'.next = w.next
  get? : ∀ m, w'.tables.get? m = if m = n then some t else w.tables.get? m

theorem Puts.self {w : Warehouse} {n : Nat} {t : StoredTable} (h : w.tables.get? n = some t) :
    w.Puts n t w := by
  refine ⟨rfl, fun m => ?_⟩
  by_cases hm : m = n
  · rw [if_pos hm, hm, h]
  · rw [if_neg hm]

theorem Puts.at {w w' : Warehouse} {n : Nat} {t : StoredTable} (h : w.Puts n t w') :
    w'.tables.get? n = some t := by
  rw [h.get?, if_pos rfl]

theorem Puts.trans {w w' w'' : Warehouse} {n : Nat} {t t' : StoredTable} (h : w.Puts n t w')
    (h' : w'.Puts n t' w'') : w.Puts n t' w'' := by
  refine ⟨h'.next.trans h.next, fun m => ?_⟩
  rw [h'.get?, h.get?]
  split <;> rfl

/-- `w'` is `w` with one more table, under the next serial number. -/
structure Adds (w : Warehouse) (t : StoredTable) (w' : Warehouse) : Prop where
  next : w'.next = w.next + 1
  get? : ∀ m, w'.tables.get? m = if m = w.next then some t else w.tables.get? m

theorem Adds.at {w w' : Warehouse} {t : StoredTable} (h : w.Adds t w') :
    w'.tables.get? w.next = some t := by
  rw [h.get?, if_pos rfl]

theorem Adds.before {w w' : Warehouse} {t u : StoredTable} {n : Nat} (h : w.Adds t w')
    (hw : w.tables.get? w.next = none) (hn : w.tables.get? n = some u) :
    w'.tables.get? n = some u := by
  rw [h.get?, if_neg, hn]
  rintro rfl
  rw [hw] at hn
  cases hn

theorem Adds.puts {w w' w'' : Warehouse} {t t' : StoredTable} (h : w.Adds t w')
    (h' : w'.Puts w.next t' w'') : w.Adds t' w'' := by
  refine ⟨h'.next.trans h.next, fun m => ?_⟩
  rw [h'.get?, h.get?]
  split <;> rfl

theorem table_eq_ok {w : Warehouse} {s : WindowStore} {t : StoredTable} :
    w.table s = .ok t ↔ w.tables.get? s.serial = some t := by
  unfold table
  cases w.tables.get? s.serial <;> simp

theorem rows_eq_ok {w : Warehouse} {s : WindowStore} {t : Table} :
    w.rows s = .ok t ↔ ∃ stored, w.tables.get? s.serial = some stored ∧ stored.rows = t := by
  unfold rows table
  cases w.tables.get? s.serial <;> simp [Except.map]

/-- The views of a store depend on its rows and its horizon only. -/
theorem views_congr {w w' : Warehouse} {s s' : WindowStore} (hrows : w.rows s = w'.rows s')
    (hhorizon : s.horizon = s'.horizon) :
    w.grouped s = w'.grouped s' ∧ w.latencies s = w'.latencies s' ∧
      w.aggregates s = w'.aggregates s' ∧ w.inFlight s = w'.inFlight s' := by
  have hlatencies : w.latencies s = w'.latencies s' := by
    unfold latencies
    rw [hrows]
  refine ⟨?_, hlatencies, ?_, ?_⟩
  · unfold grouped
    rw [hrows]
  · unfold aggregates
    rw [hlatencies]
  · unfold inFlight inFlightRows
    rw [hrows, hhorizon]

theorem modify_of_live {w : Warehouse} {s : WindowStore} {t : StoredTable}
    (h : w.tables.get? s.serial = some t) (f : Table → Table) :
    ∃ w', w.modify s f = .ok w' ∧ w.Puts s.serial { t with rows := f t.rows } w' := by
  refine ⟨⟨w.tables.insert s.serial { t with rows := f t.rows }, w.next⟩, ?_, rfl, fun m => ?_⟩
  · unfold modify
    rw [table_eq_ok.mpr h]
    rfl
  · exact KeyedList.get?_insert w.tables s.serial m _

/-- Serial numbers, and the databases named after them, are below the next one. -/
structure Sound (w : Warehouse) : Prop where
  serial_lt : ∀ {n t}, w.tables.get? n = some t → n < w.next
  owner_lt : ∀ {n t m}, w.tables.get? n = some t → t.database = .own m → m < w.next

theorem sound_empty : empty.Sound := by
  constructor
  · intro n t h
    cases h
  · intro n t m h
    cases h

theorem Sound.get?_next {w : Warehouse} (hw : w.Sound) : w.tables.get? w.next = none := by
  cases h : w.tables.get? w.next with
  | none => rfl
  | some t =>
    have := hw.serial_lt h
    omega

theorem hasTable_iff {w : Warehouse} {database : Database} {window : Int} :
    w.hasTable database window = true ↔
      ∃ n t, w.tables.get? n = some t ∧ t.database = database ∧ t.window = window := by
  unfold hasTable
  rw [List.any_eq_true]
  constructor
  · rintro ⟨⟨n, t⟩, hm, ht⟩
    rw [Bool.and_eq_true, decide_eq_true_eq, decide_eq_true_eq] at ht
    exact ⟨n, t, KeyedList.mem_entries_iff.mp hm, ht⟩
  · rintro ⟨n, t, hg, ht⟩
    refine ⟨(n, t), KeyedList.mem_entries_iff.mpr hg, ?_⟩
    rw [Bool.and_eq_true, decide_eq_true_eq, decide_eq_true_eq]
    exact ht

/-- Whether a database that stores share has a table for a window already. -/
def Taken (w : Warehouse) (shared : Option String) (window : Int) : Prop :=
  ∃ name, shared = some name ∧ w.hasTable (.shared name) window = true

/-- The database of the next store. -/
def nextDatabase (w : Warehouse) (shared : Option String) : Database :=
  (shared.map .shared).getD (.own w.next)

theorem hasTable_nextDatabase {w : Warehouse} (hw : w.Sound) (shared : Option String)
    (window : Int) :
    w.hasTable (w.nextDatabase shared) window = true ↔ w.Taken shared window := by
  cases shared with
  | some name =>
    constructor
    · intro h
      exact ⟨name, rfl, h⟩
    · rintro ⟨other, he, h⟩
      rw [← Option.some.inj he] at h
      exact h
  | none =>
    constructor
    · intro h
      obtain ⟨n, t, hg, hdb, _⟩ := hasTable_iff.mp h
      have := hw.owner_lt hg hdb
      omega
    · rintro ⟨_, h, _⟩
      cases h

section Create

variable {w : Warehouse} {shared : Option String} {window expiry : Int}

theorem create_of_taken (hw : w.Sound) (he : 0 ≤ expiry) (h : w.Taken shared window) :
    w.create shared window expiry = .error .tableExists := by
  have hhas := (hasTable_nextDatabase hw shared window).mpr h
  unfold create
  rw [if_neg (by omega)]
  exact if_pos hhas

/-- A store that no table stands in the way of is created with an empty table and the next serial
number. -/
theorem create_of_free (hw : w.Sound) (he : 0 ≤ expiry) (h : ¬w.Taken shared window) :
    ∃ w', w.create shared window expiry = .ok (w', ⟨w.next, window, expiry⟩) ∧
      w.Adds ⟨w.nextDatabase shared, window, .empty⟩ w' := by
  have hfree : ¬w.hasTable (w.nextDatabase shared) window = true :=
    fun hhas => h ((hasTable_nextDatabase hw shared window).mp hhas)
  refine ⟨⟨w.tables.insert w.next ⟨w.nextDatabase shared, window, .empty⟩, w.next + 1⟩,
    ?_, rfl, fun n => KeyedList.get?_insert ..⟩
  unfold create
  rw [if_neg (by omega)]
  exact if_neg hfree

theorem Sound.of_adds {w' : Warehouse} {t : StoredTable} (hw : w.Sound)
    (hdb : t.database = w.nextDatabase shared) (h : w.Adds t w') : w'.Sound := by
  constructor
  · intro n u hn
    rw [h.get?] at hn
    rw [h.next]
    split at hn
    · omega
    · have := hw.serial_lt hn
      omega
  · intro n u m hn hm
    rw [h.get?] at hn
    rw [h.next]
    split at hn
    · cases hn
      rw [hdb] at hm
      unfold nextDatabase at hm
      cases shared with
      | none => cases hm; omega
      | some name => cases hm
    · have := hw.owner_lt hn hm
      omega

end Create

end Warehouse

/-- Whether the starts of a table can be compared with a horizon. -/
def Table.Comparable (t : Table) (horizon : Int) : Prop :=
  bindable horizon = true ∧ ¬(needsUnsigned horizon = true ∧ t.pending ≠ [])

theorem comparable_of_fits {t : Table} {horizon : Int} (h : fitsBits 128 horizon = true) :
    t.Comparable horizon := by
  have hbounds := fitsBits_iff.mp h
  have hwider : (Nat.pow 2 (128 - 1) : Int) < (Nat.pow 2 128 : Int) := by decide
  constructor
  · unfold bindable
    rw [Bool.and_eq_true, decide_eq_true_eq, decide_eq_true_eq]
    exact ⟨hbounds.1, by omega⟩
  · intro hn
    have hlow : (Nat.pow 2 127 : Int) ≤ horizon := of_decide_eq_true hn.1
    have hsame : (Nat.pow 2 (128 - 1) : Int) = (Nat.pow 2 127 : Int) := rfl
    omega

theorem fitsBits_between {x y z : Int} (hx : fitsBits 64 x = true) (hz : fitsBits 64 z = true)
    (hxy : x ≤ y) (hyz : y ≤ z) : fitsBits 64 y = true := by
  have hlow := fitsBits_iff.mp hx
  have hhigh := fitsBits_iff.mp hz
  exact fitsBits_iff.mpr ⟨by omega, by omega⟩

theorem comparable_sub {t : Table} {k e : Int} (hk : fitsBits 64 k = true)
    (he : fitsBits 64 e = true) : t.Comparable (k - e) := by
  have hkey := fitsBits_iff.mp hk
  have hexpiry := fitsBits_iff.mp he
  have hpow : (Nat.pow 2 (128 - 1) : Int) = 2 * (Nat.pow 2 126 : Int) := by decide
  have hsmall : (Nat.pow 2 (64 - 1) : Int) < (Nat.pow 2 126 : Int) := by decide
  apply comparable_of_fits
  rw [fitsBits_iff]
  constructor
  · omega
  · omega

namespace Warehouse

section Rollover

variable {w : Warehouse} {target source : WindowStore} {old new : StoredTable}

theorem inFlightRows_of_comparable (h : w.tables.get? source.serial = some old)
    (hc : old.rows.Comparable source.horizon) :
    w.inFlightRows source = .ok (old.rows.inFlight source.horizon) := by
  have hrows : w.rows source = .ok old.rows := rows_eq_ok.mpr ⟨old, h, rfl⟩
  unfold inFlightRows
  rw [hrows]
  change (if ¬bindable source.horizon = true then _ else
    if needsUnsigned source.horizon = true ∧ old.rows.pending ≠ [] then _ else _) = _
  rw [if_neg (not_not_intro hc.1), if_neg hc.2]
  rfl

theorem inFlightRows_of_not_comparable (h : w.tables.get? source.serial = some old)
    (hc : ¬old.rows.Comparable source.horizon) : ∃ e, w.inFlightRows source = .error e := by
  have hrows : w.rows source = .ok old.rows := rows_eq_ok.mpr ⟨old, h, rfl⟩
  unfold inFlightRows
  rw [hrows]
  by_cases hb : bindable source.horizon = true
  · have hu : needsUnsigned source.horizon = true ∧ old.rows.pending ≠ [] :=
      Decidable.byContradiction fun hn => hc ⟨hb, hn⟩
    refine ⟨.incomparable, ?_⟩
    change (if ¬bindable source.horizon = true then _ else
      if needsUnsigned source.horizon = true ∧ old.rows.pending ≠ [] then _ else _) = _
    rw [if_neg (not_not_intro hb), if_pos hu]
    rfl
  · refine ⟨.unbindable, ?_⟩
    change (if ¬bindable source.horizon = true then _ else _) = _
    rw [if_pos hb]
    rfl

variable (target) in
/-- Requests in flight are carried over to another live store if they can be found at all. -/
theorem rollover_of_comparable (hne : target.serial ≠ source.serial)
    (htarget : w.tables.get? target.serial = some new)
    (hsource : w.tables.get? source.serial = some old)
    (hc : old.rows.Comparable source.horizon) :
    ∃ w' n, w.rollover target source = .ok (w', n) ∧
      w.Puts target.serial
        { new with rows := new.rows.carry (old.rows.inFlight source.horizon) } w' := by
  have hstarts := inFlightRows_of_comparable hsource hc
  by_cases hnil : old.rows.inFlight source.horizon = []
  · refine ⟨w, 0, ?_, ?_⟩
    · unfold rollover
      rw [if_neg hne, hstarts, hnil]
      rfl
    · rw [hnil]
      exact Puts.self htarget
  · obtain ⟨w', hmod, hp⟩ := modify_of_live htarget
      (·.carry (old.rows.inFlight source.horizon))
    refine ⟨w', (old.rows.inFlight source.horizon).length, ?_, hp⟩
    unfold rollover
    rw [if_neg hne, hstarts]
    change (if old.rows.inFlight source.horizon = [] then _ else _) = _
    rw [if_neg hnil, hmod]
    rfl

variable (target) in
theorem rollover_of_not_comparable (hsource : w.tables.get? source.serial = some old)
    (hc : ¬old.rows.Comparable source.horizon) : ∃ e, w.rollover target source = .error e := by
  obtain ⟨e, he⟩ := inFlightRows_of_not_comparable hsource hc
  unfold rollover
  split
  · exact ⟨_, rfl⟩
  · rw [he]
    exact ⟨e, rfl⟩

end Rollover

theorem get?_foldl_remove (stores : List WindowStore) (w : Warehouse) (n : Nat) :
    (stores.foldl remove w).tables.get? n =
      if n ∈ stores.map (·.serial) then none else w.tables.get? n := by
  induction stores generalizing w with
  | nil => simp
  | cons s rest ih =>
    rw [List.foldl_cons, ih, remove, KeyedList.get?_erase]
    by_cases hn : n = s.serial <;> simp [hn]

theorem next_foldl_remove (stores : List WindowStore) (w : Warehouse) :
    (stores.foldl remove w).next = w.next := by
  induction stores generalizing w with
  | nil => rfl
  | cons s rest ih => rw [List.foldl_cons, ih, remove]

theorem Sound.foldl_remove {w : Warehouse} (hw : w.Sound) (stores : List WindowStore) :
    (stores.foldl remove w).Sound := by
  constructor
  · intro n t h
    rw [get?_foldl_remove] at h
    rw [next_foldl_remove]
    split at h
    · cases h
    · exact hw.serial_lt h
  · intro n t m h hm
    rw [get?_foldl_remove] at h
    rw [next_foldl_remove]
    split at h
    · cases h
    · exact hw.owner_lt h hm

end Warehouse

end RequestWindows
