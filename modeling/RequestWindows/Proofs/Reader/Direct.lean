import RequestWindows.Proofs.EventLog.Faithful
import RequestWindows.Proofs.Reader.Provenance

namespace RequestWindows

namespace Warehouse

/-- Carry the requests in flight over from the store of the window before, if there is one. -/
def carryInto (w : Warehouse) (store : WindowStore) :
    Option WindowStore → Except StoreError Warehouse
  | none => .ok w
  | some p => (w.rollover store p).map Prod.fst

/-- Build the store of a window from its events, in a database of its own. -/
def rebuild (w : Warehouse) (expiry key : Int) (previous : Option WindowStore)
    (events : List Event) : Except StoreError (Warehouse × WindowStore) :=
  match w.create none key expiry with
  | .error e => .error e
  | .ok (w, store) =>
    match w.carryInto store previous with
    | .error e => .error e
    | .ok w =>
      match w.replay store (events.map some) with
      | (w, _, none) => .ok (w, store)
      | (_, _, some e) => .error e

/-- Build the stores of a window and of `n` windows after it, from the events `group` of each: what
the warehouse is then, and the last of the stores. -/
def rebuildUpTo (i : Interval) (expiry : Int) (group : Int → List Event) (first : Int) :
    Nat → Except StoreError (Warehouse × WindowStore)
  | 0 => empty.rebuild expiry first none (group first)
  | n + 1 =>
    match rebuildUpTo i expiry group first n with
    | .error e => .error e
    | .ok (w, p) =>
      w.rebuild expiry (i.after first (n + 1)) (some p) (group (i.after first (n + 1)))

/-- The rows of the `n`-th window after `first`, computed from the events `group` of all windows. -/
def rowsUpTo (i : Interval) (expiry : Int) (group : Int → List Event) (first : Int) (n : Nat) :
    Except StoreError (List (String × Half × HalfRow)) :=
  match rebuildUpTo i expiry group first n with
  | .error e => .error e
  | .ok (w, store) => w.halfRows store

/-- The rows of a window, computed from all events: those of each window are put into its store,
from the first window with an event on. -/
def directRows (i : Interval) (expiry : Int) (events : List Event) (key : Int) :
    Except StoreError (List (String × Half × HalfRow)) :=
  let first := (events.map (·.window i)).min?.getD key
  rowsUpTo i expiry (Event.ofWindow i events) first (i.countBetween first key)

theorem window_of_create {w w' : Warehouse} {shared : Option String} {window expiry : Int}
    {store : WindowStore} (h : w.create shared window expiry = .ok (w', store)) :
    store.window = window := by
  unfold create at h
  dsimp only at h
  split at h
  · cases h
  · split at h
    · cases h
    · cases h
      rfl

theorem rebuildUpTo_of_error {i : Interval} {expiry first : Int} {group : Int → List Event}
    {e : StoreError} {m n : Nat} (h : rebuildUpTo i expiry group first m = .error e) (hmn : m ≤ n) :
    rebuildUpTo i expiry group first n = .error e := by
  induction hmn with
  | refl => exact h
  | step _ ih => rw [rebuildUpTo, ih]

end Warehouse

namespace EventLog

/-- What can be read of a window is its events: it has a log with them, or neither. -/
def Records (log : EventLog) (key : Int) (events : List Event) : Prop :=
  log.isSealed key = .ok false ∧ events = [] ∨
    log.isSealed key = .ok true ∧ log.read key = .ok ⟨events.map some, true⟩

theorem Records.replayable {log : EventLog} {key : Int} {events : List Event}
    (h : log.Records key events) (hfatal : ∀ e ∈ events, e.isFatal = false) :
    log.Replayable key := by
  rcases h with ⟨hnone, _⟩ | ⟨hsealed, hread⟩
  · exact Or.inl hnone
  · refine Or.inr ⟨hsealed, _, hread, rfl, ?_⟩
    intro e he
    obtain ⟨e', he', heq⟩ := List.mem_map.mp he
    cases heq
    exact hfatal _ he'

theorem Buildable.mono {log : EventLog} {i : Interval} {expiry first : Int} {m n : Nat}
    (h : log.Buildable i expiry first n) (hmn : m ≤ n) : log.Buildable i expiry first m :=
  ⟨fun j hj => h.replayable j (by omega), fun j hj => h.comparable j (by omega)⟩

end EventLog

namespace Correlation

variable {s : Correlation} {log : EventLog} {i : Interval} {expiry first key : Int}
  {group : Int → List Event} {events : List Event} {previous : Option WindowStore} {r : Reader}

theorem carryOver_eq (s : Correlation) (store : WindowStore) (previous : Option WindowStore) :
    s.carryOver store previous =
      (s.warehouse.carryInto store previous).map fun w => { s with warehouse := w } := by
  cases previous with
  | none => rfl
  | some p =>
    change (s.warehouse.rollover store p).map _ =
      ((s.warehouse.rollover store p).map Prod.fst).map _
    cases s.warehouse.rollover store p with
    | error e => rfl
    | ok r => rfl

theorem fill_of_records {store : WindowStore} (h : log.Records store.window events) :
    ∃ c, s.fill log store =
      match s.warehouse.replay store (events.map some) with
      | (w, _, none) => (⟨s.reader, w, c⟩, .ok store)
      | (w, _, some e) => (⟨s.reader, w, c⟩, .error (.store e)) := by
  unfold fill
  rcases h with ⟨hnone, rfl⟩ | ⟨hsealed, hread⟩
  · rw [hnone]
    exact ⟨s.counters, rfl⟩
  · rw [hsealed]
    simp only [hread]
    unfold replay
    rcases s.warehouse.replay store (events.map some) with ⟨w, n, failure | e⟩
    · exact ⟨s.counters.add .malformedEvents n, rfl⟩
    · exact ⟨s.counters, rfl⟩

/-- Building a store from a log and building it from the events in the log are the same. -/
theorem build_and_rebuild (hshared : s.reader.shared = none) (hrec : log.Records key events)
    (previous : Option WindowStore) :
    (∃ w c store, s.build log key previous = (⟨s.reader, w, c⟩, .ok store) ∧
        s.warehouse.rebuild s.reader.expiry key previous events = .ok (w, store)) ∨
      ∃ s' e, s.build log key previous = (s', .error (.store e)) ∧
        s.warehouse.rebuild s.reader.expiry key previous events = .error e := by
  unfold build Warehouse.rebuild
  rw [hshared]
  cases hcreate : s.warehouse.create none key s.reader.expiry with
  | error e => exact Or.inr ⟨s, e, rfl, rfl⟩
  | ok created =>
    obtain ⟨w₁, store⟩ := created
    simp only [carryOver_eq]
    cases w₁.carryInto store previous with
    | error e => exact Or.inr ⟨{ s with warehouse := w₁ }, e, rfl, rfl⟩
    | ok w₂ =>
      rw [← Warehouse.window_of_create hcreate] at hrec
      obtain ⟨c, hfill⟩ := fill_of_records (s := { s with warehouse := w₂ }) hrec
      simp only [Except.map, hfill]
      rcases w₂.replay store (events.map some) with ⟨w, n, failure | e⟩
      · exact Or.inl ⟨w, c, store, rfl, rfl⟩
      · exact Or.inr ⟨⟨s.reader, w, c⟩, e, rfl, rfl⟩

/-- The reading side of a reader that keeps nothing, with the tables of a warehouse. -/
def keepingNothing (r : Reader) (w : Warehouse) : Correlation :=
  ⟨{ r with shared := none, cache := ∅ }, w, .zero⟩

/-- The next store of a run holds the same, whether it is built from a log or from events. -/
theorem rebuild_next {w : Warehouse} {n : Nat} (hw : w.Sound) (he : 0 ≤ r.expiry)
    (hprev : (keepingNothing r w).Follows log (log.opening first) first n previous)
    (hrun : log.Buildable r.interval r.expiry first n)
    (hrec : log.Records (r.interval.after first n) events) :
    ∃ w' store,
      w.rebuild r.expiry (r.interval.after first n) previous events = .ok (w', store) ∧ w'.Sound ∧
        (keepingNothing r w').Holds log (log.opening first) first n store := by
  have hready : (keepingNothing r w).Ready log (log.opening first) first n := by
    refine ⟨?_, ?_, hrun.replayable n (Nat.le_refl n)⟩
    · rintro ⟨name, hname, _⟩
      cases hname
    · intro m hm
      exact hrun.comparable m (by omega)
  obtain ⟨s', store, t, hbuild, hreader, _, hholds, hdb, _, hadd, _⟩ :=
    build_next (s := keepingNothing r w) hw he hprev hready
  rcases build_and_rebuild (s := keepingNothing r w) rfl hrec previous with
    ⟨w', c, store', hbuild', hrebuild⟩ | ⟨s'', e, hbuild', _⟩
  · cases hbuild.symm.trans hbuild'
    refine ⟨w', store, hrebuild, ?_, ⟨hholds.window, hholds.expiry, hholds.table⟩⟩
    exact Warehouse.Sound.of_adds hw hdb hadd
  · cases hbuild.symm.trans hbuild'

theorem rebuildUpTo_of_buildable {n : Nat} (he : 0 ≤ r.expiry)
    (hrun : log.Buildable r.interval r.expiry first n)
    (hrec : ∀ j, j ≤ n →
      log.Records (r.interval.after first j) (group (r.interval.after first j))) :
    ∃ w store, Warehouse.rebuildUpTo r.interval r.expiry group first n = .ok (w, store) ∧
      w.Sound ∧ (keepingNothing r w).Holds log (log.opening first) first n store := by
  induction n with
  | zero =>
    have hbegin : (keepingNothing r .empty).Follows log (log.opening first) first 0 none :=
      ⟨rfl, rfl⟩
    have hnext := rebuild_next Warehouse.sound_empty he hbegin hrun (hrec 0 (Nat.le_refl 0))
    rw [r.interval.after_zero] at hnext
    exact hnext
  | succ n ih =>
    obtain ⟨w, p, hbefore, hw, hholds⟩ :=
      ih (hrun.mono (Nat.le_succ n)) fun j hj => hrec j (Nat.le_succ_of_le hj)
    have hprev : (keepingNothing r w).Follows log (log.opening first) first (n + 1)
        (some p) := ⟨p, rfl, hholds⟩
    rw [Warehouse.rebuildUpTo, hbefore]
    exact rebuild_next hw he hprev hrun (hrec (n + 1) (Nat.le_refl _))

theorem halfRows_of_rows {w : Warehouse} {store : WindowStore} {t : Table}
    (h : w.rows store = .ok t) : w.halfRows store = .ok t.rows := by
  unfold Warehouse.halfRows
  rw [h]
  rfl

/-- Replayed directly, the rows of a window are what the logs say of the run. -/
theorem rowsUpTo_of_buildable {n : Nat} (he : 0 ≤ r.expiry)
    (hrun : log.Buildable r.interval r.expiry first n)
    (hrec : ∀ j, j ≤ n →
      log.Records (r.interval.after first j) (group (r.interval.after first j))) :
    Warehouse.rowsUpTo r.interval r.expiry group first n =
      .ok (log.tableAfter r.interval r.expiry first n).rows := by
  obtain ⟨w, store, hbuild, _, hholds⟩ := rebuildUpTo_of_buildable he hrun hrec
  unfold Warehouse.rowsUpTo
  rw [hbuild]
  exact halfRows_of_rows hholds.rows

section Unbindable

variable {p : WindowStore} {t : StoredTable}

/-- A store cannot be built after another one whose horizon cannot be handed to a statement. -/
theorem build_of_unbindable (log : EventLog) (hs : s.warehouse.Sound) (he : 0 ≤ s.reader.expiry)
    (hfree : ¬s.warehouse.Taken s.reader.shared key)
    (hlive : s.warehouse.tables.get? p.serial = some t) (hhorizon : bindable p.horizon = false) :
    ∃ s', s.build log key (some p) = (s', .error (.store .unbindable)) := by
  obtain ⟨w, hcreate, hadd⟩ := Warehouse.create_of_free hs he hfree
  have hne : s.warehouse.next ≠ p.serial := by
    have hlt := hs.serial_lt hlive
    omega
  have hrows : w.rows p = .ok t.rows :=
    Warehouse.rows_eq_ok.mpr ⟨t, hadd.before hs.get?_next hlive, rfl⟩
  have hroll : w.rollover ⟨s.warehouse.next, key, s.reader.expiry⟩ p = .error .unbindable := by
    unfold Warehouse.rollover Warehouse.inFlightRows
    rw [if_neg hne, hrows]
    change (do
      let starts ← (if ¬bindable p.horizon = true then _ else _ : Except StoreError _)
      _) = _
    rw [if_pos (by rw [hhorizon]; exact Bool.false_ne_true)]
    rfl
  refine ⟨{ s with warehouse := w }, ?_⟩
  unfold build carryOver
  simp only [hcreate, hroll]
  rfl

end Unbindable

section Query

variable {s₀ : Correlation} {sealed : List Int} {oldest : Int} {n : Nat}

theorem query_of_load {α : Type} {s' : Correlation} {result : Except ReaderError WindowStore}
    (h : s₀.load log key = (s', result)) (ask : Warehouse → WindowStore → Except StoreError α) :
    (s₀.query log key ask).2 =
      result.bind fun store => (ask s'.warehouse store).mapError .store := by
  unfold query
  rw [h]
  cases result with
  | error e => rfl
  | ok store => rfl

theorem Fresh.follows (h : s₀.Fresh) (log : EventLog) (first : Int) :
    s₀.Follows log (log.opening first) first 0
      (s₀.reader.cache.get? (first - s₀.reader.interval.millis)) :=
  ⟨KeyedList.get?_eq_none_iff.mpr (h.unkept _), rfl⟩

section Sealed

variable (hfresh : s₀.Fresh) (ho : log.Orderly s₀.reader.interval sealed)
  (haligned : s₀.reader.interval.Aligned key) (hsealed : log.isSealed key = .ok true)
  (hhead : sealed.head?.getD key = oldest)
include hfresh ho haligned hsealed hhead

/-- A reader that keeps nothing builds the whole chain of a window. -/
theorem load_chain {m : Nat} (hchain : s₀.reader.Chained key oldest first m)
    (hrun : log.Buildable s₀.reader.interval s₀.reader.expiry first m) :
    ∃ s' store, s₀.load log key = (s', .ok store) ∧
      s'.warehouse.rows store =
        .ok (log.tableAfter s₀.reader.interval s₀.reader.expiry first m) := by
  have hzero : s₀.reader.interval.after first 0 = first := s₀.reader.interval.after_zero first
  have hready : ∀ j, 0 ≤ j → j ≤ 0 + m → s₀.Ready log (log.opening first) first j := by
    intro j _ hj
    refine ⟨hfresh.free _, ?_, hrun.replayable j (by omega)⟩
    intro l hl
    exact hrun.comparable l (by omega)
  have hbegin := hfresh.follows log first
  have hends := hchain.ends
  rw [← hhead, ← hzero] at hchain
  nth_rewrite 3 [← hzero] at hbegin
  obtain ⟨s', store, hload, hgrows, hkept, hholds, _⟩ :=
    loadSealed_of_ready hfresh.sound ho.keys hchain (hfresh.unkept key) hbegin hready
  rw [← load_of_sealed haligned (hfresh.unkept key) hsealed] at hload
  rw [hends] at hkept
  have hrows := (hholds m store (Nat.zero_le m) (by omega) hkept).rows
  rw [hgrows.alike.interval, hgrows.alike.expiry] at hrows
  exact ⟨s', store, hload, hrows⟩

/-- A sealed window is answered from the run that begins with the oldest one, if all runs that may
be built for it can be built. -/
theorem query_of_buildable (hends : key = s₀.reader.interval.after oldest n)
    (hrun : ∀ first m, oldest ≤ first → key = s₀.reader.interval.after first m →
      log.Buildable s₀.reader.interval s₀.reader.expiry first m) :
    (s₀.query log key Warehouse.halfRows).2 =
      .ok (log.tableAfter s₀.reader.interval s₀.reader.expiry oldest n).rows := by
  have holdest : s₀.reader.interval.Aligned oldest := Interval.aligned_of_after (hends ▸ haligned)
  have hleast (k : Int) (hk : k ∈ sealed) : oldest ≤ k := by
    rw [← hhead]
    exact EventLog.head_le_of_mem ho.keys hk key
  obtain ⟨first, m, hchain⟩ := s₀.reader.exists_chain key oldest
  have hfirst : s₀.reader.interval.Aligned first :=
    Interval.aligned_of_after (hchain.ends ▸ haligned)
  have hinside : oldest ≤ first := by
    have hle : oldest ≤ s₀.reader.interval.after oldest n := Interval.le_after n
    have hcases := hchain.inside
    omega
  obtain ⟨s', store, hload, hrows⟩ := load_chain hfresh ho haligned hsealed hhead hchain
    (hrun first m hinside hchain.ends)
  -- Both runs reach back far enough, so they say the same of the window.
  have hreaches : EventLog.Reaches s₀.reader.interval s₀.reader.expiry sealed first key := by
    apply (hchain.reaches hfresh.expiry haligned holdest (hfresh.unkept _)).imp_left
    intro hle k hk
    have hk := hleast k hk
    omega
  have hsame := EventLog.tableAfter_eq_of_not_overlooks ho hfirst holdest hchain.ends hends
    (EventLog.not_overlooks_of_reaches ho holdest (Or.inl hleast))
    (EventLog.not_overlooks_of_reaches ho hfirst hreaches)
  rw [query_of_load hload]
  change (s'.warehouse.halfRows store).mapError ReaderError.store = _
  rw [halfRows_of_rows hrows, hsame]
  rfl

/-- Where the first horizon cannot be handed to a statement, a window after the oldest one is not
answered. -/
theorem query_of_unbindable (hends : key = s₀.reader.interval.after oldest (n + 1))
    (hreplay : log.Replayable oldest) (hhorizon : bindable (oldest - s₀.reader.expiry) = false)
    (hreach : key - s₀.reader.interval.millis - s₀.reader.expiry < oldest) :
    (s₀.query log key Warehouse.halfRows).2 = .error (.store .unbindable) := by
  have hzero : s₀.reader.interval.after oldest 0 = oldest := s₀.reader.interval.after_zero oldest
  have holdest : s₀.reader.interval.Aligned oldest := Interval.aligned_of_after (hends ▸ haligned)
  have hlt : oldest < key := by
    have hnext : s₀.reader.interval.after oldest 0 < s₀.reader.interval.after oldest (n + 1) :=
      Interval.after_lt (Nat.succ_pos n)
    rw [hzero, ← hends] at hnext
    exact hnext
  -- The expiry is so long that the chain goes back to the oldest window.
  obtain ⟨first, m, hchain⟩ := s₀.reader.exists_chain key oldest
  have hfirst : first = oldest := by
    have hreaches := hchain.reaches hfresh.expiry haligned holdest (hfresh.unkept _)
    have hinside := hchain.inside
    omega
  have hm : m = n + 1 := by
    have hboth := hchain.ends
    rw [hfirst, hends] at hboth
    exact (Interval.after_inj.mp hboth).symm
  rw [hfirst, hm] at hchain
  have hwindows : s₀.reader.chain key oldest = s₀.reader.interval.after oldest 0 ::
      s₀.reader.interval.after oldest 1 ::
        (List.range' 2 n).map (s₀.reader.interval.after oldest) := by
    rw [hchain.eq_run, Interval.run, List.range_eq_range', List.range'_succ, List.range'_succ]
    rfl
  -- The oldest window is built, and nothing can be carried over from it.
  have hready : s₀.Ready log (log.opening oldest) oldest 0 := by
    refine ⟨hfresh.free _, fun l hl => absurd hl (Nat.succ_ne_zero l).symm, ?_⟩
    rw [hzero]
    exact hreplay
  obtain ⟨s₁, p, hstep, hgrows, _, hholds, _⟩ :=
    extend hfresh.sound (hfresh.follows log oldest) (hfresh.unkept _) hready
  obtain ⟨t, hlive, _⟩ := hholds.table
  have hfree : ¬s₁.warehouse.Taken s₁.reader.shared (s₀.reader.interval.after oldest 1) := by
    rw [hgrows.taken (hfresh.unkept _) (Interval.after_ne (Nat.le_refl 1))]
    exact hfresh.free _
  have hp : bindable p.horizon = false := by
    rw [hholds.horizon, hgrows.alike.interval, hgrows.alike.expiry, hzero]
    exact hhorizon
  obtain ⟨s₂, hbuild⟩ :=
    build_of_unbindable log hgrows.sound.warehouse hgrows.sound.expiry hfree hlive hp
  have hload : s₀.load log key = (s₂, .error (.store .unbindable)) := by
    rw [← hhead] at hchain hwindows
    rw [load_of_sealed haligned (hfresh.unkept key) hsealed, loadSealed_eq ho.keys hchain, hwindows,
      hhead, hstep, buildChain, hbuild]
  rw [query_of_load hload]
  rfl

end Sealed

theorem rowsUpTo_of_unbindable (he : 0 ≤ r.expiry) (hreplay : log.Replayable first)
    (hrec : log.Records first (group first))
    (hnext : log.Records (r.interval.after first 1) (group (r.interval.after first 1)))
    (hhorizon : bindable (first - r.expiry) = false) (n : Nat) :
    Warehouse.rowsUpTo r.interval r.expiry group first (n + 1) = .error .unbindable := by
  have hzero : r.interval.after first 0 = first := r.interval.after_zero first
  have hrun : log.Buildable r.interval r.expiry first 0 := by
    refine ⟨?_, fun j hj => absurd hj (Nat.not_lt_zero j)⟩
    intro j hj
    rw [Nat.le_zero.mp hj, hzero]
    exact hreplay
  have hrecords : ∀ j, j ≤ 0 →
      log.Records (r.interval.after first j) (group (r.interval.after first j)) := by
    intro j hj
    rw [Nat.le_zero.mp hj, hzero]
    exact hrec
  obtain ⟨w, p, hbuild, hw, hholds⟩ := rebuildUpTo_of_buildable he hrun hrecords
  obtain ⟨t, hlive, _⟩ := hholds.table
  have hp : bindable p.horizon = false := by
    rw [hholds.horizon]
    change bindable (r.interval.after first 0 - r.expiry) = false
    rw [hzero]
    exact hhorizon
  have hfree : ¬w.Taken none (r.interval.after first 1) := by
    rintro ⟨name, hname, _⟩
    cases hname
  obtain ⟨s', hfails⟩ :=
    build_of_unbindable (s := keepingNothing r w) log hw he hfree hlive hp
  -- The second store cannot be built, and then none after it can.
  have hone : Warehouse.rebuildUpTo r.interval r.expiry group first 1 = .error .unbindable := by
    rw [Warehouse.rebuildUpTo, hbuild]
    rcases build_and_rebuild (s := keepingNothing r w) rfl hnext (some p) with
      ⟨w', c, store, hbuild', _⟩ | ⟨s'', e, hbuild', hrebuild⟩
    · cases hfails.symm.trans hbuild'
    · cases hfails.symm.trans hbuild'
      exact hrebuild
  have hall := Warehouse.rebuildUpTo_of_error hone (Nat.le_add_left 1 n)
  unfold Warehouse.rowsUpTo
  rw [hall]

section Main

variable (hfits : fitsBits 64 key = true)
  (hrec : ∀ k, oldest ≤ k → k ≤ key → log.Records k (group k))
  (hfatal : ∀ k, ∀ e ∈ group k, e.isFatal = false)
include hfits hrec hfatal

theorem buildable_of_records {m : Nat} (hfirst : oldest ≤ first) (hends : key = i.after first m)
    (he : 0 ≤ expiry) (hshort : m = 0 ∨ -(Nat.pow 2 127 : Int) ≤ oldest - expiry) :
    log.Buildable i expiry first m := by
  have hbetween (j : Nat) (hj : j ≤ m) : oldest ≤ i.after first j ∧ i.after first j ≤ key := by
    have hlow : first ≤ i.after first j := Interval.le_after j
    have hhigh : i.after first j ≤ i.after first m := Interval.after_le hj
    omega
  constructor
  · intro j hj
    obtain ⟨hlow, hhigh⟩ := hbetween j hj
    exact (hrec _ hlow hhigh).replayable (hfatal _)
  · intro j hj
    obtain ⟨hlow, hhigh⟩ := hbetween j (Nat.le_of_lt hj)
    have hbound := hshort.resolve_left (by omega)
    have hkey := (fitsBits_iff.mp hfits).2
    have hpow : (Nat.pow 2 (64 - 1) : Int) < (Nat.pow 2 (128 - 1) : Int) := by decide
    have hsame : (Nat.pow 2 (128 - 1) : Int) = (Nat.pow 2 127 : Int) := rfl
    apply comparable_of_fits
    rw [fitsBits_iff]
    constructor
    · omega
    · omega

variable (hfresh : s₀.Fresh) (ho : log.Orderly s₀.reader.interval sealed)
  (haligned : s₀.reader.interval.Aligned key) (hsealed : log.isSealed key = .ok true)
  (hhead : sealed.head?.getD key = oldest) (hends : key = s₀.reader.interval.after oldest n)
  (hzero : 0 ≤ oldest)
include hfresh ho haligned hsealed hhead hends hzero

/-- A reader that nothing has been asked yet answers a sealed window with the rows that are computed
directly from the events, or fails in the same way. -/
theorem query_eq_rowsUpTo :
    (s₀.query log key Warehouse.halfRows).2 =
        (Warehouse.rowsUpTo s₀.reader.interval s₀.reader.expiry group oldest n).mapError .store ∧
      (s₀.reader.expiry ≤ Nat.pow 2 127 → ∃ rows,
        Warehouse.rowsUpTo s₀.reader.interval s₀.reader.expiry group oldest n = .ok rows) := by
  have hrecords (j : Nat) (hj : j ≤ n) : log.Records (s₀.reader.interval.after oldest j)
      (group (s₀.reader.interval.after oldest j)) := by
    apply hrec
    · exact Interval.le_after j
    · rw [hends]
      exact Interval.after_le hj
  by_cases hshort : n = 0 ∨ -(Nat.pow 2 127 : Int) ≤ oldest - s₀.reader.expiry
  · have hdirect := rowsUpTo_of_buildable hfresh.expiry
      (buildable_of_records hfits hrec hfatal (Int.le_refl oldest) hends hfresh.expiry hshort)
      hrecords
    refine ⟨?_, fun _ => ⟨_, hdirect⟩⟩
    rw [hdirect]
    apply query_of_buildable hfresh ho haligned hsealed hhead hends
    intro first m hfirst hends'
    apply buildable_of_records hfits hrec hfatal hfirst hends' hfresh.expiry
    rcases hshort with hn | hshort
    · -- The key is the oldest window, and no run is longer than that.
      left
      rw [hn, s₀.reader.interval.after_zero] at hends
      apply Decidable.byContradiction
      intro hm
      have hlt : s₀.reader.interval.after first 0 < s₀.reader.interval.after first m :=
        Interval.after_lt (Nat.pos_of_ne_zero hm)
      rw [s₀.reader.interval.after_zero] at hlt
      omega
    · exact Or.inr hshort
  -- The first rollover has a horizon that no column holds, here as in the direct computation.
  · obtain ⟨hn, hlong⟩ := not_or.mp hshort
    obtain ⟨m, rfl⟩ := Nat.exists_eq_succ_of_ne_zero hn
    have hkey := (fitsBits_iff.mp hfits).2
    have hpos := s₀.reader.interval.pos
    have hpow : (Nat.pow 2 (64 - 1) : Int) < (Nat.pow 2 127 : Int) := by decide
    have hhorizon : bindable (oldest - s₀.reader.expiry) = false := by
      unfold bindable
      rw [decide_eq_false hlong, Bool.false_and]
    have hfirst := hrecords 0 (Nat.zero_le _)
    rw [s₀.reader.interval.after_zero] at hfirst
    have hreplay := hfirst.replayable (hfatal oldest)
    refine ⟨?_, fun he => absurd hlong (by omega)⟩
    rw [query_of_unbindable hfresh ho haligned hsealed hhead hends hreplay hhorizon (by omega),
      rowsUpTo_of_unbindable hfresh.expiry hreplay hfirst (hrecords 1 (by omega)) hhorizon m]
    rfl

end Main

end Query

end Correlation

end RequestWindows
