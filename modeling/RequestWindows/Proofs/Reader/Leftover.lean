import RequestWindows.Proofs.EventLog.Scan
import RequestWindows.Proofs.Reader.Service

/-! A store that cannot be filled is not kept, but its table is there by then, and nothing ever
removes it. Such a table is in the way of its window from then on. -/
namespace RequestWindows

namespace Reader

/-- A chain that was built up to some window is taken up again at the next one, as long as the store
of the last window built is kept. -/
theorem chain_resumed {r r' : Reader} (halike : r.Alike r') {key oldest k : Int}
    {built rest : List Int} (hchain : r.chain key oldest = built ++ k :: rest)
    (hunkept : ∀ j ∈ k :: rest, j ∉ r'.cache.keys)
    (hlast : built = [] ∧ r' = r ∨ ∃ b, built.getLast? = some b ∧ b ∈ r'.cache.keys) :
    r'.chain key oldest = k :: rest := by
  rcases hlast with ⟨rfl, rfl⟩ | ⟨b, hb, hkept⟩
  · exact hchain
  obtain ⟨before, rfl⟩ := List.getLast?_eq_some_iff.mp hb
  have hearlier : r'.earlier (r'.depth key oldest) key = r.earlier (r.depth key oldest) key := by
    unfold earlier depth
    rw [halike.interval, halike.expiry]
  rw [chain_eq, hearlier]
  rw [chain_eq] at hchain
  -- The windows that are left, without `key` itself, are those that the walk back passes first.
  obtain ⟨left, hleft⟩ : ∃ left, k :: rest = left ++ [key] := by
    have hends : (k :: rest).getLast? = some key := by
      have h := congrArg List.getLast? hchain
      rw [List.getLast?_concat, List.getLast?_append_of_ne_nil _ (List.cons_ne_nil k rest)] at h
      exact h.symm
    exact List.getLast?_eq_some_iff.mp hends
  rw [hleft, ← List.append_assoc] at hchain
  have hwalk := congrArg List.reverse (List.append_cancel_right hchain)
  rw [List.reverse_reverse] at hwalk
  obtain ⟨older, holder⟩ := List.takeWhile_prefix (· ∉ r.cache.keys)
    (l := r.earlier (r.depth key oldest) key)
  have hpassed : ∀ j ∈ left.reverse, decide (j ∉ r'.cache.keys) = true := by
    intro j hj
    apply decide_eq_true
    apply hunkept j
    rw [hleft]
    exact List.mem_append_left _ (List.mem_reverse.mp hj)
  rw [← holder, hwalk, List.reverse_append, List.reverse_append, List.append_assoc,
    List.takeWhile_append_of_pos hpassed]
  simp [hkept, hleft]

end Reader

namespace Correlation

variable {s s' t u : Correlation} {log : EventLog} {previous last : Option WindowStore}
  {store : WindowStore} {key k : Int} {uses built left : List Int} {name : String}

/-- The name of every window of a chain is short enough for it to be looked for. -/
theorem isSealed_of_mem_chain {keys : List Int} (hchain : s.chain log key = .ok keys)
    (hsealed : log.isSealed key = .ok true) (hk : k ∈ keys) : ∃ b, log.isSealed k = .ok b := by
  unfold chain at hchain
  cases hkeys : log.sealedKeys with
  | error e =>
    rw [hkeys] at hchain
    cases hchain
  | ok sealed =>
    rw [hkeys] at hchain
    obtain rfl : s.reader.chain key (sealed.head?.getD key) = keys := Except.ok.inj hchain
    obtain ⟨first, n, hrun⟩ := s.reader.exists_chain key (sealed.head?.getD key)
    rw [hrun.eq_run, Interval.run, List.mem_map] at hk
    obtain ⟨j, hj, rfl⟩ := hk
    have hle : s.reader.interval.after first j ≤ key := by
      rw [hrun.ends]
      exact Interval.after_le (Nat.le_of_lt_succ (List.mem_range.mp hj))
    have hge : first ≤ s.reader.interval.after first j := Interval.le_after j
    by_cases hlast : s.reader.interval.after first j = key
    · exact ⟨true, by rw [hlast, hsealed]⟩
    · apply EventLog.isSealed_of_le hsealed _ hle
      have hinside := hrun.inside.resolve_right (by omega)
      cases hhead : sealed.head? with
      | none =>
        rw [hhead, Option.getD_none] at hinside
        omega
      | some oldest =>
        rw [hhead, Option.getD_some] at hinside
        have hnonneg := EventLog.nonneg_of_mem_sealedKeys hkeys (List.mem_of_head? hhead)
        omega

/-- Loading a window breaks off at the window `k` of its chain: the stores of the windows before it
have been built and kept, and then its own cannot be built. -/
structure BrokenAt (s : Correlation) (log : EventLog) (key : Int) (e : ReaderError)
    (built : List Int) (t : Correlation) (last : Option WindowStore) (k : Int) (rest : List Int) :
    Prop where
  builds : s.Builds log key
  chain : s.chain log key = .ok (built ++ k :: rest)
  turn : InTurn log s
    (s.reader.cache.get? ((built ++ k :: rest).head?.getD key - s.reader.interval.millis))
    built t last
  fails : t.build log k last = ((s.load log key).1, .error e)

/-- A load that fails changes nothing, or it breaks off at a window of its chain. -/
theorem load_failed {e : ReaderError} (hload : (s.load log key).2 = .error e) :
    (s.load log key).1 = s ∧ e.leavesTable = false ∨
      ∃ built t last k rest, s.BrokenAt log key e built t last k rest := by
  cases s.asked log key with
  | refused e' load used error leaves =>
    rw [load] at hload
    cases hload
    rw [load]
    exact Or.inl ⟨rfl, leaves⟩
  | kept store get load used =>
    rw [load] at hload
    cases hload
  | built keys chain builds load used =>
    obtain ⟨t, last, hturn, hend⟩ := loadSealed_cases chain builds.2.1
    rcases hend with ⟨store, hdone, _⟩ | ⟨k, rest, u, e', hsplit, hfail, hdone⟩
    · rw [load, hdone] at hload
      cases hload
    · rw [← load] at hdone
      rw [hdone] at hload
      cases hload
      generalize s.builtIn log _ keys = built at hturn hsplit
      subst hsplit
      refine Or.inr ⟨built, t, last, k, rest, builds, chain, hturn, ?_⟩
      rw [hdone]
      exact hfail

section Broken

variable {e : ReaderError} {rest : List Int} (h : s.BrokenAt log key e built t last k rest)
  (hs : s.Upkept uses)

include h hs

theorem BrokenAt.upkept : t.Upkept (uses ++ built) ∧ s.reader.Alike t.reader ∧
    ∀ p, last = some p → ∃ table, t.warehouse.tables.get? p.serial = some table :=
  h.turn.upkept hs (hs.sound.live_of_get? _)

theorem BrokenAt.unkept : ∀ j ∈ k :: rest, j ∉ t.reader.cache.keys := by
  obtain ⟨hnodup, hunkept, _⟩ := chain_windows h.chain h.builds.2.1
  intro j hj
  apply h.turn.unkept hs.sound (hs.sound.live_of_get? _)
    (hunkept j (List.mem_append_right _ hj))
  intro hbuilt
  exact (List.nodup_append.mp hnodup).2.2 j hbuilt j hj rfl

/-- The walk back from the key ends at the store built last. -/
theorem BrokenAt.chain_resumed {r : Reader} {oldest : Int} (hr : r = t.reader)
    (hchain : s.reader.chain key oldest = built ++ k :: rest) : r.chain key oldest = k :: rest := by
  obtain ⟨_, halike, _⟩ := h.upkept hs
  subst hr
  apply Reader.chain_resumed halike hchain (h.unkept hs)
  have hturn := h.turn
  cases hlast : built.getLast? with
  | none =>
    obtain rfl := List.getLast?_eq_none_iff.mp hlast
    cases hturn
    exact Or.inl ⟨rfl, rfl⟩
  | some b =>
    obtain ⟨store, _, hnewest⟩ := hturn.newest hlast
    have hkept := KeyedList.mem_entries_iff.mp (List.mem_of_getLast? hnewest)
    exact Or.inr ⟨b, rfl, mem_keys_of_get? hkept⟩

/-- Where a load breaks off, the table that it leaves is that of the store that could not be filled,
unless there was one in the way. -/
theorem BrokenAt.leaves (hleft : s.Leaves name left) :
    e.leavesTable = false ∧ (s.load log key).1 = t ∧ k ∈ left ∧ t.Leaves name left ∨
      e.leavesTable = true ∧ (s.load log key).1.Leaves name (left ++ [k]) := by
  obtain ⟨hupkept, _, hlast⟩ := h.upkept hs
  have hturn := h.turn.leaves hleft hs.sound (hs.sound.live_of_get? _)
  rcases build_failure hupkept.sound.warehouse hupkept.sound.expiry hlast h.fails with
    ⟨htaken, rfl, hsame⟩ | ⟨hfree, hreader, ⟨table, hdatabase, hwindow, hadd⟩, herror⟩
  · rw [hturn.shared, hturn.taken] at htaken
    have hbefore := htaken.resolve_left (h.unkept hs k (.head _))
    exact Or.inl ⟨rfl, hsame, hbefore, hturn⟩
  · right
    refine ⟨?_, hturn.adds hupkept.sound hreader hfree hadd hdatabase hwindow⟩
    rcases herror with hleaves | ⟨e', he', _⟩
    · exact hleaves
    · obtain ⟨b, hb⟩ := isSealed_of_mem_chain h.chain (toOption_isSealed.mp h.builds.2.2)
        (List.mem_append_right _ (.head _))
      rw [hb] at he'
      cases he'

end Broken

/-- The number of tables that loading a window leaves behind. -/
def leftBy (s : Correlation) (log : EventLog) (key : Int) : Nat :=
  match (s.load log key).2 with
  | .ok _ => 0
  | .error e => e.leavesTable.toNat

/-- The number of tables that the calls among some services leave behind. -/
def leftIn (s : Correlation) : List Service → Nat
  | [] => 0
  | .call log c :: rest => s.leftBy log c.key + (s.call log c).leftIn rest
  | .close :: rest => s.close.leftIn rest

theorem leftBy_of_error {e : ReaderError} (h : (s.load log key).2 = .error e) :
    s.leftBy log key = e.leavesTable.toNat := by
  unfold leftBy
  rw [h]

/-- A load leaves a table behind exactly if its error says that a store could not be filled. -/
theorem load_leaves (h : s.Leaves name left) (hs : s.Upkept uses) (log : EventLog) (key : Int) :
    ∃ new, (s.load log key).1.Leaves name (left ++ new) ∧ new.length = s.leftBy log key := by
  cases hload : (s.load log key).2 with
  | ok store =>
    have hnone : s.leftBy log key = 0 := by
      unfold leftBy
      rw [hload]
    refine ⟨[], ?_, hnone.symm⟩
    rw [List.append_nil]
    cases s.asked log key with
    | refused e load used error leaves =>
      rw [load] at hload
      cases hload
    | kept store get load used =>
      rw [load]
      exact h.touch get
    | built keys chain builds load used =>
      obtain ⟨t, last, hturn, hend⟩ := loadSealed_cases chain builds.2.1
      rcases hend with ⟨store', hdone, _⟩ | ⟨k, rest, u, e, _, _, hdone⟩
      · rw [load, hdone]
        exact hturn.leaves h hs.sound (hs.sound.live_of_get? _)
      · rw [load, hdone] at hload
        cases hload
  | error e =>
    rw [leftBy_of_error hload]
    rcases load_failed hload with ⟨hsame, hno⟩ | ⟨built, t, last, k, rest, hbroken⟩
    · rw [hsame, hno]
      exact ⟨[], by rwa [List.append_nil], rfl⟩
    · rcases hbroken.leaves hs h with ⟨hno, hsame, _, hleaves⟩ | ⟨hyes, hleaves⟩
      · rw [hsame, hno]
        exact ⟨[], by rwa [List.append_nil], rfl⟩
      · rw [hyes]
        exact ⟨[k], hleaves, rfl⟩

theorem Leaves.serveAll (h : s.Leaves name left) (hs : s.Upkept uses) (services : List Service) :
    ∃ new, (s.serveAll services).Leaves name (left ++ new) ∧ new.length = s.leftIn services := by
  induction services generalizing s uses left with
  | nil => exact ⟨[], by rwa [List.append_nil], rfl⟩
  | cons a rest ih =>
    have hupkept := (hs.serve a).1
    cases a with
    | call log c =>
      obtain ⟨first, hfirst, hcount⟩ := load_leaves h hs log c.key
      rw [← call_eq] at hfirst
      obtain ⟨later, hlater, hcounts⟩ := ih hfirst hupkept
      rw [List.append_assoc] at hlater
      refine ⟨first ++ later, hlater, ?_⟩
      rw [List.length_append, hcount, hcounts]
      rfl
    | close =>
      have hclosed : s.close.Leaves name left := by
        rw [close_eq_drop]
        exact h.drop hs.sound _
      exact ih hclosed hupkept

/-- Where nothing has been left behind, a load that fails and leaves nothing changes nothing. -/
theorem load_unchanged (h : s.Leaves name []) (hs : s.Upkept uses) {e : ReaderError}
    (hload : (s.load log key).2 = .error e) (hno : e.leavesTable = false) :
    (s.load log key).1 = s := by
  rcases load_failed hload with ⟨hsame, _⟩ | ⟨built, t, last, k, rest, hbroken⟩
  · exact hsame
  · rcases hbroken.leaves hs h with ⟨_, _, hk, _⟩ | ⟨hyes, _⟩
    · cases hk
    · rw [hno] at hyes
      cases hyes

theorem buildChain_of_taken (hs : s.Sound) (hk : s.warehouse.Taken s.reader.shared k)
    (log : EventLog) (previous : Option WindowStore) (rest : List Int) :
    s.buildChain log previous (k :: rest) = (s, .error (.store .tableExists)) := by
  have hbuild : s.build log k previous = (s, .error (.store .tableExists)) := by
    unfold build
    rw [Warehouse.create_of_taken hs.warehouse hs.expiry hk]
  rw [buildChain, hbuild]

/-- A table that has been left behind is in the way of its window for good: as long as the same
windows are sealed, the load fails again, whatever their logs are, and nothing changes. -/
theorem load_again (hs : s.Upkept uses) (hshared : s.reader.shared = some name) {e : ReaderError}
    (hload : (s.load log key).2 = .error e) (hyes : e.leavesTable = true) {log' : EventLog}
    (hkeys : log'.sealedKeys = log.sealedKeys) (hsame : log'.isSealed key = log.isSealed key) :
    (s.load log key).1.load log' key = ((s.load log key).1, .error (.store .tableExists)) := by
  rcases load_failed hload with ⟨_, hno⟩ | ⟨built, t, last, k, rest, hbroken⟩
  · rw [hno] at hyes
    cases hyes
  obtain ⟨hupkept, halike, hlast⟩ := hbroken.upkept hs
  obtain ⟨hsound, hreader⟩ := build_failed hupkept.sound hlast hbroken.fails
  rcases build_failure hupkept.sound.warehouse hupkept.sound.expiry hlast hbroken.fails with
    ⟨_, rfl, _⟩ | ⟨_, _, ⟨table, hdatabase, hwindow, hadd⟩, _⟩
  · cases hyes
  generalize (s.load log key).1 = u at *
  have htaken : u.warehouse.Taken u.reader.shared k := by
    rw [halike.shared, hshared] at hdatabase
    rw [hreader, halike.shared, hshared, taken_of_adds hupkept.sound.warehouse hadd]
    exact Or.inr ⟨hwindow, name, rfl, hdatabase⟩
  -- The chain is taken up again at the window that could not be built, where its table is now.
  have hchain : u.chain log' key = .ok (k :: rest) := by
    have hbefore := hbroken.chain
    unfold chain at hbefore ⊢
    rw [hkeys]
    cases hsealed : log.sealedKeys with
    | error err =>
      rw [hsealed] at hbefore
      cases hbefore
    | ok sealed =>
      rw [hsealed] at hbefore
      have hwalk : u.reader.chain key (sealed.head?.getD key) = k :: rest :=
        hbroken.chain_resumed hs hreader (Except.ok.inj hbefore)
      exact congrArg Except.ok hwalk
  have hkept : key ∉ u.reader.cache.keys := by
    have hends := (chain_windows hbroken.chain hbroken.builds.2.1).2.2
    rw [List.getLast?_append_of_ne_nil _ (List.cons_ne_nil k rest)] at hends
    rw [hreader]
    exact hbroken.unkept hs key (List.mem_of_getLast? hends)
  have haligned : u.reader.interval.Aligned key := by
    rw [hreader, halike.interval]
    exact hbroken.builds.1
  have hsealed : log'.isSealed key = .ok true :=
    hsame.trans (toOption_isSealed.mp hbroken.builds.2.2)
  rw [load_of_sealed haligned hkept hsealed]
  unfold loadSealed
  simp only [hchain]
  rw [buildChain_of_taken hsound htaken]

theorem leftIn_of_negative (he : s.reader.expiry < 0) (hcache : s.reader.cache = ∅)
    (services : List Service) : s.leftIn services = 0 := by
  induction services with
  | nil => rfl
  | cons a rest ih =>
    have hsame := (serve_of_negative he hcache a).1
    cases a with
    | call log c =>
      obtain ⟨e, hload, _, hno, _⟩ := load_of_negative he hcache log c.key
      have hnone : s.leftBy log c.key = 0 := by
        rw [leftBy_of_error (congrArg Prod.snd hload), hno]
        rfl
      have hcall : s.call log c = s := hsame
      rw [leftIn, hnone, hcall, ih]
    | close =>
      have hclose : s.close = s := hsame
      rw [leftIn, hclose, ih]

/-- Whether the tables are those of the kept stores alone is a matter of their number. -/
theorem tables_of_kept_iff {names : List String} {keys left : List Int} {n : Nat} {b : Bool}
    (h : names.Perm ((keys ++ left).map tableName)) (hlength : left.length = n + b.toNat) :
    names.Perm (keys.map tableName) ↔ n = 0 ∧ b = false := by
  rw [← Bool.toNat_eq_zero, ← Nat.add_eq_zero_iff, ← hlength]
  constructor
  · intro hkept
    have hsame := hkept.length_eq.symm.trans h.length_eq
    rw [List.length_map, List.length_map, List.length_append] at hsame
    omega
  · intro hnone
    obtain rfl := List.length_eq_zero_iff.mp hnone
    rwa [List.append_nil] at h

/-- Let a load fail after any services of a reader that has a shared database for itself. The tables
there are then those of the stores that are kept, and one for each load so far whose error says that
a store could not be filled; so they are the former alone exactly if there has been no such load. If
the last load was one, it fails again while the same windows are sealed, whatever their logs are
replaced by. If there was none, the last load has changed nothing. -/
theorem tables_after_failed_load (s : Correlation) (services : List Service) (log : EventLog)
    (key : Int) (e : ReaderError) (name : String) (hw : s.warehouse.Sound)
    (hcache : s.reader.cache = ∅) (hshared : s.reader.shared = some name)
    (hunused : s.warehouse.tableNames (.shared name) = [])
    (hfail : ((s.serveAll services).load log key).2 = .error e) :
    let before := s.serveAll services
    let after := (before.load log key).1
    (∃ left, (after.reader.cache.keys ++ left).Nodup ∧
      (after.warehouse.tableNames (.shared name)).Perm
        ((after.reader.cache.keys ++ left).map tableName) ∧
      left.length = s.leftIn services + e.leavesTable.toNat) ∧
    ((after.warehouse.tableNames (.shared name)).Perm (after.reader.cache.keys.map tableName) ↔
      s.leftIn services = 0 ∧ e.leavesTable = false) ∧
    (e.leavesTable = true → ∀ log' : EventLog, log'.sealedKeys = log.sealedKeys →
      log'.isSealed key = log.isSealed key →
      after.load log' key = (after, .error (.store .tableExists))) ∧
    (s.leftIn services = 0 → e.leavesTable = false → after = before) := by
  intro before after
  by_cases he : s.reader.expiry < 0
  · -- No store can be built, so nothing ever changes.
    have hbefore : before = s := (serveAll_of_negative he hcache services).1
    obtain ⟨e', hload, _, hno, _⟩ := load_of_negative he hcache log key
    have hsame : after = before := by
      change (before.load log key).1 = before
      rw [hbefore, hload]
    have herror : e = e' := by
      change (before.load log key).2 = .error e at hfail
      rw [hbefore, hload] at hfail
      exact (Except.error.inj hfail).symm
    have htables : (after.warehouse.tableNames (.shared name)).Perm
        ((after.reader.cache.keys ++ []).map tableName) := by
      rw [hsame, hbefore, hunused, hcache]
      exact .refl _
    have hlength : ([] : List Int).length = s.leftIn services + e.leavesTable.toNat := by
      rw [leftIn_of_negative he hcache, herror, hno]
      rfl
    refine ⟨⟨[], ?_, htables, hlength⟩, ?_, ?_, fun _ _ => hsame⟩
    · rw [List.append_nil]
      exact after.reader.cache.nodup_keys
    · exact tables_of_kept_iff htables hlength
    · intro hyes
      rw [herror, hno] at hyes
      cases hyes
  -- The tables left before the load, and what the load itself leaves.
  · have hstart := upkept_of_empty hw (Int.not_lt.mp he) hcache
    obtain ⟨hupkept, halike⟩ := hstart.serveAll services
    obtain ⟨earlier, hbefore, hearlier⟩ :=
      (leaves_of_unused hshared hcache hunused).serveAll hstart services
    rw [List.nil_append] at hbefore
    obtain ⟨new, hafter, hnew⟩ := load_leaves hbefore hupkept log key
    rw [leftBy_of_error hfail] at hnew
    obtain ⟨hnodup, htables⟩ := hafter.tableNames_perm
    have hlength : (earlier ++ new).length = s.leftIn services + e.leavesTable.toNat := by
      rw [List.length_append, hearlier, hnew]
    refine ⟨⟨earlier ++ new, hnodup, htables, hlength⟩, tables_of_kept_iff htables hlength, ?_, ?_⟩
    · intro hyes log' hkeys hsame
      exact load_again hupkept (halike.shared.trans hshared) hfail hyes hkeys hsame
    · intro hnone hno
      rw [hnone] at hearlier
      obtain rfl := List.length_eq_zero_iff.mp hearlier
      exact load_unchanged hbefore hupkept hfail hno

/-- The logs of three windows, of which the second one has a response code that no column holds. -/
def spoiledFiles : List (Int × List UInt8) :=
  [(10, EventLog.linesOf [halfOfA 15 .start ∅]),
    (20, EventLog.linesOf
      [halfOfA 25 .finish (.ofList [("response_code", .int 3000000000)])]),
    (30, EventLog.linesOf [halfOfB 35 .start ∅])]

theorem refused_code_blocks_window :
    let s := sharing.serveAll [.call (.ofFiles crossingFiles) (.load 10)]
    let after := (s.load (.ofFiles spoiledFiles) 20).1
    (∃ left, left.length = 1 ∧ (after.warehouse.tableNames (.shared "memory")).Perm
      ((after.reader.cache.keys ++ left).map tableName)) ∧
    after.load (.ofFiles crossingFiles) 20 = (after, .error (.store .tableExists)) := by
  have hfail : ((sharing.serveAll [.call (.ofFiles crossingFiles) (.load 10)]).load
      (.ofFiles spoiledFiles) 20).2 = .error (.store .unfit) := by decide +kernel
  obtain ⟨⟨left, _, htables, hlength⟩, _, hagain, _⟩ :=
    tables_after_failed_load sharing [.call (.ofFiles crossingFiles) (.load 10)]
      (.ofFiles spoiledFiles) 20 (.store .unfit) "memory" Warehouse.sound_empty rfl rfl rfl hfail
  have hnone : sharing.leftIn [.call (.ofFiles crossingFiles) (.load 10)] = 0 := by decide +kernel
  have hkeys : (EventLog.ofFiles spoiledFiles).sealedKeys = .ok [10, 20, 30] := by rfl
  have hkeys' : (EventLog.ofFiles crossingFiles).sealedKeys = .ok [10, 20, 30] := by rfl
  have hsealed : (EventLog.ofFiles spoiledFiles).isSealed 20 = .ok true := by rfl
  have hsealed' : (EventLog.ofFiles crossingFiles).isSealed 20 = .ok true := by rfl
  rw [hnone] at hlength
  exact ⟨⟨left, hlength, htables⟩,
    hagain rfl _ (hkeys'.trans hkeys.symm) (hsealed'.trans hsealed.symm)⟩

theorem failed_load_leaves_trace :
    ¬∀ (s : Correlation) (name : String) (log log' : EventLog) (key : Int), s.Fresh →
      s.reader.shared = some name → (s.load log key).2.toOption.isNone = true →
      log'.sealedKeys = log.sealedKeys → (s.load log' key).2.toOption.isSome = true →
      ((s.load log key).1.warehouse.tableNames (.shared name)).Perm
          ((s.load log key).1.reader.cache.keys.map tableName) ∧
        ((s.load log key).1.load log' key).2.toOption.isSome = true := by
  intro h
  have hkeys : (EventLog.ofFiles spoiledFiles).sealedKeys = .ok [10, 20, 30] := by rfl
  have hkeys' : (EventLog.ofFiles crossingFiles).sealedKeys = .ok [10, 20, 30] := by rfl
  obtain ⟨htables, _⟩ := h sharing "memory" (.ofFiles spoiledFiles) (.ofFiles crossingFiles) 20
    ⟨by decide, rfl, rfl⟩ rfl (by decide +kernel) (hkeys'.trans hkeys.symm) (by decide +kernel)
  have hlength := htables.length_eq
  revert hlength
  decide +kernel

end Correlation

end RequestWindows
