import Mathlib.Data.List.Dedup
import Mathlib.Data.List.DropRight
import RequestWindows.Proofs.Reader.Failures
import RequestWindows.Proofs.Reader.Provenance

namespace RequestWindows

/-- The windows that were used last, as many as there is room for, in the order of their last
use. -/
def recent (capacity : Nat) (uses : List Int) : List Int := uses.dedup.rtake capacity

section Recent

variable {capacity : Nat} {uses : List Int} {k : Int}

theorem dedup_concat (uses : List Int) (k : Int) :
    (uses ++ [k]).dedup = uses.dedup.filter (· ≠ k) ++ [k] := by
  induction uses with
  | nil => rfl
  | cons a rest ih =>
    rw [List.cons_append]
    by_cases hmem : a ∈ rest
    · rw [List.dedup_cons_of_mem (List.mem_append_left _ hmem), List.dedup_cons_of_mem hmem, ih]
    · rw [List.dedup_cons_of_notMem hmem]
      by_cases hk : a = k
      · have hlast : a ∈ rest ++ [k] := by simp [hk]
        rw [List.dedup_cons_of_mem hlast, ih, List.filter_cons_of_neg (by simp [hk])]
      · have hnew : a ∉ rest ++ [k] := by simp [hmem, hk]
        rw [List.dedup_cons_of_notMem hnew, ih, List.filter_cons_of_pos (by simp [hk])]
        rfl

/-- Of distinct windows, leaving one out lets at most one more in. -/
theorem take_filter_take {l : List Int} (h : l.Nodup) (n : Nat) (k : Int) :
    ((l.take (n + 1)).filter (· ≠ k)).take n = (l.filter (· ≠ k)).take n := by
  induction l generalizing n with
  | nil => rfl
  | cons a rest ih =>
    obtain ⟨hnew, hrest⟩ := List.nodup_cons.mp h
    rw [List.take_succ_cons]
    by_cases hk : a = k
    · have hself : rest.filter (· ≠ k) = rest := by
        rw [List.filter_eq_self]
        intro b hb
        apply decide_eq_true
        rintro rfl
        exact hnew (hk ▸ hb)
      have hfront : (rest.take n).filter (· ≠ k) = rest.take n := by
        rw [List.filter_eq_self]
        intro b hb
        apply decide_eq_true
        rintro rfl
        exact hnew (hk ▸ List.mem_of_mem_take hb)
      rw [List.filter_cons_of_neg (by simp [hk]), List.filter_cons_of_neg (by simp [hk]), hself,
        hfront, List.take_take, Nat.min_self]
    · rw [List.filter_cons_of_pos (by simp [hk]), List.filter_cons_of_pos (by simp [hk])]
      cases n with
      | zero => rfl
      | succ n => rw [List.take_succ_cons, List.take_succ_cons, ih hrest]

/-- The window that is used becomes the last, and the first one goes if there is no room for it. -/
theorem recent_concat (hcapacity : 0 < capacity) :
    recent capacity (uses ++ [k]) =
      ((recent capacity uses).filter (· ≠ k) ++ [k]).rtake capacity := by
  obtain ⟨n, rfl⟩ := Nat.exists_eq_succ_of_ne_zero (Nat.ne_of_gt hcapacity)
  have hnodup : uses.dedup.reverse.Nodup := List.nodup_reverse.mpr (List.nodup_dedup uses)
  unfold recent
  rw [dedup_concat, Nat.succ_eq_add_one, List.rtake_concat_succ, List.rtake_concat_succ]
  rw [List.rtake_eq_reverse_take_reverse, List.rtake_eq_reverse_take_reverse,
    List.rtake_eq_reverse_take_reverse, ← List.filter_reverse, ← List.filter_reverse,
    List.reverse_reverse, take_filter_take hnodup]

theorem recent_nil (capacity : Nat) : recent capacity [] = [] := List.drop_nil

theorem length_recent_le (capacity : Nat) (uses : List Int) :
    (recent capacity uses).length ≤ capacity := by
  unfold recent List.rtake
  rw [List.length_drop]
  omega

end Recent

namespace KeyedList

variable {m : KeyedList Int WindowStore} {k : Int} {store : WindowStore}

theorem keys_insertLast (m : KeyedList Int WindowStore) (k : Int) (store : WindowStore) :
    (m.insertLast k store).keys = m.keys.filter (· ≠ k) ++ [k] := by
  unfold keys insertLast erase
  rw [List.map_append, List.filter_map]
  rfl

theorem keys_dropOldest (m : KeyedList Int WindowStore) (n : Nat) :
    (m.dropOldest n).keys = m.keys.drop n := List.map_drop

theorem length_keys (m : KeyedList Int WindowStore) : m.keys.length = m.size := List.length_map _

end KeyedList

namespace Correlation

/-- The windows of a chain whose stores are built and kept, up to one that cannot be built. -/
def builtIn (s : Correlation) (log : EventLog) (previous : Option WindowStore) :
    List Int → List Int
  | [] => []
  | key :: rest =>
    match s.build log key previous with
    | (_, .error _) => []
    | (s, .ok store) => key :: (s.keep key store).builtIn log (some store) rest

/-- The windows whose stores are used when a window is asked for, in the order of their use. -/
def used (s : Correlation) (log : EventLog) (key : Int) : List Int :=
  if ¬s.reader.interval.Aligned key then []
  else if key ∈ s.reader.cache.keys then [key]
  else
    match log.isSealed key, s.chain log key with
    | .ok true, .ok keys =>
      s.builtIn log (s.reader.cache.get? (keys.head?.getD key - s.reader.interval.millis)) keys
    | _, _ => []

/-- Stores for some windows are built and kept one after another, each after the one before. -/
inductive InTurn (log : EventLog) : Correlation → Option WindowStore → List Int → Correlation →
    Option WindowStore → Prop
  | nil (s : Correlation) (previous : Option WindowStore) : InTurn log s previous [] s previous
  | cons {s s₁ t : Correlation} {previous last : Option WindowStore} {store : WindowStore}
      {key : Int} {rest : List Int} (built : s.build log key previous = (s₁, .ok store))
      (later : InTurn log (s₁.keep key store) (some store) rest t last) :
      InTurn log s previous (key :: rest) t last

variable {s s₁ t : Correlation} {log : EventLog} {previous last : Option WindowStore}
  {store : WindowStore} {key : Int} {keys : List Int}

/-- A chain is built to its end, or up to a window whose store cannot be built. -/
theorem buildChain_inTurn (s : Correlation) (log : EventLog) (previous : Option WindowStore)
    (keys : List Int) :
    ∃ t last, InTurn log s previous (s.builtIn log previous keys) t last ∧
      (s.builtIn log previous keys = keys ∧ s.buildChain log previous keys = (t, .ok ()) ∨
        ∃ key rest u e, keys = s.builtIn log previous keys ++ key :: rest ∧
          t.build log key last = (u, .error e) ∧
          s.buildChain log previous keys = (u, .error e)) := by
  induction keys generalizing s previous with
  | nil => exact ⟨s, previous, .nil s previous, Or.inl ⟨rfl, rfl⟩⟩
  | cons key rest ih =>
    rcases hbuild : s.build log key previous with ⟨s₁, e | store⟩
    · have hnone : s.builtIn log previous (key :: rest) = [] := by rw [builtIn, hbuild]
      rw [hnone]
      refine ⟨s, previous, .nil s previous, Or.inr ⟨key, rest, s₁, e, rfl, hbuild, ?_⟩⟩
      rw [buildChain, hbuild]
    · obtain ⟨t, last, hturn, hend⟩ := ih (s₁.keep key store) (some store)
      have hbuilt : s.builtIn log previous (key :: rest) =
          key :: (s₁.keep key store).builtIn log (some store) rest := by rw [builtIn, hbuild]
      have hchain : s.buildChain log previous (key :: rest) =
          (s₁.keep key store).buildChain log (some store) rest := by rw [buildChain, hbuild]
      rw [hbuilt, hchain]
      refine ⟨t, last, .cons hbuild hturn, ?_⟩
      rcases hend with ⟨hall, hok⟩ | ⟨key', rest', u, e, hsplit, hfail, herror⟩
      · exact Or.inl ⟨by rw [hall], hok⟩
      · exact Or.inr ⟨key', rest', u, e, by rw [List.cons_append, ← hsplit], hfail, herror⟩

section Keys

/-- A store that is built becomes the last, and the first one goes if there is no room for it. -/
theorem keys_keep (s : Correlation) (key : Int) (store : WindowStore) :
    (s.keep key store).reader.cache.keys =
      (s.reader.cache.keys.filter (· ≠ key) ++ [key]).rtake s.reader.capacity := by
  rw [← KeyedList.keys_insertLast s.reader.cache key store, List.rtake, KeyedList.length_keys,
    ← KeyedList.keys_dropOldest]
  rfl

theorem keys_touch (hkey : key ∈ s.reader.cache.keys)
    (hroom : s.reader.cache.keys.length ≤ s.reader.capacity) (store : WindowStore) :
    (s.touch key store).reader.cache.keys =
      (s.reader.cache.keys.filter (· ≠ key) ++ [key]).rtake s.reader.capacity := by
  have hfewer : (s.reader.cache.keys.filter (· ≠ key)).length < s.reader.cache.keys.length := by
    rw [List.length_filter_lt_length_iff_exists]
    exact ⟨key, hkey, by simp⟩
  have hall : (s.reader.cache.keys.filter (· ≠ key) ++ [key]).length - s.reader.capacity = 0 := by
    rw [List.length_append, List.length_singleton]
    omega
  rw [List.rtake, hall, List.drop_zero]
  exact KeyedList.keys_insertLast s.reader.cache key store

theorem getLast?_touch (s : Correlation) (key : Int) (store : WindowStore) :
    (s.touch key store).reader.cache.entries.getLast? = some (key, store) :=
  List.getLast?_concat

/-- The store that has just been built is the last, as at least two stores are kept. -/
theorem getLast?_keep (s : Correlation) (key : Int) (store : WindowStore) :
    (s.keep key store).reader.cache.entries.getLast? = some (key, store) := by
  have hcapacity := (s.touch key store).reader.two_le_capacity
  have hlast := s.getLast?_touch key store
  have hpositive : 0 < (s.touch key store).reader.cache.entries.length := by
    apply List.length_pos_of_mem
    exact List.mem_of_getLast? hlast
  change ((s.touch key store).reader.cache.entries.drop
    ((s.touch key store).reader.cache.entries.length -
      (s.touch key store).reader.capacity)).getLast? = _
  rw [List.getLast?_drop, if_neg (by omega), hlast]

end Keys

section Build

/-- A store that is built is new, and no table of its window was in the way. -/
theorem build_ok (hs : s.Sound)
    (hlive : ∀ p, previous = some p → ∃ table, s.warehouse.tables.get? p.serial = some table)
    (h : s.build log key previous = (s₁, .ok store)) :
    ¬s.warehouse.Taken s.reader.shared key ∧ s₁.reader = s.reader ∧
      store = ⟨s.warehouse.next, key, s.reader.expiry⟩ ∧
      ∃ rows, s.warehouse.Adds ⟨s.warehouse.nextDatabase s.reader.shared, key, rows⟩
        s₁.warehouse := by
  by_cases hcan : s.CanBuild log key previous
  · obtain ⟨s', hbuild, hreader, _, hadd⟩ := build_of_canBuild hs.warehouse hs.expiry hlive hcan
    rw [h] at hbuild
    cases hbuild
    exact ⟨hcan.free, hreader, rfl, _, hadd⟩
  · obtain ⟨s', e, hbuild, _⟩ := build_of_not_canBuild hs.warehouse hs.expiry hlive hcan
    rw [h] at hbuild
    cases hbuild

/-- A store that cannot be built leaves the reader as it was. -/
theorem build_failed {e : ReaderError} (hs : s.Sound)
    (hlive : ∀ p, previous = some p → ∃ table, s.warehouse.tables.get? p.serial = some table)
    (h : s.build log key previous = (s₁, .error e)) : s₁.Sound ∧ s₁.reader = s.reader := by
  by_cases hcan : s.CanBuild log key previous
  · obtain ⟨s', hbuild, _⟩ := build_of_canBuild hs.warehouse hs.expiry hlive hcan
    rw [h] at hbuild
    cases hbuild
  · obtain ⟨s', e', hbuild, hreader, hleft⟩ :=
      build_of_not_canBuild hs.warehouse hs.expiry hlive hcan
    rw [h] at hbuild
    cases hbuild
    exact ⟨sound_of_failed hs hreader hleft, hreader⟩

theorem sound_keep (hs : s.Sound)
    (hlive : ∀ p, previous = some p → ∃ table, s.warehouse.tables.get? p.serial = some table)
    (h : s.build log key previous = (s₁, .ok store)) : (s₁.keep key store).Sound := by
  obtain ⟨_, hreader, rfl, rows, hadd⟩ := build_ok hs hlive h
  have htouch : (s₁.touch key ⟨s.warehouse.next, key, s.reader.expiry⟩).Sound :=
    sound_touch_new hs hreader rfl hadd rfl rfl rfl rfl
  rw [keep_eq_drop]
  exact sound_drop htouch _

theorem live_keep (hs : (s.keep key store).Sound) :
    ∃ table, (s.keep key store).warehouse.tables.get? store.serial = some table := by
  obtain ⟨_, _, table, hlive, _⟩ := hs.kept (s.get?_keep key store)
  exact ⟨table, hlive⟩

end Build

/-- A sound reader that keeps the stores of the windows used last. -/
structure Upkept (s : Correlation) (uses : List Int) : Prop where
  sound : s.Sound
  keys : s.reader.cache.keys = recent s.reader.capacity uses

section Upkeep

variable {uses built : List Int}

theorem Upkept.length_le (h : s.Upkept uses) :
    s.reader.cache.keys.length ≤ s.reader.capacity := by
  rw [h.keys]
  exact length_recent_le _ _

/-- While stores are built one after another, each is live when the next one is built. -/
theorem InTurn.upkept (h : InTurn log s previous built t last) (hs : s.Upkept uses)
    (hlive : ∀ p, previous = some p → ∃ table, s.warehouse.tables.get? p.serial = some table) :
    t.Upkept (uses ++ built) ∧ s.reader.Alike t.reader ∧
      ∀ p, last = some p → ∃ table, t.warehouse.tables.get? p.serial = some table := by
  induction h generalizing uses with
  | nil s previous =>
    rw [List.append_nil]
    exact ⟨hs, .of_eq rfl, hlive⟩
  | @cons s s₁ t previous last store key rest built _ ih =>
    have hsound := sound_keep hs.sound hlive built
    obtain ⟨_, hreader, _⟩ := build_ok hs.sound hlive built
    have hcapacity : 0 < s.reader.capacity := by
      have htwo := s.reader.two_le_capacity
      omega
    have hkeys : (s₁.keep key store).reader.cache.keys =
        recent (s₁.keep key store).reader.capacity (uses ++ [key]) := by
      have hsame : (s₁.keep key store).reader.capacity = s₁.reader.capacity := rfl
      rw [keys_keep, hsame, hreader, hs.keys, recent_concat hcapacity]
    have hnext : ∀ p, some store = some p →
        ∃ table, (s₁.keep key store).warehouse.tables.get? p.serial = some table := by
      rintro p ⟨⟩
      exact live_keep hsound
    obtain ⟨hupkept, halike, hlast⟩ := ih ⟨hsound, hkeys⟩ hnext
    rw [List.append_assoc] at hupkept
    refine ⟨hupkept, Reader.Alike.trans ?_ halike, hlast⟩
    exact Reader.Alike.trans (.of_eq hreader) ⟨rfl, rfl, rfl, rfl⟩

theorem InTurn.newest (h : InTurn log s previous built t last) {k : Int}
    (hk : built.getLast? = some k) :
    ∃ store, last = some store ∧ t.reader.cache.entries.getLast? = some (k, store) := by
  induction h with
  | nil s previous => cases hk
  | @cons s s₁ t previous last store key rest _ later ih =>
    cases rest with
    | nil =>
      cases later
      cases hk
      exact ⟨store, rfl, getLast?_keep s₁ key store⟩
    | cons next rest =>
      rw [List.getLast?_cons_cons] at hk
      exact ih hk

theorem Sound.live_of_get? (hs : s.Sound) (k : Int) :
    ∀ p, s.reader.cache.get? k = some p →
      ∃ table, s.warehouse.tables.get? p.serial = some table := by
  intro p hp
  obtain ⟨_, _, table, hlive, _⟩ := hs.kept hp
  exact ⟨table, hlive⟩

/-- A window that is asked for is refused, or it is kept, or its chain is built. -/
inductive Asked (s : Correlation) (log : EventLog) (key : Int) : Prop
  | refused (e : ReaderError) (load : s.load log key = (s, .error e)) (used : s.used log key = [])
      (error : e.concernsTable = false) (leaves : e.leavesTable = false)
  | kept (store : WindowStore) (get : s.reader.cache.get? key = some store)
      (load : s.load log key = (s.touch key store, .ok store)) (used : s.used log key = [key])
  | built (keys : List Int) (chain : s.chain log key = .ok keys) (builds : s.Builds log key)
      (load : s.load log key = s.loadSealed log key)
      (used : s.used log key =
        s.builtIn log (s.reader.cache.get? (keys.head?.getD key - s.reader.interval.millis)) keys)

theorem leavesTable_of_chain {e : LogError} (h : s.chain log key = .error e) :
    (ReaderError.log e).leavesTable = false := by
  unfold chain at h
  cases hsealed : log.sealedKeys with
  | error err =>
    rw [hsealed] at h
    cases h
    exact EventLog.leavesTable_of_sealedKeys hsealed
  | ok sealed =>
    rw [hsealed] at h
    cases h

theorem asked (s : Correlation) (log : EventLog) (key : Int) : s.Asked log key := by
  by_cases haligned : s.reader.interval.Aligned key
  · cases hget : s.reader.cache.get? key with
    | some store =>
      refine .kept store hget (load_of_kept haligned hget) ?_
      unfold used
      rw [if_neg (not_not_intro haligned), if_pos (mem_keys_of_get? hget)]
    | none =>
      have hkey : key ∉ s.reader.cache.keys := KeyedList.get?_eq_none_iff.mp hget
      by_cases hsealed : log.isSealed key = .ok true
      · have hload := load_of_sealed haligned hkey hsealed
        cases hchain : s.chain log key with
        | error e =>
          refine .refused (.log e) ?_ ?_ rfl (leavesTable_of_chain hchain)
          · rw [hload]
            unfold loadSealed
            rw [hchain]
          · unfold used
            rw [if_neg (not_not_intro haligned), if_neg hkey, hsealed, hchain]
        | ok keys =>
          refine .built keys hchain ⟨haligned, hkey, toOption_isSealed.mpr hsealed⟩ hload ?_
          unfold used
          rw [if_neg (not_not_intro haligned), if_neg hkey, hsealed, hchain]
      · refine .refused (log.refusal key) (load_of_not_sealed haligned hkey hsealed) ?_ ?_ ?_
        · unfold used
          rw [if_neg (not_not_intro haligned), if_neg hkey]
          split
          · next hyes _ => exact absurd hyes hsealed
          · rfl
        · unfold EventLog.refusal
          split <;> rfl
        · unfold EventLog.refusal
          split
          · next e hanswer => exact EventLog.leavesTable_of_isSealed hanswer
          · rfl
  · refine .refused (.misaligned key s.reader.interval.millis) (load_of_misaligned haligned) ?_
      rfl rfl
    unfold used
    rw [if_pos haligned]

/-- The windows of a chain are distinct, none of them is kept, and the last is the one asked for. -/
theorem chain_windows (h : s.chain log key = .ok keys) (hkey : key ∉ s.reader.cache.keys) :
    keys.Nodup ∧ (∀ k ∈ keys, k ∉ s.reader.cache.keys) ∧ keys.getLast? = some key := by
  unfold chain at h
  cases hsealed : log.sealedKeys with
  | error e =>
    rw [hsealed] at h
    cases h
  | ok sealed =>
    rw [hsealed] at h
    obtain rfl : s.reader.chain key (sealed.head?.getD key) = keys := Except.ok.inj h
    obtain ⟨first, n, hchain⟩ := s.reader.exists_chain key (sealed.head?.getD key)
    refine ⟨?_, ?_, ?_⟩
    · rw [hchain.eq_run, Interval.run]
      apply List.Nodup.map_on _ List.nodup_range
      intro a _ b _ hab
      exact Interval.after_inj.mp hab
    · intro k hk
      rw [hchain.eq_run, Interval.run, List.mem_map] at hk
      obtain ⟨j, hj, rfl⟩ := hk
      rcases Nat.eq_or_lt_of_le (Nat.le_of_lt_succ (List.mem_range.mp hj)) with rfl | hlt
      · rw [← hchain.ends]
        exact hkey
      · exact hchain.unkept j hlt
    · rw [s.reader.chain_eq]
      exact List.getLast?_concat

/-- What building the chain of a window comes to: its store is the last that is kept, or one of the
windows of the chain could not be built. -/
theorem loadSealed_cases (hchain : s.chain log key = .ok keys)
    (hkey : key ∉ s.reader.cache.keys) :
    let previous := s.reader.cache.get? (keys.head?.getD key - s.reader.interval.millis)
    ∃ t last, InTurn log s previous (s.builtIn log previous keys) t last ∧
      ((∃ store, s.loadSealed log key = (t, .ok store) ∧ s.builtIn log previous keys = keys ∧
          t.reader.cache.entries.getLast? = some (key, store)) ∨
        ∃ k rest u e, keys = s.builtIn log previous keys ++ k :: rest ∧
          t.build log k last = (u, .error e) ∧ s.loadSealed log key = (u, .error e)) := by
  intro previous
  obtain ⟨t, last, hturn, hend⟩ := s.buildChain_inTurn log previous keys
  refine ⟨t, last, hturn, ?_⟩
  rcases hend with ⟨hall, hok⟩ | ⟨k, rest, u, e, hsplit, hfail, herror⟩
  · left
    rw [hall] at hturn
    obtain ⟨store, _, hnewest⟩ := hturn.newest (chain_windows hchain hkey).2.2
    have hget : t.reader.cache.get? key = some store :=
      KeyedList.mem_entries_iff.mp (List.mem_of_getLast? hnewest)
    refine ⟨store, ?_, hall, hnewest⟩
    unfold loadSealed
    simp only [hchain]
    rw [show s.buildChain log (s.reader.cache.get? (keys.head?.getD key - s.reader.interval.millis))
      keys = (t, .ok ()) from hok]
    simp only [hget]
  · right
    refine ⟨k, rest, u, e, hsplit, hfail, ?_⟩
    unfold loadSealed
    simp only [hchain]
    rw [show s.buildChain log (s.reader.cache.get? (keys.head?.getD key - s.reader.interval.millis))
      keys = (u, .error e) from herror]

/-- Whatever window is asked for, the reader keeps the stores used last. No store is missed on the
way, and one that is found is the last of those that are kept. -/
theorem load_serves (hs : s.Upkept uses) (log : EventLog) (key : Int) :
    (s.load log key).1.Upkept (uses ++ s.used log key) ∧ s.reader.Alike (s.load log key).1.reader ∧
      (∀ e, (s.load log key).2 = .error e → e.concernsTable = false ∨ e = .store .tableExists) ∧
      ∀ store, (s.load log key).2 = .ok store →
        (s.load log key).1.reader.cache.entries.getLast? = some (key, store) := by
  have hcapacity : 0 < s.reader.capacity := by
    have htwo := s.reader.two_le_capacity
    omega
  cases s.asked log key with
  | refused e load used error =>
    rw [load, used, List.append_nil]
    refine ⟨hs, .of_eq rfl, ?_, ?_⟩
    · rintro e' ⟨⟩
      exact Or.inl error
    · rintro store ⟨⟩
  | kept store get load used =>
    have hgrows := grows_touch hs.sound get
    have hkeys := keys_touch (mem_keys_of_get? get) hs.length_le store
    rw [hs.keys, ← recent_concat hcapacity] at hkeys
    rw [load, used]
    refine ⟨⟨hgrows.sound, hkeys⟩, hgrows.alike, ?_, ?_⟩
    · rintro e ⟨⟩
    · rintro store' ⟨⟩
      exact getLast?_touch s key store
  -- The stores built before one that fails are kept as those used last.
  | built keys chain builds load used =>
    obtain ⟨t, last, hturn, hend⟩ := loadSealed_cases chain builds.2.1
    obtain ⟨hupkept, halike, hlast⟩ := hturn.upkept hs (hs.sound.live_of_get? _)
    rw [← used] at hupkept
    rw [load]
    rcases hend with ⟨store, hload, _, hnewest⟩ | ⟨k, rest, u, e, _, hfail, hload⟩
    · rw [hload]
      refine ⟨hupkept, halike, ?_, ?_⟩
      · rintro e ⟨⟩
      · rintro store' ⟨⟩
        exact hnewest
    · obtain ⟨hsound, hreader⟩ := build_failed hupkept.sound hlast hfail
      rw [hload]
      refine ⟨⟨hsound, ?_⟩, halike.trans (.of_eq hreader), ?_, ?_⟩
      · change u.reader.cache.keys = recent u.reader.capacity _
        rw [hreader]
        exact hupkept.keys
      · rintro e' ⟨⟩
        exact (build_error hupkept.sound.warehouse hupkept.sound.expiry hlast hfail).imp_right
          And.left
      · rintro store ⟨⟩

end Upkeep

end Correlation

end RequestWindows
