import RequestWindows.Proofs.Reader.Horizon
import RequestWindows.Proofs.Reader.Loading

/-! The rows of a store are what the logs say of the run of windows it was built in. Which window
the run begins with depends on what was kept then: `begun` follows it through every call. -/
namespace RequestWindows

/-- Whether a run of windows may begin at a key: the window is sealed, or another one before it
is. -/
def EventLog.MayBegin (log : EventLog) (sealed : List Int) (first : Int) : Prop :=
  log.isSealed first = .ok true ∨ ∃ k ∈ sealed, k ≤ first

/-- Whether every run of windows up to a sealed one can be built. -/
def EventLog.AllBuildable (log : EventLog) (i : Interval) (expiry : Int) (sealed : List Int) :
    Prop :=
  ∀ first n, i.Aligned first → log.MayBegin sealed first →
    log.isSealed (i.after first n) = .ok true → log.Buildable i expiry first n

namespace Correlation

/-- Whether a reader gets every run of windows up to a sealed one built. -/
def BuildsAll (s : Correlation) (log : EventLog) (sealed : List Int) : Prop :=
  ∀ first n, s.reader.interval.Aligned first → log.MayBegin sealed first →
    log.isSealed (s.reader.interval.after first n) = .ok true →
    ∃ stores, (s.buildEach log none (s.reader.interval.run first (n + 1))).2 = .ok stores

inductive Call
  | load (key : Int)
  | latencies (key : Int)
  | aggregates (key : Int)
  | inFlight (key : Int)
deriving DecidableEq

def Call.key : Call → Int
  | load key | latencies key | aggregates key | inFlight key => key

def call (s : Correlation) (log : EventLog) : Call → Correlation
  | .load key => (s.load log key).1
  | .latencies key => (s.latencyRows log key).1
  | .aggregates key => (s.aggregateRows log key).1
  | .inFlight key => (s.inFlightRows log key).1

/-- The window that the run for a key begins with, where the stores that are kept were built in runs
that begin with the windows `begun`. -/
def beginning (s : Correlation) (begun : Int → Int) (key oldest : Int) : Int :=
  if key ∈ s.reader.cache.keys then begun key
  else
    let first := (s.reader.chain key oldest).head?.getD key
    if first - s.reader.interval.millis ∈ s.reader.cache.keys then
      begun (first - s.reader.interval.millis)
    else first

/-- Whether a call for a key builds stores. -/
def Builds (s : Correlation) (log : EventLog) (key : Int) : Prop :=
  s.reader.interval.Aligned key ∧ key ∉ s.reader.cache.keys ∧
    (log.isSealed key).toOption = some true

instance (s : Correlation) (log : EventLog) (key : Int) : Decidable (s.Builds log key) :=
  inferInstanceAs (Decidable (_ ∧ _))

/-- The windows that the runs of all stores begin with after a call. -/
def begunAfter (s : Correlation) (log : EventLog) (begun : Int → Int) (key oldest : Int) :
    Int → Int := fun k =>
  if s.Builds log key ∧ k ∈ s.reader.chain key oldest then s.beginning begun key oldest
  else begun k

def callAll (s : Correlation) (log : EventLog) (calls : List Call) : Correlation :=
  calls.foldl (fun s c => s.call log c) s

/-- The windows that the runs of all stores begin with after a series of calls. -/
def begunIn (s : Correlation) (log : EventLog) (sealed : List Int) (begun : Int → Int) :
    List Call → Int → Int
  | [] => begun
  | c :: rest =>
    (s.call log c).begunIn log sealed (s.begunAfter log begun c.key (sealed.head?.getD c.key)) rest

/-- Every store that is kept holds what the logs say of the run in which it was built. -/
def Begun (s : Correlation) (log : EventLog) (sealed : List Int) (begun : Int → Int) : Prop :=
  ∀ k st, s.reader.cache.get? k = some st →
    s.reader.interval.Aligned (begun k) ∧ log.MayBegin sealed (begun k) ∧
      ∃ n, k = s.reader.interval.after (begun k) n ∧
        s.Holds log (log.opening (begun k)) (begun k) n st

variable {s s' : Correlation} {log : EventLog} {sealed : List Int} {begun : Int → Int} {key : Int}

theorem query_fst {α : Type} (s : Correlation) (log : EventLog) (key : Int)
    (ask : Warehouse → WindowStore → Except StoreError α) :
    (s.query log key ask).1 = (s.load log key).1 := by
  unfold query
  rcases s.load log key with ⟨s', e | store⟩
  · rfl
  · rfl

theorem call_eq (s : Correlation) (log : EventLog) (c : Call) :
    s.call log c = (s.load log c.key).1 := by
  cases c with
  | load key => rfl
  | latencies key => exact s.query_fst log key _
  | aggregates key => exact s.query_fst log key _
  | inFlight key => exact s.query_fst log key _

theorem toOption_isSealed {b : Bool} :
    (log.isSealed key).toOption = some b ↔ log.isSealed key = .ok b := by
  cases log.isSealed key <;> simp [Except.toOption]

theorem begun_of_fresh (h : s.Fresh) : s.Begun log sealed begun := by
  intro k st hget
  rw [h.cache] at hget
  cases hget

theorem BuildsAll.allBuildable (h : s.BuildsAll log sealed) (hs : s.Sound) :
    log.AllBuildable s.reader.interval s.reader.expiry sealed := by
  intro first n haligned hbegin hsealed
  obtain ⟨stores, hbuild⟩ := h first n haligned hbegin hsealed
  exact buildable_of_buildEach hs.warehouse hs.expiry hbuild

/-- Where keys and expiry have 64 bits and every log can be replayed, all runs can be built. -/
theorem Fresh.buildsAll (h : s.Fresh) (he : fitsBits 64 s.reader.expiry = true)
    (hlogs : ∀ k, log.isSealed k = .ok true →
      0 ≤ k ∧ fitsBits 64 k = true ∧ log.Replayable k)
    (hsealed : ∀ k ∈ sealed, 0 ≤ k) : s.BuildsAll log sealed := by
  intro first n _ hbegin hlast
  obtain ⟨_, hfits, _⟩ := hlogs _ hlast
  have hfirst : 0 ≤ first := by
    rcases hbegin with hbegin | ⟨k, hk, hle⟩
    · exact (hlogs first hbegin).1
    · exact Int.le_trans (hsealed k hk) hle
  have hrange (j : Nat) (hj : j ≤ n) :
      fitsBits 64 (s.reader.interval.after first j) = true := by
    have hle : s.reader.interval.after first j ≤ s.reader.interval.after first n :=
      Interval.after_le hj
    have hge : first ≤ s.reader.interval.after first j := Interval.le_after j
    have hzero : fitsBits 64 0 = true := by decide
    exact fitsBits_between hzero hfits (Int.le_trans hfirst hge) hle
  have hrun : log.Buildable s.reader.interval s.reader.expiry first n := by
    constructor
    · intro j hj
      obtain ⟨b, hb⟩ := log.isSealed_of_fits (hrange j hj)
      cases b with
      | false => exact Or.inl hb
      | true => exact (hlogs _ hb).2.2
    · intro j hj
      exact comparable_sub (hrange j (Nat.le_of_lt hj)) he
  have hfree : ∀ j, j ≤ n →
      ¬s.warehouse.Taken s.reader.shared (s.reader.interval.after first j) := by
    intro j _
    exact h.free _
  obtain ⟨s', stores, hbuild, _⟩ :=
    buildEach_of_buildable h.sound.warehouse h.expiry hrun hfree
  refine ⟨stores, ?_⟩
  rw [hbuild]

section Step

variable {first : Int} {n : Nat}

/-- A run that stays within the sealed windows, or consists of a sealed one, may begin. -/
theorem mayBegin_of_inside (hsealed : log.isSealed key = .ok true) (hle : first ≤ key)
    (h : sealed.head?.getD key ≤ first ∨ first = key) : log.MayBegin sealed first := by
  rcases h with h | h
  · cases hhead : sealed.head? with
    | none =>
      -- Without other logs the run is the window itself.
      rw [hhead, Option.getD_none] at h
      have heq : first = key := by omega
      rw [heq]
      exact Or.inl hsealed
    | some k =>
      rw [hhead, Option.getD_some] at h
      exact Or.inr ⟨k, List.mem_of_head? hhead, h⟩
  · rw [h]
    exact Or.inl hsealed

theorem aligned_oldest (ho : log.Orderly s.reader.interval sealed)
    (haligned : s.reader.interval.Aligned key) :
    s.reader.interval.Aligned (sealed.head?.getD key) := by
  cases hhead : sealed.head? with
  | none => exact haligned
  | some k => exact ho.aligned k (List.mem_of_head? hhead)

theorem beginning_of_chained {oldest : Int} (hkey : key ∉ s.reader.cache.keys)
    (hchain : s.reader.Chained key oldest first n) :
    s.beginning begun key oldest =
      if first - s.reader.interval.millis ∈ s.reader.cache.keys then
        begun (first - s.reader.interval.millis) else first := by
  have hhead := hchain.head
  unfold beginning
  rw [if_neg hkey, hhead]

/-- The run for a key that is not kept goes through its chain, from the window it begins with. -/
theorem exists_run (hbegun : s.Begun log sealed begun) (hkey : key ∉ s.reader.cache.keys)
    (haligned : s.reader.interval.Aligned key) (hsealed : log.isSealed key = .ok true)
    (hchain : s.reader.Chained key (sealed.head?.getD key) first n) :
    ∃ a, first = s.reader.interval.after
        (s.beginning begun key (sealed.head?.getD key)) a ∧
      s.Follows log (log.opening (s.beginning begun key (sealed.head?.getD key)))
        (s.beginning begun key (sealed.head?.getD key)) a
        (s.reader.cache.get? (first - s.reader.interval.millis)) ∧
      s.reader.interval.Aligned (s.beginning begun key (sealed.head?.getD key)) ∧
      log.MayBegin sealed (s.beginning begun key (sealed.head?.getD key)) := by
  rw [beginning_of_chained hkey hchain]
  cases hget : s.reader.cache.get? (first - s.reader.interval.millis) with
  | none =>
    rw [if_neg (KeyedList.get?_eq_none_iff.mp hget)]
    refine ⟨0, (s.reader.interval.after_zero first).symm, ⟨rfl, rfl⟩, ?_, ?_⟩
    · rw [hchain.ends] at haligned
      exact Interval.aligned_of_after haligned
    · have hle : first ≤ s.reader.interval.after first n := Interval.le_after n
      rw [← hchain.ends] at hle
      exact mayBegin_of_inside hsealed hle hchain.inside
  | some p =>
    rw [if_pos (mem_keys_of_get? hget)]
    obtain ⟨hal, hbegin, m, hm, hholds⟩ := hbegun _ p hget
    refine ⟨m + 1, ?_, ⟨p, rfl, hholds⟩, hal, hbegin⟩
    rw [s.reader.interval.after_succ, ← hm]
    omega

/-- Loading a sealed window that is not kept gives a store whose rows are those of the run for the
key, and every store that is kept then goes back to the window that its own run began with. -/
theorem load_begun (hs : s.Sound) (htidy : s.Tidy) (hbegun : s.Begun log sealed begun)
    (hkeys : log.sealedKeys = .ok sealed)
    (hall : log.AllBuildable s.reader.interval s.reader.expiry sealed)
    (haligned : s.reader.interval.Aligned key) (hkey : key ∉ s.reader.cache.keys)
    (hsealed : log.isSealed key = .ok true) :
    ∃ s' store m, s.load log key = (s', .ok store) ∧ s.reader.Alike s'.reader ∧ s'.Sound ∧
      s'.Tidy ∧
      s'.Begun log sealed (s.begunAfter log begun key (sealed.head?.getD key)) ∧
      key = s.reader.interval.after (s.beginning begun key (sealed.head?.getD key)) m ∧
      s'.Holds log (log.opening (s.beginning begun key (sealed.head?.getD key)))
        (s.beginning begun key (sealed.head?.getD key)) m store := by
  obtain ⟨first, n, hchain⟩ := s.reader.exists_chain key (sealed.head?.getD key)
  obtain ⟨a, hfirst, hprev, hal, hbegin⟩ := exists_run hbegun hkey haligned hsealed hchain
  rw [hfirst] at hchain hprev
  have hlast : s.reader.interval.after (s.beginning begun key (sealed.head?.getD key)) (a + n) =
      key := hchain.after_add
  have hrun := hall _ (a + n) hal hbegin (by rw [hlast]; exact hsealed)
  have hready : ∀ j, a ≤ j → j ≤ a + n →
      s.Ready log (log.opening (s.beginning begun key (sealed.head?.getD key)))
        (s.beginning begun key (sealed.head?.getD key)) j := by
    intro j ha hn
    refine ⟨htidy.free hs (unkept_of_chained hchain hkey j ha hn), ?_, hrun.replayable j hn⟩
    intro m hm
    exact hrun.comparable m (by omega)
  obtain ⟨s', store, hload, hgrows, hnewest, hholds, _⟩ :=
    loadSealed_of_ready hs hkeys hchain hkey hprev hready
  rw [← load_of_sealed haligned hkey hsealed] at hload
  have hbuilds : s.Builds log key := ⟨haligned, hkey, toOption_isSealed.mpr hsealed⟩
  refine ⟨s', store, a + n, hload, hgrows.alike, hgrows.sound, hgrows.tidy htidy, ?_, hlast.symm,
    ?_⟩
  · intro k st hget
    rw [hgrows.alike.interval]
    -- The stores of the chain belong to the run for the key, and all others to their old runs.
    by_cases hk : k ∈ s.reader.chain key (sealed.head?.getD key)
    · have hafter : s.begunAfter log begun key (sealed.head?.getD key) k =
          s.beginning begun key (sealed.head?.getD key) := if_pos ⟨hbuilds, hk⟩
      rw [hafter]
      obtain ⟨j, ha, hn, rfl⟩ := (mem_chain_iff hchain).mp hk
      exact ⟨hal, hbegin, j, rfl, hholds j st ha hn hget⟩
    · have hafter : s.begunAfter log begun key (sealed.head?.getD key) k = begun k :=
        if_neg fun h => hk h.2
      rw [hafter]
      have hnew : ¬∃ j, a ≤ j ∧ j ≤ a + n ∧ k = s.reader.interval.after
          (s.beginning begun key (sealed.head?.getD key)) j :=
        fun h => hk ((mem_chain_iff hchain).mpr h)
      obtain ⟨hal', hbegin', m, hm, hold⟩ := hbegun k st (hgrows.cache hget hnew)
      exact ⟨hal', hbegin', m, hm, hold.of_grows hgrows hget hnew⟩
  · rw [← hlast] at hnewest
    exact hholds (a + n) store (by omega) (Nat.le_refl _) hnewest

/-- What every call of a reader preserves, where all runs can be built. -/
structure Traced (s₀ : Correlation) (log : EventLog) (sealed : List Int) (s : Correlation)
    (begun : Int → Int) : Prop where
  alike : s₀.reader.Alike s.reader
  sound : s.Sound
  tidy : s.Tidy
  begun : s.Begun log sealed begun

theorem begunAfter_of_not_builds {oldest : Int} (h : ¬s.Builds log key) :
    s.begunAfter log begun key oldest = begun := by
  funext k
  exact if_neg fun hb => h hb.1

variable {s₀ : Correlation}

/-- A call keeps track of where every store that is kept comes from. -/
theorem Traced.call (h : s₀.Traced log sealed s begun) (hkeys : log.sealedKeys = .ok sealed)
    (hall : log.AllBuildable s₀.reader.interval s₀.reader.expiry sealed) (c : Call) :
    s₀.Traced log sealed (s.call log c)
      (s.begunAfter log begun c.key (sealed.head?.getD c.key)) := by
  rw [← h.alike.interval, ← h.alike.expiry] at hall
  rw [call_eq]
  by_cases hbuilds : s.Builds log c.key
  · -- Only a call that builds stores changes where stores come from.
    obtain ⟨haligned, hkey, hanswer⟩ := hbuilds
    obtain ⟨s', store, m, hload, halike, hsound, htidy, hbegun, _⟩ :=
      load_begun h.sound h.tidy h.begun hkeys hall haligned hkey (toOption_isSealed.mp hanswer)
    rw [hload]
    exact ⟨h.alike.trans halike, hsound, htidy, hbegun⟩
  · rw [begunAfter_of_not_builds hbuilds]
    by_cases haligned : s.reader.interval.Aligned c.key
    · cases hget : s.reader.cache.get? c.key with
      | some store =>
        rw [load_of_kept haligned hget]
        have hgrows := grows_touch h.sound hget
        refine ⟨h.alike.trans hgrows.alike, hgrows.sound, hgrows.tidy h.tidy, ?_⟩
        intro k st hkept
        obtain ⟨hal, hbegin, m, hm, hholds⟩ := h.begun k st (hgrows.cache hkept id)
        exact ⟨hal, hbegin, m, hm, hholds.of_grows hgrows hkept id⟩
      | none =>
        have hkey : c.key ∉ s.reader.cache.keys := KeyedList.get?_eq_none_iff.mp hget
        have hsealed : log.isSealed c.key ≠ .ok true :=
          fun hs => hbuilds ⟨haligned, hkey, toOption_isSealed.mpr hs⟩
        rw [load_of_not_sealed haligned hkey hsealed]
        exact h
    · rw [load_of_misaligned haligned]
      exact h

theorem Traced.callAll (h : s₀.Traced log sealed s begun) (hkeys : log.sealedKeys = .ok sealed)
    (hall : log.AllBuildable s₀.reader.interval s₀.reader.expiry sealed) (calls : List Call) :
    s₀.Traced log sealed (s.callAll log calls) (s.begunIn log sealed begun calls) := by
  induction calls generalizing s begun with
  | nil => exact h
  | cons c rest ih => exact ih (h.call hkeys hall c)

/-- A window that is kept or sealed is loaded, and its rows are those of the run for its key. -/
theorem Traced.load_eq (h : s₀.Traced log sealed s begun) (hkeys : log.sealedKeys = .ok sealed)
    (hall : log.AllBuildable s₀.reader.interval s₀.reader.expiry sealed)
    (haligned : s₀.reader.interval.Aligned key)
    (hthere : key ∈ s.reader.cache.keys ∨ log.isSealed key = .ok true) :
    ∃ s' store m, s.load log key = (s', .ok store) ∧
      s₀.reader.interval.Aligned (s.beginning begun key (sealed.head?.getD key)) ∧
      key = s₀.reader.interval.after (s.beginning begun key (sealed.head?.getD key)) m ∧
      store.horizon = key - s₀.reader.expiry ∧
      s'.warehouse.rows store = .ok (log.tableAfter s₀.reader.interval s₀.reader.expiry
        (s.beginning begun key (sealed.head?.getD key)) m) := by
  rw [← h.alike.interval, ← h.alike.expiry] at *
  cases hget : s.reader.cache.get? key with
  | some store =>
    have hbeginning : s.beginning begun key (sealed.head?.getD key) = begun key :=
      if_pos (mem_keys_of_get? hget)
    obtain ⟨hal, _, m, hm, hholds⟩ := h.begun key store hget
    rw [hbeginning]
    refine ⟨_, store, m, load_of_kept haligned hget, hal, hm, ?_, hholds.rows⟩
    rw [hholds.horizon, ← hm]
  | none =>
    have hkey : key ∉ s.reader.cache.keys := KeyedList.get?_eq_none_iff.mp hget
    have hsealed := hthere.resolve_left hkey
    obtain ⟨first, n, hchain⟩ := s.reader.exists_chain key (sealed.head?.getD key)
    obtain ⟨_, _, _, hal, _⟩ := exists_run h.begun hkey haligned hsealed hchain
    obtain ⟨s', store, m, hload, halike, _, _, _, hm, hholds⟩ :=
      load_begun h.sound h.tidy h.begun hkeys hall haligned hkey hsealed
    have hrows := hholds.rows
    rw [halike.interval, halike.expiry] at hrows
    refine ⟨s', store, m, hload, hal, hm, ?_, hrows⟩
    rw [hholds.horizon, halike.interval, halike.expiry, ← hm]

/-- The run for a key reaches back far enough if those in which the stores that are kept were built
do so. -/
theorem reaches_beginning (he : 0 ≤ s.reader.expiry) (ho : log.Orderly s.reader.interval sealed)
    (haligned : s.reader.interval.Aligned key)
    (h : ∀ k ∈ s.reader.cache.keys,
      EventLog.Reaches s.reader.interval s.reader.expiry sealed (begun k) key) :
    EventLog.Reaches s.reader.interval s.reader.expiry sealed
      (s.beginning begun key (sealed.head?.getD key)) key := by
  by_cases hkey : key ∈ s.reader.cache.keys
  · have hbeginning : s.beginning begun key (sealed.head?.getD key) = begun key := if_pos hkey
    rw [hbeginning]
    exact h key hkey
  · obtain ⟨first, n, hchain⟩ := s.reader.exists_chain key (sealed.head?.getD key)
    rw [beginning_of_chained hkey hchain]
    by_cases hkept : first - s.reader.interval.millis ∈ s.reader.cache.keys
    · rw [if_pos hkept]
      exact h _ hkept
    · rw [if_neg hkept]
      rcases hchain.reaches he haligned (aligned_oldest ho haligned) hkept with hle | hle
      · left
        intro k hk
        have hhead := EventLog.head_le_of_mem ho.keys hk key
        omega
      · exact Or.inr hle

theorem Fresh.traced (h : s.Fresh) : s.Traced log sealed s begun :=
  ⟨.of_eq rfl, h.sound, h.tidy, begun_of_fresh h⟩

end Step

/-- Logs of three windows. The first starts a request and the second ends it. -/
def crossingFiles : List (Int × List UInt8) :=
  [(10, EventLog.linesOf [halfOfA 15 .start ∅]),
    (20, EventLog.linesOf [halfOfA 25 .finish ∅]),
    (30, EventLog.linesOf [halfOfB 35 .start ∅])]

theorem orderly_crossing :
    (EventLog.ofFiles crossingFiles).Orderly (tenMillis 0).reader.interval [10, 20, 30] := by
  have hkeys : (EventLog.ofFiles crossingFiles).sealedKeys = .ok [10, 20, 30] := by rfl
  apply EventLog.orderly_ofFiles hkeys
  · decide
  · decide +kernel

theorem buildsAll_crossing :
    (tenMillis 0).BuildsAll (EventLog.ofFiles crossingFiles) [10, 20, 30] := by
  apply (fresh_tenMillis (by decide)).buildsAll (by decide)
  · apply EventLog.forall_isSealed_ofFiles
    decide +kernel
  · decide

end Correlation

end RequestWindows
