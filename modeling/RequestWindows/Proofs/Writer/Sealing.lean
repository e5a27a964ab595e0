import Mathlib.Data.List.Induction
import RequestWindows.Proofs.Writer.Run

namespace RequestWindows

namespace Ingestion

/-- The windows that a rotation tries to seal. -/
def rotationKeys (s : Ingestion) (reference : Int) : List Int :=
  if s.writer.lastReference = none ∨ s.writer.lastReference = some reference then []
  else (s.writer.openKeys.filter (· < reference)).toList

/-- What comes of sealing some windows one after another. -/
def trials (s : Ingestion) : List Int → List (Except LogError Bool)
  | [] => []
  | key :: rest => (s.log.sealWindow key).map Prod.snd :: (s.sealOpen key).1.trials rest

/-- What comes of each seal that a drain tries. -/
def drainTrials (s : Ingestion) (now : Int) : List (Except LogError Bool) :=
  if s.writer.enabled then
    (s.begun now).trials ((s.begun now).rotationKeys (s.writer.reference now))
  else []

/-- The windows whose logs a drain seals. -/
def drainSeals (s : Ingestion) (now : Int) : List Int :=
  if s.writer.enabled then ((s.begun now).rotate (s.writer.reference now)).2 else []

/-- What comes of each seal that an action tries. -/
def sealTrials (s : Ingestion) : Action → List (Except LogError Bool)
  | .drain now => s.drainTrials now
  | .put _ | .cleanup _ | .enable _ | .fail _ => []

/-- The windows whose logs an action seals. -/
def sealings (s : Ingestion) : Action → List Int
  | .drain now => s.drainSeals now
  | .put _ | .cleanup _ | .enable _ | .fail _ => []

/-- The windows that an action reports as sealed. -/
def reportedSealed (s : Ingestion) : Action → List Int
  | .drain now =>
    match (s.drain now).2 with
    | .ok r => r.sealed
    | .error _ => []
  | .put _ | .cleanup _ | .enable _ | .fail _ => []

section Reports

variable (s : Ingestion)

theorem rotate_eq_sealAll (reference : Int) :
    s.rotate reference = s.sealAll (s.rotationKeys reference) := by
  unfold rotate rotationKeys
  split <;> rfl

/-- A drain reports what it seals, unless it breaks off or its cleanup is refused. -/
theorem reportedSealed_sublist (a : Action) : (s.reportedSealed a).Sublist (s.sealings a) := by
  cases a with
  | drain now =>
    rw [reportedSealed, sealings, drainSeals]
    split
    · next r hr =>
      by_cases hon : s.writer.enabled = true
      · rw [if_pos hon]
        have hsealed := congrArg DrainReport.sealed (report_of_enabled now hon hr).2.1
        exact hsealed ▸ List.Sublist.refl _
      · rw [(report_of_not_enabled now hon hr).1]
        exact List.nil_sublist _
    · exact List.nil_sublist _
  | _ => exact List.Sublist.refl _

theorem observe_sublist {α : Type} {f g : Ingestion → Action → List α}
    (h : ∀ s a, (f s a).Sublist (g s a)) (actions : List Action) :
    (observe f s actions).Sublist (observe g s actions) := by
  induction actions generalizing s with
  | nil => exact List.Sublist.refl _
  | cons a rest ih => exact (h s a).append (ih (s.act a))

end Reports

end Ingestion

namespace EventLog

/-- What the logs look like when the windows `past` have been sealed, each of them once. -/
structure SealedOnce (log : EventLog) (past : List Int) : Prop where
  nodup : past.Nodup
  closed : ∀ k ∈ past, log.logAt k false = none
  known : ∀ k, log.logAt k true ≠ none → k ∈ past

variable {log log' : EventLog} {past : List Int} {key : Int}

theorem SealedOnce.seal (h : log.SealedOnce past) (hseal : log.sealWindow key = .ok (log', true)) :
    log'.SealedOnce (past ++ [key]) := by
  rcases sealWindow_cases hseal with ⟨hfalse, _⟩ | ⟨_, _, _, e, he, hafter⟩
  · cases hfalse
  -- A window that has been sealed has no open log, and without one there is nothing to seal.
  have hnew : key ∉ past := by
    intro hk
    rw [h.closed key hk] at he
    cases he
  refine ⟨?_, ?_, ?_⟩
  · rw [List.nodup_append]
    refine ⟨h.nodup, List.nodup_cons.mpr ⟨List.not_mem_nil, List.nodup_nil⟩, ?_⟩
    intro a ha b hb hab
    rw [List.mem_singleton] at hb
    rw [hab, hb] at ha
    exact hnew ha
  · intro k hk
    rw [hafter]
    split
    · rfl
    · next hne =>
      apply h.closed k
      exact (List.mem_append.mp hk).resolve_right fun hm => hne (List.mem_singleton.mp hm)
  · intro k hk
    rw [hafter] at hk
    split at hk
    · next heq => exact List.mem_append_right _ (List.mem_singleton.mpr heq)
    · exact List.mem_append_left _ (h.known k hk)

theorem SealedOnce.seals {keys : List Int} (hseals : Ingestion.Seals log keys log')
    (h : log.SealedOnce past) : log'.SealedOnce (past ++ keys) := by
  induction hseals generalizing past with
  | nil log =>
    rw [List.append_nil]
    exact h
  | cons first _ ih =>
    have hrest := ih (h.seal first)
    rw [List.append_assoc] at hrest
    exact hrest

/-- Adding to a window that has not been sealed keeps the sealed ones closed. -/
theorem SealedOnce.addBytes {bytes : List UInt8} (h : log.SealedOnce past) (hkey : key ∉ past)
    (hadd : log.addBytes key bytes = .ok log') : log'.SealedOnce past := by
  have hafter := logAt_of_addBytes hadd
  refine ⟨h.nodup, ?_, ?_⟩
  · intro k hk
    rw [hafter, if_neg]
    · exact h.closed k hk
    · rintro ⟨rfl, _⟩
      exact hkey hk
  · intro k hk
    apply h.known k
    rw [hafter, if_neg (fun hc => Bool.noConfusion hc.2)] at hk
    exact hk

theorem SealedOnce.delete (h : log.SealedOnce past) (keys : List Int) :
    (log.delete keys).1.SealedOnce past := by
  obtain ⟨⟨gone, hgone⟩, _⟩ := log.delete_deleted keys
  have hleft : ∀ k b, (log.delete keys).1.logAt k b = none ∨
      (log.delete keys).1.logAt k b = log.logAt k b := by
    intro k b
    have hk := hgone.left k b
    split at hk
    · exact Or.inl hk
    · exact Or.inr hk
  refine ⟨h.nodup, ?_, ?_⟩
  · intro k hk
    rcases hleft k false with hnone | hsame
    · exact hnone
    · rw [hsame]
      exact h.closed k hk
  · intro k hk
    rcases hleft k true with hnone | hsame
    · exact absurd hnone hk
    · rw [hsame] at hk
      exact h.known k hk

theorem SealedOnce.not_both (h : log.SealedOnce past) (k : Int) :
    log.logAt k true = none ∨ log.logAt k false = none := by
  by_cases hk : log.logAt k true = none
  · exact Or.inl hk
  · exact Or.inr (h.closed k (h.known k hk))

theorem SealedOnce.not_alreadySealed (h : log.SealedOnce past) (j k : Int) :
    log.sealWindow j ≠ .error (.alreadySealed k) := by
  intro hseal
  obtain ⟨hopen, hsealed⟩ := both_of_alreadySealed hseal
  exact hopen (h.closed j (h.known j hsealed))

end EventLog

namespace Ingestion

section Steps

variable {s : Ingestion} {past : List Int} {key : Int}

theorem sealedOnce_trials (h : s.log.SealedOnce past) (keys : List Int) (k : Int) :
    .error (.alreadySealed k) ∉ s.trials keys := by
  induction keys generalizing s past with
  | nil => exact List.not_mem_nil
  | cons key rest ih =>
    intro hmem
    rcases List.mem_cons.mp hmem with heq | hmem
    · cases hs : s.log.sealWindow key with
      | error e =>
        rw [hs] at heq
        have he : LogError.alreadySealed k = e := Except.error.inj heq
        rw [← he] at hs
        exact h.not_alreadySealed key k hs
      | ok r =>
        rw [hs] at heq
        cases heq
    · obtain ⟨_, ⟨_, hsame⟩ | ⟨_, hseal⟩⟩ := s.sealOpen_cases key
      · rw [← hsame] at h
        exact ih h hmem
      · exact ih (h.seal hseal) hmem

theorem sealedOnce_appendBatch (h : s.log.SealedOnce past) (hkey : key ∉ past)
    (events : List Event) : (s.appendBatch key events).1.log.SealedOnce past := by
  obtain ⟨_, hsame | ⟨_, _, _, hadd⟩⟩ := s.appendBatch_cases key events
  · rw [hsame]
    exact h
  · exact h.addBytes hkey hadd

theorem sealedOnce_cleanup (h : s.log.SealedOnce past) (now : Int) :
    (s.cleanup now).1.log.SealedOnce past := by
  have hcase := s.cleanup_cleanup now
  cases hc : s.cleanup now with
  | mk t outcome =>
    rw [hc] at hcase
    cases hcase with
    | unstarted _ => exact h
    | early _ _ => exact h
    | refused _ _ _ => exact h
    | due _ _ _ => exact h.delete _

theorem lt_of_mem_drainSeals {now k : Int} (hk : k ∈ s.drainSeals now) :
    k < s.writer.reference now := by
  unfold drainSeals at hk
  by_cases hon : s.writer.enabled = true
  · rw [if_pos hon] at hk
    exact ((s.begun now).rotate_seals (s.writer.reference now)).2.2.2 k hk
  · rw [if_neg hon] at hk
    cases hk

/-- A drain whose reference window lies behind all sealed windows seals others, each once. -/
theorem sealedOnce_drain {now : Int} (h : s.log.SealedOnce past)
    (hbefore : ∀ k ∈ past, k < s.writer.reference now) :
    (s.drain now).1.log.SealedOnce (past ++ s.drainSeals now) := by
  by_cases hon : s.writer.enabled = true
  · have hseals : s.drainSeals now =
        ((s.begun now).rotate (s.writer.reference now)).2 := if_pos hon
    have hall : ∀ k ∈ past ++ s.drainSeals now, k < s.writer.reference now := by
      intro k hk
      rcases List.mem_append.mp hk with hk | hk
      · exact hbefore k hk
      · exact lt_of_mem_drainSeals hk
    have hrotated : (s.rotated now).log.SealedOnce (past ++ s.drainSeals now) := by
      rw [hseals]
      exact h.seals ((s.begun now).rotate_seals (s.writer.reference now)).2.1
    -- What has been sealed is neither the reference window nor the one after it.
    have hcurrent : s.writer.reference now ∉ past ++ s.drainSeals now := by
      intro hk
      exact Int.lt_irrefl _ (hall _ hk)
    have hnext : s.writer.reference now + s.writer.interval.millis ∉
        past ++ s.drainSeals now := by
      intro hk
      have hlt := hall _ hk
      have hpos := s.writer.interval.pos
      omega
    have hhalf := sealedOnce_appendBatch hrotated hcurrent (s.drainedFor (s.writer.reference now))
    have hrouted : (s.routed now).log.SealedOnce (past ++ s.drainSeals now) := by
      rw [log_routed]
      exact sealedOnce_appendBatch hhalf hnext (s.upcoming now)
    exact drain_cases (P := fun t => t.log.SealedOnce (past ++ s.drainSeals now)) now hon
      (fun _ => hrouted) fun _ => sealedOnce_cleanup hrouted now
  · have hseals : s.drainSeals now = [] := if_neg hon
    rw [drain_of_not_enabled now hon, hseals, List.append_nil]
    exact h

theorem sealedOnce_act {a : Action} (h : s.log.SealedOnce past)
    (hbefore : ∀ now, a = .drain now → ∀ k ∈ past, k < s.writer.reference now) :
    (s.act a).log.SealedOnce (past ++ s.sealings a) := by
  cases a with
  | drain now => exact sealedOnce_drain h (hbefore now rfl)
  | cleanup now =>
    rw [sealings, List.append_nil]
    exact sealedOnce_cleanup h now
  | put o =>
    rw [sealings, List.append_nil]
    exact h
  | enable on =>
    rw [sealings, List.append_nil]
    exact h
  | fail faults =>
    rw [sealings, List.append_nil]
    exact ⟨h.nodup, h.closed, h.known⟩

end Steps

section Runs

variable {s : Ingestion}

theorem drainTimes_concat (actions : List Action) (a : Action) :
    drainTimes (actions ++ [a]) = drainTimes actions ++ drainTimes [a] := List.filterMap_append

/-- What a run seals lies before the reference window of every later drain. -/
theorem sealedOnce_perform (hfresh : ∀ k, s.log.logAt k true = none) (actions : List Action)
    (hclock : (drainTimes actions).Pairwise (· ≤ ·)) :
    (s.perform actions).log.SealedOnce (observe sealings s actions) ∧
      ∀ now, (∀ t ∈ drainTimes actions, t ≤ now) →
        ∀ k ∈ observe sealings s actions, k < s.writer.reference now := by
  -- By induction on the run from its end. That what is sealed lies before later reference windows
  -- keeps later drains from opening it again.
  induction actions using List.reverseRecOn with
  | nil =>
    refine ⟨⟨List.nodup_nil, ?_, ?_⟩, ?_⟩
    · intro k hk
      cases hk
    · intro k hk
      exact absurd (hfresh k) hk
    · intro now _ k hk
      cases hk
  | append_singleton earlier a ih =>
    rw [drainTimes_concat, List.pairwise_append] at hclock
    obtain ⟨hearlier, _, hlast⟩ := hclock
    obtain ⟨honce, hbefore⟩ := ih hearlier
    rw [perform_concat, observe_concat]
    refine ⟨?_, ?_⟩
    · apply sealedOnce_act honce
      rintro now rfl k hk
      rw [reference_perform]
      exact hbefore now (fun t ht => hlast t ht now (.head _)) k hk
    · intro now hnow k hk
      rw [drainTimes_concat] at hnow
      rcases List.mem_append.mp hk with hk | hk
      · exact hbefore now (fun t ht => hnow t (List.mem_append_left _ ht)) k hk
      · cases a with
        | drain t =>
          have hlt := lt_of_mem_drainSeals hk
          rw [reference_perform] at hlt
          have hmono := reference_mono s.writer (hnow t (List.mem_append_right _ (.head _)))
          omega
        | _ => cases hk

theorem not_alreadySealed_perform (hfresh : ∀ k, s.log.logAt k true = none)
    (actions : List Action) (hclock : (drainTimes actions).Pairwise (· ≤ ·)) (k : Int) :
    .error (.alreadySealed k) ∉ observe sealTrials s actions := by
  induction actions using List.reverseRecOn with
  | nil => exact List.not_mem_nil
  | append_singleton earlier a ih =>
    rw [drainTimes_concat, List.pairwise_append] at hclock
    rw [observe_concat]
    intro hmem
    rcases List.mem_append.mp hmem with hmem | hmem
    · exact ih hclock.1 hmem
    · have hbefore := (sealedOnce_perform hfresh earlier hclock.1).1
      cases a with
      | drain now =>
        change _ ∈ (s.perform earlier).drainTrials now at hmem
        unfold drainTrials at hmem
        by_cases hon : (s.perform earlier).writer.enabled = true
        · rw [if_pos hon] at hmem
          exact sealedOnce_trials (s := (s.perform earlier).begun now) hbefore _ k hmem
        · rw [if_neg hon] at hmem
          cases hmem
      | _ => cases hmem

end Runs

/-- If the times of the drains do not go back, sealing happens at most once for each window: no
window ever has both logs, none is reported as sealed twice, none that is sealed has an open log
again, and no seal is tried where there is a sealed log already. -/
theorem sealed_once (s : Ingestion) (actions : List Action)
    (hfresh : ∀ k, s.log.logAt k true = none) (hclock : (drainTimes actions).Pairwise (· ≤ ·)) :
    (∀ k, (s.perform actions).log.logAt k true = none ∨
        (s.perform actions).log.logAt k false = none) ∧
      (observe reportedSealed s actions).Nodup ∧
      (∀ earlier later, actions = earlier ++ later → ∀ k,
        k ∈ observe reportedSealed s earlier ∨ (s.perform earlier).log.logAt k true ≠ none →
          (s.perform actions).log.logAt k false = none) ∧
      ∀ k, .error (.alreadySealed k) ∉ observe sealTrials s actions := by
  obtain ⟨honce, _⟩ := sealedOnce_perform hfresh actions hclock
  refine ⟨honce.not_both, ?_, ?_, ?_⟩
  · exact honce.nodup.sublist (observe_sublist s reportedSealed_sublist actions)
  · rintro earlier later rfl k hk
    apply honce.closed k
    rw [observe_append]
    apply List.mem_append_left
    rcases hk with hk | hk
    · exact (observe_sublist s reportedSealed_sublist earlier).subset hk
    · have htimes : drainTimes (earlier ++ later) = drainTimes earlier ++ drainTimes later :=
        List.filterMap_append
      rw [htimes, List.pairwise_append] at hclock
      exact (sealedOnce_perform hfresh earlier hclock.1).1.known k hk
  · exact not_alreadySealed_perform hfresh actions hclock

/-- The first window, which can be sealed only at a second try, is deleted right after it. -/
def lateSeal : List Action :=
  [.put (.event (startAt 5)), .drain 15, .fail { Faults.none with seals := [0] }, .drain 25,
    .fail Faults.none, .drain 35, .put (.event (startAt 5)), .drain 36]

theorem late_seal_once :
    (∀ k, tenMillis.log.logAt k true = none) ∧ (drainTimes lateSeal).Pairwise (· ≤ ·) ∧
      observe reportedSealed tenMillis lateSeal = [0] ∧
      (observe reportedSealed tenMillis lateSeal).Nodup ∧
      (tenMillis.perform lateSeal).log.logAt 0 false = none ∧
      .error (.alreadySealed 0) ∉ observe sealTrials tenMillis lateSeal := by
  have hfresh : ∀ k, tenMillis.log.logAt k true = none := by
    intro k
    rfl
  have hclock : (drainTimes lateSeal).Pairwise (· ≤ ·) := by decide
  have hreported : observe reportedSealed tenMillis lateSeal = [0] := by decide +kernel
  obtain ⟨_, hnodup, hclosed, htrials⟩ := sealed_once tenMillis lateSeal hfresh hclock
  refine ⟨hfresh, hclock, hreported, hnodup, ?_, htrials 0⟩
  apply hclosed lateSeal [] (List.append_nil _).symm
  left
  rw [hreported]
  exact .head _

end Ingestion

end RequestWindows
