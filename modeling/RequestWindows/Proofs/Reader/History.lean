import RequestWindows.Proofs.Reader.Provenance

/-! A store that was built on the way to a later window was built in a run that is cut off for that
window. This is how earlier questions can change later answers. -/
namespace RequestWindows

/-- All that a reader can be asked about a window. -/
structure Answers where
  grouped : Except ReaderError (List Request)
  latencies : Except ReaderError (List CompletedRequest)
  aggregates : Except ReaderError (List OperationAggregate)
  inFlight : Except ReaderError (List Request)

namespace Correlation

def answers (s : Correlation) (log : EventLog) (key : Int) : Answers :=
  ⟨(s.groupedRows log key).2, (s.latencyRows log key).2, (s.aggregateRows log key).2,
    (s.inFlightRows log key).2⟩

variable {s s' : Correlation} {log : EventLog} {sealed : List Int} {begun : Int → Int} {key : Int}

theorem answers_of_error {e : ReaderError} (h : s.load log key = (s', .error e)) :
    s.answers log key = ⟨.error e, .error e, .error e, .error e⟩ := by
  unfold answers groupedRows latencyRows aggregateRows inFlightRows query
  simp only [h]

theorem answers_of_load {store : WindowStore} (h : s.load log key = (s', .ok store)) :
    s.answers log key = ⟨(s'.warehouse.grouped store).mapError .store,
      (s'.warehouse.latencies store).mapError .store,
      (s'.warehouse.aggregates store).mapError .store,
      (s'.warehouse.inFlight store).mapError .store⟩ := by
  unfold answers groupedRows latencyRows aggregateRows inFlightRows query
  simp only [h]

theorem answers_congr {t t' : Correlation} {store store' : WindowStore}
    (h : s.load log key = (t, .ok store)) (h' : s'.load log key = (t', .ok store'))
    (hrows : t.warehouse.rows store = t'.warehouse.rows store')
    (hhorizon : store.horizon = store'.horizon) : s.answers log key = s'.answers log key := by
  obtain ⟨hgrouped, hlatencies, haggregates, hinFlight⟩ := Warehouse.views_congr hrows hhorizon
  rw [answers_of_load h, answers_of_load h', hgrouped, hlatencies, haggregates, hinFlight]

theorem grouped_of_rows {store : WindowStore} {t : Table} (h : s.load log key = (s', .ok store))
    (hrows : s'.warehouse.rows store = .ok t) :
    (s.answers log key).grouped = .ok t.requests := by
  rw [answers_of_load h]
  unfold Warehouse.grouped
  rw [hrows]
  rfl

variable {s₀ : Correlation}

theorem Fresh.not_overlooks (h : s₀.Fresh) (ho : log.Orderly s₀.reader.interval sealed)
    (haligned : s₀.reader.interval.Aligned key)
    (hal : s₀.reader.interval.Aligned (s₀.beginning begun key (sealed.head?.getD key))) :
    ¬log.Overlooks s₀.reader.interval s₀.reader.expiry
      (s₀.beginning begun key (sealed.head?.getD key)) key := by
  have hreaches : EventLog.Reaches s₀.reader.interval s₀.reader.expiry sealed
      (s₀.beginning begun key (sealed.head?.getD key)) key := by
    apply reaches_beginning h.expiry ho haligned
    intro k hk
    rw [h.cache] at hk
    exact absurd hk List.not_mem_nil
  exact EventLog.not_overlooks_of_reaches ho hal hreaches

section Traced

variable (hfresh : s₀.Fresh) (ho : log.Orderly s₀.reader.interval sealed)
  (hall : log.AllBuildable s₀.reader.interval s₀.reader.expiry sealed)
  (htraced : s₀.Traced log sealed s begun) (haligned : s₀.reader.interval.Aligned key)
include hfresh ho hall htraced haligned

theorem answers_eq_iff_of_sealed (hsealed : log.isSealed key = .ok true) :
    s.answers log key = s₀.answers log key ↔
      ¬log.Overlooks s₀.reader.interval s₀.reader.expiry
        (s.beginning begun key (sealed.head?.getD key)) key := by
  have hstart : s₀.Traced log sealed s₀ id := hfresh.traced
  obtain ⟨s₁, st₁, n₁, hload₁, hal₁, hkey₁, hhorizon₁, hrows₁⟩ :=
    htraced.load_eq ho.keys hall haligned (Or.inr hsealed)
  obtain ⟨s₂, st₂, n₂, hload₂, hal₂, hkey₂, hhorizon₂, hrows₂⟩ :=
    hstart.load_eq ho.keys hall haligned (Or.inr hsealed)
  have hnothing : ¬log.Overlooks s₀.reader.interval s₀.reader.expiry
      (s₀.beginning id key (sealed.head?.getD key)) key := hfresh.not_overlooks ho haligned hal₂
  constructor
  · intro heq hoverlooks
    have hgrouped := congrArg Answers.grouped heq
    rw [grouped_of_rows hload₁ hrows₁, grouped_of_rows hload₂ hrows₂] at hgrouped
    have hle : s.beginning begun key (sealed.head?.getD key) ≤ key :=
      Int.le_trans (Interval.le_after n₁) (Int.le_of_eq hkey₁.symm)
    exact EventLog.requests_ne_of_overlooks ho hal₁ hal₂ hkey₁ hkey₂ hnothing hoverlooks hle
      (Except.ok.inj hgrouped)
  · intro hnot
    have hsame := EventLog.tableAfter_eq_of_not_overlooks ho hal₁ hal₂ hkey₁ hkey₂ hnothing hnot
    apply answers_congr hload₁ hload₂
    · rw [hrows₁, hrows₂, hsame]
    · rw [hhorizon₁, hhorizon₂]

theorem answers_eq_iff_of_not_sealed (hsealed : log.isSealed key ≠ .ok true) :
    s.answers log key = s₀.answers log key ↔ key ∉ s.reader.cache.keys := by
  have hrefused := load_of_not_sealed haligned (hfresh.unkept key) hsealed
  constructor
  · intro heq hkept
    -- A store that is kept answers with rows, where the window is refused without it.
    obtain ⟨s₁, st₁, n₁, hload₁, _, _, _, hrows₁⟩ :=
      htraced.load_eq ho.keys hall haligned (Or.inl hkept)
    have hgrouped := congrArg Answers.grouped heq
    rw [grouped_of_rows hload₁ hrows₁, answers_of_error hrefused] at hgrouped
    cases hgrouped
  · intro hnot
    rw [← htraced.alike.interval] at haligned
    have hrefused' := load_of_not_sealed haligned hnot hsealed
    rw [answers_of_error hrefused, answers_of_error hrefused']

end Traced

/-- After any calls a reader answers for a window as one that has not been asked anything does,
exactly if the window is sealed or its store not kept, and no request is overlooked that started
before the run in which its rows were built. -/
theorem answers_eq_fresh_iff (hfresh : s₀.Fresh) (ho : log.Orderly s₀.reader.interval sealed)
    (hall : s₀.BuildsAll log sealed) (calls : List Call)
    (haligned : s₀.reader.interval.Aligned key) :
    (s₀.callAll log calls).answers log key = s₀.answers log key ↔
      (key ∈ (s₀.callAll log calls).reader.cache.keys → log.isSealed key = .ok true) ∧
      (log.isSealed key = .ok true →
        ¬log.Overlooks s₀.reader.interval s₀.reader.expiry
          ((s₀.callAll log calls).beginning (s₀.begunIn log sealed id calls) key
            (sealed.head?.getD key)) key) := by
  have hbuildable := hall.allBuildable hfresh.sound
  have hstart : s₀.Traced log sealed s₀ id := hfresh.traced
  have htraced := hstart.callAll ho.keys hbuildable calls
  by_cases hsealed : log.isSealed key = .ok true
  · rw [answers_eq_iff_of_sealed hfresh ho hbuildable htraced haligned hsealed]
    constructor
    · intro hnot
      exact ⟨fun _ => hsealed, fun _ => hnot⟩
    · rintro ⟨_, hnot⟩
      exact hnot hsealed
  · rw [answers_eq_iff_of_not_sealed hfresh ho hbuildable htraced haligned hsealed]
    constructor
    · intro hunkept
      exact ⟨fun hkept => absurd hkept hunkept, fun h => absurd h hsealed⟩
    · rintro ⟨hkept, _⟩ hmem
      exact hsealed (hkept hmem)

theorem same_answers_after_neighbour :
    ((tenMillis 0).callAll (.ofFiles crossingFiles) [.load 20]).answers
        (.ofFiles crossingFiles) 30 =
      (tenMillis 0).answers (.ofFiles crossingFiles) 30 := by
  have hal : (tenMillis 0).reader.interval.Aligned 30 := by decide
  have hsealed : (EventLog.ofFiles crossingFiles).isSealed 30 = .ok true := by rfl
  rw [answers_eq_fresh_iff (fresh_tenMillis (by decide)) orderly_crossing buildsAll_crossing
    [.load 20] hal]
  refine ⟨fun _ => hsealed, fun _ => ?_⟩
  have hbeginning : ((tenMillis 0).callAll (.ofFiles crossingFiles) [.load 20]).beginning
      ((tenMillis 0).begunIn (.ofFiles crossingFiles) [10, 20, 30] id [.load 20]) 30 10 = 10 := by
    decide +kernel
  have hfirst : (tenMillis 0).reader.interval.Aligned 10 := by decide
  have hreaches : ¬(EventLog.ofFiles crossingFiles).Overlooks (tenMillis 0).reader.interval
      (tenMillis 0).reader.expiry 10 30 :=
    EventLog.not_overlooks_of_reaches orderly_crossing hfirst (Or.inl (by decide))
  rw [← hbeginning] at hreaches
  exact hreaches

/-- Earlier calls can change what a reader answers: a store that was built on the way to a later
window lacks the start of a request that it would have counted. -/
theorem earlier_calls_matter :
    ¬∀ (s₀ : Correlation) (log : EventLog) (sealed : List Int) (calls : List Call) (key : Int),
      s₀.Fresh → log.Orderly s₀.reader.interval sealed → s₀.BuildsAll log sealed →
      s₀.reader.interval.Aligned key →
      (s₀.callAll log calls).answers log key = s₀.answers log key := by
  intro h
  have heq := h (tenMillis 0) (.ofFiles crossingFiles) [10, 20, 30] [.load 30] 20
    (fresh_tenMillis (by decide)) orderly_crossing buildsAll_crossing (by decide)
  have hmissing : (((tenMillis 0).callAll (.ofFiles crossingFiles) [.load 30]).answers
      (.ofFiles crossingFiles) 20).latencies.toOption.map List.length = some 0 := by decide +kernel
  have hcounted : ((tenMillis 0).answers
      (.ofFiles crossingFiles) 20).latencies.toOption.map List.length = some 1 := by decide +kernel
  rw [heq, hcounted] at hmissing
  cases hmissing

end Correlation

end RequestWindows
