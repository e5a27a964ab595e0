import RequestWindows.Proofs.Reader.Run

/-! A window counts a request exactly if its own log ends the request and a start of it is there:
one of its own log, or one that is still open from an earlier window and has not expired. -/
namespace RequestWindows

theorem fits_of_time (row : HalfRow) : fitsBits 64 row.time = true := by
  have h := row.fits
  rw [Bool.and_eq_true] at h
  exact h.2

namespace EventLog

variable {log : EventLog} {i : Interval} {expiry first : Int} {id : String}

/-- The start that counts for a request in the `n`-th window after `first`: the last one of its own
log, or, where that has none, one that is still open from an earlier window of the run and has not
expired when the window begins. -/
def Starts (log : EventLog) (i : Interval) (expiry first : Int) (n : Nat) (id : String)
    (row : HalfRow) : Prop :=
  log.last (i.after first n) id .start = some row ∨
    log.last (i.after first n) id .start = none ∧
      ∃ m < n, log.OpenFrom i id row (i.after first m) (i.after first n) ∧
        i.after first n - i.millis - expiry ≤ row.time

theorem nonneg_of_last {key : Int} {half : Half} {row : HalfRow}
    (h : log.last key id half = some row) : 0 ≤ row.time := by
  have hm : (id, half, row) ∈ recorded (log.entriesOf key) := mem_of_lastRow h
  obtain ⟨e, _, _, _, hrow⟩ := mem_recorded.mp hm
  have htime := Event.time_of_row hrow
  omega

theorem Starts.exists_last {n : Nat} {row : HalfRow} (h : log.Starts i expiry first n id row) :
    ∃ m, m ≤ n ∧ log.last (i.after first m) id .start = some row := by
  rcases h with h | ⟨_, m, hm, hopen, _⟩
  · exact ⟨n, Nat.le_refl n, h⟩
  · exact ⟨m, Nat.le_of_lt hm, hopen.started⟩

theorem mem_completed_tableAfter {n : Nat} {r : CompletedRequest}
    (h : r ∈ (log.tableAfter i expiry first n).completed) :
    ∃ b f, log.Starts i expiry first n r.correlationId b ∧
      log.last (i.after first n) r.correlationId .finish = some f ∧
      r.startTime = b.time ∧ r.endTime = f.time := by
  obtain ⟨b, f, halves, _, hb, hf, hr⟩ := Table.mem_completed.mp h
  rw [finish_tableAfter] at hf
  refine ⟨b, f, (start_tableAfter n).mp hb, hf, ?_, ?_⟩
  · rw [hr]
  · rw [hr]

theorem exists_completed_tableAfter {n : Nat} {b f : HalfRow}
    (hb : log.Starts i expiry first n id b)
    (hf : log.last (i.after first n) id .finish = some f) :
    ∃ r ∈ (log.tableAfter i expiry first n).completed, r.correlationId = id := by
  have hstart : (log.tableAfter i expiry first n).get? id .start = some b :=
    (start_tableAfter n).mpr hb
  have hfinish : (log.tableAfter i expiry first n).get? id .finish = some f := by
    rw [finish_tableAfter]
    exact hf
  obtain ⟨halves, hfind, _⟩ := Table.find?_of_get? hstart
  refine ⟨⟨id, halves.columns, b.time, f.time⟩, ?_, rfl⟩
  exact Table.mem_completed.mpr ⟨b, f, halves, hfind, hstart, hfinish, rfl⟩

/-- Times are not negative, so no latency is out of range. -/
theorem latency_fits {n : Nat} {r : CompletedRequest}
    (h : r ∈ (log.tableAfter i expiry first n).completed) : fitsBits 64 r.latency = true := by
  obtain ⟨b, f, hstarts, hf, hrb, hrf⟩ := mem_completed_tableAfter h
  obtain ⟨m, _, hb⟩ := hstarts.exists_last
  have hb0 := nonneg_of_last hb
  have hf0 := nonneg_of_last hf
  have hbt := fitsBits_iff.mp (fits_of_time b)
  have hft := fitsBits_iff.mp (fits_of_time f)
  rw [fitsBits_iff, CompletedRequest.latency, hrb, hrf]
  constructor
  · omega
  · omega

theorem exists_completed_iff {n : Nat} :
    (∃ r ∈ (log.tableAfter i expiry first n).completed, r.correlationId = id) ↔
      (∃ f, log.last (i.after first n) id .finish = some f) ∧
        ∃ b, log.Starts i expiry first n id b := by
  constructor
  · rintro ⟨r, hr, rfl⟩
    obtain ⟨b, f, hb, hf, _, _⟩ := mem_completed_tableAfter hr
    exact ⟨⟨f, hf⟩, b, hb⟩
  · rintro ⟨⟨f, hf⟩, b, hb⟩
    exact exists_completed_tableAfter hb hf

/-- A request that two windows of a run count is started again after the first of them. -/
theorem started_between {u v : Nat} {b f : HalfRow} (huv : u < v)
    (hu : log.last (i.after first u) id .finish = some f)
    (hv : log.Starts i expiry first v id b) :
    ∃ j, u < j ∧ j ≤ v ∧ ∃ row, log.last (i.after first j) id .start = some row := by
  rcases hv with h | ⟨_, m, hm, hopen, _⟩
  · exact ⟨v, huv, Nat.le_refl v, b, h⟩
  · refine ⟨m, ?_, Nat.le_of_lt hm, b, hopen.started⟩
    -- The end in `u` would have closed a start from `u` or before.
    apply Nat.lt_of_not_le
    intro hle
    have hreach : i.after (i.after first m) (u - m) = i.after first u := by
      rw [← i.after_add, Nat.add_sub_cancel' hle]
    have hbefore : i.after (i.after first m) (u - m) < i.after first v := by
      rw [hreach]
      exact Interval.after_lt huv
    have hnone := hopen.notEnded (u - m) hbefore
    rw [hreach, hu] at hnone
    cases hnone

theorem restarted_of_completed_twice {u v : Nat} (huv : u < v)
    (hu : id ∈ (log.tableAfter i expiry first u).completed.map (·.correlationId))
    (hv : id ∈ (log.tableAfter i expiry first v).completed.map (·.correlationId)) :
    ∃ j, u < j ∧ j ≤ v ∧ ∃ row, log.last (i.after first j) id .start = some row := by
  obtain ⟨⟨f, hf⟩, _⟩ := exists_completed_iff.mp (List.mem_map.mp hu)
  obtain ⟨_, b, hb⟩ := exists_completed_iff.mp (List.mem_map.mp hv)
  exact started_between huv hf hb

end EventLog

namespace Warehouse

theorem latencies_of_fits {w : Warehouse} {s : WindowStore} {t : Table} (h : w.rows s = .ok t)
    (hfits : ∀ r ∈ t.completed, fitsBits 64 r.latency = true) :
    w.latencies s = .ok t.completed := by
  have hall : (t.completed.all fun r => fitsBits 64 r.latency) = true := by
    rw [List.all_eq_true]
    exact hfits
  unfold latencies
  rw [h]
  change (if (t.completed.all fun r => fitsBits 64 r.latency) = true then _ else _) = _
  rw [if_pos hall]
  rfl

end Warehouse

namespace Correlation

variable {s : Correlation} {log : EventLog} {first : Int}

theorem buildable_of_replayable {n : Nat}
    (hlogs : ∀ j, j ≤ n → log.Replayable (s.reader.interval.after first j))
    (hrange : ∀ j, j ≤ n →
      fitsBits 128 (s.reader.interval.after first j - s.reader.expiry) = true) :
    log.Buildable s.reader.interval s.reader.expiry first n :=
  ⟨hlogs, fun j hj => comparable_of_fits (hrange j (Nat.le_of_lt hj))⟩

theorem latencies_buildEach {n : Nat} (hs : s.warehouse.Sound) (he : 0 ≤ s.reader.expiry)
    (hrun : log.Buildable s.reader.interval s.reader.expiry first n)
    (hfree : ∀ j, j ≤ n →
      ¬s.warehouse.Taken s.reader.shared (s.reader.interval.after first j)) :
    ∃ s' stores, s.buildEach log none (s.reader.interval.run first (n + 1)) = (s', .ok stores) ∧
      stores.length = n + 1 ∧
      ∀ v, v ≤ n → ∃ store, stores[v]? = some store ∧
        store.window = s.reader.interval.after first v ∧
        s'.warehouse.latencies store =
          .ok (log.tableAfter s.reader.interval s.reader.expiry first v).completed := by
  obtain ⟨s', stores, hbuild, hreader, hlength, hstores⟩ := buildEach_of_buildable hs he hrun hfree
  refine ⟨s', stores, hbuild, hlength, ?_⟩
  intro v hv
  obtain ⟨store, hget, hholds⟩ := hstores v hv
  have hwindow := hholds.window
  have hcontent := hholds.rows
  rw [hreader] at hwindow hcontent
  refine ⟨store, hget, hwindow, Warehouse.latencies_of_fits hcontent ?_⟩
  intro r hr
  exact EventLog.latency_fits hr

/-- Windows that are replayed one after another count exactly the requests that their own logs end
and whose start has reached them, each once, from that start to its last end. A request that is
counted twice has been started again in between. -/
theorem buildEach_completes {n : Nat} (hs : s.warehouse.Sound) (he : 0 ≤ s.reader.expiry)
    (hlogs : ∀ j, j ≤ n → log.Replayable (s.reader.interval.after first j))
    (hrange : ∀ j, j ≤ n →
      fitsBits 128 (s.reader.interval.after first j - s.reader.expiry) = true)
    (hfree : ∀ j, j ≤ n →
      ¬s.warehouse.Taken s.reader.shared (s.reader.interval.after first j)) :
    ∃ s' stores, s.buildEach log none (s.reader.interval.run first (n + 1)) = (s', .ok stores) ∧
      stores.length = n + 1 ∧
      (∀ v, v ≤ n → ∃ store rows, stores[v]? = some store ∧
        store.window = s.reader.interval.after first v ∧
        s'.warehouse.latencies store = .ok rows ∧ (rows.map (·.correlationId)).Nodup ∧
        (∀ id, (∃ r ∈ rows, r.correlationId = id) ↔
          (∃ f, log.last (s.reader.interval.after first v) id .finish = some f) ∧
            ∃ b, log.Starts s.reader.interval s.reader.expiry first v id b) ∧
        ∀ r ∈ rows, ∃ b f,
          log.Starts s.reader.interval s.reader.expiry first v r.correlationId b ∧
          log.last (s.reader.interval.after first v) r.correlationId .finish = some f ∧
          r.latency = f.time - b.time) ∧
      ∀ u v, u < v → ∀ before after rows later id, stores[u]? = some before →
        stores[v]? = some after → s'.warehouse.latencies before = .ok rows →
        s'.warehouse.latencies after = .ok later → id ∈ rows.map (·.correlationId) →
        id ∈ later.map (·.correlationId) →
        ∃ j, u < j ∧ j ≤ v ∧ ∃ row,
          log.last (s.reader.interval.after first j) id .start = some row := by
  obtain ⟨s', stores, hbuild, hlength, hcounted⟩ :=
    latencies_buildEach hs he (buildable_of_replayable hlogs hrange) hfree
  refine ⟨s', stores, hbuild, hlength, ?_, ?_⟩
  · intro v hv
    obtain ⟨store, hget, hwindow, hlatencies⟩ := hcounted v hv
    refine ⟨store, _, hget, hwindow, hlatencies, Table.nodup_completed _, ?_, ?_⟩
    · intro id
      exact EventLog.exists_completed_iff
    · intro r hr
      obtain ⟨b, f, hb, hf, hrb, hrf⟩ := EventLog.mem_completed_tableAfter hr
      refine ⟨b, f, hb, hf, ?_⟩
      rw [CompletedRequest.latency, hrb, hrf]
  · intro u v huv before after rows later id hbefore hafter hrows hlater hidu hidv
    have hv : v < stores.length := (List.getElem?_eq_some_iff.mp hafter).1
    obtain ⟨storeU, hgetU, _, hlatenciesU⟩ := hcounted u (by omega)
    obtain ⟨storeV, hgetV, _, hlatenciesV⟩ := hcounted v (by omega)
    -- The stores and their rows are those just described.
    rw [hgetU] at hbefore
    rw [hgetV] at hafter
    cases hbefore
    cases hafter
    rw [hlatenciesU] at hrows
    rw [hlatenciesV] at hlater
    cases hrows
    cases hlater
    exact EventLog.restarted_of_completed_twice huv hidu hidv

/-- Logs of which the second ends the request that the first starts. -/
def endedLate : EventLog :=
  .ofFiles [(10, EventLog.linesOf [halfOfA 15 .start ∅]),
    (20, EventLog.linesOf [halfOfA 25 .finish ∅])]

theorem counted_in_second_window :
    ∃ s' stores store rows, (tenMillis 100).buildEach endedLate none
        ((tenMillis 100).reader.interval.run 10 2) = (s', .ok stores) ∧
      stores[1]? = some store ∧ s'.warehouse.latencies store = .ok rows ∧
      ∃ r ∈ rows, r.correlationId = "a" := by
  have hlogs : ∀ j, j ≤ 1 →
      endedLate.Replayable ((tenMillis 100).reader.interval.after 10 j) := by decide +kernel
  have hrange : ∀ j, j ≤ 1 → fitsBits 128
      ((tenMillis 100).reader.interval.after 10 j - (tenMillis 100).reader.expiry) = true := by
    decide +kernel
  have hfree : ∀ j, j ≤ 1 → ¬(tenMillis 100).warehouse.Taken (tenMillis 100).reader.shared
      ((tenMillis 100).reader.interval.after 10 j) := by
    rintro j _ ⟨name, h, _⟩
    cases h
  obtain ⟨s', stores, hbuild, _, hcounted, _⟩ :=
    buildEach_completes Warehouse.sound_empty (by decide) hlogs hrange hfree
  obtain ⟨store, rows, hget, _, hlat, _, hiff, _⟩ := hcounted 1 (Nat.le_refl 1)
  refine ⟨s', stores, store, rows, hbuild, hget, hlat, (hiff "a").mpr ⟨?_, ?_⟩⟩
  · exact Option.isSome_iff_exists.mp (by decide +kernel)
  · obtain ⟨b, hb⟩ : ∃ b, endedLate.last 10 "a" .start = some b :=
      Option.isSome_iff_exists.mp (by decide +kernel)
    have htime : (endedLate.last 10 "a" .start).map (·.time) = some 15 := by decide +kernel
    rw [hb] at htime
    have hb15 : b.time = 15 := Option.some.inj htime
    refine ⟨b, Or.inr ⟨by decide +kernel, 0, Nat.zero_lt_one, ?_, ?_⟩⟩
    · exact EventLog.OpenFrom.ofAdjacent hb (by decide +kernel)
    · rw [hb15]
      decide

end Correlation

end RequestWindows
