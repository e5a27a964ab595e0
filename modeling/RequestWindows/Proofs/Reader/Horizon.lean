import RequestWindows.Proofs.EventLog.Orderly

/-! How far back a run has to reach: all runs that overlook no request give the same rows, and a run
that overlooks one shows other requests. -/
namespace RequestWindows.EventLog

variable {log : EventLog} {i : Interval} {sealed : List Int} {expiry first first' key : Int}
  {id : String} {row : HalfRow} {n n' : Nat}

/-- A request that a run beginning with `first` overlooks in the window of `key`: it was started in
an earlier window, is still open and has not expired, and the window's own log does not start it. -/
def Overlooks (log : EventLog) (i : Interval) (expiry first key : Int) : Prop :=
  ∃ id row w, w < first ∧ log.OpenFrom i id row w key ∧ log.last key id .start = none ∧
    key - i.millis - expiry ≤ row.time

/-- A start is in a window if it is the last one of the window's own log or, where that has none, is
still open from an earlier window of the run. -/
theorem start_iff (ho : log.Orderly i sealed) (hfirst : i.Aligned first)
    (hkey : key = i.after first n) :
    (log.tableAfter i expiry first n).get? id .start = some row ↔
      log.last key id .start = some row ∨
        log.last key id .start = none ∧ ∃ w, first ≤ w ∧ w < key ∧
          log.OpenFrom i id row w key ∧ key - i.millis - expiry ≤ row.time := by
  rw [start_tableAfter, ← hkey]
  apply or_congr Iff.rfl
  apply and_congr Iff.rfl
  constructor
  · rintro ⟨m, hm, hopen, htime⟩
    refine ⟨i.after first m, ?_, ?_, hopen, htime⟩
    · exact Interval.le_after m
    · rw [hkey]
      exact Interval.after_lt hm
  · rintro ⟨w, hfw, hwk, hopen, htime⟩
    have hw : i.Aligned w := ho.aligned_of_last hopen.started
    obtain ⟨m, rfl⟩ := Interval.exists_after hfirst hw hfw
    rw [hkey] at hwk
    exact ⟨m, Interval.after_lt_iff.mp hwk, hopen, htime⟩

/-- Only one window has the start that is still open. -/
theorem eq_of_openFrom (ho : log.Orderly i sealed) {w w' : Int} {row' : HalfRow}
    (h : log.OpenFrom i id row w key) (h' : log.OpenFrom i id row' w' key) (hw : w < key)
    (hw' : w' < key) : w = w' := by
  have hal : i.Aligned w := ho.aligned_of_last h.started
  have hal' : i.Aligned w' := ho.aligned_of_last h'.started
  -- The later one of two such windows would have started the request again.
  have hnot {u v : Int} {a b : HalfRow} (hu : log.OpenFrom i id a u key)
      (hv : log.OpenFrom i id b v key) (halu : i.Aligned u) (halv : i.Aligned v)
      (hvk : v < key) : ¬u < v := by
    intro huv
    obtain ⟨m, hm, rfl⟩ := Interval.exists_after_of_lt halu halv huv
    have hnone := hu.notRestarted m hm hvk
    rw [hv.started] at hnone
    cases hnone
  have h1 := hnot h h' hal hal' hw'
  have h2 := hnot h' h hal' hal hw
  omega

/-- Whether a run that begins with `first` reaches back far enough for a key: to the oldest sealed
window, or so far that all older requests have expired. -/
def Reaches (i : Interval) (expiry : Int) (sealed : List Int) (first key : Int) : Prop :=
  (∀ k ∈ sealed, first ≤ k) ∨ first ≤ key - i.millis - expiry

theorem Reaches.mono {later : Int} (h : Reaches i expiry sealed first key) (hle : key ≤ later) :
    Reaches i expiry sealed first later := by
  rcases h with h | h
  · exact Or.inl h
  · exact Or.inr (by omega)

theorem not_overlooks_of_reaches (ho : log.Orderly i sealed) (hfirst : i.Aligned first)
    (h : Reaches i expiry sealed first key) : ¬log.Overlooks i expiry first key := by
  rintro ⟨id, row, w, hw, hopen, _, htime⟩
  rcases h with h | h
  · -- A window before the oldest sealed one starts nothing.
    have holdest := h w (ho.mem_of_last hopen.started)
    omega
  · -- A start in a window before the run comes before all of the run, and has expired.
    have hal : i.Aligned w := ho.aligned_of_last hopen.started
    have hlate := ho.time_lt_of_last hopen.started
    have hnext := Interval.add_le_of_lt hal hfirst hw
    omega

section Compare

variable (ho : log.Orderly i sealed) (hfirst : i.Aligned first) (hfirst' : i.Aligned first')
  (hkey : key = i.after first n) (hkey' : key = i.after first' n')
  (hall : ¬log.Overlooks i expiry first' key)
include ho hfirst hfirst' hkey hkey' hall

/-- Compared with a run that overlooks nothing, another run lacks exactly what it overlooks. -/
theorem tableAfter_eq_of_not_overlooks (h : ¬log.Overlooks i expiry first key) :
    log.tableAfter i expiry first n = log.tableAfter i expiry first' n' := by
  have hsame {b c : Int} (hb : ¬log.Overlooks i expiry c key) {id : String} {row : HalfRow} :
      (∃ w, b ≤ w ∧ w < key ∧ log.OpenFrom i id row w key ∧
        key - i.millis - expiry ≤ row.time) ∧ log.last key id .start = none →
      ∃ w, c ≤ w ∧ w < key ∧ log.OpenFrom i id row w key ∧
        key - i.millis - expiry ≤ row.time := by
    rintro ⟨⟨w, _, hw, hopen, htime⟩, hnone⟩
    refine ⟨w, ?_, hw, hopen, htime⟩
    apply Int.le_of_not_gt
    intro hlt
    exact hb ⟨id, row, w, hlt, hopen, hnone, htime⟩
  apply Table.ext_get?
  intro id half
  cases half with
  | finish => rw [finish_tableAfter, finish_tableAfter, ← hkey, ← hkey']
  | start =>
    apply Option.ext
    intro row
    rw [start_iff ho hfirst hkey, start_iff ho hfirst' hkey']
    apply or_congr Iff.rfl
    constructor
    · rintro ⟨hnone, hopen⟩
      exact ⟨hnone, hsame hall ⟨hopen, hnone⟩⟩
    · rintro ⟨hnone, hopen⟩
      exact ⟨hnone, hsame h ⟨hopen, hnone⟩⟩

/-- What is overlooked shows in the requests of the window. -/
theorem requests_ne_of_overlooks (h : log.Overlooks i expiry first key)
    (hle : first ≤ key) :
    (log.tableAfter i expiry first n).requests ≠ (log.tableAfter i expiry first' n').requests := by
  intro heq
  obtain ⟨id, row, w, hw, hopen, hnone, htime⟩ := h
  have hwk : w < key := by omega
  have hw' : first' ≤ w := by
    apply Int.le_of_not_gt
    intro hlt
    exact hall ⟨id, row, w, hlt, hopen, hnone, htime⟩
  have hthere : (log.tableAfter i expiry first' n').get? id .start = some row :=
    (start_iff ho hfirst' hkey').mpr (Or.inr ⟨hnone, w, hw', hwk, hopen, htime⟩)
  have hmissing : (log.tableAfter i expiry first n).get? id .start = none := by
    cases hget : (log.tableAfter i expiry first n).get? id .start with
    | none => rfl
    | some other =>
      rcases (start_iff ho hfirst hkey).mp hget with hown | ⟨_, v, hv, hvk, hopen', _⟩
      · rw [hnone] at hown
        cases hown
      · have hvw := eq_of_openFrom ho hopen hopen' hwk hvk
        omega
  obtain ⟨r, hr, hid⟩ := Table.exists_request_of_get? hthere
  have hstart := Table.startTime_of_mem_requests hr
  rw [← heq] at hr
  have hstart' := Table.startTime_of_mem_requests hr
  rw [hid] at hstart hstart'
  rw [hstart, hthere, hmissing] at hstart'
  cases hstart'

end Compare

end RequestWindows.EventLog
