import RequestWindows.Proofs.Event.Line
import RequestWindows.Proofs.EventLog.Files
import RequestWindows.Proofs.EventLog.Scan

namespace RequestWindows

theorem utf8ByteSize_sealedName_le (key : Int) :
    (sealedName key).utf8ByteSize ≤ (openName key).utf8ByteSize := by
  change _ ≤ (sealedName key ++ openEnding).utf8ByteSize
  rw [String.utf8ByteSize_append]
  exact Nat.le_add_right _ _

/-- The digits of a key can leave no room for the ending of an open log's name. -/
theorem openName_too_long {key : Int} (h : Nat.pow 10 251 ≤ key.natAbs) :
    ¬(openName key).utf8ByteSize ≤ Directory.maxNameSize := by
  have hdigits : ¬(Nat.toDigits 10 key.natAbs).length ≤ 251 := by
    rw [Nat.length_toDigits_le_iff (by decide) (by decide)]
    exact Nat.not_lt.mpr h
  have hmax : Directory.maxNameSize = 255 := rfl
  have hending : openEnding.utf8ByteSize = 4 := rfl
  have hsealed := utf8ByteSize_sealedName key
  change ¬(sealedName key ++ openEnding).utf8ByteSize ≤ _
  rw [String.utf8ByteSize_append]
  omega

namespace EventLog

/-- Append batches of events one after another, up to the first that cannot be appended. -/
def appendAll (log : EventLog) (key : Int) : List (List Event) → Except LogError EventLog
  | [] => .ok log
  | events :: rest =>
    match log.append key events with
    | (_, .error e) => .error e
    | (log, .ok ()) => log.appendAll key rest

variable {log log' : EventLog} {key : Int} {events : List Event} {batches : List (List Event)}

section Append

/-- Whether batches can be appended to the log of a window as far as its name allows: no failure is
to come, and the name of the open log belongs to no folder. -/
structure Appendable (log : EventLog) (key : Int) : Prop where
  faultless : key ∉ log.faults.appends
  whole : log.faults.partials.lookup key = none
  noFolder : log.logAt key false ≠ some .folder

theorem append_nil (h : key ∉ log.faults.appends) : log.append key [] = (log, .ok ()) := by
  unfold append
  rw [if_neg h, if_pos rfl]

/-- Where no failure is to come, an append adds the lines of the events if the file can be
written. -/
theorem Appendable.append_eq (h : log.Appendable key) (hne : events ≠ [])
    (hplain : ∀ e ∈ events, e.isPlain = true) :
    log.append key events =
      match log.addBytes key (linesOf events) with
      | .error e => (log, .error e)
      | .ok appended => (appended, .ok ()) := by
  have hwritable : events.all (·.isWritable log.strictNames) = true :=
    List.all_eq_true.mpr fun e he => Event.isWritable_of_isPlain (hplain e he) _
  unfold EventLog.append Faults.reached
  rw [if_neg h.faultless, if_neg hne, if_neg (fun hnot => hnot hwritable), h.whole]
  rfl

theorem Appendable.addBytes (h : log.Appendable key)
    (hname : (openName key).utf8ByteSize ≤ Directory.maxNameSize) (bytes : List UInt8) :
    ∃ log', log.addBytes key bytes = .ok log' := by
  have hfind : log.directory.find (openName key) = .ok (log.logAt key false) :=
    log.find_logName (b := false) hname
  unfold EventLog.addBytes Directory.append
  rw [hfind]
  cases hentry : log.logAt key false with
  | none => exact ⟨_, rfl⟩
  | some entry =>
    cases entry with
    | file bytes => exact ⟨_, rfl⟩
    | folder => exact absurd hentry h.noFolder

theorem Appendable.of_addBytes {bytes : List UInt8} (h : log.Appendable key)
    (hadd : log.addBytes key bytes = .ok log') : log'.Appendable key := by
  have hentry := logAt_of_addBytes hadd key false
  obtain ⟨d, _, rfl⟩ := EventLog.of_addBytes hadd
  refine ⟨h.faultless, h.whole, ?_⟩
  rw [hentry, if_pos ⟨rfl, rfl⟩]
  exact fun he => Entry.noConfusion (Option.some.inj he)

/-- Nothing is added to an open log whose name is too long. -/
theorem addBytes_of_long {bytes : List UInt8}
    (hname : ¬(openName key).utf8ByteSize ≤ Directory.maxNameSize) :
    log.addBytes key bytes = .error (.file .nameTooLong) := by
  unfold addBytes Directory.append Directory.find
  rw [if_pos (Nat.not_le.mp hname)]
  rfl

theorem plain_of_cons (h : ∀ e ∈ (events :: batches).flatten, e.isPlain = true) :
    (∀ e ∈ events, e.isPlain = true) ∧ ∀ e ∈ batches.flatten, e.isPlain = true := by
  rw [List.flatten_cons] at h
  exact List.forall_mem_append.mp h

/-- Batches with an event among them can be appended exactly where the name of the open log is not
too long. -/
theorem Appendable.appendAll_iff (h : log.Appendable key) (hne : batches.flatten ≠ [])
    (hplain : ∀ e ∈ batches.flatten, e.isPlain = true) :
    (∃ log', log.appendAll key batches = .ok log') ↔
      (openName key).utf8ByteSize ≤ Directory.maxNameSize := by
  constructor
  · rintro ⟨log', hall⟩
    refine Decidable.byContradiction fun hname => ?_
    induction batches generalizing log with
    | nil => exact hne rfl
    | cons events rest ih =>
      obtain ⟨hfirst, hrest⟩ := plain_of_cons hplain
      by_cases hevents : events = []
      · subst hevents
        rw [appendAll, append_nil h.faultless] at hall
        exact ih h hne hrest hall
      · rw [appendAll, h.append_eq hevents hfirst, addBytes_of_long hname] at hall
        cases hall
  · intro hname
    clear hne
    induction batches generalizing log with
    | nil => exact ⟨log, rfl⟩
    | cons events rest ih =>
      obtain ⟨hfirst, hrest⟩ := plain_of_cons hplain
      by_cases hevents : events = []
      · subst hevents
        rw [appendAll, append_nil h.faultless]
        exact ih h hrest
      · obtain ⟨log₁, hadd⟩ := h.addBytes hname (linesOf events)
        obtain ⟨log', hall⟩ := ih (h.of_addBytes hadd) hrest
        refine ⟨log', ?_⟩
        rw [appendAll, h.append_eq hevents hfirst, hadd]
        exact hall

theorem appendAll_of_nothing (h : key ∉ log.faults.appends) (hnil : batches.flatten = []) :
    log.appendAll key batches = .ok log := by
  induction batches with
  | nil => rfl
  | cons events rest ih =>
    rw [List.flatten_cons, List.append_eq_nil_iff] at hnil
    rw [appendAll, hnil.1, append_nil h]
    exact ih hnil.2

/-- What batches leave when all of them have been appended: the open log has the lines of their
events added, and nothing else changes. -/
theorem logAt_of_appendAll (h : log.Appendable key) (hall : log.appendAll key batches = .ok log')
    (hne : batches.flatten ≠ []) (hplain : ∀ e ∈ batches.flatten, e.isPlain = true) :
    log'.faults = log.faults ∧ ∀ j b, log'.logAt j b =
      if j = key ∧ b = false then some (.file (log.bytesOf key false ++ linesOf batches.flatten))
      else log.logAt j b := by
  induction batches generalizing log with
  | nil => exact absurd rfl hne
  | cons events rest ih =>
    obtain ⟨hfirst, hlater⟩ := plain_of_cons hplain
    rw [appendAll] at hall
    by_cases hevents : events = []
    · subst hevents
      rw [append_nil h.faultless] at hall
      exact ih h hall hne hlater
    rw [h.append_eq hevents hfirst] at hall
    cases hadd : log.addBytes key (linesOf events) with
    | error e =>
      rw [hadd] at hall
      cases hall
    | ok log₁ =>
      rw [hadd] at hall
      have h₁ := h.of_addBytes hadd
      have hfaults₁ : log₁.faults = log.faults := by
        obtain ⟨d, _, rfl⟩ := EventLog.of_addBytes hadd
        rfl
      have hlog₁ := logAt_of_addBytes hadd
      by_cases hrest : rest.flatten = []
      · change log₁.appendAll key rest = .ok log' at hall
        rw [appendAll_of_nothing h₁.faultless hrest] at hall
        cases hall
        rw [List.flatten_cons, hrest, List.append_nil]
        exact ⟨hfaults₁, hlog₁⟩
      · obtain ⟨hfaults, hlog⟩ := ih h₁ hall hrest hlater
        refine ⟨hfaults.trans hfaults₁, fun j b => ?_⟩
        rw [hlog, bytesOf_of_addBytes hadd, hlog₁, List.flatten_cons, linesOf_append,
          List.append_assoc]
        by_cases hj : j = key ∧ b = false
        · rw [if_pos hj, if_pos hj]
        · rw [if_neg hj, if_neg hj, if_neg hj]

end Append

section Seal

variable (hname : (openName key).utf8ByteSize ≤ Directory.maxNameSize)

include hname in
theorem seal_of_open {entry : Entry} (hfault : key ∉ log.faults.seals)
    (hopen : log.logAt key false = some entry) (hfree : log.logAt key true = none) :
    ∃ log', log.sealWindow key = .ok (log', true) := by
  have hfindOpen : log.directory.find (openName key) = .ok (log.logAt key false) :=
    log.find_logName (b := false) hname
  have hfindSealed : log.directory.find (sealedName key) = .ok (log.logAt key true) :=
    log.find_logName (b := true) (Nat.le_trans (utf8ByteSize_sealedName_le key) hname)
  unfold sealWindow
  rw [if_neg hfault, hfindOpen, hfindSealed, hopen, hfree]
  exact ⟨_, rfl⟩

include hname in
theorem read_of_sealed {bytes : List UInt8} (hsealed : log.logAt key true = some (.file bytes)) :
    log.read key = .ok (transcribe bytes) := by
  have hfind : log.directory.find (sealedName key) = .ok (log.logAt key true) :=
    log.find_logName (b := true) (Nat.le_trans (utf8ByteSize_sealedName_le key) hname)
  unfold read Directory.content
  rw [hfind, hsealed]
  rfl

end Seal

section Example

/-- An event with line ends, quotes and blanks in its texts, and with a negative zero. -/
def awkwardEvent : Event :=
  ⟨5, "a\"\n", .start,
    .ofList [("operation", .text " \r\t\\ "), ("item_count", .int (-3)),
      ("ratio", .float (.zero true))], by decide⟩

/-- An event with a number that has no text. -/
def nanEvent : Event := ⟨6, "nan", .finish, .ofList [("ratio", .float .nan)], by decide⟩

end Example

end EventLog

end RequestWindows
