import RequestWindows.Proofs.EventLog.Scan
import RequestWindows.Proofs.Reader.Build

namespace RequestWindows.EventLog

/-- The sealed logs of a directory are those of windows, and each event is in the log of its
window. -/
structure Orderly (log : EventLog) (i : Interval) (sealed : List Int) : Prop where
  keys : log.sealedKeys = .ok sealed
  aligned : ∀ k ∈ sealed, i.Aligned k
  events : ∀ k t e, log.read k = .ok t → some e ∈ t.items → e.window i = k

variable {log : EventLog} {i : Interval} {sealed : List Int} {key : Int} {id : String} {half : Half}
  {row : HalfRow}

theorem find_of_read {t : Transcript} (h : log.read key = .ok t) :
    ∃ bytes, log.directory.find (sealedName key) = .ok (some (.file bytes)) ∧
      t = transcribe bytes := by
  unfold read Directory.content at h
  cases hf : log.directory.find (sealedName key) with
  | error e =>
    rw [hf] at h
    cases e <;> cases h
  | ok entry =>
    rw [hf] at h
    match entry, h with
    | some (.file bytes), h => exact ⟨bytes, rfl, (Except.ok.inj h).symm⟩

theorem isSealed_of_read {t : Transcript} (h : log.read key = .ok t) :
    log.isSealed key = .ok true := by
  obtain ⟨bytes, hfind, _⟩ := find_of_read h
  unfold isSealed Directory.hasFile
  rw [hfind]
  rfl

theorem read_of_last (h : log.last key id half = some row) :
    ∃ t e, log.read key = .ok t ∧ some e ∈ t.items ∧ row.time = e.emittedAt := by
  have hm : (id, half, row) ∈ recorded (log.entriesOf key) := mem_of_lastRow h
  obtain ⟨e, he, _, _, hrow⟩ := mem_recorded.mp hm
  unfold entriesOf at he
  cases hread : log.read key with
  | error err =>
    rw [hread] at he
    cases he
  | ok t =>
    rw [hread] at he
    exact ⟨t, e, rfl, he, Event.time_of_row hrow⟩

theorem Orderly.key_of_last (ho : log.Orderly i sealed) (h : log.last key id half = some row) :
    i.key row.time = key := by
  obtain ⟨t, e, hread, he, htime⟩ := read_of_last h
  rw [htime]
  exact ho.events key t e hread he

theorem Orderly.aligned_of_last (ho : log.Orderly i sealed)
    (h : log.last key id half = some row) : i.Aligned key := by
  rw [← ho.key_of_last h]
  exact i.aligned_key _

/-- A row belongs to the window of the log that records it. -/
theorem Orderly.time_lt_of_last (ho : log.Orderly i sealed)
    (h : log.last key id half = some row) : row.time < key + i.millis := by
  have hlt := i.lt_key_add row.time
  rw [ho.key_of_last h] at hlt
  exact hlt

/-- Only windows that are found by a scan record anything. -/
theorem Orderly.mem_of_last (ho : log.Orderly i sealed)
    (h : log.last key id half = some row) : key ∈ sealed := by
  obtain ⟨t, e, hread, he, htime⟩ := read_of_last h
  apply mem_sealedKeys ho.keys
  · rw [← ho.key_of_last h, htime]
    exact i.key_nonneg (Int.natCast_nonneg _)
  · exact isSealed_of_read hread

section Files

variable {files : List (Int × List UInt8)}

theorem mem_of_isSealed_ofFiles (h : (ofFiles files).isSealed key = .ok true) :
    ∃ bytes, (key, bytes) ∈ files ∧
      (ofFiles files).directory.get? (sealedName key) = some (.file bytes) := by
  obtain ⟨_, entry, hget, _⟩ := find_of_isSealed h
  have hlookup : (files.map fun f => (sealedName f.1, Entry.file f.2)).reverse.lookup
      (sealedName key) = some entry := by
    rw [← KeyedList.get?_ofList]
    exact hget
  have hmem : (sealedName key, entry) ∈
      (files.map fun f => (sealedName f.1, Entry.file f.2)).reverse := by
    obtain ⟨l₁, l₂, hsplit, _⟩ := List.lookup_eq_some_iff.mp hlookup
    rw [hsplit]
    exact List.mem_append_right _ (.head _)
  rw [List.mem_reverse] at hmem
  obtain ⟨⟨k, bytes⟩, hfile, heq⟩ := List.mem_map.mp hmem
  have hname : sealedName k = sealedName key := congrArg Prod.fst heq
  have hentry : Entry.file bytes = entry := congrArg Prod.snd heq
  have hk : k = key := sealedName_injective hname
  rw [hk] at hfile
  refine ⟨bytes, hfile, ?_⟩
  rw [hget, hentry]

theorem forall_isSealed_ofFiles {p : Int → Prop} (h : ∀ f ∈ files, p f.1) (k : Int)
    (hk : (ofFiles files).isSealed k = .ok true) : p k := by
  obtain ⟨bytes, hfile, _⟩ := mem_of_isSealed_ofFiles hk
  exact h (k, bytes) hfile

theorem read_ofFiles {t : Transcript} (h : (ofFiles files).read key = .ok t) :
    ∃ bytes, (key, bytes) ∈ files ∧ t = transcribe bytes := by
  obtain ⟨bytes, hfile, hget⟩ := mem_of_isSealed_ofFiles (isSealed_of_read h)
  refine ⟨bytes, hfile, ?_⟩
  obtain ⟨found, hfind, ht⟩ := find_of_read h
  have hfound := Directory.get?_of_find hfind
  rw [hget] at hfound
  cases hfound
  exact ht

/-- Whether the logs of a directory are orderly can be seen from their contents. -/
theorem orderly_ofFiles (hkeys : (ofFiles files).sealedKeys = .ok sealed)
    (haligned : ∀ k ∈ sealed, i.Aligned k)
    (hevents : ∀ f ∈ files, ∀ entry ∈ (transcribe f.2).items,
      entry.all (fun e => e.window i = f.1) = true) : (ofFiles files).Orderly i sealed := by
  refine ⟨hkeys, haligned, ?_⟩
  intro k t e hread he
  obtain ⟨bytes, hfile, rfl⟩ := read_ofFiles hread
  have hall := hevents (k, bytes) hfile (some e) he
  exact of_decide_eq_true hall

end Files

end RequestWindows.EventLog
