import RequestWindows.Proofs.Event.Lossless
import RequestWindows.Proofs.Reader.Direct
import RequestWindows.Proofs.Writer.Faithful

namespace RequestWindows

namespace EventLog

variable {log : EventLog} {i : Interval} {events : List Event} {last : Option Int} {key : Int}

theorem Faithful.records {group : Int → List Event} {closed : Int → Bool}
    (h : log.Faithful group closed) (hfits : fitsBits 64 key = true) (hclosed : closed key = true)
    (hreadable : ∀ e ∈ group key, e.Readable) (hplain : ∀ e ∈ group key, e.isPlain = true) :
    log.Records key (group key) := by
  by_cases hk : group key = []
  · left
    obtain ⟨b, hb⟩ := log.isSealed_of_fits hfits
    cases b with
    | false => exact ⟨hb, hk⟩
    | true => exact absurd hk ((h.isSealed_iff hfits).mp hb).1
  · exact Or.inr ⟨h.isSealed_of_closed hk hclosed, h.read hk hclosed hreadable hplain⟩

/-- A sealed log in a directory of window logs has a key of 64 bits. -/
theorem Plain.fits_of_isSealed (h : log.Plain) (hsealed : log.isSealed key = .ok true) :
    0 ≤ key ∧ fitsBits 64 key = true := by
  obtain ⟨_, entry, hget, _⟩ := find_of_isSealed hsealed
  have hlog : log.logAt key true = some entry := hget
  exact (h.key_of_logAt hlog).2

/-- If some window is sealed, the oldest sealed one is the first window with an event. -/
theorem exists_oldest {sealed : List Int}
    (hkeys : log.sealedKeys = .ok sealed)
    (hmem : ∀ k, k ∈ sealed ↔ Event.ofWindow i events k ≠ [] ∧ Ingestion.closed last k = true)
    (hkey : key ∈ sealed) :
    ∃ oldest ∈ sealed, sealed.head?.getD key = oldest ∧
      (events.map (·.window i)).min?.getD key = oldest ∧ oldest ≤ key := by
  obtain ⟨oldest, hhead⟩ : ∃ oldest, sealed.head? = some oldest := by
    cases sealed with
    | nil => cases hkey
    | cons k rest => exact ⟨k, rfl⟩
  have hold := List.mem_of_head? hhead
  have hle (k : Int) (hk : k ∈ sealed) : oldest ≤ k := by
    have hleast := head_le_of_mem hkeys hk key
    rw [hhead] at hleast
    exact hleast
  have hmin : (events.map (·.window i)).min? = some oldest := by
    rw [List.min?_eq_some_iff]
    constructor
    · obtain ⟨e, he⟩ := List.exists_mem_of_ne_nil _ ((hmem oldest).mp hold).1
      obtain ⟨he, hwindow⟩ := Event.mem_ofWindow.mp he
      exact List.mem_map.mpr ⟨e, he, hwindow⟩
    · intro k hk
      obtain ⟨e, he, hwindow⟩ := List.mem_map.mp hk
      have hgroup : Event.ofWindow i events k ≠ [] :=
        List.ne_nil_of_mem (Event.mem_ofWindow.mpr ⟨he, hwindow⟩)
      apply Int.le_of_not_gt
      intro hlt
      -- A window with an event before a sealed one is sealed as well.
      have hclosed := Ingestion.closed_of_le ((hmem oldest).mp hold).2 (Int.le_of_lt hlt)
      have hk' := hle k ((hmem k).mpr ⟨hgroup, hclosed⟩)
      omega
  exact ⟨oldest, hold, by rw [hhead]; rfl, by rw [hmin]; rfl, hle key hkey⟩

end EventLog

namespace Ingestion

theorem ten_windows_le : 2 * (⟨10, ten_pos⟩ : Interval).millis ≤ 100 := by decide

/-- A writing side that keeps its logs for longer. -/
def patient : Ingestion :=
  { tenMillis with
    writer := .create ⟨⟨10, ten_pos⟩, 1000, 0, 100, 0, .standard, ten_windows_le⟩ true }

/-- A request that is in flight from one window to the next, with a text and a number on the way. -/
def crossing : List Action :=
  [.put (.event (Correlation.halfOfA 5 .start (.ofList [("operation", .text "get\n")]))), .drain 15,
    .put (.event (Correlation.halfOfA 12 .finish (.ofList
      [("response_code", .float (.finite false (5 * Nat.pow 2 50) (-51) (by decide)))]))),
    .put (.event (Correlation.halfOfB 3 .start ∅)), .drain 25, .drain 35]

/-- A torn event takes another one of its window with it; a third comes later. -/
def tornCompany : List Action :=
  [.put (.event (tornAt 12)), .put (.event (Correlation.halfOfB 13 .start ∅)), .drain 15,
    .put (.event (startAt 16)), .drain 25, .drain 35]

end Ingestion

end RequestWindows
