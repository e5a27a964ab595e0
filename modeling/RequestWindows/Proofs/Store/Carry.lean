import RequestWindows.Proofs.Collection.Bindings
import RequestWindows.Proofs.Store.Feed

namespace RequestWindows

namespace Table

theorem nodup_ids (t : Table) : (t.entries.map Prod.fst).Nodup := by
  rw [List.nodup_iff_pairwise_ne, List.pairwise_map]
  refine t.ascending.imp ?_
  intro a b hab he
  exact String.lt_irrefl a.1 (he ▸ hab)

theorem mem_entries_iff {t : Table} {id : String} {h : Halves} :
    (id, h) ∈ t.entries ↔ t.find? id = some h :=
  (lookup_eq_some_iff_mem t.nodup_ids).symm

theorem get?_of_find? {t : Table} {id : String} {h : Halves} (hf : t.find? id = some h)
    (half : Half) : t.get? id half = h.get? half := by
  rw [get?, hf]
  rfl

theorem find?_of_get? {t : Table} {id : String} {half : Half} {row : HalfRow}
    (hg : t.get? id half = some row) : ∃ h, t.find? id = some h ∧ h.get? half = some row :=
  Option.bind_eq_some_iff.mp hg

theorem startTime_of_mem_requests {t : Table} {r : Request} (h : r ∈ t.requests) :
    r.startTime = (t.get? r.correlationId .start).map (·.time) := by
  obtain ⟨⟨id, halves⟩, hm, rfl⟩ := List.mem_map.mp h
  change halves.start.map HalfRow.time = (t.get? id .start).map (·.time)
  rw [get?_of_find? (mem_entries_iff.mp hm)]
  rfl

theorem exists_request_of_get? {t : Table} {id : String} {half : Half} {row : HalfRow}
    (h : t.get? id half = some row) : ∃ r ∈ t.requests, r.correlationId = id := by
  obtain ⟨halves, hfind, _⟩ := find?_of_get? h
  exact ⟨_, List.mem_map_of_mem (mem_entries_iff.mpr hfind), rfl⟩

/-- The completed requests are those of which both halves are there. -/
theorem mem_completed {t : Table} {r : CompletedRequest} :
    r ∈ t.completed ↔
      ∃ s f h, t.find? r.correlationId = some h ∧ t.get? r.correlationId .start = some s ∧
        t.get? r.correlationId .finish = some f ∧
        r = ⟨r.correlationId, h.columns, s.time, f.time⟩ := by
  rw [completed, List.mem_filterMap]
  constructor
  · rintro ⟨⟨id, h⟩, hm, hc⟩
    have hf := mem_entries_iff.mp hm
    obtain ⟨start, finish, hp⟩ := h
    cases start with
    | none => cases hc
    | some s =>
      cases finish with
      | none => cases hc
      | some f =>
        cases hc
        exact ⟨s, f, _, hf, get?_of_find? hf .start, get?_of_find? hf .finish, rfl⟩
  · rintro ⟨s, f, h, hf, hs, he, hr⟩
    refine ⟨(r.correlationId, h), mem_entries_iff.mpr hf, ?_⟩
    rw [get?_of_find? hf] at hs he
    change h.start = some s at hs
    change h.finish = some f at he
    change h.completed? r.correlationId = some r
    unfold Halves.completed?
    rw [hs, he]
    exact congrArg some hr.symm

theorem nodup_completed (t : Table) : (t.completed.map (·.correlationId)).Nodup := by
  have hsub : (t.completed.map (·.correlationId)).Sublist (t.entries.map Prod.fst) := by
    unfold completed
    rw [List.map_filterMap]
    induction t.entries with
    | nil => simp
    | cons e rest ih =>
      obtain ⟨id, h⟩ := e
      rw [List.filterMap_cons, List.map_cons]
      unfold Halves.completed?
      cases h.start <;> cases h.finish
      · exact ih.cons id
      · exact ih.cons id
      · exact ih.cons id
      · exact ih.cons_cons id
  exact t.nodup_ids.sublist hsub

theorem mem_inFlight {t : Table} {horizon : Int} {id : String} {row : HalfRow} :
    (id, row) ∈ t.inFlight horizon ↔
      t.get? id .start = some row ∧ t.get? id .finish = none ∧ horizon ≤ row.time := by
  rw [inFlight, List.mem_filterMap]
  constructor
  · rintro ⟨⟨j, h⟩, hm, hc⟩
    obtain ⟨r, hr, he⟩ := Option.map_eq_some_iff.mp hc
    cases he
    have hf := mem_entries_iff.mp hm
    obtain ⟨hpend, htime⟩ := Option.filter_eq_some_iff.mp hr
    rw [get?_of_find? hf, get?_of_find? hf]
    obtain ⟨start, finish, hp⟩ := h
    cases start <;> cases finish <;> cases hpend
    exact ⟨rfl, rfl, by simpa using htime⟩
  · rintro ⟨hs, he, htime⟩
    obtain ⟨h, hf, hstart⟩ := find?_of_get? hs
    rw [get?_of_find? hf] at he
    refine ⟨(id, h), mem_entries_iff.mpr hf, ?_⟩
    obtain ⟨start, finish, hp⟩ := h
    change start = some row at hstart
    change finish = none at he
    subst hstart he
    simp [Halves.inFlight?, Halves.pending?, Option.filter, htime]

/-- The rows that a window begins with where the window before it ended with `t`. -/
def carried (t : Table) (horizon : Int) : Table := empty.carry (t.inFlight horizon)

theorem carry_eq_feed (t : Table) (starts : List (String × HalfRow)) :
    t.carry starts = t.feed (starts.map fun s => (s.1, .start, s.2)) := by
  rw [carry, feed, List.foldl_map]

/-- What is carried over is a start that has no end and has not expired. -/
theorem get?_carried {t : Table} {horizon : Int} {id : String} {row : HalfRow} :
    (t.carried horizon).get? id .start = some row ↔
      t.get? id .start = some row ∧ t.get? id .finish = none ∧ horizon ≤ row.time := by
  unfold carried
  rw [carry_eq_feed, get?_feed, get?_empty, Option.or_none]
  constructor
  · intro h
    have hm := mem_of_lastRow h
    simp only [List.mem_map, Prod.mk.injEq, true_and] at hm
    obtain ⟨s, hs, rfl, rfl⟩ := hm
    exact mem_inFlight.mp hs
  · intro h
    -- An id is carried over once, so the last row that is written for it is the only one.
    have mem_starts {r : HalfRow} : (id, Half.start, r) ∈
        ((t.inFlight horizon).map fun s => (s.1, Half.start, s.2)) ↔
          (id, r) ∈ t.inFlight horizon := by simp
    apply lastRow_of_unique (mem_starts.mpr (mem_inFlight.mpr h))
    intro r hr
    have hstart := (mem_inFlight.mp (mem_starts.mp hr)).1
    rw [h.1] at hstart
    exact (Option.some.inj hstart).symm

theorem get?_carried_finish (t : Table) (horizon : Int) (id : String) :
    (t.carried horizon).get? id .finish = none := by
  unfold carried
  rw [carry_eq_feed, get?_feed, get?_empty, Option.or_none, lastRow_eq_none_iff]
  intro row hm
  simp at hm

end Table

end RequestWindows
