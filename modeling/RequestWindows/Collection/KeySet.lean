namespace RequestWindows

/-- A finite set of integers as its strictly ascending list of members. -/
structure KeySet where
  /-- The members, in ascending order. -/
  toList : List Int
  ascending : toList.Pairwise (· < ·)
deriving DecidableEq

namespace KeySet

instance : EmptyCollection KeySet := ⟨⟨[], .nil⟩⟩

instance : Inhabited KeySet := ⟨∅⟩

instance : Membership Int KeySet := ⟨fun s k => k ∈ s.toList⟩

instance (k : Int) (s : KeySet) : Decidable (k ∈ s) := inferInstanceAs (Decidable (k ∈ s.toList))

/-- Ascending lists with the same members are equal. -/
theorem eq_of_mem_iff {l m : List Int} (hl : l.Pairwise (· < ·)) (hm : m.Pairwise (· < ·))
    (h : ∀ k, k ∈ l ↔ k ∈ m) : l = m := by
  induction l generalizing m with
  | nil => cases m with
    | nil => rfl
    | cons b m => exact absurd ((h b).2 (.head m)) List.not_mem_nil
  | cons a l ih => cases m with
    | nil => exact absurd ((h a).1 (.head l)) List.not_mem_nil
    | cons b m =>
      have ha : ∀ k ∈ l, a < k := fun k => List.rel_of_pairwise_cons hl
      have hb : ∀ k ∈ m, b < k := fun k => List.rel_of_pairwise_cons hm
      have hab : a = b := by
        rcases List.mem_cons.1 ((h a).1 (.head l)) with e | e
        · exact e
        · rcases List.mem_cons.1 ((h b).2 (.head m)) with f | f
          · exact f.symm
          · exact absurd (Int.lt_trans (hb a e) (ha b f)) (Int.lt_irrefl b)
      subst hab
      congr 1
      refine ih hl.of_cons hm.of_cons fun k => ⟨fun hk => ?_, fun hk => ?_⟩
      · exact (List.mem_cons.1 ((h k).1 (.tail a hk))).resolve_left (Int.ne_of_gt (ha k hk))
      · exact (List.mem_cons.1 ((h k).2 (.tail a hk))).resolve_left (Int.ne_of_gt (hb k hk))

@[ext] theorem ext_mem {s t : KeySet} (h : ∀ k, k ∈ s ↔ k ∈ t) : s = t := by
  obtain ⟨l, hl⟩ := s
  obtain ⟨m, hm⟩ := t
  have := eq_of_mem_iff hl hm h
  subst this
  rfl

/-- Put `k` into an ascending list unless it is there. -/
def place (k : Int) : List Int → List Int
  | [] => [k]
  | j :: rest => if k < j then k :: j :: rest else if k = j then j :: rest else j :: place k rest

theorem mem_place {k j : Int} {l : List Int} : j ∈ place k l ↔ j = k ∨ j ∈ l := by
  induction l with
  | nil => simp [place]
  | cons i rest ih =>
    rw [place]
    split
    · simp
    · split
      · next h => subst h; simp
      · rw [List.mem_cons, ih, List.mem_cons]
        exact or_left_comm

theorem pairwise_place (k : Int) {l : List Int} (h : l.Pairwise (· < ·)) :
    (place k l).Pairwise (· < ·) := by
  induction l with
  | nil => simp [place]
  | cons i rest ih =>
    rw [place]
    split
    · next hk =>
      refine List.pairwise_cons.2 ⟨fun j hj => ?_, h⟩
      rcases List.mem_cons.1 hj with rfl | hj
      · exact hk
      · exact Int.lt_trans hk (List.rel_of_pairwise_cons h hj)
    · split
      · exact h
      · next hk hne =>
        refine List.pairwise_cons.2 ⟨fun j hj => ?_, ih h.of_cons⟩
        rcases mem_place.1 hj with rfl | hj
        · omega
        · exact List.rel_of_pairwise_cons h hj

def insert (s : KeySet) (k : Int) : KeySet := ⟨place k s.toList, pairwise_place k s.ascending⟩

/-- The members that satisfy `p`. -/
def filter (p : Int → Bool) (s : KeySet) : KeySet :=
  ⟨s.toList.filter p, s.ascending.filter _⟩

def erase (s : KeySet) (k : Int) : KeySet := s.filter (· ≠ k)

@[simp] theorem not_mem_empty (k : Int) : k ∉ (∅ : KeySet) := List.not_mem_nil

@[simp] theorem mem_insert {s : KeySet} {k j : Int} : j ∈ s.insert k ↔ j = k ∨ j ∈ s := mem_place

@[simp] theorem mem_filter {p : Int → Bool} {s : KeySet} {k : Int} :
    k ∈ s.filter p ↔ k ∈ s ∧ p k = true := List.mem_filter

@[simp] theorem mem_erase {s : KeySet} {k j : Int} : j ∈ s.erase k ↔ j ∈ s ∧ j ≠ k := by
  simp [erase]

end KeySet

end RequestWindows
