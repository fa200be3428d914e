import EventLog.Json

/-!
# Members of one name

`Json.merge` leaves one member of each name.  Its result has every name once (`nodup_merge`) and no
member that was not there (`merge_subset`), and is the list itself if nothing has to be left out
(`merge_of_nodup`).
-/

namespace EventLog.Json

variable {name : Text} {v : Json} {ms : List (Text × Json)}

theorem put_of_notMem (h : name ∉ ms.map Prod.fst) : put name v ms = ms ++ [(name, v)] := by
  induction ms with
  | nil => rfl
  | cons m ms ih =>
      obtain ⟨k, w⟩ := m
      simp only [List.map_cons, List.mem_cons, not_or] at h
      rw [put, if_neg (Ne.symm h.1), ih h.2, List.cons_append]

theorem map_fst_put_of_mem (h : name ∈ ms.map Prod.fst) :
    (put name v ms).map Prod.fst = ms.map Prod.fst := by
  induction ms with
  | nil => cases h
  | cons m ms ih =>
      obtain ⟨k, w⟩ := m
      rw [put]
      split
      · rfl
      · next hk =>
          have hm : name ∈ ms.map Prod.fst := (List.mem_cons.mp h).resolve_left (Ne.symm hk)
          rw [List.map_cons, ih hm, List.map_cons]

theorem mem_of_mem_put {m : Text × Json} (h : m ∈ put name v ms) : m ∈ ms ∨ m = (name, v) := by
  induction ms with
  | nil => exact .inr (List.mem_singleton.mp h)
  | cons m' ms ih =>
      obtain ⟨k, w⟩ := m'
      rw [put] at h
      split at h
      · next hk =>
          rcases List.mem_cons.mp h with rfl | h
          · exact .inr (by rw [hk])
          · exact .inl (List.mem_cons_of_mem _ h)
      · rcases List.mem_cons.mp h with rfl | h
        · exact .inl List.mem_cons_self
        · exact (ih h).imp_left (List.mem_cons_of_mem _)

theorem merge_concat (ms : List (Text × Json)) (m : Text × Json) :
    merge (ms ++ [m]) = put m.1 m.2 (merge ms) := by
  rw [merge, List.foldl_append]
  rfl

/-- Merging goes from the front on, one member at a time. -/
theorem merge_induction {P : List (Text × Json) → List (Text × Json) → Prop} (nil : P [] [])
    (concat : ∀ ms m, P ms (merge ms) → P (ms ++ [m]) (put m.1 m.2 (merge ms))) :
    ∀ ms, P ms (merge ms) := by
  have backwards : ∀ ms : List (Text × Json), P ms.reverse (merge ms.reverse) := by
    intro ms
    induction ms with
    | nil => exact nil
    | cons m ms ih =>
        rw [List.reverse_cons, merge_concat]
        exact concat _ m ih
  intro ms
  rw [← ms.reverse_reverse]
  exact backwards _

/-- The names of merged members are pairwise different. -/
theorem nodup_merge (ms : List (Text × Json)) : ((merge ms).map Prod.fst).Nodup := by
  refine merge_induction (P := fun _ r => (r.map Prod.fst).Nodup) List.nodup_nil ?_ ms
  intro ms m ih
  by_cases hm : m.1 ∈ (merge ms).map Prod.fst
  · rw [map_fst_put_of_mem hm]
    exact ih
  · rw [put_of_notMem hm, List.map_append, List.map_singleton]
    refine List.nodup_append.mpr ⟨ih, by simp, ?_⟩
    intro a ha b hb hab
    exact hm (List.mem_singleton.mp hb ▸ hab ▸ ha)

theorem merge_subset (ms : List (Text × Json)) : ∀ m ∈ merge ms, m ∈ ms := by
  refine merge_induction (P := fun ms r => ∀ m ∈ r, m ∈ ms) (by simp) ?_ ms
  intro ms m ih m' hm'
  rcases mem_of_mem_put hm' with h | rfl
  · exact List.mem_append_left _ (ih m' h)
  · simp

theorem merge_of_nodup (h : (ms.map Prod.fst).Nodup) : merge ms = ms := by
  refine merge_induction (P := fun ms r => (ms.map Prod.fst).Nodup → r = ms) (fun _ => rfl) ?_ ms h
  intro ms m ih h
  rw [List.map_append, List.nodup_append] at h
  have new : m.1 ∉ ms.map Prod.fst := fun hm => h.2.2 _ hm m.1 (by simp) rfl
  rw [ih h.1, put_of_notMem new]

/-- Merging keeps a member whose name no other has. -/
theorem merge_cons_of_notMem (h : name ∉ ms.map Prod.fst) :
    merge ((name, v) :: ms) = (name, v) :: merge ms := by
  refine merge_induction (P := fun ms r => name ∉ ms.map Prod.fst →
    merge ((name, v) :: ms) = (name, v) :: r) (fun _ => rfl) ?_ ms h
  intro ms m ih h
  rw [List.map_append, List.mem_append, not_or] at h
  have other : name ≠ m.1 := fun he => h.2 (by simp [he])
  rw [← List.cons_append, merge_concat, ih h.1, put, if_neg other]

/-! ### Inside of a value -/

theorem distinctItems_eq_map (vs : List Json) : distinctItems vs = vs.map distinct := by
  induction vs with
  | nil => rfl
  | cons v vs ih => rw [distinctItems, ih, List.map_cons]

theorem distinctMembers_eq_map (ms : List (Text × Json)) :
    distinctMembers ms = ms.map fun (k, v) => (k, v.distinct) := by
  induction ms with
  | nil => rfl
  | cons m ms ih => rw [distinctMembers, ih, List.map_cons]

end EventLog.Json
