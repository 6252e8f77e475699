import Mathlib.Data.List.Nodup
import Folio.Entries

/-!
Entries with keys: which keys there are after one is set, and the values that different keys have.
-/
namespace Folio.Entries

variable {α β : Type} [BEq α] [LawfulBEq α] {key : α} {value : β} {entries : List (α × β)}

theorem put_of_not_mem (value : β) (h : key ∉ entries.map Prod.fst) :
    put key value entries = entries ++ [(key, value)] := by
  induction entries with
  | nil => rfl
  | cons e entries ih =>
      obtain ⟨hne, hlater⟩ := not_or.1 (mt List.mem_cons.2 h)
      rw [put, beq_false_of_ne (Ne.symm hne), ih hlater]
      rfl

theorem keys_put_of_mem (value : β) (h : key ∈ entries.map Prod.fst) :
    (put key value entries).map Prod.fst = entries.map Prod.fst := by
  induction entries with
  | nil => exact absurd h List.not_mem_nil
  | cons e entries ih =>
      rw [put]
      split
      · rfl
      · rename_i hne
        rcases List.mem_cons.1 h with rfl | hlater
        · exact absurd (beq_self_eq_true _) hne
        · rw [List.map_cons, List.map_cons, ih hlater]

theorem mem_keys_put {other : α} :
    other ∈ (put key value entries).map Prod.fst ↔ other = key ∨ other ∈ entries.map Prod.fst := by
  by_cases h : key ∈ entries.map Prod.fst
  · rw [keys_put_of_mem value h]
    exact ⟨Or.inr, fun hor => hor.elim (fun heq => heq ▸ h) id⟩
  · rw [put_of_not_mem value h, List.map_append, List.mem_append, or_comm]
    simp

theorem mem_put {other : α × β} (h : other ∈ put key value entries) :
    other = (key, value) ∨ other ∈ entries := by
  induction entries with
  | nil => exact Or.inl (List.mem_singleton.1 h)
  | cons e entries ih =>
      rw [put] at h
      split at h
      · rename_i heq
        rw [beq_iff_eq.1 heq] at h
        exact (List.mem_cons.1 h).imp_right (List.mem_cons_of_mem _)
      · rcases List.mem_cons.1 h with rfl | hlater
        · exact Or.inr List.mem_cons_self
        · exact (ih hlater).imp_right (List.mem_cons_of_mem _)

theorem nodup_put (value : β) (h : (entries.map Prod.fst).Nodup) :
    ((put key value entries).map Prod.fst).Nodup := by
  by_cases hkey : key ∈ entries.map Prod.fst
  · rwa [keys_put_of_mem value hkey]
  · rw [put_of_not_mem value hkey, List.map_append]
    refine List.nodup_append.2 ⟨h, List.nodup_singleton key, fun a ha b hb heq => ?_⟩
    rw [List.map_singleton, List.mem_singleton] at hb
    rw [heq, hb] at ha
    exact hkey ha

/-- Entries with new keys, set one after the other, are added. -/
theorem foldl_put_of_nodup {done : List (α × β)} (h : ((done ++ entries).map Prod.fst).Nodup) :
    entries.foldl (fun done e => put e.1 e.2 done) done = done ++ entries := by
  induction entries generalizing done with
  | nil => exact (List.append_nil done).symm
  | cons e entries ih =>
      have hkey : e.1 ∉ done.map Prod.fst := by
        rw [List.map_append, List.map_cons] at h
        exact fun hmem => (List.nodup_append.1 h).2.2 _ hmem _ List.mem_cons_self rfl
      rw [List.foldl_cons, put_of_not_mem _ hkey, ih (by simpa using h), List.append_assoc]
      rfl

/-- Where all keys are different, the value of a key is the one that stands with it. -/
theorem lookup_eq_some_iff (h : (entries.map Prod.fst).Nodup) :
    entries.lookup key = some value ↔ (key, value) ∈ entries := by
  rw [List.lookup_eq_some_iff]
  constructor
  · rintro ⟨before, after, rfl, -⟩
    exact List.mem_append_right before List.mem_cons_self
  · intro hmem
    obtain ⟨before, after, rfl⟩ := List.append_of_mem hmem
    refine ⟨before, after, rfl, fun a ha => bne_iff_ne.2 fun heq => ?_⟩
    rw [List.map_append, List.map_cons] at h
    exact (List.nodup_append.1 h).2.2 a.1 (List.mem_map_of_mem ha) key List.mem_cons_self heq.symm

/-- The value of a key does not depend on the order. -/
theorem lookup_eq_of_perm {others : List (α × β)} (hperm : others.Perm entries)
    (h : (entries.map Prod.fst).Nodup) (key : α) : others.lookup key = entries.lookup key := by
  have hothers : (others.map Prod.fst).Nodup := ((hperm.map Prod.fst).nodup_iff).2 h
  refine Option.ext fun value => ?_
  rw [lookup_eq_some_iff hothers, lookup_eq_some_iff h, hperm.mem_iff]

end Folio.Entries
