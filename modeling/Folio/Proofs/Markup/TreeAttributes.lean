import Folio.Markup.Node
import Folio.Proofs.Entries

/-!
The attributes of an element in a tree. They have different names, the names of the tag, each with
the last of the values that the tag gives it.
-/
namespace Folio.Markup

section Tag

variable {attrs : List (Chars × Option Chars)} {done : List (Chars × Chars)} {name : Chars}

/-- The attributes of a tag, entered after others. -/
def enterAttributes (done : List (Chars × Chars)) (attrs : List (Chars × Option Chars)) :
    List (Chars × Chars) :=
  attrs.foldl (fun done a => Entries.put a.1 (a.2.getD []) done) done

theorem treeAttributes_eq (attrs : List (Chars × Option Chars)) :
    treeAttributes attrs = enterAttributes [] attrs := rfl

theorem enterAttributes_cons (a : Chars × Option Chars) : enterAttributes done (a :: attrs) =
    enterAttributes (Entries.put a.1 (a.2.getD []) done) attrs := rfl

theorem mem_keys_enterAttributes : name ∈ (enterAttributes done attrs).map Prod.fst ↔
    name ∈ done.map Prod.fst ∨ name ∈ attrs.map Prod.fst := by
  induction attrs generalizing done with
  | nil => simp [enterAttributes]
  | cons a attrs ih =>
      rw [enterAttributes_cons, ih, Entries.mem_keys_put, List.map_cons, List.mem_cons, or_assoc,
        or_left_comm]

/-- The names of the attributes in the tree are those in the tag. -/
theorem mem_keys_treeAttributes :
    name ∈ (treeAttributes attrs).map Prod.fst ↔ name ∈ attrs.map Prod.fst := by
  rw [treeAttributes_eq, mem_keys_enterAttributes]
  exact or_iff_right List.not_mem_nil

theorem mem_enterAttributes {a : Chars × Chars} (ha : a ∈ enterAttributes done attrs) :
    a ∈ done ∨ ∃ value, (a.1, value) ∈ attrs ∧ a.2 = value.getD [] := by
  induction attrs generalizing done with
  | nil => exact Or.inl ha
  | cons b attrs ih =>
      rw [enterAttributes_cons] at ha
      rcases ih ha with hdone | ⟨value, hvalue, heq⟩
      · rcases Entries.mem_put hdone with rfl | hbefore
        · exact Or.inr ⟨b.2, List.mem_cons_self, rfl⟩
        · exact Or.inl hbefore
      · exact Or.inr ⟨value, List.mem_cons_of_mem b hvalue, heq⟩

/-- An attribute in the tree is one of the tag. -/
theorem exists_of_mem_treeAttributes {a : Chars × Chars} (ha : a ∈ treeAttributes attrs) :
    ∃ value, (a.1, value) ∈ attrs ∧ a.2 = value.getD [] :=
  (mem_enterAttributes (treeAttributes_eq attrs ▸ ha)).resolve_left List.not_mem_nil

theorem nodup_enterAttributes (h : (done.map Prod.fst).Nodup) :
    ((enterAttributes done attrs).map Prod.fst).Nodup := by
  induction attrs generalizing done with
  | nil => exact h
  | cons a attrs ih => exact ih (Entries.nodup_put _ h)

theorem nodup_treeAttributes (attrs : List (Chars × Option Chars)) :
    ((treeAttributes attrs).map Prod.fst).Nodup :=
  nodup_enterAttributes List.nodup_nil

theorem enterAttributes_of_nodup {attrs : List (Chars × Chars)}
    (h : ((done ++ attrs).map Prod.fst).Nodup) :
    enterAttributes done (attrs.map fun a => (a.1, some a.2)) = done ++ attrs := by
  rw [enterAttributes, List.foldl_map]
  exact Entries.foldl_put_of_nodup h

/-- Attributes with different names are those of the tree. -/
theorem treeAttributes_of_nodup {attrs : List (Chars × Chars)} (h : (attrs.map Prod.fst).Nodup) :
    treeAttributes (attrs.map fun a => (a.1, some a.2)) = attrs :=
  enterAttributes_of_nodup h

end Tag

end Folio.Markup
