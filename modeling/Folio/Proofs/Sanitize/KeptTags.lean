import Folio.Proofs.Html.Origins
import Folio.Proofs.Sanitize.WrittenPieces

/-!
The start tags of a sanitized fragment. There is one for each element of an allowed tag, in the
order of the elements, with the attributes that are kept.
-/
namespace Folio.Sanitize

open Html (Content Shape)

/-- The name and the attributes of a start tag. -/
def Piece.start? : Piece → Option (Chars × List (Chars × Chars))
  | .start name attrs => some (name, attrs)
  | _ => none

/-- The start tags of some pieces. -/
def starts (pieces : List Piece) : List (Chars × List (Chars × Chars)) :=
  pieces.filterMap Piece.start?

mutual

/-- The elements of allowed tags in a content, each before those inside it. Elements that can have
no content have none. -/
def keptShapes : Content → List Shape
  | .text _ => []
  | .comment => []
  | .element name drawing attrs children =>
      (if isAllowedTag name then [⟨name, drawing, attrs⟩] else []) ++
        if !drawing && voidNames.contains name then [] else keptShapesOf children

/-- The elements of allowed tags in some contents. -/
def keptShapesOf : List Content → List Shape
  | [] => []
  | node :: rest => keptShapes node ++ keptShapesOf rest

end

/-- The start tag of an element. -/
def IsStartOf (shape : Shape) (start : Chars × List (Chars × Chars)) : Prop :=
  start.1 = shape.name ∧ cleanAttributes shape.name shape.attrs = .ok start.2

section Starts

open List (Forall₂)

theorem starts_append (xs ys : List Piece) : starts (xs ++ ys) = starts xs ++ starts ys :=
  List.filterMap_append

theorem starts_eq_nil {pieces : List Piece} (h : ∀ piece ∈ pieces, piece.start? = none) :
    starts pieces = [] := List.filterMap_eq_nil_iff.2 h

theorem start?_of_mem_textPieces {s : Chars} {piece : Piece} (h : piece ∈ textPieces s) :
    piece.start? = none := by
  have hspaces : ∀ run : Chars, piece ∈ (if run.isEmpty then [] else [Piece.space run]) →
      piece.start? = none := by
    intro run hpiece
    rw [List.mem_ite_nil_left, List.mem_singleton] at hpiece
    rw [hpiece.2]
    rfl
  have htexts : ∀ run : Chars, piece ∈ (if run.isEmpty then [] else [Piece.text run]) →
      piece.start? = none := by
    intro run hpiece
    rw [List.mem_ite_nil_left, List.mem_singleton] at hpiece
    rw [hpiece.2]
    rfl
  dsimp only [textPieces] at h
  rw [List.mem_append, List.mem_append, List.mem_append] at h
  rcases h with ((hleft | hhead) | hmiddle) | hright
  · exact hspaces _ hleft
  · exact htexts _ hhead
  · obtain ⟨after, -, hpiece⟩ := List.mem_flatMap.1 hmiddle
    unfold referencePieces at hpiece
    split at hpiece
    · rw [List.mem_singleton.1 hpiece]
      rfl
    · rcases List.mem_cons.1 hpiece with rfl | hafter
      · split <;> rfl
      · exact htexts _ hafter
  · exact hspaces _ hright

mutual

/-- The start tags of one node are those of its elements. -/
theorem forall₂_starts_nodePieces {node : Content} {pieces : List Piece}
    (h : nodePieces node = .ok pieces) : Forall₂ IsStartOf (keptShapes node) (starts pieces) := by
  cases node with
  | text s =>
      obtain rfl := Except.ok.inj h
      rw [starts_eq_nil fun piece hpiece => start?_of_mem_textPieces hpiece]
      exact .nil
  | comment =>
      obtain rfl := Except.ok.inj h
      exact .nil
  | element name drawing attrs children =>
      have hrest : ∀ {opening : List Piece} {shapes : List Shape},
          Forall₂ IsStartOf shapes (starts opening) →
          (if !drawing && voidNames.contains name then pure opening
            else do
              let inner ← piecesOf children
              return opening ++ inner ++ if isAllowedTag name then [.close name] else []) =
            Except.ok pieces →
          Forall₂ IsStartOf (shapes ++
            if !drawing && voidNames.contains name then []
            else keptShapesOf children) (starts pieces) := by
        intro opening shapes hopening hrest
        split at hrest
        · obtain rfl := Except.ok.inj hrest
          rwa [if_pos ‹_›, List.append_nil]
        · obtain ⟨inner, hinner, hrest⟩ := exists_of_bind_eq_ok hrest
          obtain rfl := Except.ok.inj hrest
          have hclose : starts (if isAllowedTag name then [.close name] else []) = [] := by
            split <;> rfl
          rw [if_neg ‹_›, starts_append, starts_append, hclose, List.append_nil]
          exact List.rel_append hopening (forall₂_starts_piecesOf hinner)
      rw [nodePieces] at h
      dsimp only at h
      rw [keptShapes]
      by_cases hallowed : isAllowedTag name
      · rw [if_pos hallowed] at h ⊢
        obtain ⟨opening, hopening, h⟩ := exists_of_bind_eq_ok h
        obtain ⟨kept, hkept, rfl⟩ := exists_of_map_eq_ok hopening
        exact hrest (.cons ⟨rfl, hkept⟩ .nil) h
      · rw [if_neg hallowed] at h ⊢
        exact hrest .nil h

/-- The start tags of some nodes are those of their elements. -/
theorem forall₂_starts_piecesOf {nodes : List Content} {pieces : List Piece}
    (h : piecesOf nodes = .ok pieces) :
    Forall₂ IsStartOf (keptShapesOf nodes) (starts pieces) := by
  cases nodes with
  | nil =>
      obtain rfl := Except.ok.inj h
      exact .nil
  | cons node rest =>
      rw [piecesOf] at h
      obtain ⟨first, hfirst, h⟩ := exists_of_bind_eq_ok h
      obtain ⟨later, hlater, h⟩ := exists_of_bind_eq_ok h
      obtain rfl := Except.ok.inj h
      rw [keptShapesOf, starts_append]
      exact List.rel_append (forall₂_starts_nodePieces hfirst) (forall₂_starts_piecesOf hlater)

end

/-- Joining texts changes no start tag. -/
theorem starts_joinTexts (pieces : List Piece) : starts (joinTexts pieces) = starts pieces := by
  induction pieces with
  | nil => rfl
  | cons first rest ih =>
      unfold joinTexts
      split
      · contradiction
      · rename_i s rest' heq
        obtain ⟨rfl, rfl⟩ := List.cons.inj heq
        split
        · rename_i t joined hjoined
          rw [hjoined] at ih
          exact ih
        · exact ih
      · rename_i piece' rest' _ heq
        obtain ⟨rfl, rfl⟩ := List.cons.inj heq
        change starts ([first] ++ joinTexts rest) = starts ([first] ++ rest)
        rw [starts_append, starts_append, ih]

end Starts

section Shapes

variable {shape : Shape}

mutual

theorem mem_of_mem_keptShapes {node : Content} (h : shape ∈ keptShapes node) :
    isAllowedTag shape.name ∧ shape ∈ node.shapes := by
  cases node with
  | text s => exact absurd h List.not_mem_nil
  | comment => exact absurd h List.not_mem_nil
  | element name drawing attrs children =>
      rw [keptShapes] at h
      rcases List.mem_append.1 h with hhere | hinside
      · rw [List.mem_ite_nil_right, List.mem_singleton] at hhere
        obtain ⟨hallowed, rfl⟩ := hhere
        exact ⟨hallowed, List.mem_cons_self⟩
      · rw [List.mem_ite_nil_left] at hinside
        exact (mem_of_mem_keptShapesOf hinside.2).imp_right (List.mem_cons_of_mem _)

/-- The elements that are kept are elements of the content, of allowed tags. -/
theorem mem_of_mem_keptShapesOf {nodes : List Content} (h : shape ∈ keptShapesOf nodes) :
    isAllowedTag shape.name ∧ shape ∈ Html.shapesOf nodes := by
  cases nodes with
  | nil => exact absurd h List.not_mem_nil
  | cons node rest =>
      rw [keptShapesOf] at h
      rw [Html.shapesOf]
      rcases List.mem_append.1 h with hfirst | hlater
      · exact (mem_of_mem_keptShapes hfirst).imp_right (List.mem_append_left _)
      · exact (mem_of_mem_keptShapesOf hlater).imp_right (List.mem_append_right _)

end

end Shapes

end Folio.Sanitize
