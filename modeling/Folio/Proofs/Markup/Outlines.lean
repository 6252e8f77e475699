import Folio.Markup.Printer
import Folio.Proofs.Markup.Elements
import Folio.Proofs.Markup.TreeAttributes

/-!
The outline of a tree: its elements with their names, their attributes in the order in which these
are written and the text of raw text elements, one inside the other.
-/
namespace Folio.Markup

section Sorted

variable {name : Chars} {attrs : List (Chars × Chars)}

theorem precedes_cons {a b : Rune} {s t : Chars} :
    precedes (a :: s) (b :: t) ↔ a < b ∨ a = b ∧ precedes s t := by
  rw [precedes]
  by_cases h : a = b
  · subst h
    rw [if_pos (beq_self_eq_true a), or_iff_right (Std.lt_irrefl (a := a)), and_iff_right rfl]
  · rw [if_neg (beq_iff_eq.not.2 h), decide_eq_true_iff, or_iff_left fun hboth => h hboth.1]

theorem precedes_total (s t : Chars) : precedes s t ∨ precedes t s := by
  induction s generalizing t with
  | nil => exact Or.inl (by cases t <;> rfl)
  | cons a s ih =>
      cases t with
      | nil => exact Or.inr rfl
      | cons b t =>
          rw [precedes_cons, precedes_cons]
          rcases Std.lt_trichotomy a b with hless | rfl | hmore
          · exact Or.inl (Or.inl hless)
          · exact (ih t).imp (fun h => Or.inr ⟨rfl, h⟩) fun h => Or.inr ⟨rfl, h⟩
          · exact Or.inr (Or.inl hmore)

theorem precedes_trans {s t u : Chars} (hst : precedes s t) (htu : precedes t u) :
    precedes s u := by
  induction s generalizing t u with
  | nil => cases u <;> rfl
  | cons a s ih =>
      cases t with
      | nil => contradiction
      | cons b t =>
          cases u with
          | nil => contradiction
          | cons c u =>
              rw [precedes_cons] at hst htu ⊢
              rcases hst with hab | ⟨rfl, hst⟩
              · rcases htu with hbc | ⟨rfl, -⟩
                · exact Or.inl (Std.lt_trans hab hbc)
                · exact Or.inl hab
              · exact htu.imp_right fun ⟨hac, htu⟩ => ⟨hac, ih hst htu⟩

theorem precedes_antisymm {s t : Chars} (hst : precedes s t) (hts : precedes t s) : s = t := by
  induction s generalizing t with
  | nil =>
      cases t with
      | nil => rfl
      | cons => contradiction
  | cons a s ih =>
      cases t with
      | nil => contradiction
      | cons b t =>
          rw [precedes_cons] at hst hts
          rcases hst with hab | ⟨rfl, hst⟩
          · rcases hts with hba | ⟨rfl, -⟩
            · exact absurd hba (Std.not_gt_of_lt hab)
            · exact absurd hab Std.lt_irrefl
          · rcases hts with haa | ⟨-, hts⟩
            · exact absurd haa Std.lt_irrefl
            · rw [ih hst hts]

/-- Attributes in the order in which they are written. -/
def sortAttributes (attrs : List (Chars × Chars)) : List (Chars × Chars) :=
  attrs.mergeSort fun a b => precedes a.1 b.1

theorem perm_sortAttributes (attrs : List (Chars × Chars)) : (sortAttributes attrs).Perm attrs :=
  List.mergeSort_perm attrs _

theorem pairwise_sortAttributes (attrs : List (Chars × Chars)) :
    (sortAttributes attrs).Pairwise fun a b => precedes a.1 b.1 := by
  refine List.pairwise_mergeSort (fun a b c hab hbc => ?_) (fun a b => ?_) attrs
  · exact precedes_trans hab hbc
  · rw [Bool.or_eq_true]
    exact precedes_total a.1 b.1

theorem nodup_sortAttributes (h : (attrs.map Prod.fst).Nodup) :
    ((sortAttributes attrs).map Prod.fst).Nodup :=
  (((perm_sortAttributes attrs).map Prod.fst).nodup_iff).2 h

theorem lookup_sortAttributes (h : (attrs.map Prod.fst).Nodup) (name : Chars) :
    (sortAttributes attrs).lookup name = attrs.lookup name :=
  Entries.lookup_eq_of_perm (perm_sortAttributes attrs) h name

theorem sortAttributes_of_pairwise (h : attrs.Pairwise fun a b => precedes a.1 b.1) :
    sortAttributes attrs = attrs :=
  List.mergeSort_of_pairwise h

/-- New values leave the order as it is. -/
theorem sortAttributes_map {f : Chars × Chars → Chars × Chars} (hf : ∀ a, (f a).1 = a.1) :
    sortAttributes (attrs.map f) = (sortAttributes attrs).map f := by
  refine (List.map_mergeSort fun a _ b _ => ?_).symm
  rw [hf, hf]

/-- Attributes that are left out leave the order of the others as it is. -/
theorem sortAttributes_filter (h : (attrs.map Prod.fst).Nodup) (p : Chars × Chars → Bool) :
    sortAttributes (attrs.filter p) = (sortAttributes attrs).filter p := by
  refine List.Perm.eq_of_pairwise ?_ (pairwise_sortAttributes _)
    ((pairwise_sortAttributes attrs).filter p)
    ((perm_sortAttributes _).trans ((perm_sortAttributes attrs).symm.filter p))
  intro a b ha hb hab hba
  have hname : a.1 = b.1 := precedes_antisymm hab hba
  have ha' : (a.1, a.2) ∈ attrs := List.mem_of_mem_filter ((perm_sortAttributes _).subset ha)
  have hb' : (b.1, b.2) ∈ attrs := (perm_sortAttributes _).subset (List.mem_of_mem_filter hb)
  rw [← Entries.lookup_eq_some_iff h] at ha' hb'
  rw [hname] at ha'
  exact Prod.ext hname (Option.some.inj (ha'.symm.trans hb'))

end Sorted

/-- Attributes with their written values. -/
def writtenAttributes (name : Chars) (attrs : List (Chars × Chars)) : List (Chars × Chars) :=
  attrs.map fun a => (a.1, writtenValue name attrs a.1 a.2)

/-- The text of an element that holds nothing else. -/
def ownText : List Node → Chars
  | [.text _ content] => content
  | _ => []

/-- A text that is more than blanks. -/
def shownText (s : Chars) : Chars := if s.all Text.isSpace then [] else s

/-- An element with its name, its attributes in the order in which they are written, its text if it
is a raw text element, and the elements in it. -/
inductive Outline where
  | element (name : Chars) (attrs : List (Chars × Chars)) (text : Chars) (children : List Outline)

mutual

/-- The outline of a node if it is an element. -/
def Node.outline : Node → List Outline
  | .element name attrs children =>
      [.element name (sortAttributes attrs)
        (if isRawText name then shownText (ownText children) else []) (outlines children)]
  | .text .. => []

/-- The outlines of some nodes. -/
def outlines : List Node → List Outline
  | [] => []
  | node :: rest => node.outline ++ outlines rest

end

mutual

/-- An outline with the attributes as they are written. -/
def Outline.written : Outline → Outline
  | .element name attrs text children =>
      .element name (writtenAttributes name attrs) text (writtenOutlines children)

/-- Outlines with the attributes as they are written. -/
def writtenOutlines : List Outline → List Outline
  | [] => []
  | o :: rest => o.written :: writtenOutlines rest

end

section Outlines

variable {name content : Chars} {attrs : List (Chars × Chars)} {children rest : List Node}

@[simp] theorem outlines_nil : outlines [] = [] := rfl

@[simp] theorem outlines_element : outlines (.element name attrs children :: rest) =
    .element name (sortAttributes attrs)
      (if isRawText name then shownText (ownText children) else []) (outlines children) ::
        outlines rest := rfl

@[simp] theorem outlines_append (first second : List Node) :
    outlines (first ++ second) = outlines first ++ outlines second := by
  induction first with
  | nil => rfl
  | cons node rest ih => rw [List.cons_append, outlines, outlines, ih, List.append_assoc]

@[simp] theorem writtenOutlines_append (first second : List Outline) :
    writtenOutlines (first ++ second) = writtenOutlines first ++ writtenOutlines second := by
  induction first with
  | nil => rfl
  | cons o rest ih => rw [List.cons_append, writtenOutlines, writtenOutlines, ih, List.cons_append]

/-- The value that is written does not depend on the order of the attributes. -/
theorem writtenAttributes_sortAttributes (h : (attrs.map Prod.fst).Nodup) (name : Chars) :
    writtenAttributes name (sortAttributes attrs) =
      (sortAttributes attrs).map fun a => (a.1, writtenValue name attrs a.1 a.2) := by
  refine List.map_congr_left fun a _ => ?_
  rw [writtenValue, writtenValue, lookup_sortAttributes h, lookup_sortAttributes h]

theorem pairwise_writtenAttributes (name : Chars)
    (h : attrs.Pairwise fun a b => precedes a.1 b.1) :
    (writtenAttributes name attrs).Pairwise fun a b => precedes a.1 b.1 :=
  List.pairwise_map.2 h

theorem keys_writtenAttributes (name : Chars) (attrs : List (Chars × Chars)) :
    (writtenAttributes name attrs).map Prod.fst = attrs.map Prod.fst := by
  rw [writtenAttributes, List.map_map]
  rfl

theorem shownText_of_blank (h : content.all Text.isSpace) : shownText content = [] := if_pos h

end Outlines

end Folio.Markup
