import Folio.Proofs.Html.StandardTags
import Folio.Proofs.Sanitize.KeptTags

/-!
A sanitized text read by the standard. Its start tags are those that were written, in their order,
each with its attributes; and where no value of a tag ends the tag to the rest of the writer, the
references of every value between double quotes are restored.
-/
namespace Folio.Sanitize

open List (Forall₂)
open Markup (QuotedAttribute)

section Parts

variable {atValue : Bool} {part out : Chars} {parts : List Chars}

/-- Inside a tag, a part that is no value is written as it is. -/
theorem exists_rest_of_plain (hend : part ≠ [.of '>']) (hplain : atValue = false ∨ part = [.of '"'])
    (h : restoreReferences true atValue (part :: parts) = .ok out) :
    ∃ after, restoreReferences true (atValue || part == [.of '=']) parts = .ok after ∧
      out = part ++ after := by
  have hvalue : (atValue && part != [.of '"']) = false := by
    rcases hplain with rfl | rfl
    · rfl
    · exact Bool.and_false _
  rw [restoreReferences, beq_false_of_ne hend, if_neg Bool.false_ne_true, hvalue,
    if_neg Bool.false_ne_true] at h
  exact eq_append_of_bind h

/-- Where a value comes, its references are restored. -/
theorem exists_rest_of_value (hend : part ≠ [.of '>']) (hquote : part ≠ [.of '"'])
    (h : restoreReferences true true (part :: parts) = .ok out) :
    ∃ written after, restore part = .ok written ∧ restoreReferences true false parts = .ok after ∧
      out = written ++ after := by
  rw [restoreReferences, beq_false_of_ne hend, if_neg Bool.false_ne_true, Bool.true_and,
    if_pos (bne_iff_ne.2 hquote)] at h
  obtain ⟨written, hwritten, h⟩ := exists_of_bind_eq_ok h
  obtain ⟨after, hafter, heq⟩ := eq_append_of_bind h
  exact ⟨written, after, hwritten, hafter, heq⟩

/-- Inside a tag, a part without ampersands is written as it is, and the tag goes on. -/
theorem exists_rest_in_tag (hend : part ≠ [.of '>']) (hpart : .of '&' ∉ part)
    (h : restoreReferences true atValue (part :: parts) = .ok out) :
    ∃ atValue' after, restoreReferences true atValue' parts = .ok after ∧ out = part ++ after := by
  by_cases hplain : atValue = false ∨ part = [.of '"']
  · exact ⟨_, exists_rest_of_plain hend hplain h⟩
  · rw [not_or, Bool.not_eq_false] at hplain
    obtain ⟨rfl, hquote⟩ := hplain
    obtain ⟨written, after, hwritten, hafter, rfl⟩ := exists_rest_of_value hend hquote h
    rw [restore_of_not_mem hpart] at hwritten
    obtain rfl := Except.ok.inj hwritten
    exact ⟨false, after, hafter, rfl⟩

/-- The part that opens a tag. -/
theorem exists_rest_of_open {inTag : Bool} {name : Chars} (hname : .of '&' ∉ name)
    (h : restoreReferences inTag atValue ((.of '<' :: name) :: parts) = .ok out) :
    ∃ atValue' after, restoreReferences true atValue' parts = .ok after ∧
      out = .of '<' :: name ++ after := by
  cases inTag with
  | false =>
      rw [restoreReferences] at h
      exact ⟨atValue, eq_append_of_bind h⟩
  | true =>
      refine exists_rest_in_tag (fun heq => absurd (List.cons.inj heq).1 (by decide)) ?_ h
      rw [List.mem_cons]
      exact fun hmem => hmem.elim (by decide) hname

/-- A space before an attribute inside a tag. -/
theorem exists_rest_of_space_in_tag (h : restoreReferences true atValue ([' '] :: parts) = .ok out) :
    ∃ after, restoreReferences true false parts = .ok after ∧ out = .of ' ' :: after := by
  cases atValue with
  | false => exact exists_rest_of_plain (by decide) (Or.inl rfl) h
  | true =>
      obtain ⟨written, after, hwritten, hafter, rfl⟩ :=
        exists_rest_of_value (by decide) (by decide) h
      rw [restore_of_not_mem (by decide)] at hwritten
      obtain rfl := Except.ok.inj hwritten
      exact ⟨after, hafter, rfl⟩

end Parts

/-- Between double quotes the references of the value are restored. -/
def Restored (attr : Chars × Chars) (written : QuotedAttribute) : Prop :=
  written.quote = '"' → restore (quoteValue attr.2).2 = .ok written.value

section Attributes

variable {inTag atValue : Bool} {out : Chars} {rest : List Chars} {attr : Chars × Chars}

theorem quoteValue_ne_end {value : Chars} (h : value ≠ [.of '>']) : (quoteValue value).2 ≠ ['>'] := by
  intro heq
  have hread := decodeValue_quoteValue value
  rw [heq] at hread
  exact h (Except.ok.inj hread).symm

/-- An attribute inside a tag whose value is no end of the tag. -/
theorem exists_restored (hname : attr.1 ≠ [.of '>'] ∧ attr.1 ≠ [.of '='])
    (hvalue : attr.2 ≠ [.of '>'])
    (h : restoreReferences true atValue (attributeParts attr ++ rest) = .ok out) :
    ∃ atValue' written after, WrittenFrom attr written ∧ Restored attr written ∧
      restoreReferences true atValue' rest = .ok after ∧ out = written.text ++ after := by
  have hpart := quoteValue_ne_end hvalue
  have hnot := quoteValue_not_mem attr.2
  change restoreReferences true atValue ([' '] :: attr.1 :: ['='] :: [(quoteValue attr.2).1] ::
    (quoteValue attr.2).2 :: [(quoteValue attr.2).1] :: rest) = .ok out at h
  obtain ⟨_, hspace, rfl⟩ := exists_rest_of_space_in_tag h
  obtain ⟨_, hequals, rfl⟩ := exists_rest_of_plain hname.1 (Or.inl rfl) hspace
  rw [beq_false_of_ne hname.2] at hequals
  obtain ⟨_, hopen, rfl⟩ := exists_rest_of_plain (by decide) (Or.inl rfl) hequals
  rcases quoteValue_fst attr.2 with hquote | hquote
  · rw [hquote] at hopen hnot
    obtain ⟨_, hinside, rfl⟩ := exists_rest_of_plain (by decide) (Or.inr rfl) hopen
    have hne : (quoteValue attr.2).2 ≠ ['"'] := by
      intro heq
      rw [heq] at hnot
      exact hnot List.mem_cons_self
    obtain ⟨value, _, hwritten, hclose, rfl⟩ := exists_rest_of_value hpart hne hinside
    obtain ⟨atValue', after, hrest, rfl⟩ := exists_rest_in_tag (by decide) (by decide) hclose
    refine ⟨atValue', ⟨attr.1, '"', value⟩, after, ⟨rfl, hquote.symm, Or.inr hwritten⟩,
      fun _ => hwritten, hrest, ?_⟩
    simp [QuotedAttribute.text]
  · rw [hquote] at hopen
    obtain ⟨_, _, hmark, hinside, rfl⟩ := exists_rest_of_value (by decide) (by decide) hopen
    rw [restore_of_not_mem (by decide)] at hmark
    obtain rfl := Except.ok.inj hmark
    obtain ⟨_, hclose, rfl⟩ := exists_rest_of_plain hpart (Or.inl rfl) hinside
    obtain ⟨atValue', after, hrest, rfl⟩ := exists_rest_in_tag (by decide) (by decide) hclose
    refine ⟨atValue', ⟨attr.1, '\'', (quoteValue attr.2).2⟩, after, ⟨rfl, hquote.symm, Or.inl rfl⟩,
      fun heq => absurd heq (by decide : ¬ Rune.of '\'' = .of '"'), hrest, ?_⟩
    simp [QuotedAttribute.text]

/-- An attribute, wherever it stands. -/
theorem exists_written_attribute (hname : attr.1 ≠ [.of '>'] ∧ attr.1 ≠ [.of '='])
    (h : restoreReferences inTag atValue (attributeParts attr ++ rest) = .ok out) :
    ∃ (inTag' atValue' : Bool) (written : QuotedAttribute) (after : Chars),
      WrittenFrom attr written ∧
      (inTag → attr.2 ≠ [.of '>'] → inTag' ∧ Restored attr written) ∧
      restoreReferences inTag' atValue' rest = .ok after ∧ out = written.text ++ after := by
  by_cases hstate : inTag ∧ attr.2 ≠ [.of '>']
  · obtain ⟨rfl, hvalue⟩ := hstate
    obtain ⟨atValue', written, after, hwritten, hrestored, hrest, heq⟩ :=
      exists_restored hname hvalue h
    exact ⟨true, atValue', written, after, hwritten, fun _ _ => ⟨rfl, hrestored⟩, hrest, heq⟩
  · obtain ⟨inTag', atValue', written, after, hwritten, hrest, heq⟩ := exists_writtenFrom h
    exact ⟨inTag', atValue', written, after, hwritten,
      fun htag hvalue => absurd ⟨htag, hvalue⟩ hstate, hrest, heq⟩

/-- The attributes of a tag, in their order. -/
theorem exists_written_attributes {attrs : List (Chars × Chars)}
    (hnames : ∀ attr ∈ attrs, attr.1 ≠ [.of '>'] ∧ attr.1 ≠ [.of '='])
    (h : restoreReferences inTag atValue (attrs.flatMap attributeParts ++ rest) = .ok out) :
    ∃ (inTag' atValue' : Bool) (written : List QuotedAttribute) (after : Chars),
      Forall₂ (fun attr q => WrittenFrom attr q ∧
        (inTag → (∀ other ∈ attrs, other.2 ≠ [.of '>']) → Restored attr q)) attrs written ∧
      restoreReferences inTag' atValue' rest = .ok after ∧
      out = written.flatMap QuotedAttribute.text ++ after := by
  induction attrs generalizing inTag atValue out with
  | nil => exact ⟨inTag, atValue, [], out, .nil, h, rfl⟩
  | cons attr attrs ih =>
      obtain ⟨hname, hlater⟩ := List.forall_mem_cons.1 hnames
      rw [List.flatMap_cons, List.append_assoc] at h
      obtain ⟨_, _, first, _, hfirst, hrestored, hafter, rfl⟩ := exists_written_attribute hname h
      obtain ⟨inTag', atValue', more, after, hmore, hrest, rfl⟩ := ih hlater hafter
      refine ⟨inTag', atValue', first :: more, after, .cons ⟨hfirst, ?_⟩ ?_, hrest, ?_⟩
      · exact fun htag hvalues => (hrestored htag (hvalues attr List.mem_cons_self)).2
      · refine hmore.imp fun other q hother => ⟨hother.1, fun htag hvalues => ?_⟩
        obtain ⟨hvalue, hvalues⟩ := List.forall_mem_cons.1 hvalues
        exact hother.2 (hrestored htag hvalue).1 hvalues
      · rw [List.flatMap_cons, List.append_assoc]

end Attributes

/-- The start tag as it is read once it is written. Where no value ends the tag to the rest of the
writer, the references of every value between double quotes are restored. -/
def IsReadAs (start : Chars × List (Chars × Chars)) (tag : Html.Tag) : Prop :=
  ∃ written, Forall₂ (fun attr q => WrittenFrom attr q ∧
      ((∀ other ∈ start.2, other.2 ≠ [.of '>']) → Restored attr q)) start.2 written ∧
    tag = ⟨start.1, Html.firstValues (written.map Html.readPair), false⟩

section Pieces

variable {inTag atValue : Bool} {out : Chars}

theorem ne_end_of_isPlainName {name : Chars} (h : Html.IsPlainName name) :
    name ≠ [.of '>'] ∧ name ≠ ['='] := by
  constructor
  · rintro rfl
    exact absurd (h.chars '>' List.mem_cons_self) (by decide)
  · rintro rfl
    exact absurd (h.chars '=' List.mem_cons_self) (by decide)

theorem isWritten_of_forall₂ {attrs : List (Chars × Chars)} {written : List QuotedAttribute}
    (h : Forall₂ WrittenFrom attrs written) (hnames : ∀ attr ∈ attrs, Html.IsPlainName attr.1) :
    ∀ q ∈ written, Html.IsWritten q := by
  induction h with
  | nil => exact fun q hq => absurd hq List.not_mem_nil
  | @cons attr q attrs written hfrom _ ih =>
      obtain ⟨hname, hlater⟩ := List.forall_mem_cons.1 hnames
      refine List.forall_mem_cons.2 ⟨⟨hfrom.name ▸ hname, hfrom.quote ▸ quoteValue_fst attr.2, ?_⟩,
        ih hlater⟩
      rw [hfrom.quote]
      exact hfrom.value.not_mem (quoteValue_not_mem attr.2) (quoteValue_fst_not_mem attr.2)

/-- A start tag with its attributes in their order. -/
theorem exists_written_tag {name : Chars} {attrs : List (Chars × Chars)} {rest : List Chars}
    (hname : Markup.isTagName name) (hnames : ∀ attr ∈ attrs, Html.IsPlainName attr.1)
    (h : restoreReferences inTag atValue ((Piece.start name attrs).parts ++ rest) = .ok out) :
    ∃ (inTag' atValue' : Bool) (written : List QuotedAttribute) (after : Chars),
      (∀ q ∈ written, Html.IsWritten q) ∧
      Forall₂ (fun attr q => WrittenFrom attr q ∧
        ((∀ other ∈ attrs, other.2 ≠ [.of '>']) → Restored attr q)) attrs written ∧
      restoreReferences inTag' atValue' rest = .ok after ∧
      out = .of '<' :: (name ++ (written.flatMap QuotedAttribute.text ++ .of '>' :: after)) := by
  rw [Piece.parts, List.cons_append, List.cons_append, List.append_assoc] at h
  obtain ⟨_, _, hinside, rfl⟩ := exists_rest_of_open (amp_not_mem_of_isTagName hname) h
  obtain ⟨_, _, written, _, hwritten, hclose, rfl⟩ := exists_written_attributes
    (fun attr hattr => ne_end_of_isPlainName (hnames attr hattr)) hinside
  obtain ⟨inTag', atValue', after, hrest, rfl⟩ := exists_rest_of_not_mem (by decide) hclose
  refine ⟨inTag', atValue', written, after,
    isWritten_of_forall₂ (hwritten.imp fun _ _ => And.left) hnames, ?_, hrest, rfl⟩
  exact hwritten.imp fun _ _ => And.imp_right fun hrestored => hrestored rfl

/-- What is written of some pieces shows their start tags, in their order. -/
theorem exists_shows_of_restoreReferences {pieces : List Piece}
    (hsound : ∀ piece ∈ pieces, piece.Sound)
    (hstarts : ∀ start ∈ starts pieces, Text.lowerAscii start.1 = start.1 ∧
      ∀ attr ∈ start.2, Html.IsPlainName attr.1)
    (h : restoreReferences inTag atValue (pieces.flatMap Piece.parts) = .ok out) :
    ∃ tags, Html.Shows out tags ∧ Forall₂ IsReadAs (starts pieces) tags := by
  induction pieces generalizing inTag atValue out with
  | nil =>
      obtain rfl := Except.ok.inj h
      exact ⟨[], Html.shows_nil, .nil⟩
  | cons piece pieces ih =>
      obtain ⟨hpiece, hsoundLater⟩ := List.forall_mem_cons.1 hsound
      rw [List.flatMap_cons] at h
      have hplain : ∀ {part : Chars}, .of '<' ∉ part →
          restoreReferences inTag atValue (part :: pieces.flatMap Piece.parts) = .ok out →
          (∀ start ∈ starts pieces, Text.lowerAscii start.1 = start.1 ∧
            ∀ attr ∈ start.2, Html.IsPlainName attr.1) →
          ∃ tags, Html.Shows out tags ∧ Forall₂ IsReadAs (starts pieces) tags := by
        intro part hpart hout hstartsLater
        obtain ⟨_, _, written, _, hwritten, hrest, rfl⟩ := exists_written hout
        obtain ⟨tags, hshows, htags⟩ := ih hsoundLater hstartsLater hrest
        exact ⟨tags, hshows.append (hwritten.not_mem hpart (by decide)), htags⟩
      cases piece with
      | space s => exact hplain hpiece h hstarts
      | text s => exact hplain (not_mem_escapeText s) h hstarts
      | reference name =>
          refine hplain ?_ h hstarts
          rw [List.mem_append, List.mem_cons]
          rintro ((heq | hmem) | hmem)
          · exact absurd heq (by decide)
          · exact hpiece hmem
          · exact absurd hmem (by decide)
      | start name attrs =>
          obtain ⟨⟨hlower, hnames⟩, hstartsLater⟩ := List.forall_mem_cons.1 hstarts
          obtain ⟨_, _, written, _, hquoted, hwritten, hrest, rfl⟩ :=
            exists_written_tag hpiece hnames h
          obtain ⟨tags, hshows, htags⟩ := ih hsoundLater hstartsLater hrest
          exact ⟨_, hshows.start hpiece hlower hquoted, .cons ⟨written, hwritten, rfl⟩ htags⟩
      | close name =>
          obtain ⟨_, _, _, hrest, rfl⟩ := exists_written_close hpiece h
          obtain ⟨tags, hshows, htags⟩ := ih hsoundLater hstarts hrest
          exact ⟨tags, hshows.close hpiece, htags⟩

end Pieces

end Folio.Sanitize
