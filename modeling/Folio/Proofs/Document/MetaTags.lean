import Folio.Document.Head
import Folio.Proofs.Document.SectionTags
import Folio.Proofs.Markup.ReadTrees

/-!
Meta tags, read as they are written. Values may be any texts, but names are written as they are:
the tags are read as what is given exactly if each name can be the name of an attribute, and if one
cannot, no other text is read so either.
-/
namespace Folio.Document

open Markup (AttributeName Event QuotedAttribute Reads Respells endsAttributeName)

section Names

variable {c : Rune}

theorem not_ends_of_isUpper (hc : c.isUpper) :
    endsAttributeName c = false ∧ endsAttributeName c.toLower = false := by
  have hascii : c.toNat < 128 := by
    rw [Rune.isUpper, Bool.and_eq_true, decide_eq_true_eq, decide_eq_true_eq] at hc
    omega
  exact Text.ascii_forall (P := fun c => c.isUpper → endsAttributeName c = false ∧
    endsAttributeName c.toLower = false) (by decide +kernel) hascii hc

/-- Hyphens in the place of humps are another spelling. -/
theorem respells_hyphenate (name : Chars) : Respells name (hyphenate name) := by
  induction name with
  | nil => exact .nil
  | cons c name ih =>
      rw [hyphenate, List.flatMap_cons]
      cases hupper : c.isUpper with
      | true =>
          obtain ⟨hplain, hletter⟩ := not_ends_of_isUpper hupper
          have himage : ∀ d ∈ [.of '-', c.toLower], endsAttributeName d = false :=
            List.forall_mem_cons.2 ⟨by decide, List.forall_mem_singleton.2 hletter⟩
          exact .other hplain himage ih
      | false =>
          cases hends : endsAttributeName c with
          | true => exact .mark hends ih
          | false => exact .other hends (List.forall_mem_singleton.2 hends) ih

theorem attributeName_hyphenate_iff {name : Chars} :
    AttributeName (hyphenate name) ↔ AttributeName name :=
  (respells_hyphenate name).attributeName_iff

end Names

/-- The values of an entry that are written, with their names. -/
def writtenValues (entry : MetaEntry) : MetaEntry := entry.filter fun e => isWritten e.2

/-- What a meta tag is to be read as: names with hyphens, in lower case, and the values. -/
def reportedMeta (entry : MetaEntry) : Option Event :=
  if (writtenValues entry).isEmpty then none
  else some (.start ⟨"meta".runes, (writtenValues entry).map fun e =>
    (Text.lower (hyphenate e.1), some e.2.display), true⟩)

/-- Every name that is written can be the name of an attribute. -/
def Nameable (entry : MetaEntry) : Prop := ∀ e ∈ writtenValues entry, AttributeName e.1

section Tags

variable {entry : MetaEntry} {entries : List MetaEntry}

theorem reportedMeta_of_nil (h : writtenValues entry = []) : reportedMeta entry = none :=
  if_pos (List.isEmpty_iff.2 h)

theorem reportedMeta_of_ne_nil (h : writtenValues entry ≠ []) : reportedMeta entry =
    some (.start ⟨"meta".runes, (writtenValues entry).map fun e =>
      (Text.lower (hyphenate e.1), some e.2.display), true⟩) :=
  if_neg fun hnil => h (List.isEmpty_iff.1 hnil)

theorem metaAttributes_eq_nil_iff : metaAttributes entry = [] ↔ writtenValues entry = [] :=
  List.map_eq_nil_iff

theorem Nameable.readable (h : Nameable entry) :
    ∀ a ∈ Markup.escapedAttributes (metaAttributes entry), a.Readable := by
  apply Markup.readable_escapedAttributes
  intro a ha
  obtain ⟨e, he, rfl⟩ := List.mem_map.1 ha
  exact attributeName_hyphenate_iff.2 (h e he)

theorem readAttributes_metaAttributes (entry : MetaEntry) :
    Markup.readAttributes (Markup.escapedAttributes (metaAttributes entry)) =
      .ok ((writtenValues entry).map fun e =>
        (Text.lower (hyphenate e.1), some e.2.display)) := by
  rw [Markup.readAttributes_escapedAttributes, metaAttributes, List.map_map]
  rfl

theorem metaTag_of_nil (h : writtenValues entry = []) : metaTag entry = [] := by
  rw [metaTag, metaAttributes_eq_nil_iff.2 h]

/-- A meta tag is written as its attributes between quotes, with a space before its end. -/
theorem metaTag_append (h : writtenValues entry ≠ []) (rest : Chars) :
    metaTag entry ++ rest = .of '<' :: ("meta".runes ++
      ((Markup.escapedAttributes (metaAttributes entry)).flatMap QuotedAttribute.text ++
        ([.of ' '] ++ (Markup.tagClose true ++ rest)))) := by
  have hne : metaAttributes entry ≠ [] := fun hnil => h (metaAttributes_eq_nil_iff.1 hnil)
  rw [metaTag, ← Markup.cons_spaced_writeAttribute hne]
  split
  · contradiction
  · simp [Markup.tagClose, String.runes]

theorem tagName_meta : Markup.TagName "meta".runes :=
  Markup.tagName_of_isTagName (by decide)

/-- A meta tag is read as what it is, whatever follows it. -/
theorem Nameable.step (h : Nameable entry) (hsome : writtenValues entry ≠ []) (rest : Chars) :
    ∃ event, reportedMeta entry = some event ∧
      Markup.step false none (metaTag entry ++ rest) = .ok (.go [event] none rest) := by
  refine ⟨_, reportedMeta_of_ne_nil hsome, ?_⟩
  have hstep := tagName_meta.stepAngle_spaced h.readable (List.forall_mem_singleton.2 rfl) false
    true rest
  have hlower : Text.lower "meta".runes = "meta".runes := by decide
  rw [readAttributes_metaAttributes, hlower] at hstep
  rw [metaTag_append hsome]
  exact hstep

theorem reads_metaTags (h : ∀ entry ∈ entries, Nameable entry) :
    Reads none (metaTags entries) (entries.filterMap reportedMeta) none [] := by
  induction entries with
  | nil => exact .done none []
  | cons entry entries ih =>
      obtain ⟨hfirst, hlater⟩ := List.forall_mem_cons.1 h
      rw [metaTags, List.flatMap_cons]
      by_cases hnil : writtenValues entry = []
      · rw [metaTag_of_nil hnil, List.filterMap_cons_none (reportedMeta_of_nil hnil)]
        exact ih hlater
      · obtain ⟨event, hevent, hstep⟩ := hfirst.step hnil (metaTags entries)
        rw [List.filterMap_cons_some hevent]
        exact .step hstep (ih hlater)

/-- Names of attributes that are read are names that can be written. -/
theorem nameable_of_readEvents {text : Chars}
    (h : Markup.readEvents text = .ok (entries.filterMap reportedMeta)) :
    ∀ entry ∈ entries, Nameable entry := by
  intro entry hentry e he
  have hevent := reportedMeta_of_ne_nil (List.ne_nil_of_mem he)
  obtain ⟨o, horder⟩ := Markup.inOrder_readEvents h
  have hsound := horder.sound _ (List.mem_filterMap.2 ⟨entry, hentry, hevent⟩)
  have hname := (Markup.StartTag.Sound.attrs hsound _ (List.mem_map_of_mem he)).1
  exact attributeName_hyphenate_iff.1 (Markup.attributeName_lower_iff.1 hname)

end Tags

/-- The meta tags of a document are read as its entries with values, in order, one tag for each,
exactly if every name that is written can be the name of an attribute. If one cannot, there is no
text at all that is read so. -/
theorem readEvents_metaTags_iff (entries : List MetaEntry) :
    (Markup.readEvents (metaTags entries) = .ok (entries.filterMap reportedMeta) ↔
      ∀ entry ∈ entries, Nameable entry) ∧
    ((∃ text, Markup.readEvents text = .ok (entries.filterMap reportedMeta)) →
      ∀ entry ∈ entries, Nameable entry) := by
  refine ⟨⟨nameable_of_readEvents, fun h => (reads_metaTags h).readEvents⟩, ?_⟩
  rintro ⟨text, htext⟩
  exact nameable_of_readEvents htext

/-- A name with the character at which a tag ends. -/
theorem not_readEvents_metaTags : ¬ ∀ entries : List MetaEntry,
    Markup.readEvents (metaTags entries) = .ok (entries.filterMap reportedMeta) := by
  intro h
  have hname : AttributeName "a>".runes :=
    nameable_of_readEvents (h [[("a>", .str "x")]]) _ List.mem_cons_self ("a>".runes, .str "x")
      (List.mem_filter.2 ⟨List.mem_cons_self, rfl⟩)
  exact absurd ((Markup.attributeName_cons.1 hname).2.2.2 '>' (by decide)) (by decide)

end Folio.Document
