import Folio.Document.Assembly
import Folio.Proofs.Markup.EscapedValues
import Folio.Proofs.Markup.Joining
import Folio.Proofs.Markup.TreeAttributes
import Folio.Proofs.Text.Pieces

/-!
The tag of a section, read as it is written: its attributes have different names, and each has the
value that the page gives it, whatever characters are in it. Its classes are those of the author,
with the class of every page before them and the markers of hidden bands after them.
-/
namespace Folio.Document

open Markup (QuotedAttribute StartTag)

/-- The names that the attributes of a section may have, in the order in which they stand. -/
def sectionAttributeNames : List Chars :=
  ["class", "data-title", "data-header-height", "data-footer-height", "style"].map String.runes

namespace SectionTag

variable {t : SectionTag}

theorem attributeNames_sublist (t : SectionTag) :
    (t.attributes.map Prod.fst).Sublist sectionAttributeNames := by
  have hoption : ∀ (name : Chars) (value : Option Chars),
      ((value.map fun v => (name, v)).toList.map Prod.fst).Sublist [name] := by
    intro name value
    cases value with
    | none => exact List.nil_sublist _
    | some v => exact List.Sublist.refl _
  have hstyle : ((if t.style.isEmpty then [] else [("style".runes, t.style)]).map
      Prod.fst).Sublist ["style".runes] := by
    split
    · exact List.nil_sublist _
    · exact List.Sublist.refl _
  unfold attributes
  simp only [List.map_append]
  exact ((((List.Sublist.refl ["class".runes]).append (hoption _ _)).append (hoption _ _)).append
    (hoption _ _)).append hstyle

theorem attributeNames_nodup (t : SectionTag) : (t.attributes.map Prod.fst).Nodup :=
  t.attributeNames_sublist.nodup (by decide)

theorem name_mem {a : Chars × Chars} (ha : a ∈ t.attributes) : a.1 ∈ sectionAttributeNames :=
  t.attributeNames_sublist.subset (List.mem_map_of_mem ha)

theorem lower_name {a : Chars × Chars} (ha : a ∈ t.attributes) : Text.lower a.1 = a.1 := by
  have hnames : ∀ name ∈ sectionAttributeNames, Text.lower name = name := by decide
  exact hnames _ (name_mem ha)

theorem isAttributeName_name {a : Chars × Chars} (ha : a ∈ t.attributes) :
    Markup.isAttributeName a.1 := by
  have hnames : ∀ name ∈ sectionAttributeNames, Markup.isAttributeName name := by decide
  exact hnames _ (name_mem ha)

theorem attributes_ne_nil (t : SectionTag) : t.attributes ≠ [] := by
  simp [attributes]

/-- The tag is written as its attributes between quotes, a space before each. -/
theorem write_eq (t : SectionTag) : .of ' ' :: t.write =
    (Markup.escapedAttributes t.attributes).flatMap QuotedAttribute.text :=
  Markup.cons_spaced_writeAttribute t.attributes_ne_nil

theorem readAttributes_eq (t : SectionTag) :
    Markup.readAttributes (Markup.escapedAttributes t.attributes) =
      .ok (t.attributes.map fun a => (a.1, some a.2)) := by
  rw [Markup.readAttributes_escapedAttributes]
  apply congrArg Except.ok
  apply List.map_congr_left
  intro a ha
  rw [lower_name ha]

theorem lookup_toList (key name : Chars) (value : Option Chars) :
    (value.map fun v => (name, v)).toList.lookup key = if key == name then value else none := by
  cases value with
  | none => split <;> rfl
  | some v =>
      rw [Option.map_some, Option.toList_some, List.lookup_cons]
      split <;> simp_all

/-- The attribute of a name, whichever of the others there are. -/
theorem lookup_attributes (t : SectionTag) (key : Chars) : t.attributes.lookup key =
    ((((if key == "class".runes then some (Text.spaced t.classes) else none).or
      (if key == "data-title".runes then t.title else none)).or
      (if key == "data-header-height".runes then t.headerHeight else none)).or
      (if key == "data-footer-height".runes then t.footerHeight else none)).or
      (if key == "style".runes then (if t.style.isEmpty then none else some t.style) else none) := by
  have hclass := lookup_toList key "class".runes (some (Text.spaced t.classes))
  have hstyle := lookup_toList key "style".runes (if t.style.isEmpty then none else some t.style)
  have hlast : (if t.style.isEmpty then [] else [("style".runes, t.style)]) =
      ((if t.style.isEmpty then none else some t.style).map
        fun v => ("style".runes, v)).toList := by
    split <;> rfl
  rw [Option.map_some, Option.toList_some] at hclass
  rw [attributes, hlast, List.lookup_append, List.lookup_append, List.lookup_append,
    List.lookup_append, lookup_toList, lookup_toList, lookup_toList, hstyle, hclass]

end SectionTag

/-- The start tag of a section, as it is read. -/
def SectionTag.read (t : SectionTag) : StartTag :=
  ⟨"section".runes, t.attributes.map fun a => (a.1, some a.2), false⟩

theorem SectionTag.treeAttributes_read (t : SectionTag) :
    Markup.treeAttributes t.read.attrs = t.attributes :=
  Markup.treeAttributes_of_nodup t.attributeNames_nodup

theorem isTagName_section : Markup.isTagName "section".runes := by decide

theorem lower_section : Text.lower "section".runes = "section".runes := by decide

/-- The start tag of a section is read as it is, whatever follows it. -/
theorem step_sectionStart (t : SectionTag) (rest : Chars) :
    Markup.step false none ("<section ".runes ++ t.write ++ .of '>' :: rest) =
      .ok (.go [.start t.read] none rest) := by
  have hsound := Markup.sound_escapedAttributes fun a ha =>
    SectionTag.isAttributeName_name (t := t) ha
  have hstep := Markup.stepAngle_written isTagName_section hsound false rest
  rw [t.readAttributes_eq, lower_section] at hstep
  have hwritten : "<section ".runes ++ t.write ++ .of '>' :: rest = .of '<' :: ("section".runes ++
      ((Markup.escapedAttributes t.attributes).flatMap QuotedAttribute.text ++ .of '>' :: rest)) := by
    rw [← t.write_eq]
    simp [String.runes]
  rw [hwritten]
  exact hstep

/-- A section is read as its tag, and then as what stands in it. -/
theorem step_writeSection (p : Page) (content rest : Chars) :
    Markup.step false none (writeSection p content ++ rest) =
      .ok (.go [.start p.sectionTag.read] none (content ++ ("</section>".runes ++ rest))) := by
  have hwritten : writeSection p content ++ rest = "<section ".runes ++ p.sectionTag.write ++
      .of '>' :: (content ++ ("</section>".runes ++ rest)) := by
    simp [writeSection, enclose, String.runes]
  rw [hwritten]
  exact step_sectionStart p.sectionTag _

theorem step_sectionEnd (rest : Chars) : Markup.step false none ("</section>".runes ++ rest) =
    .ok (.go [.close "section".runes] none rest) := by
  have hstep := Markup.stepAngle_writtenEnd isTagName_section false rest
  rw [lower_section] at hstep
  exact hstep

section Classes

variable {p : Page}

/-- The marker of a band that is not shown. -/
def Page.markers (p : Page) : List Chars :=
  (if p.showsHeader then [] else ["no-header".runes]) ++
    (if p.showsFooter then [] else ["no-footer".runes])

/-- The classes that the author gives a page, and the class of every page. -/
def Page.namedClasses (p : Page) : List Chars :=
  let given := Text.words p.sectionClass
  if given.contains pageClass then given else pageClass :: given

/-- Items that differ from each other are added in their order, each one unless it is there. -/
theorem foldl_addMissing {added : List Chars} (hadded : added.Nodup) (given : List Chars) :
    added.foldl addMissing given = given ++ added.filter fun a => !given.contains a := by
  induction added generalizing given with
  | nil => simp
  | cons a added ih =>
      obtain ⟨hfirst, hlater⟩ := List.nodup_cons.1 hadded
      rw [List.foldl_cons, ih hlater, addMissing, List.filter_cons]
      cases hhas : given.contains a with
      | true => rfl
      | false =>
          have hsame : added.filter (fun b => !(given ++ [a]).contains b) =
              added.filter fun b => !given.contains b := by
            apply List.filter_congr
            intro b hb
            have hne : b ≠ a := fun heq => hfirst (heq ▸ hb)
            simp [hne]
          rw [if_neg Bool.false_ne_true, hsame, List.append_assoc]
          rfl

theorem classes_eq (p : Page) :
    p.classes = p.namedClasses ++ p.markers.filter fun m => !p.namedClasses.contains m := by
  have hmarkers : p.markers.Nodup := by
    unfold Page.markers
    cases p.showsHeader <;> cases p.showsFooter <;> decide
  exact foldl_addMissing hmarkers p.namedClasses

theorem mem_classes {c : Chars} : c ∈ p.classes ↔ c ∈ p.namedClasses ∨ c ∈ p.markers := by
  rw [classes_eq]
  by_cases hnamed : c ∈ p.namedClasses <;> simp [hnamed]

theorem mem_namedClasses {c : Chars} :
    c ∈ p.namedClasses ↔ c = pageClass ∨ c ∈ Text.words p.sectionClass := by
  unfold Page.namedClasses
  dsimp only
  split
  · rename_i hgiven
    rw [List.contains_iff_mem] at hgiven
    constructor
    · exact Or.inr
    · rintro (rfl | h)
      · exact hgiven
      · exact h
  · exact List.mem_cons

theorem isWord_classes (p : Page) : ∀ c ∈ p.classes, Text.IsWord Text.isBlank c := by
  have hfixed : ∀ c ∈ [pageClass, "no-header".runes, "no-footer".runes],
      Text.IsWord Text.isBlank c := by decide
  intro c hc
  rcases mem_classes.1 hc with hnamed | hmarker
  · rcases mem_namedClasses.1 hnamed with rfl | hgiven
    · exact hfixed _ (by decide)
    · exact Text.isWord_of_mem_wordsBy hgiven
  · apply hfixed
    unfold Page.markers at hmarker
    cases hheader : p.showsHeader <;> cases hfooter : p.showsFooter <;>
      simp_all

/-- The classes of a page are the same when its class attribute is split into words again. -/
theorem words_classes (p : Page) : Text.words (Text.spaced p.classes) = p.classes :=
  Text.wordsBy_spaced (by decide) (isWord_classes p)

end Classes

/-- The attributes that the tag of a section may have, in order, each with its value if it has
one. -/
def SectionTag.fields (t : SectionTag) : List (Chars × Option Chars) := [
  ("class", some (Text.spaced t.classes)), ("data-title", t.title),
  ("data-header-height", t.headerHeight), ("data-footer-height", t.footerHeight),
  ("style", if t.style.isEmpty then none else some t.style)]

theorem SectionTag.attributes_eq (t : SectionTag) :
    t.attributes = t.fields.filterMap fun f => f.2.map fun value => (f.1, value) := by
  unfold attributes fields
  cases t.title <;> cases t.headerHeight <;> cases t.footerHeight <;> cases t.style <;> rfl

theorem SectionTag.read_eq (t : SectionTag) : t.read =
    ⟨"section".runes, t.fields.filterMap fun f => f.2.map fun value => (f.1, some value),
      false⟩ := by
  have hattributes : (t.attributes.map fun a => (a.1, some a.2)) =
      t.fields.filterMap fun f => f.2.map fun value => (f.1, some value) := by
    rw [attributes_eq, List.map_filterMap]
    simp only [Option.map_map, Function.comp_def]
  exact congrArg (fun attrs => StartTag.mk "section".runes attrs false) hattributes

/-- Whatever texts a page has, the start tag of its section is read as one start tag, with the
fields that have a value as its attributes. Its class attribute is read as the words of the author
with the class of every page in front unless it is among them, and then the markers of the bands
that are not shown, unless they are. -/
theorem readEvents_sectionStart (p : Page) :
    Markup.readEvents ("<section ".runes ++ p.sectionTag.write ++ [.of '>']) =
      .ok [.start ⟨"section".runes, p.sectionTag.fields.filterMap fun f =>
        f.2.map fun value => (f.1, some value), false⟩] ∧
    Text.words (Text.spaced p.sectionTag.classes) = p.sectionTag.classes ∧
    p.sectionTag.classes =
      p.namedClasses ++ p.markers.filter fun m => !p.namedClasses.contains m := by
  refine ⟨?_, words_classes p, classes_eq p⟩
  have hreads : Markup.Reads none ("<section ".runes ++ p.sectionTag.write ++ [.of '>'])
      [.start p.sectionTag.read] none [] :=
    .step (step_sectionStart p.sectionTag []) (.done none [])
  rw [hreads.readEvents, SectionTag.read_eq]

example : (Page.sectionTag { Page.ofBody ['x'] with
    sectionClass := " a\tpage".runes, title := some "\">&".runes, showsFooter := false }).write =
    "class=\"a page no-footer\" data-title=\"&quot;&gt;&amp;\"".runes := by decide

end Folio.Document
