import Folio.Document.Section
import Folio.Proofs.Decimal.PlainForms
import Folio.Proofs.Document.NormalForm
import Folio.Proofs.Document.Refusals

/-!
Lengths that are given as numbers. A number is kept as a text, and the text is read as a length
again: this gives millimetres if the number is plain, and otherwise a length without a unit. The
measures of the style sheet and the heights in the tags of sections come out so.
-/
namespace Folio.Document

open Decimal (Binary64)

/-- The number that a value is, if it is one. -/
def number? : Json → Option Binary64
  | .int n => some (.ofInt n)
  | .real x => some x
  | _ => none

/-- The length that a number comes out as. -/
structure IsMeasure (x : Binary64) (value : Chars) : Prop where
  plain : x.IsPlain → value = Length.millimetres x.brief
  other : ¬ x.IsPlain → value = x.brief

/-- The measures of a sheet, each with the value that a layout gives for it. -/
def givenMeasures (raw : Json) (s : Sheet) : List (Json × Chars) :=
  let page := raw.get "page"
  let size := page.get "size"
  let frame := raw.get "safeFrame"
  [(size.get "width", s.width), (size.get "height", s.height),
    (page.get "headerHeight", s.headerHeight), (page.get "footerHeight", s.footerHeight),
    (frame.get "stroke", s.stroke), (frame.get "topOffset", s.top),
    (frame.get "bottomOffset", s.bottom), (frame.get "leftOffset", s.left),
    (frame.get "rightOffset", s.right)]

/-- The number that is given for the height of a band stands in the tag of the section, and in its
style if the band is shown. -/
structure TellsHeights (v : Json) (x : Binary64) (entry : Json) (p : Page) : Prop where
  header : entry.get "headerHeight" = v → ∃ value, IsMeasure x value ∧
    p.sectionTag.headerHeight = some value ∧ (p.showsHeader → ("--header-h".runes, value) ∈ p.heights)
  footer : entry.get "footerHeight" = v → ∃ value, IsMeasure x value ∧
    p.sectionTag.footerHeight = some value ∧ (p.showsFooter → ("--footer-h".runes, value) ∈ p.heights)

section Texts

variable {v : Json} {x : Binary64} {text : Option Chars}

theorem brief_ne_millimetres (x : Binary64) : x.brief ≠ Length.millimetres x.brief := by
  intro heq
  have hlength := congrArg List.length heq
  rw [Length.millimetres, List.length_append] at hlength
  exact absurd hlength (by simp)

/-- The brief form of a number, read as a length. -/
theorem exists_ofText_brief (x : Binary64) :
    ∃ value, Length.ofText x.brief = some value ∧ IsMeasure x value := by
  have hword : Text.IsWord Text.isBlank x.brief := Binary64.isWord_form _ _ x
  have hread : Length.ofText x.brief =
      some (if Length.isBareNumeral x.brief then Length.millimetres x.brief else x.brief) := by
    have htrim : Text.trim x.brief = x.brief := hword.trimmed.trim_eq
    rw [Length.ofText, htrim, if_neg (mt List.isEmpty_iff.1 hword.1)]
  refine ⟨_, hread, fun hplain => ?_, fun hplain => ?_⟩
  · rw [if_pos (x.isBareNumeral_brief_iff.2 hplain)]
  · rw [if_neg (mt x.isBareNumeral_brief_iff.1 hplain)]

theorem briefWhole_of_fits {n : Int} (h : Fits (.int n)) :
    Length.briefWhole n = .ok (Binary64.ofInt n).brief :=
  if_pos ((Binary64.isFinite_ofInt_iff n).2 (h n rfl))

theorem stored_of_number (hv : number? v = some x) (h : Fits v) :
    Length.stored v = .ok (some x.brief) := by
  cases v with
  | int n =>
      obtain rfl := Option.some.inj hv
      rw [Length.stored, briefWhole_of_fits h]
      rfl
  | real y =>
      obtain rfl := Option.some.inj hv
      rfl
  | _ => contradiction

theorem canonical_of_number (hv : number? v = some x) (h : Fits v) :
    Length.canonical v = .ok (some (Length.millimetres x.brief)) := by
  cases v with
  | int n =>
      obtain rfl := Option.some.inj hv
      rw [Length.canonical, briefWhole_of_fits h]
      rfl
  | real y =>
      obtain rfl := Option.some.inj hv
      rfl
  | _ => contradiction

theorem canonical_wireText (s : Chars) : Length.canonical (wireText s) = .ok (Length.ofText s) :=
  congrArg (fun s => Except.ok (Length.ofText s)) (display_wireText s)

/-- A number that is kept at all is kept in brief. -/
theorem eq_brief_of_readLength (h : readLength v = .ok text) (hv : number? v = some x) :
    text = some x.brief := by
  have hfits : Fits v := by
    by_contra hnot
    rw [(readIf_readLength v).error hnot] at h
    contradiction
  have hstored : Length.stored v = .ok text := eq_ok_of_mapError h
  rw [stored_of_number hv hfits] at hstored
  exact (Except.ok.inj hstored).symm

end Texts

section Sheets

variable {v raw : Json} {x : Binary64} {text : Option Chars}

theorem isMeasure_lengthOr (default : Chars) (h : readLength v = .ok text)
    (hv : number? v = some x) : IsMeasure x (lengthOr default text) := by
  obtain ⟨value, hvalue, hmeasure⟩ := exists_ofText_brief x
  have hlength : lengthOr default text = value := by
    rw [eq_brief_of_readLength h hv, lengthOr, Option.bind_some, hvalue]
    rfl
  exact hlength ▸ hmeasure

theorem isMeasure_lengthOr_some (default kept : Chars) {s : Chars}
    (h : readLengthOr kept v = .ok s) (hv : number? v = some x) :
    IsMeasure x (lengthOr default (some s)) := by
  obtain ⟨text, htext, rfl⟩ := exists_of_map_eq_ok h
  have hmeasure := isMeasure_lengthOr default htext hv
  rw [eq_brief_of_readLength htext hv] at hmeasure ⊢
  exact hmeasure

/-- What has a number under a key is an object. -/
theorem isObj_of_number {key : Chars} (hv : number? (raw.get key) = some x) : raw.isObj := by
  cases raw with
  | obj entries => rfl
  | _ => contradiction

theorem isMeasure_resolve {size : PageSize} (h : PageSize.read raw = .ok size) :
    (∀ x, number? (raw.get "width") = some x → IsMeasure x size.resolve.1) ∧
    ∀ x, number? (raw.get "height") = some x → IsMeasure x size.resolve.2 := by
  have hsides : raw.isObj → ∃ width height, readLength (raw.get "width") = .ok width ∧
      readLength (raw.get "height") = .ok height ∧ size = .sides width height := by
    intro hobj
    rw [PageSize.read, if_pos hobj] at h
    obtain ⟨width, hwidth, h⟩ := exists_of_bind_eq_ok h
    obtain ⟨height, hheight, h⟩ := exists_of_bind_eq_ok h
    exact ⟨width, height, hwidth, hheight, (Except.ok.inj h).symm⟩
  constructor <;> intro x hx
  · obtain ⟨width, height, hwidth, -, rfl⟩ := hsides (isObj_of_number hx)
    exact isMeasure_lengthOr _ hwidth hx
  · obtain ⟨width, height, -, hheight, rfl⟩ := hsides (isObj_of_number hx)
    exact isMeasure_lengthOr _ hheight hx

/-- The numbers of a layout are the measures of its sheet. -/
theorem isMeasure_of_mem_givenMeasures {l : Layout} (h : Layout.read raw = .ok l) :
    ∀ m ∈ givenMeasures raw l.sheet, ∀ x, number? m.1 = some x → IsMeasure x m.2 := by
  have hlayout := Layout.readFrom_of_read h
  have hframe := SafeFrame.readFrom_of_read hlayout.frame
  have hsides := isMeasure_resolve hlayout.size
  simp only [givenMeasures, List.forall_mem_cons, List.not_mem_nil, false_imp_iff, implies_true,
    and_true]
  exact ⟨hsides.1, hsides.2, fun x => isMeasure_lengthOr _ hlayout.header,
    fun x => isMeasure_lengthOr _ hlayout.footer,
    fun x => isMeasure_lengthOr_some _ _ hframe.stroke,
    fun x => isMeasure_lengthOr_some _ _ hframe.top,
    fun x => isMeasure_lengthOr_some _ _ hframe.bottom,
    fun x => isMeasure_lengthOr_some _ _ hframe.left,
    fun x => isMeasure_lengthOr_some _ _ hframe.right⟩

/-- A height that is given and shown is one of the heights of a page. -/
theorem mem_height {name : Chars} {shows : Bool} {value : Chars} (hshows : shows)
    (hvalue : text.bind Length.ofText = some value) : (name, value) ∈
      if shows then ((text.bind Length.ofText).map fun h => (name, h)).toList else [] := by
  rw [if_pos hshows, hvalue]
  exact List.mem_singleton_self _

/-- The numbers of a page are the heights of its bands. -/
theorem tellsHeights_of_read {p : Page} (hv : number? v = some x) (h : Page.read raw = .ok p) :
    TellsHeights v x raw p := by
  have hparts := Page.readFrom_of_read h
  obtain ⟨value, hvalue, hmeasure⟩ := exists_ofText_brief x
  constructor
  · rintro rfl
    have hread : p.headerHeight.bind Length.ofText = some value := by
      rw [eq_brief_of_readLength hparts.header hv]
      exact hvalue
    exact ⟨value, hmeasure, hread, fun hshows => List.mem_append_left _ (mem_height hshows hread)⟩
  · rintro rfl
    have hread : p.footerHeight.bind Length.ofText = some value := by
      rw [eq_brief_of_readLength hparts.footer hv]
      exact hvalue
    exact ⟨value, hmeasure, hread, fun hshows => List.mem_append_right _ (mem_height hshows hread)⟩

end Sheets

/-- A number that is kept comes out in millimetres if it is plain, as it does where a number itself
is read as a length, and otherwise without a unit. So it does as a measure of a sheet, and as a
height of a band. -/
theorem measures_of_number {v : Json} {x : Binary64} (hv : number? v = some x) (hfits : Fits v) :
    Length.stored v = .ok (some x.brief) ∧
    Length.canonical v = .ok (some (Length.millimetres x.brief)) ∧
    (∃ value, Length.canonical (wireText x.brief) = .ok (some value) ∧ IsMeasure x value) ∧
    (Length.canonical (wireText x.brief) = Length.canonical v ↔ x.IsPlain) ∧
    ∀ data b, Bundle.read data = .ok b →
      (∀ m ∈ givenMeasures (data.get "layout") b.layout.sheet, m.1 = v → IsMeasure x m.2) ∧
      List.Forall₂ (TellsHeights v x) ((pageEntries data).filter hasBody) b.pages := by
  obtain ⟨value, hvalue, hmeasure⟩ := exists_ofText_brief x
  have hread : Length.canonical (wireText x.brief) = .ok (some value) :=
    (canonical_wireText _).trans (congrArg Except.ok hvalue)
  have hnumber := canonical_of_number hv hfits
  refine ⟨stored_of_number hv hfits, hnumber, ⟨value, hread, hmeasure⟩, ?_, ?_⟩
  · rw [hread, hnumber]
    constructor
    · intro heq
      by_contra hplain
      rw [hmeasure.other hplain] at heq
      exact brief_ne_millimetres x (Option.some.inj (Except.ok.inj heq))
    · intro hplain
      rw [hmeasure.plain hplain]
  · intro data b hb
    have hparts := Bundle.readFrom_of_read hb
    constructor
    · rintro m hm rfl
      exact isMeasure_of_mem_givenMeasures hparts.layout m hm x hv
    · exact (forall₂_of_mapM hparts.pages).imp fun _ _ => tellsHeights_of_read hv

/-- A page with numbers for its lengths, plain ones and others. -/
def numbered : Json := .obj [
  ("head", .obj [("title", .str "t")]),
  ("body", .obj [("pages", .arr [.obj [("body", .str "x"), ("headerHeight", .int (-5))]])]),
  ("layout", .obj [
    ("page", .obj [("size", .obj [("width", .int 210), ("height", .int 2000000)])]),
    ("safeFrame", .obj [("stroke", .real (.ofDecimal false 5 1 (-1)))])])]

theorem measures_of_number_numbered : ∃ b, Bundle.read numbered = .ok b ∧
    (number? (.int 210) = some (.ofInt 210) ∧ Fits (.int 210) ∧
      Length.canonical (wireText (Binary64.ofInt 210).brief) = Length.canonical (.int 210) ∧
      IsMeasure (.ofInt 210) b.layout.sheet.width) ∧
    number? (.int (-5)) = some (.ofInt (-5)) ∧ Fits (.int (-5)) ∧
      List.Forall₂ (TellsHeights (.int (-5)) (.ofInt (-5)))
        ((pageEntries numbered).filter hasBody) b.pages := by
  have hread : ∃ b, Bundle.read numbered = .ok b := exists_of_isOk (by decide +kernel)
  obtain ⟨b, hb⟩ := hread
  have hfits : Fits (.int 210) ∧ Fits (.int (-5)) := by decide +kernel
  obtain ⟨-, -, -, hsame, hplain⟩ := measures_of_number (v := .int 210) rfl hfits.1
  obtain ⟨-, -, -, -, hnegative⟩ := measures_of_number (v := .int (-5)) rfl hfits.2
  have hnumeral : (Binary64.ofInt 210).IsPlain :=
    (Binary64.isBareNumeral_brief_iff _).1 (by decide)
  have hwidth := (hplain numbered b hb).1 _ List.mem_cons_self rfl
  exact ⟨b, hb, ⟨rfl, hfits.1, hsame.2 hnumeral, hwidth⟩, rfl, hfits.2, (hnegative numbered b hb).2⟩

/-- A negative number is kept with its sign, and read without a unit. -/
theorem not_canonical_always_same : ¬ ∀ v x, number? v = some x → Fits v →
    Length.canonical (wireText x.brief) = Length.canonical v := by
  intro h
  have hsame := h (.int (-5)) _ rfl (by decide +kernel)
  have htexts : "-5".runes = "-5mm".runes := Option.some.inj (Except.ok.inj hsame)
  exact absurd htexts (by decide)

end Folio.Document
