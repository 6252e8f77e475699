import Folio.Proofs.Document.Sections
import Folio.Proofs.Paginate.Frames
import Folio.Proofs.Text.Trimming

/-!
The heights of the bands of a page, decided twice: in the document alone by the inline style of the
section, the rules of its markers and the root; and by the script that lays out the pages, from the
classes and attributes of the section. Both decide alike, but for a page whose author gives it the
marker of a band that is shown with a height of its own.
-/
namespace Folio.Document

open Markup (Node)
open Paginate (BandRule Properties Tag footerRule headerRule noHeight split? trimmed)

/-- Text without the white space of style sheets at its ends. -/
def trimSpace (s : Chars) : Chars := Text.dropEnd Text.isSpace (s.dropWhile Text.isSpace)

/-- One declaration among others: a name, a colon and a value. -/
def declare (done : Properties) (piece : Chars) : Properties :=
  match Text.splitAtFirst? ':' piece with
  | some (name, value) => Entries.put (trimSpace name) (trimSpace value) done
  | none => done

/-- The declarations of a style attribute or a rule. The last one of a name counts. -/
def declarations (style : Chars) : Properties := (Text.splitOn ';' style).foldl declare []

/-- The tag of an element of a document that is shown. -/
def shownTag (name : Chars) (attrs : List (Chars × Chars)) : Tag where
  name := name
  classText := (attrs.lookup "class".runes).getD []
  attrs := attrs.filter fun a => a.1 != "class".runes && a.1 != "style".runes
  style := declarations ((attrs.lookup "style".runes).getD [])
  height := none

mutual

/-- A node of a document that is shown. -/
def shown : Node → Paginate.Node
  | .element name attrs children => .element (shownTag name attrs) (allShown children)
  | .text kind content => if kind = .plain then .text content else .comment content

def allShown : List Node → List Paginate.Node
  | [] => []
  | node :: rest => shown node :: allShown rest

end

/-- The custom properties of the root. -/
def Sheet.rootProperties (s : Sheet) : Properties :=
  declarations (List.intercalate [.of '\n'] s.propertyLines)

/-- The value that the rule of a marker gives a property of a page. -/
def markerValue? (tag : Tag) (property : Chars) : Option Chars :=
  (markerRules.find? fun rule => tag.hasClass pageClass && tag.hasClass rule.1 &&
    rule.2 == property).map fun _ => hiddenHeight

/-- The value of a property on a page in the document alone. An inline declaration wins over the
rules of the markers, and these over the root. -/
def documentValue (root : Properties) (tag : Tag) (property : Chars) : Chars :=
  (((tag.style.lookup property).or (markerValue? tag property)).or (root.lookup property)).getD []

/-- The section of a page in the document that is shown. -/
def Page.shownSection? (b : Bundle) (p : Page) : Option Paginate.Section :=
  ((assemblePage b p).value.bind Node.read).toOption.bind fun nodes =>
    match allShown nodes with
    | [.element tag children] => some ⟨tag, children⟩
    | _ => none

/-- What the script does about a band. -/
def Band.rule : Band → BandRule
  | .header => headerRule
  | .footer => footerRule

/-- The room for a band on the body of a section, if it has one. -/
def bodyRoom? (s : Paginate.Section) (band : Band) : Option Chars :=
  (split? Tag.isBody s.children).bind fun body => body.tag.style.lookup band.rule.side

def Page.shows (p : Page) : Band → Bool
  | .header => p.showsHeader
  | .footer => p.showsFooter

/-- The height of a band that a page gives, as a length. -/
def Page.bandHeight? (p : Page) : Band → Option Chars
  | .header => p.headerHeight.bind Length.ofText
  | .footer => p.footerHeight.bind Length.ofText

/-- The author gives the page the marker of a band that is shown with a height of its own. -/
def Page.contradicts (p : Page) (band : Band) : Bool :=
  p.shows band && (Text.words p.sectionClass).contains band.rule.absent &&
    (p.bandHeight? band).isSome

section Ends

variable {s : Chars}

theorem not_isSpace_of_not_isBlank {c : Rune} (h : Text.isBlank c = false) :
    Text.isSpace c = false := by
  rw [← Bool.not_eq_true] at h ⊢
  intro hspace
  apply h
  simp only [Text.isSpace, Bool.or_eq_true, beq_iff_eq] at hspace
  rcases hspace with (((rfl | rfl) | rfl) | rfl) | rfl <;> decide

theorem trimSpace_eq_self (h : Text.Trimmed s) : trimSpace s = s := by
  rw [trimSpace, Text.dropWhile_eq_self fun c hc => not_isSpace_of_not_isBlank (h.first c hc)]
  exact Text.dropEnd_eq_self fun c hc => not_isSpace_of_not_isBlank (h.last c hc)

/-- A length is a trimmed text, with a unit at most after it. -/
theorem ofText_sound {text value : Chars} (h : Length.ofText text = some value) :
    Text.Trimmed value ∧ value ≠ [] ∧ ∀ c ∈ value, c ∈ text ∨ c = 'm' := by
  have htrim := Text.trimmed_trim text
  have hmem : ∀ c ∈ Text.trim text, c ∈ text := fun c hc => Text.mem_of_mem_trim hc
  unfold Length.ofText at h
  dsimp only at h
  rw [Option.ite_none_left_eq_some, List.isEmpty_iff] at h
  obtain ⟨hne, hvalue⟩ := h
  generalize Text.trim text = s at *
  obtain ⟨c, s, rfl⟩ := List.exists_cons_of_ne_nil hne
  split at hvalue
  · obtain rfl := Option.some.inj hvalue
    refine ⟨⟨htrim.first, ?_⟩, List.cons_ne_nil _ _, fun d hd => ?_⟩
    · have hlast : (Length.millimetres (c :: s)).getLast? = some (.of 'm') := by
        simp [Length.millimetres, List.getLast?_cons]
      intro d hd
      rw [hlast] at hd
      rw [← Option.some.inj hd]
      decide
    · rcases List.mem_append.1 hd with hown | hunit
      · exact Or.inl (hmem d hown)
      · exact Or.inr (by simpa using hunit)
  · obtain rfl := Option.some.inj hvalue
    exact ⟨htrim, hne, fun d hd => Or.inl (hmem d hd)⟩

end Ends

section Declarations

variable {style : Chars} {done : Properties}

/-- A declaration that is written so that it is read as it is. -/
structure Plain (d : Chars × Chars) : Prop where
  name : .of ';' ∉ d.1 ∧ .of ':' ∉ d.1
  value : .of ';' ∉ d.2
  nameTrimmed : trimSpace d.1 = d.1
  valueTrimmed : trimSpace d.2 = d.2

/-- Declarations are read as they are written. -/
theorem foldl_declare {ds : List (Chars × Chars)} (hds : ∀ d ∈ ds, Plain d) (done : Properties) :
    (Text.splitOn ';' (ds.flatMap fun d => writeDeclaration d.1 d.2)).foldl declare done =
      ds.foldl (fun done d => Entries.put d.1 d.2 done) done := by
  induction ds generalizing done with
  | nil => rfl
  | cons d ds ih =>
      have hd := hds d List.mem_cons_self
      have hpiece : .of ';' ∉ d.1 ++ .of ':' :: d.2 := by
        rw [List.mem_append, List.mem_cons]
        rintro (hname | hcolon | hvalue)
        · exact hd.name.1 hname
        · exact absurd hcolon (by decide)
        · exact hd.value hvalue
      have hwritten : writeDeclaration d.1 d.2 =
          (d.1 ++ .of ':' :: d.2) ++ [.of ';'] := by
        simp [writeDeclaration]
      have hdeclare : declare done (d.1 ++ .of ':' :: d.2) =
          Entries.put d.1 d.2 done := by
        rw [declare, Markup.splitAtFirst?_append _ hd.name.2]
        dsimp only
        rw [hd.nameTrimmed, hd.valueTrimmed]
      rw [List.flatMap_cons, hwritten, List.append_assoc, List.singleton_append,
        Text.splitOn_append hpiece, List.foldl_cons, List.foldl_cons, hdeclare]
      exact ih (fun other hother => hds other (List.mem_cons_of_mem d hother)) _

end Declarations

section PageTag

variable {p : Page}

/-- The height of a band is a declaration that is read as it is written. -/
theorem plain_bandHeight {name : Chars} {text value : Chars}
    (hname : name ∈ (["--header-h", "--footer-h"] : List Chars)) (htext : .of ';' ∉ text)
    (h : Length.ofText text = some value) : Plain (name, value) := by
  have hnames : ∀ name ∈ (["--header-h", "--footer-h"] : List Chars),
      (.of ';' ∉ name ∧ .of ':' ∉ name) ∧ trimSpace name = name := by decide
  obtain ⟨hmarks, hends⟩ := hnames name hname
  obtain ⟨htrimmed, -, hmem⟩ := ofText_sound h
  refine ⟨hmarks, fun hsemicolon => ?_, hends, trimSpace_eq_self htrimmed⟩
  rcases hmem ';' hsemicolon with hold | hunit
  · exact htext hold
  · exact absurd hunit (by decide)

/-- The height of a band that a page sets inline. -/
def Page.inlineHeight? (p : Page) (band : Band) : Option Chars :=
  if p.shows band then p.bandHeight? band else none

/-- A property with its value, if it has one. -/
def setting (name : Chars) (value : Option Chars) : List (Chars × Chars) :=
  (value.map fun v => (name, v)).toList

theorem heights_eq (p : Page) : p.heights =
    setting "--header-h" (p.inlineHeight? .header) ++
      setting "--footer-h" (p.inlineHeight? .footer) := by
  unfold Page.heights Page.inlineHeight? Page.shows
  cases p.showsHeader <;> cases p.showsFooter <;> rfl

theorem plain_heights (hheader : ∀ text ∈ p.headerHeight, .of ';' ∉ text)
    (hfooter : ∀ text ∈ p.footerHeight, .of ';' ∉ text) : ∀ d ∈ p.heights, Plain d := by
  have hband : ∀ (name : Chars) (shows : Bool) (own : Option Chars),
      name ∈ (["--header-h", "--footer-h"] : List Chars) → (∀ text ∈ own, .of ';' ∉ text) →
      ∀ d ∈ setting name (if shows then own.bind Length.ofText else none), Plain d := by
    intro name shows own hname hown d hd
    rw [setting, Option.mem_toList, Option.map_eq_some_iff] at hd
    obtain ⟨value, hvalue, rfl⟩ := hd
    rw [Option.ite_none_right_eq_some] at hvalue
    obtain ⟨text, htext, hlength⟩ := Option.bind_eq_some_iff.1 hvalue.2
    exact plain_bandHeight hname (hown text htext) hlength
  intro d hd
  rw [heights_eq] at hd
  rcases List.mem_append.1 hd with hfirst | hsecond
  · exact hband _ p.showsHeader _ List.mem_cons_self hheader d hfirst
  · exact hband _ p.showsFooter _ (List.mem_cons_of_mem _ List.mem_cons_self) hfooter d hsecond

/-- The tag of a page in the document. -/
def Page.shownTag (p : Page) : Tag := Document.shownTag "section".runes p.sectionTag.attributes

theorem shownTag_style (p : Page) : p.shownTag.style = declarations p.sectionTag.style := by
  have hlookup := p.sectionTag.lookup_attributes "style".runes
  have hvalue : (p.sectionTag.attributes.lookup "style".runes).getD [] = p.sectionTag.style := by
    rw [hlookup]
    cases hstyle : p.sectionTag.style <;> rfl
  exact congrArg declarations hvalue

theorem lookup_setting (key : Chars) (name : Chars) (value : Option Chars) (done : Properties) :
    ((setting name value).foldl (fun done d => Entries.put d.1 d.2 done) done).lookup key =
      if key = name then value.or (done.lookup key) else done.lookup key := by
  cases value with
  | none => split <;> rfl
  | some v =>
      change (Entries.put name v done).lookup key = _
      split
      · rename_i heq
        rw [heq, Entries.lookup_put_self]
        rfl
      · rename_i hne
        exact Entries.lookup_put_of_ne hne v done

/-- The inline height of a band is the one that the page gives, if the band is shown. -/
theorem lookup_style (hheader : ∀ text ∈ p.headerHeight, .of ';' ∉ text)
    (hfooter : ∀ text ∈ p.footerHeight, .of ';' ∉ text) (band : Band) :
    p.shownTag.style.lookup band.rule.property = p.inlineHeight? band := by
  have hdeclarations : declarations p.sectionTag.style =
      p.heights.foldl (fun done d => Entries.put d.1 d.2 done) [] :=
    foldl_declare (plain_heights hheader hfooter) []
  have hother : "--header-h".runes ≠ "--footer-h".runes := by decide
  rw [shownTag_style, hdeclarations, heights_eq, List.foldl_append, lookup_setting, lookup_setting]
  cases band with
  | header =>
      have hproperty : Band.header.rule.property = "--header-h".runes := rfl
      rw [hproperty, if_neg hother, if_pos rfl, List.lookup_nil, Option.or_none]
  | footer =>
      have hproperty : Band.footer.rule.property = "--footer-h".runes := rfl
      rw [hproperty, if_pos rfl, if_neg (Ne.symm hother), List.lookup_nil, Option.or_none]

theorem lookup_filter {keep : Chars × Chars → Bool} {key : Chars}
    (hkeep : ∀ value, keep (key, value)) (attrs : List (Chars × Chars)) :
    (attrs.filter keep).lookup key = attrs.lookup key := by
  induction attrs with
  | nil => rfl
  | cons a attrs ih =>
      obtain ⟨name, value⟩ := a
      by_cases hname : key = name
      · subst hname
        rw [List.filter_cons_of_pos (hkeep value), List.lookup_cons, List.lookup_cons,
          beq_self_eq_true]
      · have hother : (key == name) = false := beq_false_of_ne hname
        rw [List.filter_cons, List.lookup_cons, hother]
        split
        · rw [List.lookup_cons, hother]
          exact ih
        · exact ih

/-- The attribute with the height of a band. -/
theorem lookup_heightKey (p : Page) (band : Band) :
    p.shownTag.attrs.lookup band.rule.heightKey = p.bandHeight? band := by
  have hkeep : ∀ value : Chars, (band.rule.heightKey != "class".runes &&
      band.rule.heightKey != "style".runes) = true := by
    intro value
    cases band <;> decide
  rw [Page.shownTag, shownTag, lookup_filter hkeep, SectionTag.lookup_attributes]
  cases band with
  | header =>
      change (((none.or none).or p.sectionTag.headerHeight).or none).or none = _
      rw [Option.or_none, Option.or_none]
      rfl
  | footer =>
      change (((none.or none).or none).or p.sectionTag.footerHeight).or none = _
      rw [Option.or_none]
      rfl

theorem hasClass_shownTag (p : Page) (name : Chars) :
    p.shownTag.hasClass name = p.classes.contains name := by
  have hclass : p.sectionTag.attributes.lookup "class".runes =
      some (Text.spaced p.classes) := rfl
  rw [Tag.hasClass, Page.shownTag, shownTag, hclass]
  have hwords : ∀ c ∈ p.classes, Text.IsWord Text.isSpace c := by
    intro c hc
    obtain ⟨hne, hblank⟩ := isWord_classes p c hc
    exact ⟨hne, fun d hd => not_isSpace_of_not_isBlank (hblank d hd)⟩
  dsimp only [Option.getD_some]
  rw [Text.wordsBy_spaced (by decide) hwords]

theorem hasClass_page (p : Page) : p.shownTag.hasClass pageClass := by
  rw [hasClass_shownTag, List.contains_iff_mem]
  exact mem_classes.2 (Or.inl (mem_namedClasses.2 (Or.inl rfl)))

/-- A page has the marker of a band if the band is not shown, or if its author gives it. -/
theorem hasClass_absent (p : Page) (band : Band) : p.shownTag.hasClass band.rule.absent =
    (!p.shows band || (Text.words p.sectionClass).contains band.rule.absent) := by
  rw [hasClass_shownTag, Bool.eq_iff_iff, List.contains_iff_mem, mem_classes, mem_namedClasses,
    Bool.or_eq_true, List.contains_iff_mem]
  have hpage : band.rule.absent ≠ pageClass := by cases band <;> decide
  have hmarker : band.rule.absent ∈ p.markers ↔ (!p.shows band) = true := by
    have hheader : Band.header.rule.absent = "no-header".runes := rfl
    have hfooter : Band.footer.rule.absent = "no-footer".runes := rfl
    unfold Page.markers
    cases band <;> rw [Page.shows] <;> cases p.showsHeader <;> cases p.showsFooter <;>
      simp [hheader, hfooter]
  rw [hmarker, or_iff_right hpage, or_comm]

/-- The rule of a band's marker hides the band on a page with the marker. -/
theorem markerValue?_eq (p : Page) (band : Band) : markerValue? p.shownTag band.rule.property =
    if p.shownTag.hasClass band.rule.absent then some hiddenHeight else none := by
  have hmarks : ∀ band : Band, ∀ rule ∈ markerRules,
      (rule.2 == band.rule.property) = (rule.1 == band.rule.absent) := by
    intro band rule hrule
    cases band <;> revert rule <;> decide
  have hrule : ∀ band : Band, ∃ rule ∈ markerRules, rule.1 = band.rule.absent := by
    intro band
    cases band <;> decide
  have hfind : (markerRules.find? fun rule => p.shownTag.hasClass pageClass &&
      p.shownTag.hasClass rule.1 && rule.2 == band.rule.property).isSome =
      p.shownTag.hasClass band.rule.absent := by
    rw [Bool.eq_iff_iff, List.find?_isSome]
    simp only [hasClass_page, Bool.true_and, Bool.and_eq_true]
    constructor
    · rintro ⟨rule, hmem, hclass, hproperty⟩
      rw [hmarks band rule hmem, beq_iff_eq] at hproperty
      rwa [← hproperty]
    · intro hclass
      obtain ⟨rule, hmem, habsent⟩ := hrule band
      refine ⟨rule, hmem, habsent ▸ hclass, ?_⟩
      rw [hmarks band rule hmem, habsent, beq_self_eq_true]
  rw [markerValue?, ← hfind]
  cases markerRules.find? _ <;> rfl

end PageTag

section Agreement

variable {p : Page} {root : Properties}

theorem bandHeight?_ne_nil {band : Band} : p.bandHeight? band ≠ some [] := by
  have hown : ∃ own : Option Chars, p.bandHeight? band = own.bind Length.ofText := by
    cases band <;> exact ⟨_, rfl⟩
  intro hempty
  obtain ⟨own, hheight⟩ := hown
  rw [hheight] at hempty
  obtain ⟨text, -, hlength⟩ := Option.bind_eq_some_iff.1 hempty
  exact (ofText_sound hlength).2.1 rfl

/-- The property of a band after the script has seen to both bands. -/
theorem lookup_rules {s : Paginate.Section} (hs : s.tag = p.shownTag) (band : Band) :
    (footerRule.apply (headerRule.apply s)).tag.style.lookup band.rule.property =
      if p.shownTag.hasClass band.rule.absent then some noHeight
      else (p.bandHeight? band).or (p.shownTag.style.lookup band.rule.property) := by
  have hown : (p.bandHeight? band).filter (!·.isEmpty) = p.bandHeight? band := by
    cases hheight : p.bandHeight? band with
    | none => rfl
    | some height =>
        have hne : height ≠ [] := fun hnil => bandHeight?_ne_nil (hnil ▸ hheight)
        simp [Option.filter_some, hne]
  have hrestyled := headerRule.apply_tag s
  have hsides : headerRule.property ≠ footerRule.property := by decide
  rw [← hown, ← lookup_heightKey, ← hs]
  cases band with
  | header => exact (BandRule.lookup_apply_of_ne hsides _).trans (headerRule.lookup_apply s)
  | footer =>
      have hlookup := footerRule.lookup_apply (headerRule.apply s)
      rw [BandRule.lookup_apply_of_ne hsides.symm] at hlookup
      rw [hrestyled.apply_eq (p := fun tag => tag.hasClass footerRule.absent) fun _ _ => rfl,
        hrestyled.apply_eq (p := fun tag => tag.attrs) fun _ _ => rfl] at hlookup
      exact hlookup

/-- The room that the script leaves for a band is the one of the document alone, unless the page
contradicts itself. -/
theorem height_rules (hheader : ∀ text ∈ p.headerHeight, .of ';' ∉ text)
    (hfooter : ∀ text ∈ p.footerHeight, .of ';' ∉ text) {s : Paginate.Section}
    (hs : s.tag = p.shownTag) (band : Band) :
    band.rule.height root (footerRule.apply (headerRule.apply s)).tag =
      if p.contradicts band then noHeight
      else trimmed (documentValue root p.shownTag band.rule.property) := by
  have hrestyled := (footerRule.apply_tag (headerRule.apply s)).trans (headerRule.apply_tag s)
  have hhidden : trimmed hiddenHeight = noHeight := by decide
  have hclass := hrestyled.apply_eq (p := fun tag => tag.hasClass band.rule.absent) fun _ _ => rfl
  rw [BandRule.height, hclass, lookup_rules hs, hs, documentValue, lookup_style hheader hfooter,
    markerValue?_eq, Page.contradicts, Page.inlineHeight?, hasClass_absent]
  cases p.shows band <;> cases (Text.words p.sectionClass).contains band.rule.absent <;>
    cases p.bandHeight? band <;> simp [hhidden]

end Agreement

/-- With and without the script the bands of a page have the same heights, unless the page has the
marker of a band that it shows with a height of its own. On the body of the page's section, if it
has one, the script leaves the room for a band that the document alone gives the band, but none
for a band of a page that contradicts itself. -/
theorem rooms_agree (b : Bundle) (p : Page) (texts : List Chars)
    (htexts : (pageParts b p).map (·.value) = texts.map Except.ok)
    (hall : ∀ text ∈ texts, isBalanced text ∧ closesQuotes text)
    (hheader : ∀ text ∈ p.headerHeight, .of ';' ∉ text)
    (hfooter : ∀ text ∈ p.footerHeight, .of ';' ∉ text) :
    ∃ s, p.shownSection? b = some s ∧ ∀ band,
      bodyRoom? (s.withBands b.layout.sheet.rootProperties) band =
        (split? Tag.isBody s.children).map fun _ =>
          if p.contradicts band then noHeight
          else trimmed (documentValue b.layout.sheet.rootProperties s.tag band.rule.property) := by
  obtain ⟨text, children, hvalue, hread⟩ := read_section htexts hall
  refine ⟨⟨p.shownTag, allShown children⟩, ?_, fun band => ?_⟩
  · rw [Page.shownSection?, hvalue]
    dsimp only [Except.bind]
    rw [hread]
    rfl
  · have hrule : band.rule = headerRule ∨ band.rule = footerRule := by
      cases band
      · exact Or.inl rfl
      · exact Or.inr rfl
    rw [bodyRoom?, Paginate.Section.room_withBands _ _ hrule, height_rules hheader hfooter rfl]

theorem exists_texts_of_allParts {b : Bundle} {p : Page} (hsecurity : b.security = ⟨false, true⟩)
    (hall : b.allParts fun text => isBalanced text && closesQuotes text) (hp : p ∈ b.pages) :
    ∃ texts : List Chars, (pageParts b p).map (·.value) = texts.map Except.ok ∧
      ∀ text ∈ texts, isBalanced text ∧ closesQuotes text := by
  obtain ⟨texts, htexts, hboth⟩ := exists_texts (exists_text_of_allParts hall p hp)
  exact ⟨texts, pageParts_values hsecurity htexts, fun text htext =>
    Bool.and_eq_true_iff.1 (hboth text htext)⟩

/-- A page with a height of its own for its header, and without a footer. -/
def sizedPage : Page :=
  { Page.ofBody ['x'] with headerHeight := some "30mm".runes, showsFooter := false }

def sized : Bundle := { twoPages with pages := [sizedPage] }

theorem rooms_agree_sized : ∃ s, sizedPage.shownSection? sized = some s ∧ ∀ band,
    bodyRoom? (s.withBands sized.layout.sheet.rootProperties) band =
      (split? Tag.isBody s.children).map fun _ =>
        if sizedPage.contradicts band then noHeight
        else trimmed (documentValue sized.layout.sheet.rootProperties s.tag band.rule.property) := by
  have hparts : sized.allParts fun text => isBalanced text && closesQuotes text := by
    decide +kernel
  obtain ⟨texts, htexts, hall⟩ :=
    exists_texts_of_allParts rfl hparts (List.mem_singleton_self sizedPage)
  exact rooms_agree sized sizedPage texts htexts hall (by decide) (by decide)

/-- A page, as it is sent, whose author gives it the marker of a header that it shows, and a height
of the header. -/
def contradictoryData : Json :=
  .obj [("head", .obj [("title", .str "t")]), ("body", .obj [("pages", .arr [
    .obj [("body", .str "x"), ("section", .obj [("class", .str "no-header")]),
      ("headerHeight", .str "30mm")]])])]

/-- The page. -/
def contradictoryPage : Page :=
  { Page.ofBody ['x'] with sectionClass := "no-header".runes, headerHeight := some "30mm".runes }

def contradictory : Bundle := { twoPages with pages := [contradictoryPage], header := [] }

theorem read_contradictoryData : Bundle.read contradictoryData = .ok contradictory := by
  rfl

/-- The header of the page has no height for the script, and one of 30 millimetres in the document
alone. -/
theorem not_rooms_always_agree :
    ¬∀ (data : Json) (b : Bundle), Bundle.read data = .ok b → ∀ p ∈ b.pages, ∀ texts : List Chars,
      (pageParts b p).map (·.value) = texts.map Except.ok →
      (∀ text ∈ texts, isBalanced text ∧ closesQuotes text) →
      (∀ text ∈ p.headerHeight, .of ';' ∉ text) → (∀ text ∈ p.footerHeight, .of ';' ∉ text) →
      ∃ s, p.shownSection? b = some s ∧ ∀ band,
        bodyRoom? (s.withBands b.layout.sheet.rootProperties) band =
          (split? Tag.isBody s.children).map fun _ =>
            trimmed (documentValue b.layout.sheet.rootProperties s.tag band.rule.property) := by
  intro hagree
  have hparts : contradictory.allParts fun text => isBalanced text && closesQuotes text := by
    decide +kernel
  have hmem : contradictoryPage ∈ contradictory.pages := List.mem_singleton_self _
  obtain ⟨texts, htexts, hall⟩ := exists_texts_of_allParts rfl hparts hmem
  have hheader : ∀ text ∈ contradictoryPage.headerHeight, .of ';' ∉ text := by decide
  have hfooter : ∀ text ∈ contradictoryPage.footerHeight, .of ';' ∉ text := by decide
  obtain ⟨s, hs, hrooms⟩ := hagree _ _ read_contradictoryData _ hmem texts htexts hall hheader hfooter
  have hscript : (contradictoryPage.shownSection? contradictory).map (fun s =>
      bodyRoom? (s.withBands contradictory.layout.sheet.rootProperties) .header) =
      some (some "0px".runes) := by decide +kernel
  have hdocument : (contradictoryPage.shownSection? contradictory).map (fun s =>
      (split? Tag.isBody s.children).map fun _ =>
        trimmed (documentValue contradictory.layout.sheet.rootProperties s.tag
          Band.header.rule.property)) = some (some "30mm".runes) := by decide +kernel
  rw [hs] at hscript hdocument
  have hheights : some "0px".runes = some "30mm".runes :=
    (Option.some.inj hscript).symm.trans ((hrooms .header).trans (Option.some.inj hdocument))
  exact absurd hheights (by decide)

end Folio.Document
