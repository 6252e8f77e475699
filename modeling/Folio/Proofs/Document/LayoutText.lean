import Folio.Document.Compile
import Folio.Proofs.Decimal.BareNumerals
import Folio.Proofs.Outcomes
import Folio.Proofs.Resource.Semicolons

/-!
The measures that an author gives, in the style sheet of the layout and in the styles of sections.
They are written as they are, and nothing from outside is taken away from them: these texts mention
no external address if and only if the measures themselves do not.
-/
namespace Folio.Document

open Resource (Around Fixed Separate closeParen? quiet stripCss)

/-- A line with a value of the author's in it, after a colon and before a semicolon. -/
structure ValueLine where
  before : Chars
  value : Chars
  after : Chars

def ValueLine.write (l : ValueLine) : Chars := l.before ++ .of ':' :: (l.value ++ .of ';' :: l.after)

/-- The line of a property. -/
def propertyLine (p : Chars × Chars) : ValueLine := ⟨.of ' ' :: .of ' ' :: p.1, p.2, []⟩

/-- The line of the printed page. Its sides are one value. -/
def Sheet.pageValueLine (s : Sheet) : ValueLine :=
  ⟨"  @page\x7bsize".runes, s.width ++ .of ' ' :: s.height, "margin:0;\x7d".runes⟩

/-- The lines of a style sheet that hold its measures. -/
def Sheet.valueLines (s : Sheet) : List ValueLine :=
  s.properties.flatten.map propertyLine ++ [s.pageValueLine]

/-- The lines of a style sheet between its tags. -/
def Sheet.cssLines (s : Sheet) : List Chars :=
  [":root\x7b".runes] ++ s.propertyLines ++
    (["\x7d".runes, []] ++ pageRules.map String.runes) ++ s.frameLines ++
    (markerRules.map markerLine ++ hidingRules.map String.runes ++ flowRules.map String.runes) ++
    [s.pageLine] ++ printRules.dropLast.map String.runes

/-- The text of a style sheet between its tags. -/
def Sheet.css (s : Sheet) : Chars := .of '\n' :: s.cssLines.flatMap fun line => line ++ [.of '\n']

/-- The measures of a style sheet, as they stand in it. -/
def Sheet.slots (s : Sheet) : List Chars := s.valueLines.map ValueLine.value

section Sheets

variable {s : Sheet}

theorem intercalate_newline (line last : Chars) (lines : List Chars) :
    List.intercalate [.of '\n'] (line :: (lines ++ [last])) =
      line ++ .of '\n' :: (lines.flatMap (fun line => line ++ [.of '\n']) ++ last) := by
  induction lines generalizing line with
  | nil => simp [List.intercalate]
  | cons next lines ih =>
      rw [List.cons_append, List.intercalate_cons_cons, ih, List.flatMap_cons]
      simp

/-- The style sheet in its tag is its text between the tags. -/
theorem Sheet.write_eq (s : Sheet) : s.write =
    .of '\n' :: ("<style id=\"bundle-layout\">".runes ++ s.css ++ "</style>".runes) := by
  have hlast : printRules.map String.runes =
      printRules.dropLast.map String.runes ++ ["</style>".runes] := rfl
  have hlines : s.lines =
      [] :: ("<style id=\"bundle-layout\">".runes :: s.cssLines ++ ["</style>".runes]) := by
    rw [lines, cssLines, hlast]
    simp only [List.append_assoc, List.cons_append, List.nil_append]
  rw [write, hlines, intercalate_newline, css, List.flatMap_cons]
  simp only [List.append_assoc, List.cons_append, List.nil_append]

/-- What stands around a measure mentions nothing. -/
theorem around_of_mem_valueLines {l : ValueLine} (h : l ∈ s.valueLines) :
    Around l.before l.after ∧ closeParen? l.before = none := by
  have hedges : s.valueLines.map (fun l => (l.before, l.after)) =
      (⟨[], [], [], [], [], [], [], [], [], [], true⟩ : Sheet).valueLines.map
        (fun l => (l.before, l.after)) := rfl
  have hall : ∀ edges ∈ s.valueLines.map (fun l => (l.before, l.after)),
      Around edges.1 edges.2 ∧ closeParen? edges.1 = none := by
    rw [hedges]
    decide
  exact hall _ (List.mem_map_of_mem h)

/-- The line mentions nothing, and closes nothing. -/
def Inert (line : Chars) : Prop := quiet line ∧ closeParen? line = none

instance (line : Chars) : Decidable (Inert line) := instDecidableAnd

theorem mem_intercalate {α : Type} {x : α} {sep : List α} {xss : List (List α)}
    (h : x ∈ List.intercalate sep xss) : x ∈ sep ∨ x ∈ xss.flatten := by
  induction xss with
  | nil => exact absurd h List.not_mem_nil
  | cons xs xss ih =>
      rw [List.flatten_cons, List.mem_append]
      cases xss with
      | nil =>
          rw [List.intercalate_singleton] at h
          exact Or.inr (Or.inl h)
      | cons ys xss =>
          rw [List.intercalate_cons_cons, List.mem_append, List.mem_append] at h
          rcases h with (hfirst | hsep) | hlater
          · exact Or.inr (Or.inl hfirst)
          · exact Or.inl hsep
          · exact (ih hlater).imp_right Or.inr

theorem mem_intercalate_of_mem {α : Type} {x : α} {xss : List (List α)} (sep : List α)
    (h : x ∈ xss.flatten) : x ∈ List.intercalate sep xss := by
  induction xss with
  | nil => exact h
  | cons xs xss ih =>
      rw [List.flatten_cons, List.mem_append] at h
      cases xss with
      | nil =>
          rw [List.intercalate_singleton]
          exact h.resolve_right List.not_mem_nil
      | cons ys xss =>
          rw [List.intercalate_cons_cons, List.mem_append, List.mem_append]
          exact h.imp Or.inl ih

theorem write_propertyLine (p : Chars × Chars) :
    (propertyLine p).write = .of ' ' :: .of ' ' :: writeDeclaration p.1 p.2 := by
  simp [writeDeclaration, propertyLine, ValueLine.write]

theorem Sheet.write_pageValueLine (s : Sheet) : s.pageValueLine.write = s.pageLine := by
  have hbefore : "  @page\x7bsize:".runes = "  @page\x7bsize".runes ++ [.of ':'] := rfl
  have hafter : ";margin:0;\x7d".runes = .of ';' :: "margin:0;\x7d".runes := rfl
  have hvalue : s.pageValueLine.write = "  @page\x7bsize".runes ++
      .of ':' :: ((s.width ++ .of ' ' :: s.height) ++ .of ';' :: "margin:0;\x7d".runes) := rfl
  have hline : s.pageLine = "  @page\x7bsize:".runes ++ s.width ++ .of ' ' :: s.height ++
      ";margin:0;\x7d".runes := rfl
  rw [hvalue, hline, hbefore, hafter]
  simp only [List.append_assoc, List.cons_append, List.nil_append]

theorem mem_propertyLines {line : Chars} (h : line ∈ s.propertyLines) :
    line = [] ∨ ∃ p ∈ s.properties.flatten, line = (propertyLine p).write := by
  rcases mem_intercalate h with hsep | hgroup
  · exact Or.inl (List.mem_singleton.1 hsep)
  · rw [← List.map_flatten, List.mem_map] at hgroup
    obtain ⟨p, hp, rfl⟩ := hgroup
    exact Or.inr ⟨p, hp, (write_propertyLine p).symm⟩

theorem write_mem_propertyLines {p : Chars × Chars} (h : p ∈ s.properties.flatten) :
    (propertyLine p).write ∈ s.propertyLines := by
  rw [Sheet.propertyLines, write_propertyLine]
  refine mem_intercalate_of_mem _ ?_
  rw [← List.map_flatten]
  exact List.mem_map.2 ⟨p, h, rfl⟩

/-- Rules are looked at one by one, each as the list of its characters. -/
theorem inert_cons {l : String} {rules : List String} (hl : Inert l.runes)
    (hrules : ∀ line ∈ rules.map String.runes, Inert line) :
    ∀ line ∈ (l :: rules).map String.runes, Inert line := by
  rw [List.map_cons, List.forall_mem_cons]
  exact ⟨hl, hrules⟩

theorem inert_nil : ∀ line ∈ ([] : List String).map String.runes, Inert line :=
  fun _ h => absurd h List.not_mem_nil

set_option maxRecDepth 2000 in
theorem inert_pageRules : ∀ line ∈ pageRules.map String.runes, Inert line := by
  unfold pageRules
  repeat refine inert_cons ⟨rfl, rfl⟩ ?_
  exact inert_nil

theorem inert_frameLines (s : Sheet) : ∀ line ∈ s.frameLines, Inert line := by
  have hempty : ∀ line ∈ [[]], Inert line := by decide
  have hrules : ∀ line ∈ frameRules.map String.runes, Inert line := by
    unfold frameRules
    repeat refine inert_cons ⟨rfl, rfl⟩ ?_
    exact inert_nil
  unfold Sheet.frameLines
  split
  · exact List.forall_mem_cons.2 ⟨hempty [] List.mem_cons_self,
      List.forall_mem_append.2 ⟨hrules, hempty⟩⟩
  · exact hempty

theorem inert_bandRules : ∀ line ∈ markerRules.map markerLine ++ hidingRules.map String.runes ++
    flowRules.map String.runes, Inert line := by
  have hmarkers : ∀ line ∈ markerRules.map markerLine, Inert line := by decide
  have hhiding : ∀ line ∈ hidingRules.map String.runes, Inert line := by
    unfold hidingRules
    repeat refine inert_cons ⟨rfl, rfl⟩ ?_
    exact inert_nil
  have hflow : ∀ line ∈ flowRules.map String.runes, Inert line := by
    unfold flowRules
    repeat refine inert_cons ⟨rfl, rfl⟩ ?_
    exact inert_nil
  exact List.forall_mem_append.2 ⟨List.forall_mem_append.2 ⟨hmarkers, hhiding⟩, hflow⟩

theorem inert_printRules : ∀ line ∈ printRules.dropLast.map String.runes, Inert line := by
  change ∀ line ∈ ["  body\x7b-webkit-print-color-adjust:exact;print-color-adjust:exact;\x7d",
    "  .page\x7bbox-shadow:none;margin:0;\x7d", "\x7d"].map String.runes, Inert line
  repeat refine inert_cons ⟨rfl, rfl⟩ ?_
  exact inert_nil

/-- A line of a style sheet mentions nothing, or holds a measure. -/
theorem mem_cssLines {line : Chars} (h : line ∈ s.cssLines) :
    Inert line ∨ ∃ l ∈ s.valueLines, line = l.write := by
  have hroot : ∀ line ∈ [":root\x7b".runes], Inert line := by decide
  have hclose : ∀ line ∈ ["\x7d".runes, []], Inert line := by decide
  have hpage : s.pageValueLine ∈ s.valueLines :=
    List.mem_append_right _ (List.mem_singleton_self _)
  rw [Sheet.cssLines] at h
  rcases List.mem_append.1 h with h | hprint
  · rcases List.mem_append.1 h with h | hside
    · rcases List.mem_append.1 h with h | hbands
      · rcases List.mem_append.1 h with h | hframe
        · rcases List.mem_append.1 h with h | hpages
          · rcases List.mem_append.1 h with hfirst | hproperty
            · exact Or.inl (hroot line hfirst)
            · rcases mem_propertyLines hproperty with rfl | ⟨p, hp, rfl⟩
              · exact Or.inl (hclose [] (by decide))
              · exact Or.inr ⟨propertyLine p, List.mem_append_left _ (List.mem_map_of_mem hp), rfl⟩
          · exact Or.inl ((List.mem_append.1 hpages).elim (hclose line) (inert_pageRules line))
        · exact Or.inl (inert_frameLines s line hframe)
      · exact Or.inl (inert_bandRules line hbands)
    · rw [List.mem_singleton.1 hside]
      exact Or.inr ⟨s.pageValueLine, hpage, s.write_pageValueLine.symm⟩
  · exact Or.inl (inert_printRules line hprint)

/-- Every measure stands in its line. -/
theorem write_mem_cssLines {l : ValueLine} (h : l ∈ s.valueLines) : l.write ∈ s.cssLines := by
  rw [Sheet.cssLines]
  simp only [List.mem_append]
  rcases List.mem_append.1 h with hproperty | hpage
  · obtain ⟨p, hp, rfl⟩ := List.mem_map.1 hproperty
    have hline := write_mem_propertyLines hp
    simp only [hline, true_or, or_true]
  · rw [List.mem_singleton.1 hpage, Sheet.write_pageValueLine]
    simp only [List.mem_singleton, true_or, or_true]

theorem ValueLine.fixed_write_iff {l : ValueLine} (h : Around l.before l.after) :
    Fixed l.write ↔ Fixed l.value :=
  h.fixed_iff

theorem separate_of_mem_cssLines {line : Chars} (h : line ∈ s.cssLines) : Separate line := by
  rcases mem_cssLines h with ⟨hquiet, hclosed⟩ | ⟨l, hl, rfl⟩
  · exact Resource.separate_of_quiet hquiet hclosed
  · obtain ⟨haround, hclosed⟩ := around_of_mem_valueLines hl
    exact haround.separate hclosed l.value

/-- Nothing is taken away from a style sheet if nothing is from its measures. -/
theorem Sheet.fixed_css_iff (s : Sheet) : Fixed s.css ↔ ∀ value ∈ s.slots, Fixed value := by
  have hcss : Fixed s.css ↔ ∀ line ∈ s.cssLines, Fixed line := by
    rw [← Resource.fixed_lines fun line h => separate_of_mem_cssLines h]
    exact Resource.fixed_quiet_append (u := []) rfl (by decide)
  rw [hcss, slots, List.forall_mem_map]
  constructor
  · intro h l hl
    exact (ValueLine.fixed_write_iff (around_of_mem_valueLines hl).1).1 (h _ (write_mem_cssLines hl))
  · intro h line hline
    rcases mem_cssLines hline with ⟨hquiet, -⟩ | ⟨l, hl, rfl⟩
    · exact Resource.fixed_of_quiet hquiet
    · exact (ValueLine.fixed_write_iff (around_of_mem_valueLines hl).1).2 (h l hl)

end Sheets

section Styles

/-- The values of some declarations, with what stands between them. -/
def joinedValues : List (Chars × Chars) → Chars
  | [] => []
  | [d] => d.2
  | d :: e :: rest => d.2 ++ .of ';' :: (e.1 ++ .of ':' :: joinedValues (e :: rest))

theorem flatMap_writeDeclaration (d : Chars × Chars) (rest : List (Chars × Chars)) :
    ((d :: rest).flatMap fun d => writeDeclaration d.1 d.2) =
      d.1 ++ .of ':' :: (joinedValues (d :: rest) ++ .of ';' :: []) := by
  induction rest generalizing d with
  | nil => simp [writeDeclaration, joinedValues]
  | cons e rest ih =>
      rw [List.flatMap_cons, ih, joinedValues]
      simp [writeDeclaration]

/-- The texts that a page gives for the heights of its bands. -/
def Page.heightTexts (p : Page) : List Chars := p.headerHeight.toList ++ p.footerHeight.toList

theorem mem_heights {p : Page} {d : Chars × Chars} (h : d ∈ p.heights) :
    d.1 ∈ (["--header-h", "--footer-h"] : List Chars) ∧
      ∃ text ∈ p.heightTexts, Length.ofText text = some d.2 := by
  have hband : ∀ (name : Chars) (shows : Bool) (own : Option Chars),
      d ∈ (if shows then ((own.bind Length.ofText).map fun h => (name, h)).toList else []) →
      d.1 = name ∧ ∃ text ∈ own, Length.ofText text = some d.2 := by
    intro name shows own hd
    rw [List.mem_ite_nil_right, Option.mem_toList, Option.map_eq_some_iff] at hd
    obtain ⟨-, value, hvalue, rfl⟩ := hd
    obtain ⟨text, htext, hlength⟩ := Option.bind_eq_some_iff.1 hvalue
    exact ⟨rfl, text, htext, hlength⟩
  rcases List.mem_append.1 h with hheader | hfooter
  · obtain ⟨hname, text, htext, hlength⟩ := hband _ _ _ hheader
    exact ⟨by simp [hname], text, List.mem_append_left _ (Option.mem_toList.2 htext), hlength⟩
  · obtain ⟨hname, text, htext, hlength⟩ := hband _ _ _ hfooter
    exact ⟨by simp [hname], text, List.mem_append_right _ (Option.mem_toList.2 htext), hlength⟩

/-- The names of the heights in the style of a section mention nothing. -/
theorem quiet_of_mem_heights {p : Page} {d : Chars × Chars} (h : d ∈ p.heights) :
    quiet d.1 := by
  have hnames : ∀ name ∈ (["--header-h", "--footer-h"] : List Chars), quiet name := by decide
  exact hnames d.1 (mem_heights h).1

/-- Nothing is taken away from the style of a section if nothing is from the heights in it. -/
theorem Page.fixed_style_iff (p : Page) :
    Fixed p.sectionTag.style ↔ Fixed (joinedValues p.heights) := by
  have hstyle : p.sectionTag.style = p.heights.flatMap fun d => writeDeclaration d.1 d.2 := rfl
  rw [hstyle]
  cases hheights : p.heights with
  | nil => rfl
  | cons d rest =>
      have hname : quiet d.1 := quiet_of_mem_heights (hheights ▸ List.mem_cons_self)
      have haround : Around d.1 [] := ⟨hname, rfl, List.not_mem_nil⟩
      rw [flatMap_writeDeclaration]
      exact haround.fixed_iff

end Styles

section Supplied

/-- The texts that an author gives for the sides of a page. -/
def PageSize.texts : PageSize → List Chars
  | .named _ => []
  | .sides width height => width.toList ++ height.toList

/-- The texts that an author gives for the measures of a layout. -/
def Layout.texts (l : Layout) : List Chars :=
  l.size.texts ++ l.headerHeight.toList ++ l.footerHeight.toList ++
    [l.frame.stroke, l.frame.color, l.frame.top, l.frame.bottom, l.frame.left, l.frame.right]

theorem not_first_of_isDigit {c : Rune} (h : Length.isDigit c) :
    Text.sameLetter '@' c = false ∧ Text.sameLetter 'u' c = false := by
  have hscripts : ∀ first ∈ Decimal.scriptZeros, first + 10 ≤ 64 ∨ 122 < first := by decide
  rw [Length.isDigit, Decimal.digitValue?, Option.isSome_map, List.find?_isSome] at h
  obtain ⟨first, hfirst, hrange⟩ := h
  rw [Bool.and_eq_true, decide_eq_true_eq, decide_eq_true_eq] at hrange
  have hfar : c.toNat < 64 ∨ 122 < c.toNat := by
    have hzero := hscripts first hfirst
    omega
  have hlower : c.toLower = c := by
    apply if_neg
    rw [Rune.isUpper, Bool.and_eq_true, decide_eq_true_eq, decide_eq_true_eq]
    omega
  have hother : ∀ p : Rune, 64 ≤ p.toNat → p.toNat ≤ 122 → (c.toLower == p) = false := by
    intro p hlow hhigh
    rw [hlower, beq_eq_false_iff_ne]
    rintro rfl
    omega
  constructor
  · rw [Text.sameLetter, hother '@' (by decide) (by decide)]
    rfl
  · rw [Text.sameLetter, hother 'u' (by decide) (by decide)]
    rfl

theorem quiet_millimetres {s : Chars} (h : Length.isBareNumeral s) :
    quiet (Length.millimetres s) := by
  have hpoint : Text.sameLetter '@' '.' = false ∧ Text.sameLetter 'u' '.' = false := by decide
  have hunit : Text.sameLetter '@' 'm' = false ∧ Text.sameLetter 'u' 'm' = false := by decide
  apply Resource.quiet_of_no_first
  intro c hc
  rcases List.mem_append.1 hc with hnumeral | hletters
  · rcases Length.isDigit_or_point_of_mem h hnumeral with hdigit | rfl
    · exact not_first_of_isDigit hdigit
    · exact hpoint
  · obtain rfl | hlast := List.mem_cons.1 hletters
    · exact hunit
    · exact List.mem_singleton.1 hlast ▸ hunit

/-- A length mentions nothing if the text that is given for it does not. -/
theorem quiet_of_ofText {text value : Chars} (htext : quiet text)
    (h : Length.ofText text = some value) : quiet value := by
  unfold Length.ofText at h
  dsimp only at h
  rw [Option.ite_none_left_eq_some] at h
  obtain ⟨-, h⟩ := h
  split at h
  · rename_i hnumeral
    exact Option.some.inj h ▸ quiet_millimetres hnumeral
  · exact Option.some.inj h ▸ Resource.quiet_of_isInfix (Text.trim_isInfix text) htext

theorem quiet_lengthOr {default : Chars} {text : Option Chars} (hdefault : quiet default)
    (htext : ∀ s ∈ text, quiet s) : quiet (lengthOr default text) := by
  unfold lengthOr
  cases hvalue : text.bind Length.ofText with
  | none => exact hdefault
  | some value =>
      obtain ⟨s, hs, hlength⟩ := Option.bind_eq_some_iff.1 hvalue
      exact quiet_of_ofText (htext s hs) hlength

theorem quiet_resolve {size : PageSize} (h : ∀ text ∈ size.texts, quiet text) :
    quiet size.resolve.1 ∧ quiet size.resolve.2 := by
  have hnames : ∀ entry ∈ namedSizes, quiet entry.2.1 ∧ quiet entry.2.2 := by
    decide +kernel
  have hstandard : quiet standardSides.1 ∧ quiet standardSides.2 := by decide
  cases size with
  | named name =>
      unfold PageSize.resolve
      dsimp only
      split
      · rename_i width height hlookup
        obtain ⟨before, after, hsizes, -⟩ := List.lookup_eq_some_iff.1 hlookup
        exact hnames _ (hsizes ▸ List.mem_append_right before List.mem_cons_self)
      · exact hstandard
  | sides width height =>
      have hwidth : ∀ s ∈ width, quiet s := fun s hs =>
        h s (List.mem_append_left _ (Option.mem_toList.2 hs))
      have hheight : ∀ s ∈ height, quiet s := fun s hs =>
        h s (List.mem_append_right _ (Option.mem_toList.2 hs))
      exact ⟨quiet_lengthOr hstandard.1 hwidth, quiet_lengthOr hstandard.2 hheight⟩

/-- The measures of a style sheet mention nothing if the texts that are given for them do not. -/
theorem quiet_slots {l : Layout} (h : ∀ text ∈ l.texts, quiet text) :
    ∀ value ∈ l.sheet.slots, quiet value := by
  have hslots : l.sheet.slots = [l.sheet.width, l.sheet.height, l.sheet.headerHeight,
      l.sheet.footerHeight, "5mm".runes, "10mm".runes, l.sheet.stroke, l.sheet.color, l.sheet.top,
      l.sheet.bottom, l.sheet.left, l.sheet.right, l.sheet.width ++ .of ' ' :: l.sheet.height] := rfl
  have hfixed : ∀ text ∈ [Settings.headerHeight, Settings.footerHeight, Settings.frameStroke,
      [.of '0'], "5mm".runes, "10mm".runes], quiet text := by decide
  simp only [Layout.texts, List.forall_mem_append, Option.mem_toList] at h
  obtain ⟨⟨⟨hsize, hheader⟩, hfooter⟩, hframe⟩ := h
  have hgiven : ∀ {default text : Chars}, quiet default → quiet text →
      quiet (lengthOr default (some text)) := by
    intro default text hdefault htext
    exact quiet_lengthOr hdefault fun s hs => Option.some.inj hs ▸ htext
  obtain ⟨hwidth, hheight⟩ := quiet_resolve hsize
  simp only [List.forall_mem_cons] at hfixed hframe
  obtain ⟨hheader', hfooter', hstroke', hzero, hvertical, hhorizontal, -⟩ := hfixed
  obtain ⟨hstroke, hcolor, htop, hbottom, hleft, hright, -⟩ := hframe
  rw [hslots]
  simp only [List.forall_mem_cons]
  exact ⟨hwidth, hheight, quiet_lengthOr hheader' hheader, quiet_lengthOr hfooter' hfooter,
    hvertical, hhorizontal, hgiven hstroke' hstroke, hcolor, hgiven hzero htop, hgiven hzero hbottom,
    hgiven hzero hleft, hgiven hzero hright,
    Resource.quiet_append_cons hwidth (by decide) hheight, fun _ hmem => absurd hmem List.not_mem_nil⟩

theorem quiet_joinedValues {p : Page} (h : ∀ text ∈ p.heightTexts, quiet text) :
    quiet (joinedValues p.heights) := by
  have hall : ∀ d ∈ p.heights, quiet d.1 ∧ quiet d.2 := by
    intro d hd
    obtain ⟨text, htext, hlength⟩ := (mem_heights hd).2
    exact ⟨quiet_of_mem_heights hd, quiet_of_ofText (h text htext) hlength⟩
  generalize p.heights = ds at hall
  induction ds with
  | nil => rfl
  | cons d ds ih =>
      obtain ⟨⟨-, hvalue⟩, hds⟩ := List.forall_mem_cons.1 hall
      cases ds with
      | nil => exact hvalue
      | cons e ds =>
          have hname := (hds e List.mem_cons_self).1
          exact Resource.quiet_append_cons hvalue (by decide)
            (Resource.quiet_append_cons hname (by decide) (ih hds))

end Supplied

section Written

variable {b : Bundle} {html : Chars}

/-- What is joined has each of its parts inside. -/
theorem exists_of_joinParts {parts : List (Recorded Markup.MarkupError Chars)} {text : Chars}
    (h : (joinParts parts).value = .ok text) :
    ∀ part ∈ parts, ∃ s, part.value = .ok s ∧ s <:+: text := by
  induction parts generalizing text with
  | nil => exact fun part hpart => absurd hpart List.not_mem_nil
  | cons first parts ih =>
      rw [joinParts, Logged.andThen] at h
      cases hfirst : first.value with
      | error e =>
          rw [hfirst] at h
          contradiction
      | ok s =>
          rw [hfirst] at h
          obtain ⟨rest, hrest, rfl⟩ := exists_of_map_eq_ok h
          rw [List.forall_mem_cons]
          refine ⟨⟨s, hfirst, (List.prefix_append s rest).isInfix⟩, fun part hpart => ?_⟩
          obtain ⟨t, ht, hinner⟩ := ih hrest part hpart
          exact ⟨t, ht, hinner.trans (List.suffix_append s rest).isInfix⟩

theorem exists_of_compile (h : b.compile.value = .ok html) :
    ∃ styles sections scripts, (assemblePages b).value = .ok sections ∧
      html = writeDocument b styles sections scripts := by
  obtain ⟨sections, hsections, rfl⟩ := exists_of_map_eq_ok h
  exact ⟨_, sections, _, hsections, rfl⟩

theorem infix_append_append {inner before after rest : Chars} (h : inner <:+: before ++ after) :
    inner <:+: before ++ after ++ rest :=
  h.trans (List.prefix_append _ rest).isInfix

/-- The style sheet of the layout is in the document as it is. -/
theorem css_isInfix (h : b.compile.value = .ok html) :
    "<style id=\"bundle-layout\">".runes ++ b.layout.sheet.css ++ "</style>".runes <:+: html := by
  obtain ⟨styles, sections, scripts, -, rfl⟩ := exists_of_compile h
  have htag : "<style id=\"bundle-layout\">".runes ++ b.layout.sheet.css ++ "</style>".runes <:+:
      b.layout.sheet.write := by
    rw [Sheet.write_eq]
    exact (List.suffix_cons (Rune.of '\n') _).isInfix
  have hhead : b.layout.sheet.write <:+: writeHead b styles := by
    unfold writeHead
    exact infix_append_append (List.infix_append _ _ _)
  have hdocument : writeHead b styles <:+: writeDocument b styles sections scripts := by
    unfold writeDocument
    exact infix_append_append (List.infix_append _ _ _)
  exact htag.trans (hhead.trans hdocument)

/-- The tag of each section is in the document as it is. -/
theorem sectionTag_isInfix (h : b.compile.value = .ok html) {p : Page} (hp : p ∈ b.pages) :
    p.sectionTag.write <:+: html := by
  obtain ⟨styles, sections, scripts, hsections, rfl⟩ := exists_of_compile h
  obtain ⟨text, htext, hinner⟩ := exists_of_joinParts hsections _ (List.mem_map_of_mem hp)
  obtain ⟨content, -, rfl⟩ := exists_of_map_eq_ok htext
  have htag : p.sectionTag.write <:+: writeSection p content := by
    unfold writeSection enclose
    have hattrs := (List.suffix_cons (.of ' ') p.sectionTag.write).isInfix
    exact hattrs.trans (infix_append_append (infix_append_append (List.infix_append _ _ _)))
  have hbody : sections <:+: writeBody b sections scripts := by
    unfold writeBody
    have hopen := (List.suffix_cons (.of '>') sections).isInfix
    exact hopen.trans (infix_append_append (infix_append_append (infix_append_append
      (List.infix_append _ _ _))))
  have hdocument : writeBody b sections scripts <:+: writeDocument b styles sections scripts := by
    unfold writeDocument
    exact List.infix_append _ _ _
  exact htag.trans (hinner.trans (hbody.trans hdocument))

end Written

/-- The measures of a layout and the heights of its pages reach the document as they are. The style
sheet and the style of a section are what is left when external addresses are taken away from them
if and only if this holds of each measure in them; and it holds if no text that is given for a
measure has a word that begins a mention. -/
theorem layoutText_fixed_iff {b : Bundle} {html : Chars} (h : b.compile.value = .ok html) :
    ("<style id=\"bundle-layout\">".runes ++ b.layout.sheet.css ++ "</style>".runes <:+: html ∧
      (stripCss b.layout.sheet.css = b.layout.sheet.css ↔
        ∀ value ∈ b.layout.sheet.slots, stripCss value = value) ∧
      ((∀ text ∈ b.layout.texts, quiet text) → stripCss b.layout.sheet.css = b.layout.sheet.css)) ∧
    ∀ p ∈ b.pages, p.sectionTag.write <:+: html ∧
      (stripCss p.sectionTag.style = p.sectionTag.style ↔
        stripCss (joinedValues p.heights) = joinedValues p.heights) ∧
      ((∀ text ∈ p.heightTexts, quiet text) → stripCss p.sectionTag.style = p.sectionTag.style) := by
  refine ⟨⟨css_isInfix h, b.layout.sheet.fixed_css_iff, fun hquiet => ?_⟩, fun p hp =>
    ⟨sectionTag_isInfix h hp, p.fixed_style_iff, fun hquiet => ?_⟩⟩
  · exact b.layout.sheet.fixed_css_iff.2 fun value hvalue =>
      Resource.fixed_of_quiet (quiet_slots hquiet value hvalue)
  · exact p.fixed_style_iff.2 (Resource.fixed_of_quiet (quiet_joinedValues hquiet))

/-- A page with a height of its own for its header, as it is sent to be kept inside. -/
def heightData (height : Chars) : Json := .obj [
  ("head", .obj [("title", .str "t")]),
  ("body", .obj [("pages", .arr [.obj [("body", .str "x"), ("headerHeight", .str height)]])]),
  ("security", .obj [("allowExternalResources", .bool false)])]

/-- The page as it is kept. -/
def heightBundle (height : Chars) : Bundle where
  title := [.of 't']
  metaEntries := []
  styles := []
  pages := [{ Page.ofBody ['x'] with headerHeight := some height }]
  layout := .standard
  security := ⟨false, false⟩
  header := []
  footer := []
  scripts := []
  documentClass := []

theorem layoutText_fixed_iff_heightBundle :
    ∃ html, (heightBundle "30".runes).compile.value = .ok html ∧
      (∀ text ∈ (heightBundle "30".runes).layout.texts, quiet text) ∧
      stripCss (heightBundle "30".runes).layout.sheet.css =
        (heightBundle "30".runes).layout.sheet.css := by
  have hok : (heightBundle "30".runes).compile.value.isOk := by decide
  obtain ⟨html, hvalue⟩ := exists_of_isOk hok
  have hquiet : ∀ text ∈ (heightBundle "30".runes).layout.texts, quiet text := by decide
  exact ⟨html, hvalue, hquiet, (layoutText_fixed_iff hvalue).1.2.2 hquiet⟩

/-- Where nothing from outside is allowed, an address from outside may still be given for a
height. -/
theorem not_layoutText_always_fixed :
    ¬ ∀ data b html, Bundle.read data = .ok b → b.security.allowsExternal = false →
      b.compile.value = .ok html → stripCss b.layout.sheet.css = b.layout.sheet.css ∧
        ∀ p ∈ b.pages, stripCss p.sectionTag.style = p.sectionTag.style := by
  intro h
  have hread : Bundle.read (heightData "url(//x)") = .ok (heightBundle "url(//x)".runes) := rfl
  have hok : (heightBundle "url(//x)".runes).compile.value.isOk := by decide
  obtain ⟨html, hvalue⟩ := exists_of_isOk hok
  have hstyle := (h _ _ html hread rfl hvalue).2 _ List.mem_cons_self
  exact absurd hstyle (by decide)

end Folio.Document
