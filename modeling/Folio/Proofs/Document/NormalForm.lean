import Folio.Proofs.Decimal.Printing
import Folio.Proofs.Document.WireForm

/-!
What is read is in normal form: nothing more can be trimmed from it, and it is read back from the
form in which it is sent. The colour of a frame alone may change when it is read again, since the
semicolons at its end are taken away once, and blanks may stand between them.
-/
namespace Folio.Document

section Kept

variable {s : Chars} {raw : Json} {text : Option Chars}

theorem kept_of_isWord (h : Text.IsWord Text.isBlank s) : Kept s := ⟨h.trimmed, h.1⟩

theorem kept_trim (h : Text.trim s ≠ []) : Kept (Text.trim s) := ⟨Text.trimmed_trim s, h⟩

/-- A length that is kept is a trimmed text, or a number, which has no blanks. -/
theorem kept_of_stored (h : Length.stored raw = .ok (some s)) : Kept s := by
  have hbrief : ∀ x : Decimal.Binary64, Kept x.brief := fun x =>
    kept_of_isWord (Decimal.Binary64.isWord_form _ _ x)
  have htext : ∀ display : Chars,
      (if (Text.trim display).isEmpty then none else some (Text.trim display)) = some s → Kept s := by
    intro display hsome
    rw [Option.ite_none_left_eq_some, List.isEmpty_iff] at hsome
    exact Option.some.inj hsome.2 ▸ kept_trim hsome.1
  cases raw with
  | null | bool _ => exact absurd (Except.ok.inj h) (Option.some_ne_none s).symm
  | int n =>
      obtain ⟨brief, hwhole, hs⟩ := exists_of_map_eq_ok h
      unfold Length.briefWhole at hwhole
      dsimp only at hwhole
      split at hwhole
      · rw [Option.some.inj hs, ← Except.ok.inj hwhole]
        exact hbrief _
      · contradiction
  | real x =>
      obtain rfl := Option.some.inj (Except.ok.inj h)
      exact hbrief x
  | str text => exact htext _ (Except.ok.inj h)
  | arr items => exact htext _ (Except.ok.inj h)
  | obj entries => exact htext _ (Except.ok.inj h)

theorem kept_of_readLength (h : readLength raw = .ok text) : ∀ s ∈ text, Kept s := by
  rintro s rfl
  have hstored : Length.stored raw = .ok (some s) := eq_ok_of_mapError h
  exact kept_of_stored hstored

theorem kept_of_readLengthOr {default : Chars} (hdefault : Kept default)
    (h : readLengthOr default raw = .ok s) : Kept s := by
  obtain ⟨text, htext, rfl⟩ := exists_of_map_eq_ok h
  cases text with
  | none => exact hdefault
  | some s => exact kept_of_readLength htext s rfl

theorem kept_readColor (raw : Json) : Kept (readColor raw) := by
  unfold readColor
  dsimp only
  split
  · exact kept_of_isWord (by decide)
  · rename_i hne
    exact kept_trim (mt List.isEmpty_iff.2 hne)

end Kept

section Display

theorem not_blank_of_mem {s : Chars} {c : Rune} (hc : c ∈ s) (h : Text.isBlank c = false) :
    Text.isBlankText s = false :=
  List.all_eq_false.2 ⟨c, hc, Bool.eq_false_iff.1 h⟩

theorem not_blank_of_isWord {s : Chars} (h : Text.IsWord Text.isBlank s) :
    Text.isBlankText s = false := by
  obtain ⟨c, rest, rfl⟩ := List.exists_cons_of_ne_nil h.1
  exact not_blank_of_mem List.mem_cons_self (h.2 c List.mem_cons_self)

/-- A value other than a text is never displayed as a blank. -/
theorem not_blank_display {raw : Json}
    (h : ∀ text, raw = .str text → Text.isBlankText text = false) :
    Text.isBlankText raw.display = false := by
  cases raw with
  | null => decide
  | bool b => cases b <;> decide
  | int n =>
      cases n with
      | ofNat n =>
          have hdisplay : (Json.int (.ofNat n)).display = Text.decimal n :=
            congrArg (List.map Rune.of) String.toList_ofList
          rw [hdisplay]
          exact not_blank_of_isWord (Decimal.isWord_decimal n)
      | negSucc n =>
          have hdisplay : (Json.int (.negSucc n)).display = .of '-' :: (Nat.repr (n + 1)).runes :=
            congrArg (List.map Rune.of) String.toList_append
          rw [hdisplay]
          exact not_blank_of_mem List.mem_cons_self rfl
  | real x =>
      have hdisplay : (Json.real x).display = x.full := rfl
      rw [hdisplay]
      exact not_blank_of_isWord (Decimal.Binary64.isWord_form _ _ x)
  | str text => exact h text rfl
  | arr items => exact not_blank_of_mem (c := '[') List.mem_cons_self rfl
  | obj entries => exact not_blank_of_mem (c := '\x7b') List.mem_cons_self rfl

end Display

section Parts

variable {raw : Json}

theorem ResourceRef.normal_of_read {r : ResourceRef} (h : ResourceRef.read raw = some r) :
    r.Normal := by
  unfold ResourceRef.read at h
  dsimp only at h
  rw [Option.ite_none_left_eq_some] at h
  obtain ⟨-, h⟩ := h
  generalize Text.lower _ = declared at h
  split at h
  · exact Or.inl (Option.some.inj h ▸ rfl)
  split at h
  · exact Or.inr (Option.some.inj h ▸ rfl)
  split at h
  · exact Or.inl (Option.some.inj h ▸ rfl)
  · rw [Option.ite_none_right_eq_some] at h
    exact Or.inr (Option.some.inj h.2 ▸ rfl)

theorem normal_of_mem_readRefs {r : ResourceRef} (h : r ∈ readRefs raw) : r.Normal := by
  obtain ⟨item, -, hitem⟩ := List.mem_filterMap.1 h
  exact ResourceRef.normal_of_read hitem

theorem PageSize.normal_of_read {size : PageSize} (h : PageSize.read raw = .ok size) :
    size.Normal := by
  unfold PageSize.read at h
  split at h
  · obtain ⟨width, hwidth, h⟩ := exists_of_bind_eq_ok h
    obtain ⟨height, hheight, h⟩ := exists_of_bind_eq_ok h
    obtain rfl := Except.ok.inj h
    exact .sides (kept_of_readLength hwidth) (kept_of_readLength hheight)
  · split at h
    · obtain rfl := Except.ok.inj h
      exact .named (kept_of_isWord (by decide))
    · rename_i hnamed
      obtain rfl := Except.ok.inj h
      rw [Bool.or_eq_true, not_or, Bool.not_eq_true (Option.any _ _)] at hnamed
      refine .named (kept_trim (Text.trim_ne_nil (not_blank_display ?_)))
      rintro text rfl
      exact hnamed.2

/-- The values that the lengths and the colour of a frame are read from. -/
structure SafeFrame.ReadFrom (raw : Json) (f : SafeFrame) : Prop where
  stroke : readLengthOr Settings.frameStroke (raw.get "stroke") = .ok f.stroke
  color : f.color = readColor (raw.get "color")
  top : readLengthOr ['0'] (raw.get "topOffset") = .ok f.top
  bottom : readLengthOr ['0'] (raw.get "bottomOffset") = .ok f.bottom
  left : readLengthOr ['0'] (raw.get "leftOffset") = .ok f.left
  right : readLengthOr ['0'] (raw.get "rightOffset") = .ok f.right

theorem SafeFrame.readFrom_of_read {f : SafeFrame} (h : SafeFrame.read raw = .ok f) :
    f.ReadFrom raw := by
  obtain ⟨stroke, hstroke, h⟩ := exists_of_bind_eq_ok h
  obtain ⟨top, htop, h⟩ := exists_of_bind_eq_ok h
  obtain ⟨bottom, hbottom, h⟩ := exists_of_bind_eq_ok h
  obtain ⟨left, hleft, h⟩ := exists_of_bind_eq_ok h
  obtain ⟨right, hright, h⟩ := exists_of_bind_eq_ok h
  obtain rfl := Except.ok.inj h
  exact ⟨hstroke, rfl, htop, hbottom, hleft, hright⟩

theorem SafeFrame.normal_of_read {f : SafeFrame} (h : SafeFrame.read raw = .ok f) : f.Normal := by
  have hzero : Kept ['0'] := kept_of_isWord (by decide)
  have hunit : Kept Settings.frameStroke := kept_of_isWord (by decide)
  have hparts := readFrom_of_read h
  exact {
    stroke := kept_of_readLengthOr hunit hparts.stroke
    color := hparts.color ▸ kept_readColor _
    top := kept_of_readLengthOr hzero hparts.top
    bottom := kept_of_readLengthOr hzero hparts.bottom
    left := kept_of_readLengthOr hzero hparts.left
    right := kept_of_readLengthOr hzero hparts.right }

/-- The values that the parts of a layout are read from. -/
structure Layout.ReadFrom (raw : Json) (l : Layout) : Prop where
  size : PageSize.read ((raw.get "page").get "size") = .ok l.size
  header : readLength ((raw.get "page").get "headerHeight") = .ok l.headerHeight
  footer : readLength ((raw.get "page").get "footerHeight") = .ok l.footerHeight
  frame : SafeFrame.read (raw.get "safeFrame") = .ok l.frame

theorem Layout.readFrom_of_read {l : Layout} (h : Layout.read raw = .ok l) : l.ReadFrom raw := by
  obtain ⟨size, hsize, h⟩ := exists_of_bind_eq_ok h
  obtain ⟨header, hheader, h⟩ := exists_of_bind_eq_ok h
  obtain ⟨footer, hfooter, h⟩ := exists_of_bind_eq_ok h
  obtain ⟨frame, hframe, h⟩ := exists_of_bind_eq_ok h
  obtain rfl := Except.ok.inj h
  exact ⟨hsize, hheader, hfooter, hframe⟩

theorem Layout.normal_of_read {l : Layout} (h : Layout.read raw = .ok l) : l.Normal := by
  have hparts := readFrom_of_read h
  exact {
    size := PageSize.normal_of_read hparts.size
    header := kept_of_readLength hparts.header
    footer := kept_of_readLength hparts.footer
    frame := SafeFrame.normal_of_read hparts.frame }

/-- The values that the parts of a page are read from. -/
structure Page.ReadFrom (raw : Json) (p : Page) : Prop where
  body : p.body = (text? (raw.get "body")).getD []
  sectionClass : Text.Trimmed p.sectionClass
  header : readLength (raw.get "headerHeight") = .ok p.headerHeight
  footer : readLength (raw.get "footerHeight") = .ok p.footerHeight

theorem Page.readFrom_of_read {p : Page} (h : Page.read raw = .ok p) : p.ReadFrom raw := by
  obtain ⟨header, hheader, h⟩ := exists_of_bind_eq_ok h
  obtain ⟨footer, hfooter, h⟩ := exists_of_bind_eq_ok h
  obtain rfl := Except.ok.inj h
  exact ⟨rfl, Text.trimmed_trim _, hheader, hfooter⟩

theorem Page.normal_of_read {p : Page} (hbody : hasBody raw) (h : Page.read raw = .ok p) :
    p.Normal := by
  have hparts := readFrom_of_read h
  refine {
    body := ?_
    sectionClass := hparts.sectionClass
    header := kept_of_readLength hparts.header
    footer := kept_of_readLength hparts.footer }
  obtain ⟨body, htext, hblank⟩ := (Option.any_eq_true _ _).1 hbody
  rw [hparts.body, htext]
  exact Bool.not_eq_eq_eq_not.1 hblank

end Parts

/-- The entries of the list of pages. -/
def pageEntries (data : Json) : List Json := ((data.get "body").get "pages").arr?.getD []

/-- The values that the parts of a bundle are read from. -/
structure Bundle.ReadFrom (data : Json) (b : Bundle) : Prop where
  title : Text.isBlankText b.title = false
  pages : ((pageEntries data).filter hasBody).mapM Page.read = .ok b.pages
  somePage : b.pages ≠ []
  layout : Layout.read (data.get "layout") = .ok b.layout
  styles : b.styles = readRefs ((data.get "head").get "styles")
  scripts : b.scripts = readRefs (data.get "scripts")
  documentClass : Text.Trimmed b.documentClass

theorem Bundle.readFrom_of_read {data : Json} {b : Bundle} (h : Bundle.read data = .ok b) :
    b.ReadFrom data := by
  unfold Bundle.read at h
  dsimp only at h
  split at h
  · contradiction
  split at h
  · contradiction
  rename_i htitle
  rw [Bool.or_eq_true, not_or, Bool.not_eq_true (Text.isBlankText _)] at htitle
  split at h
  · rename_i entries hentries
    obtain ⟨pages, hpages, h⟩ := exists_of_bind_eq_ok h
    split at h
    · contradiction
    rename_i hsome
    obtain ⟨layout, hlayout, h⟩ := exists_of_bind_eq_ok h
    obtain rfl := Except.ok.inj h
    exact {
      title := htitle.2
      pages := by rwa [pageEntries, hentries]
      somePage := mt List.isEmpty_iff.2 hsome
      layout := hlayout
      styles := rfl
      scripts := rfl
      documentClass := Text.trimmed_trim _ }
  · contradiction

theorem Bundle.normal_of_read {data : Json} {b : Bundle} (h : Bundle.read data = .ok b) :
    b.Normal := by
  have hparts := readFrom_of_read h
  refine {
    title := hparts.title
    styles := ?_
    scripts := ?_
    pages := ?_
    somePage := hparts.somePage
    layout := Layout.normal_of_read hparts.layout
    documentClass := hparts.documentClass }
  · rw [hparts.styles]
    exact fun r hr => normal_of_mem_readRefs hr
  · rw [hparts.scripts]
    exact fun r hr => normal_of_mem_readRefs hr
  · intro p hp
    obtain ⟨raw, hraw, hread⟩ := exists_of_mem_mapM hparts.pages hp
    exact Page.normal_of_read (List.mem_filter.1 hraw).2 hread

section Colour

variable {c : Chars}

/-- A colour that is kept is read back if no semicolon stands at its end. -/
theorem readColor_eq_self_iff (hc : Kept c) :
    readColor (wireText c) = c ↔ c.getLast? ≠ some (.of ';') := by
  have hread : readColor (wireText c) =
      if (Text.trim (Text.dropEnd (· == .of ';') c)).isEmpty then Settings.frameColor
      else Text.trim (Text.dropEnd (· == .of ';') c) := by
    rw [readColor, said_wireText, hc.trim_eq]
  constructor
  · intro heq hlast
    rw [hread] at heq
    split at heq
    · rw [← heq] at hlast
      exact absurd hlast (by decide)
    · have hshorter := Text.length_trim_le (Text.dropEnd (· == .of ';') c)
      rw [heq] at hshorter
      have hdrop := (Text.prefix_dropEnd (· == .of ';') c).eq_of_length_le hshorter
      rw [← hdrop] at hlast
      exact absurd rfl (ne_of_beq_false (Text.not_last_dropEnd (· == .of ';') c ';' hlast))
  · intro hlast
    have hdrop : Text.dropEnd (· == .of ';') c = c :=
      Text.dropEnd_eq_self fun d hd => beq_false_of_ne fun heq => hlast (heq ▸ hd)
    rw [hread, hdrop, hc.trim_eq, if_neg (mt List.isEmpty_iff.1 hc.ne_nil)]

theorem Bundle.recolor_eq_self_iff {b : Bundle} :
    b.recolor c = b ↔ c = b.layout.frame.color := by
  constructor
  · intro heq
    rw [← heq]
    rfl
  · rintro rfl
    rfl

end Colour

/-- A bundle that was read is read back if no semicolon stands at the end of its frame's colour. -/
theorem Bundle.Normal.read_wire_eq_ok_iff {b : Bundle} (h : b.Normal) :
    Bundle.read b.wire = .ok b ↔ b.layout.frame.color.getLast? ≠ some (.of ';') := by
  have hsame : Bundle.read b.wire = .ok b ↔
      b.recolor (readColor (wireText b.layout.frame.color)) = b := by
    rw [read_wire h, Except.ok.injEq]
  rw [hsame, recolor_eq_self_iff, readColor_eq_self_iff h.layout.frame.color]

/-- What is read is in normal form. Sent again, it is read as itself but for the colour of its
frame, from whose end semicolons are taken away once more: it is the same bundle if and only if the
colour that is kept does not end with one. -/
theorem Bundle.read_wire_of_read {data : Json} {b : Bundle} (h : Bundle.read data = .ok b) :
    b.Normal ∧
    Bundle.read b.wire = .ok (b.recolor (readColor (wireText b.layout.frame.color))) ∧
    (Bundle.read b.wire = .ok b ↔ b.layout.frame.color.getLast? ≠ some (.of ';')) := by
  have hnormal := normal_of_read h
  exact ⟨hnormal, read_wire hnormal, hnormal.read_wire_eq_ok_iff⟩

/-- A page in a frame of a colour, as it is sent. -/
def framed (color : Chars) : Json := .obj [
  ("head", .obj [("title", .str "t")]),
  ("body", .obj [("pages", .arr [.obj [("body", .str "x")]])]),
  ("layout", .obj [("safeFrame", .obj [("stroke", .int 2), ("color", .str color)])])]

/-- The page in the frame, as it is kept. -/
def framedBundle (color : Chars) : Bundle where
  title := [.of 't']
  metaEntries := []
  styles := []
  pages := [.ofBody ['x']]
  layout := { Layout.standard with frame := { SafeFrame.standard with stroke := [.of '2'], color } }
  security := ⟨false, true⟩
  header := []
  footer := []
  scripts := []
  documentClass := []

theorem read_wire_of_read_framed :
    Bundle.read (framed " red;; ") = .ok (framedBundle "red".runes) ∧
    Bundle.read (framedBundle "red".runes).wire = .ok (framedBundle "red".runes) := by
  have hread : Bundle.read (framed " red;; ") = .ok (framedBundle "red".runes) := rfl
  exact ⟨hread, (Bundle.read_wire_of_read hread).2.2.2 (by decide)⟩

/-- What is read need not be read back: the semicolon before a blank is kept when the one after it
and the blank are taken away. -/
theorem not_read_wire_always_same :
    ¬ ∀ data b, Bundle.read data = .ok b → Bundle.read b.wire = .ok b := by
  intro h
  have hread : Bundle.read (framed "red; ;") = .ok (framedBundle "red;".runes) := rfl
  have hsame := h _ _ hread
  rw [(Bundle.normal_of_read hread).read_wire_eq_ok_iff] at hsame
  exact hsame rfl

end Folio.Document
