import Folio.Document.Normalize
import Folio.Proofs.Outcomes
import Folio.Proofs.Text.Trimming

/-!
The form in which a bundle is sent: its texts under their keys, `null` for what is absent. A bundle
in normal form is read back from it, but for the semicolons at the end of the colour of its frame.
-/
namespace Folio.Document

/-- A text as it is sent. -/
def wireText (s : Chars) : Json := .str s

/-- A text that may be absent, as it is sent. -/
def wireText? : Option Chars → Json
  | none => .null
  | some s => wireText s

def ResourceRef.wire (r : ResourceRef) : Json := .obj [
  ("type", wireText r.kind.name), ("content", wireText? r.content), ("url", wireText? r.url)]

def PageSize.wire : PageSize → Json
  | .named name => wireText name
  | .sides width height => .obj [("width", wireText? width), ("height", wireText? height)]

def SafeFrame.wire (f : SafeFrame) : Json := .obj [
  ("enabled", .bool f.enabled), ("stroke", wireText f.stroke), ("color", wireText f.color),
  ("topOffset", wireText f.top), ("bottomOffset", wireText f.bottom),
  ("leftOffset", wireText f.left), ("rightOffset", wireText f.right)]

def Layout.wire (l : Layout) : Json := .obj [
  ("page", .obj [
    ("size", l.size.wire), ("headerHeight", wireText? l.headerHeight),
    ("footerHeight", wireText? l.footerHeight)]),
  ("safeFrame", l.frame.wire), ("useBuiltInPaginator", .bool l.paginates)]

def Security.wire (s : Security) : Json := .obj [
  ("sanitizeHtml", .bool s.sanitizes), ("allowExternalResources", .bool s.allowsExternal)]

def Page.wire (p : Page) : Json := .obj [
  ("body", wireText p.body),
  ("section", .obj [("class", wireText p.sectionClass), ("dataTitle", wireText? p.title)]),
  ("header", wireText? p.header), ("headerHeight", wireText? p.headerHeight),
  ("footer", wireText? p.footer), ("footerHeight", wireText? p.footerHeight),
  ("options", .obj [("showHeader", .bool p.showsHeader), ("showFooter", .bool p.showsFooter)])]

/-- A bundle as it is sent. -/
def Bundle.wire (b : Bundle) : Json := .obj [
  ("head", .obj [
    ("title", wireText b.title), ("meta", .arr (b.metaEntries.map Json.obj)),
    ("styles", .arr (b.styles.map ResourceRef.wire))]),
  ("body", .obj [
    ("pages", .arr (b.pages.map Page.wire)),
    ("document", .obj [("class", wireText b.documentClass)])]),
  ("layout", b.layout.wire), ("security", b.security.wire), ("header", wireText b.header),
  ("footer", wireText b.footer), ("scripts", .arr (b.scripts.map ResourceRef.wire))]

/-- The text is not empty, and trimming leaves it as it is. -/
structure Kept (s : Chars) : Prop where
  trimmed : Text.Trimmed s
  ne_nil : s ≠ []

/-- The kind of the reference is one that is written into documents. -/
def ResourceRef.Normal (r : ResourceRef) : Prop := r.kind = .inline ∨ r.kind = .reference

inductive PageSize.Normal : PageSize → Prop where
  | named {name : Chars} (h : Kept name) : Normal (.named name)
  | sides {width height : Option Chars} (hwidth : ∀ s ∈ width, Kept s)
      (hheight : ∀ s ∈ height, Kept s) : Normal (.sides width height)

structure SafeFrame.Normal (f : SafeFrame) : Prop where
  stroke : Kept f.stroke
  color : Kept f.color
  top : Kept f.top
  bottom : Kept f.bottom
  left : Kept f.left
  right : Kept f.right

structure Layout.Normal (l : Layout) : Prop where
  size : l.size.Normal
  header : ∀ s ∈ l.headerHeight, Kept s
  footer : ∀ s ∈ l.footerHeight, Kept s
  frame : l.frame.Normal

structure Page.Normal (p : Page) : Prop where
  body : Text.isBlankText p.body = false
  sectionClass : Text.Trimmed p.sectionClass
  header : ∀ s ∈ p.headerHeight, Kept s
  footer : ∀ s ∈ p.footerHeight, Kept s

/-- Nothing can be trimmed from the lengths, sizes, colours and classes of the bundle, and nothing
is left to be passed over. -/
structure Bundle.Normal (b : Bundle) : Prop where
  title : Text.isBlankText b.title = false
  styles : ∀ r ∈ b.styles, r.Normal
  scripts : ∀ r ∈ b.scripts, r.Normal
  pages : ∀ p ∈ b.pages, p.Normal
  somePage : b.pages ≠ []
  layout : b.layout.Normal
  documentClass : Text.Trimmed b.documentClass

/-- The bundle with another colour of its frame. -/
def Bundle.recolor (b : Bundle) (color : Chars) : Bundle :=
  { b with layout := { b.layout with frame := { b.layout.frame with color } } }

section Texts

variable {s : Chars} {text : Option Chars}

@[simp] theorem display_wireText (s : Chars) : (wireText s).display = s := rfl

@[simp] theorem text?_wireText (s : Chars) : text? (wireText s) = some s := rfl

@[simp] theorem text?_wireText? (text : Option Chars) : text? (wireText? text) = text := by
  cases text with
  | none => rfl
  | some s => exact text?_wireText s

@[simp] theorem said_wireText (s : Chars) : said (wireText s) = s := by
  cases s with
  | nil => rfl
  | cons c s =>
      rw [said, display_wireText]
      exact if_pos (by simp [wireText, Json.holds])

theorem Kept.trim_eq (h : Kept s) : Text.trim s = s := h.trimmed.trim_eq

theorem Kept.not_blank (h : Kept s) : Text.isBlankText s = false := by
  obtain ⟨c, rest, rfl⟩ := List.exists_cons_of_ne_nil h.ne_nil
  rw [Text.isBlankText, List.all_cons, h.trimmed.first c rfl, Bool.false_and]

theorem readLength_wireText (h : Kept s) : readLength (wireText s) = .ok (some s) := by
  have hstored : Length.stored (wireText s) =
      .ok (if (Text.trim (wireText s).display).isEmpty then none
        else some (Text.trim (wireText s).display)) := rfl
  rw [readLength, hstored, display_wireText, h.trim_eq, if_neg (mt List.isEmpty_iff.1 h.ne_nil)]
  rfl

theorem readLength_wireText? (h : ∀ s ∈ text, Kept s) :
    readLength (wireText? text) = .ok text := by
  cases text with
  | none => rfl
  | some s => exact readLength_wireText (h s rfl)

theorem readLengthOr_wireText (default : Chars) (h : Kept s) :
    readLengthOr default (wireText s) = .ok s := by
  rw [readLengthOr, readLength_wireText h]
  rfl

end Texts

section Parts

theorem not_isFalse_bool (value : Bool) : (!(Json.bool value).isFalse) = value := by
  cases value <;> rfl

theorem isTrue_bool (value : Bool) : (Json.bool value).isTrue = value := by
  cases value <;> rfl

theorem ResourceRef.read_wire {r : ResourceRef} (h : r.Normal) :
    ResourceRef.read r.wire = some r := by
  have htype : r.wire.get "type" = wireText r.kind.name := rfl
  have hcontent : text? (r.wire.get "content") = r.content := text?_wireText? r.content
  have hurl : text? (r.wire.get "url") = r.url := text?_wireText? r.url
  have hobj : ¬ (!r.wire.isObj) = true := Bool.false_ne_true
  have hwords : ∀ kind ∈ [RefKind.inline, .reference], (wireText kind.name).holds ∧
      Text.lower (Text.trim kind.name) = kind.name := by decide
  have hkinds : r.kind ∈ [RefKind.inline, .reference] := by simpa [ResourceRef.Normal] using h
  obtain ⟨hholds, hword⟩ := hwords r.kind hkinds
  unfold ResourceRef.read
  rw [if_neg hobj]
  dsimp only
  rw [htype, hcontent, hurl, if_pos hholds, said_wireText, hword]
  obtain ⟨kind, content, url⟩ := r
  rcases h with hkind | hkind
  · obtain rfl : kind = .inline := hkind
    rfl
  · obtain rfl : kind = .reference := hkind
    rfl

theorem readRefs_wire {refs : List ResourceRef} (h : ∀ r ∈ refs, r.Normal) :
    readRefs (.arr (refs.map ResourceRef.wire)) = refs := by
  change (refs.map ResourceRef.wire).filterMap ResourceRef.read = refs
  induction refs with
  | nil => rfl
  | cons r refs ih =>
      obtain ⟨hr, hrefs⟩ := List.forall_mem_cons.1 h
      rw [List.map_cons, List.filterMap_cons, ResourceRef.read_wire hr]
      exact congrArg (r :: ·) (ih hrefs)

theorem PageSize.read_wire {size : PageSize} (h : size.Normal) :
    PageSize.read size.wire = .ok size := by
  cases h with
  | @named name h =>
      have hname : ¬ ((wireText name).isNull || (text? (wireText name)).any Text.isBlankText) := by
        rw [text?_wireText, Option.any_some, h.not_blank]
        exact Bool.false_ne_true
      have hobj : ¬ (wireText name).isObj := Bool.false_ne_true
      rw [PageSize.wire, PageSize.read, if_neg hobj, if_neg hname, display_wireText, h.trim_eq]
  | @sides width height hwidth hheight =>
      change (readLength (wireText? width) >>= fun width => readLength (wireText? height) >>=
        fun height => pure (PageSize.sides width height)) = _
      rw [readLength_wireText? hwidth, readLength_wireText? hheight]
      rfl

/-- A frame is read back, but for the end of its colour. -/
theorem SafeFrame.read_wire {f : SafeFrame} (h : f.Normal) :
    SafeFrame.read f.wire = .ok { f with color := readColor (wireText f.color) } := by
  change (readLengthOr Settings.frameStroke (wireText f.stroke) >>= fun stroke =>
    readLengthOr ['0'] (wireText f.top) >>= fun top =>
    readLengthOr ['0'] (wireText f.bottom) >>= fun bottom =>
    readLengthOr ['0'] (wireText f.left) >>= fun left =>
    readLengthOr ['0'] (wireText f.right) >>= fun right =>
    pure (SafeFrame.mk (!(Json.bool f.enabled).isFalse) stroke (readColor (wireText f.color))
      top bottom left right)) = _
  rw [readLengthOr_wireText _ h.stroke, readLengthOr_wireText _ h.top,
    readLengthOr_wireText _ h.bottom, readLengthOr_wireText _ h.left,
    readLengthOr_wireText _ h.right, not_isFalse_bool]
  rfl

theorem Layout.read_wire {l : Layout} (h : l.Normal) : Layout.read l.wire =
    .ok { l with frame := { l.frame with color := readColor (wireText l.frame.color) } } := by
  change (PageSize.read l.size.wire >>= fun size =>
    readLength (wireText? l.headerHeight) >>= fun header =>
    readLength (wireText? l.footerHeight) >>= fun footer =>
    SafeFrame.read l.frame.wire >>= fun frame =>
    pure (Layout.mk size header footer frame (!(Json.bool l.paginates).isFalse))) = _
  rw [PageSize.read_wire h.size, readLength_wireText? h.header, readLength_wireText? h.footer,
    SafeFrame.read_wire h.frame, not_isFalse_bool]
  rfl

theorem Security.read_wire (s : Security) : Security.read s.wire = s := by
  change Security.mk (Json.bool s.sanitizes).isTrue (!(Json.bool s.allowsExternal).isFalse) = s
  rw [isTrue_bool, not_isFalse_bool]

theorem Page.hasBody_wire {p : Page} (h : p.Normal) : hasBody p.wire := by
  change (text? (wireText p.body)).any (fun body => !Text.isBlankText body) = true
  rw [text?_wireText, Option.any_some, h.body]
  rfl

theorem Page.read_wire {p : Page} (h : p.Normal) : Page.read p.wire = .ok p := by
  have htitle : (if (wireText? p.title).isNull then none else some (wireText? p.title).display) =
      p.title := by
    cases p.title with
    | none => rfl
    | some title => exact congrArg some (display_wireText title)
  change (readLength (wireText? p.headerHeight) >>= fun header =>
    readLength (wireText? p.footerHeight) >>= fun footer =>
    pure (Page.mk ((text? (wireText p.body)).getD []) (Text.trim (said (wireText p.sectionClass)))
      (if (wireText? p.title).isNull then none else some (wireText? p.title).display)
      (text? (wireText? p.header)) header (text? (wireText? p.footer)) footer
      (!(Json.bool p.showsHeader).isFalse) (!(Json.bool p.showsFooter).isFalse))) = _
  rw [readLength_wireText? h.header, readLength_wireText? h.footer, text?_wireText, said_wireText,
    h.sectionClass.trim_eq, htitle, text?_wireText?, text?_wireText?, not_isFalse_bool,
    not_isFalse_bool]
  rfl

/-- The pages of a list are read back, none is passed over. -/
theorem mapM_read_wire {pages : List Page} (h : ∀ p ∈ pages, p.Normal) :
    ((pages.map Page.wire).filter hasBody).mapM Page.read = .ok pages := by
  have hbodies : (pages.map Page.wire).filter hasBody = pages.map Page.wire := by
    rw [List.filter_eq_self, List.forall_mem_map]
    exact fun p hp => Page.hasBody_wire (h p hp)
  rw [hbodies]
  exact mapM_map_eq_ok fun p hp => Page.read_wire (h p hp)

theorem entries_filter_obj (entries : List MetaEntry) :
    ((entries.map Json.obj).filter Json.isObj).map Json.entries = entries := by
  have hobj : (entries.map Json.obj).filter Json.isObj = entries.map Json.obj := by
    rw [List.filter_eq_self, List.forall_mem_map]
    exact fun _ _ => rfl
  rw [hobj, List.map_map]
  exact List.map_id entries

end Parts

/-- A bundle in normal form is read back, but for the end of the colour of its frame. -/
theorem Bundle.read_wire {b : Bundle} (h : b.Normal) :
    Bundle.read b.wire = .ok (b.recolor (readColor (wireText b.layout.frame.color))) := by
  have hobj : ¬ (!b.wire.isObj) = true := Bool.false_ne_true
  have htitle : ¬ ((wireText b.title).isNull || Text.isBlankText (wireText b.title).display) := by
    rw [display_wireText, h.title]
    exact Bool.false_ne_true
  have hpages : ¬ b.pages.isEmpty := mt List.isEmpty_iff.1 h.somePage
  unfold Bundle.read
  rw [if_neg hobj]
  change (if (wireText b.title).isNull || Text.isBlankText (wireText b.title).display then _
    else _) = _
  rw [if_neg htitle]
  change (((b.pages.map Page.wire).filter hasBody).mapM Page.read >>= fun pages =>
    if pages.isEmpty then throw _ else Layout.read b.layout.wire >>= fun layout =>
    pure (Bundle.mk (wireText b.title).display
      (((b.metaEntries.map Json.obj).filter Json.isObj).map Json.entries)
      (readRefs (.arr (b.styles.map ResourceRef.wire))) pages layout
      (Security.read b.security.wire) ((text? (wireText b.header)).getD [])
      ((text? (wireText b.footer)).getD []) (readRefs (.arr (b.scripts.map ResourceRef.wire)))
      (Text.trim (said (wireText b.documentClass))))) = _
  rw [mapM_read_wire h.pages]
  change (if b.pages.isEmpty then _ else _) = _
  rw [if_neg hpages, Layout.read_wire h.layout, display_wireText, entries_filter_obj,
    readRefs_wire h.styles, readRefs_wire h.scripts, Security.read_wire, text?_wireText,
    text?_wireText, said_wireText, h.documentClass.trim_eq]
  rfl

end Folio.Document
