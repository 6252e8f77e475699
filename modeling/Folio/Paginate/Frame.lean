import Folio.Paginate.Node

/-!
What the pages made from one section have in common: everything but the content of the flow. The
section is put in order first: its own heights of header and footer take effect, and it gets a
body and a flow if it has none.
-/
namespace Folio.Paginate

/-- A page section: its tag and its content. -/
structure Section where
  tag : Tag
  children : List Node

/-- White space at the ends of a text or of a value. -/
def isBlank (c : Rune) : Bool :=
  let n := c.toNat
  (9 ≤ n && n ≤ 13) || n == 32 || n == 0xA0 || n == 0x1680 || (0x2000 ≤ n && n ≤ 0x200A) ||
    n == 0x2028 || n == 0x2029 || n == 0x202F || n == 0x205F || n == 0x3000 || n == 0xFEFF

def trimmed (s : Chars) : Chars := Text.dropEnd isBlank (s.dropWhile isBlank)

/-- A page without the content of its flow. -/
structure Frame where
  tag : Tag
  before : List Node
  body : Tag
  bodyBefore : List Node
  flow : Tag
  bodyAfter : List Node
  after : List Node

/-- The page with the given content of its flow. -/
def Frame.box (f : Frame) (content : List Node) : Node :=
  .element f.tag
    (f.before ++
      .element f.body (f.bodyBefore ++ .element f.flow content :: f.bodyAfter) :: f.after)

/-- One of the two bands of a page, as far as a page may have its own height of it. -/
structure BandRule where
  /-- The class of a page without the band. -/
  absent : Chars
  /-- The attribute with the height on this page. -/
  heightKey : Chars
  /-- The property with the height. -/
  property : Chars
  /-- The side of the body at which the band is. -/
  side : Chars
  isBand : Tag → Bool

def headerRule : BandRule where
  absent := "no-header".runes
  heightKey := "data-header-height".runes
  property := "--header-h".runes
  side := "top".runes
  isBand := Tag.isHeader

def footerRule : BandRule where
  absent := "no-footer".runes
  heightKey := "data-footer-height".runes
  property := "--footer-h".runes
  side := "bottom".runes
  isBand := Tag.isFooter

def noHeight : Chars := "0px".runes

/-- The row without its first element whose tag satisfies the test. -/
def removeFirst (p : Tag → Bool) (nodes : List Node) : List Node :=
  match split? p nodes with
  | none => nodes
  | some s => s.before ++ s.after

namespace BandRule

/-- The page loses the band if it has the class for that; else a height of its own takes effect. -/
def apply (rule : BandRule) (s : Section) : Section :=
  if s.tag.hasClass rule.absent then
    ⟨s.tag.withStyle rule.property noHeight, removeFirst rule.isBand s.children⟩
  else
    match s.tag.attrs.lookup rule.heightKey with
    | none => s
    | some height =>
        if height.isEmpty then s else ⟨s.tag.withStyle rule.property height, s.children⟩

/-- The height of the band on a page: the page's own value of the property, else that of the
root, else none. -/
def height (rule : BandRule) (vars : Properties) (tag : Tag) : Chars :=
  if tag.hasClass rule.absent then noHeight
  else trimmed (((tag.style.lookup rule.property).or (vars.lookup rule.property)).getD [])

/-- The body leaves room for the band. -/
def room (rule : BandRule) (vars : Properties) (page body : Tag) : Tag :=
  body.withStyle rule.side (rule.height vars page)

end BandRule

namespace Section

/-- The section with its own bands; its body leaves room for them. -/
def withBands (vars : Properties) (s : Section) : Section :=
  let s := footerRule.apply (headerRule.apply s)
  match split? Tag.isBody s.children with
  | none => s
  | some b =>
      let body := footerRule.room vars s.tag (headerRule.room vars s.tag b.tag)
      ⟨s.tag, { b with tag := body }.row⟩

/-- The body of a page that has none. -/
def newBody : Tag := .plain "main".runes "body".runes

/-- The flow of a body that has none. -/
def newFlow : Tag := .plain "div".runes "flow".runes

/-- The children of a page around its body; a new body stands before the footer, or last. -/
def aroundBody (children : List Node) : Split :=
  match split? Tag.isBody children with
  | some b => b
  | none =>
      match split? Tag.isFooter children with
      | some f => ⟨f.before, newBody, [], .element f.tag f.children :: f.after⟩
      | none => ⟨children, newBody, [], []⟩

/-- The children of a body around its flow; a new flow takes all of them. -/
def aroundFlow (children : List Node) : Split :=
  match split? Tag.isFlow children with
  | some f => f
  | none => ⟨[], newFlow, children, []⟩

/-- The frame of a section, and the content of its flow. -/
def prepare (vars : Properties) (s : Section) : Frame × List Node :=
  let s := s.withBands vars
  let b := aroundBody s.children
  let f := aroundFlow b.children
  (⟨s.tag, b.before, b.tag, f.before, f.tag, f.after, b.after⟩, f.children)

end Section
end Folio.Paginate
