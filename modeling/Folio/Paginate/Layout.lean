import Folio.Paginate.Cut
import Folio.Paginate.Row
import Folio.Settings

/-!
Measuring a document. A gauge answers whether the last item on a page crosses the limit of the
page; `Metrics.gauge` is one, by a box model in which sections have the height of a page, texts
that of a line, and all else a height of its own or that of its content.
-/
namespace Folio.Paginate

open Decimal (Binary64)

/-- Of a document and the index of one of its pages: whether the last item in the flow of that
page crosses the limit of the page. -/
abbrev Gauge := List Node → Nat → Except Fault Bool

/-- The digits a text begins with, in front of `value` and `count`: their value and their number,
and what follows them. -/
def digitRun (value count : Nat) : Chars → Nat × Nat × Chars
  | [] => (value, count, [])
  | c :: rest =>
      if c.isDigit then digitRun (10 * value + (c.toNat - '0'.toNat)) (count + 1) rest
      else (value, count, c :: rest)

/-- A decimal number without a sign: its digits, how many they are, and how many of them stand
after the point. -/
structure Numeral where
  digits : Nat
  width : Nat
  fraction : Nat

/-- The decimal number that a text begins with, and what follows it. -/
def numeral? (s : Chars) : Option (Numeral × Chars) :=
  let (whole, wholeCount, rest) := digitRun 0 0 s
  match rest with
  | '.' :: fraction =>
      let (digits, width, rest) := digitRun whole wholeCount fraction
      if width == 0 then none else some (⟨digits, width, width - wholeCount⟩, rest)
  | rest => if wholeCount == 0 then none else some (⟨whole, wholeCount, 0⟩, rest)

/-- The number nearest to a numeral with a sign and a power of ten. -/
def Numeral.value (negative : Bool) (power : Int) (n : Numeral) : Binary64 :=
  Binary64.ofDecimal negative n.digits n.width (power - n.fraction)

/-- The length that a value gives in pixels; none for a value that is not a length. -/
def pixels (value : Chars) : Binary64 :=
  match numeral? (trimmed value) with
  | none => 0
  | some (number, rest) =>
      if rest.isEmpty || rest == "px".runes then number.value false 0
      else if rest == "in".runes then 96 * number.value false 0
      else 0

/-- The power of ten that a text begins with. -/
def powerOfTen (s : Chars) : Int :=
  match s with
  | c :: rest =>
      if c == 'e' || c == 'E' then
        let (negative, digits) := match rest with
          | '-' :: digits => (true, digits)
          | '+' :: digits => (false, digits)
          | digits => (false, digits)
        let (exponent, _, _) := digitRun 0 0 digits
        if negative then -exponent else exponent
      else 0
  | [] => 0

/-- The number that a text begins with; none if it begins with something else. -/
def leadingNumber (s : Chars) : Binary64 :=
  let (negative, digits) : Bool × Chars := match s.dropWhile isBlank with
    | '-' :: digits => (true, digits)
    | '+' :: digits => (false, digits)
    | digits => (false, digits)
  if "Infinity".runes.isPrefixOf digits then .infinite negative
  else match numeral? digits with
    | none => 0
    | some (number, rest) => number.value negative (powerOfTen rest)

/-- The measures of a box model. -/
structure Metrics where
  /-- The properties of the root. -/
  vars : Properties
  pageHeight : Binary64
  /-- The space above the content of a body. -/
  padTop : Binary64
  /-- The space below the content of a body, as it is given. -/
  padBottom : Chars
  lineHeight : Binary64
  /-- The element that cannot be measured. -/
  broken : Option Chars

namespace Metrics

def side (name : Chars) (tag : Tag) : Binary64 :=
  pixels ((tag.style.lookup name).getD [])

/-- The height of a body: a page without what lies above and below. -/
def bodyHeight (m : Metrics) (body : Tag) : Binary64 :=
  m.pageHeight - side "top" body - side "bottom" body

mutual
/-- The height of a node; `inSection` says whether its parent is a section. -/
def height (m : Metrics) (inSection : Bool) : Node → Binary64
  | .text content => if content.all isBlank then 0 else m.lineHeight
  | .comment _ => 0
  | .element tag children =>
      if tag.isSection then m.pageHeight
      else if inSection && tag.isBody then m.bodyHeight tag
      else tag.height.getD (m.below false 0 children)

/-- Where siblings end that stand one below the other from `y` on. -/
def below (m : Metrics) (inSection : Bool) (y : Binary64) : List Node → Binary64
  | [] => y
  | node :: rest => m.below inSection (y + m.height inSection node) rest
end

/-- The number of sections in a row. -/
def sectionCount (nodes : List Node) : Nat :=
  (nodes.filter (·.isTagged Tag.isSection)).length

/-- The top of a page after `rank` sections. -/
def pageTop (m : Metrics) (rank : Nat) : Binary64 := Binary64.ofInt rank * m.pageHeight

/-- The top of an element after the siblings `before` it. `parentTop` is the top of its parent
and `start` that of the parent's content. -/
def top (m : Metrics) (inSection : Bool) (parentTop start : Binary64) (before : List Node)
    (tag : Tag) : Binary64 :=
  if tag.isSection then m.pageTop (sectionCount before)
  else if inSection && tag.isBody then parentTop + side "top" tag
  else m.below inSection start before

/-- The top of the body of a page. -/
def bodyTop (m : Metrics) (rank : Nat) (body : Tag) : Binary64 :=
  m.pageTop rank + side "top" body

/-- The space to keep free above the end of a body. -/
def safeOffset (m : Metrics) : Binary64 :=
  pixels ((m.vars.lookup "--safe-bottom-offset".runes).getD [])

/-- The limit of a page: the end of its body without the space below the content, the space that
is kept free, and the buffer. -/
def limit (m : Metrics) (rank : Nat) (body : Tag) : Binary64 :=
  m.bodyTop rank body + m.bodyHeight body - leadingNumber m.padBottom - m.safeOffset -
    Binary64.ofInt Settings.overflowBuffer

/-- The top of a flow in a body. -/
def flowTop (m : Metrics) (rank : Nat) (body : Tag) (f : Split) : Binary64 :=
  m.top false (m.bodyTop rank body) (m.bodyTop rank body + m.padTop) f.before f.tag

/-- The bottom of an item after the items `before` it. -/
def itemBottom (m : Metrics) (rank : Nat) (body : Tag) (f : Split) (before : List Node)
    (item : Node) : Binary64 :=
  let flowTop := m.flowTop rank body f
  let top := match item with
    | .element tag _ => m.top f.tag.isSection flowTop flowTop before tag
    | _ => m.below f.tag.isSection flowTop before
  top + m.height f.tag.isSection item

/-- Fails for the element that cannot be measured. -/
def measured (m : Metrics) (tag : Option Tag) : Except Fault Unit :=
  match m.broken, tag.bind Tag.id? with
  | some broken, some id =>
      if broken == id then .error ⟨"layout failed at ".runes ++ id⟩ else .ok ()
  | _, _ => .ok ()

/-- Whether the last item of a page crosses its limit. The item is measured before the body. -/
def crosses (m : Metrics) (p : Placed) : Except Fault Bool :=
  match split? Tag.isBody p.page.children with
  | none => .ok false
  | some b =>
      match split? Tag.isFlow b.children with
      | none => .ok false
      | some f =>
          match f.children.getLast? with
          | none => .ok false
          | some item => do
              m.measured item.tag?
              m.measured (some b.tag)
              return decide
                (m.limit p.rank b.tag < m.itemBottom p.rank b.tag f f.children.dropLast item)

def gauge (m : Metrics) : Gauge := fun document index =>
  match (pages document)[index]? with
  | none => .ok false
  | some p => m.crosses p

end Metrics
end Folio.Paginate
