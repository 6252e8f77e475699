import Folio.Css.Declaration
import Folio.Sanitize.Policy
import Folio.Sanitize.Reference

/-!
Inline styles in a sanitized fragment: the declarations of allowed properties, each with a
semicolon, and the gaps between them.
-/
namespace Folio.Sanitize

open Css (StyleItem)

/-- Whether two items are gaps of one kind. -/
def sameGap : StyleItem → StyleItem → Bool
  | .space _, .space _ => true
  | .comment _, .comment _ => true
  | _, _ => false

/-- The items that are kept; `last` is the one kept before. A gap needs something before it, other
than a gap of its kind. -/
def keepItems (last : Option StyleItem) : List StyleItem → List StyleItem
  | [] => []
  | item :: rest =>
      let keeps := match item with
        | .declaration d => isAllowedProperty d.name
        | .space _ | .comment _ => last.any fun l => !sameGap l item
        | .ignored => false
      if keeps then item :: keepItems (some item) rest else keepItems last rest

/-- The first whole number among some tokens that has more digits than are read. -/
def longNumeral? (tokens : List Css.Token) : Option LongNumeral :=
  (Css.numeralsOf tokens).findSome? fun n =>
    let digits := (n.filter Rune.isDigit).length
    if Css.isWhole n && Decimal.maxDigits < digits then some ⟨digits⟩ else none

/-- An inline style with nothing but what is allowed. -/
def cleanStyle (style : Chars) : Except LongNumeral Chars :=
  let tokens := Css.tokens style
  match longNumeral? tokens with
  | some e => .error e
  | none =>
      .ok (Text.trim ((keepItems none (Css.styleItems tokens)).flatMap StyleItem.write))

end Folio.Sanitize
