import Folio.Decimal.Shortest

/-!
JSON values as they are sent: the entries of an object keep their order, and a number written with
a point or an exponent stays apart from a whole one.
-/
namespace Folio

/-- A JSON value. No two entries of an object that was read share a key. -/
inductive Json where
  | null
  | bool (b : Bool)
  | int (n : Int)
  | real (x : Decimal.Binary64)
  | str (s : Chars)
  | arr (items : List Json)
  | obj (entries : List (Chars × Json))
deriving Repr, Inhabited

namespace Json

/-- The entries of an object; any other value has none. -/
def entries : Json → List (Chars × Json)
  | .obj es => es
  | _ => []

/-- The value under a key, `null` where there is none. -/
def get (j : Json) (key : Chars) : Json := (j.entries.lookup key).getD .null

/-- The text of a string value. -/
def str? : Json → Option Chars
  | .str s => some s
  | _ => none

/-- The items of a list. -/
def arr? : Json → Option (List Json)
  | .arr items => some items
  | _ => none

def isObj : Json → Bool
  | .obj _ => true
  | _ => false

def isNull : Json → Bool
  | .null => true
  | _ => false

def isFalse : Json → Bool
  | .bool false => true
  | _ => false

def isTrue : Json → Bool
  | .bool true => true
  | _ => false

/-- Whether a value says something: not `null`, `false`, a zero, or an empty text, list or
object. -/
def holds : Json → Bool
  | .null => false
  | .bool b => b
  | .int n => n != 0
  | .real x => !x.isZero
  | .str s => !s.isEmpty
  | .arr items => !items.isEmpty
  | .obj entries => !entries.isEmpty

end Json
end Folio
