import Folio.Json.Basic
import Folio.Text.Quoted

/-!
The display text of a JSON value: what stands in a document where a value of any kind is given for
a text. A string is displayed as it is; inside lists and objects it is quoted.
-/
namespace Folio.Json

mutual

/-- A value inside another. -/
def inner : Json → Chars
  | .null => "None".runes
  | .bool true => "True".runes
  | .bool false => "False".runes
  | .int n => (toString n).runes
  | .real x => x.full
  | .str s => Text.quoted s
  | .arr items => .of '[' :: innerItems true items ++ [.of ']']
  | .obj entries => .of '\x7b' :: innerEntries true entries ++ [.of '\x7d']

/-- Items after commas, the first one without. -/
def innerItems (first : Bool) : List Json → Chars
  | [] => []
  | j :: rest => (if first then [] else [.of ',', .of ' ']) ++ inner j ++ innerItems false rest

/-- Keys and values after commas, the first ones without. -/
def innerEntries (first : Bool) : List (Chars × Json) → Chars
  | [] => []
  | (k, j) :: rest =>
      (if first then [] else [.of ',', .of ' ']) ++ Text.quoted k ++ .of ':' :: .of ' ' :: inner j ++
        innerEntries false rest

end

/-- The display text of a value. -/
def display : Json → Chars
  | .str s => s
  | j => inner j

example : display (.arr [.int 1, .str "a", .null]) = "[1, 'a', None]".runes := by decide
example : display (.obj [("a", .real (Decimal.Binary64.ofInt 2))]) =
    "\x7b'a': 2.0\x7d".runes := by decide

end Folio.Json
