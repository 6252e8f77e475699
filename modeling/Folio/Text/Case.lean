import Folio.Text.Blank
import Folio.Text.CaseTable

/-!
Upper and lower case of texts in any script. A capital sigma at the end of a word has a lower case
form of its own, and some characters grow in upper case.
-/
namespace Folio.Text

/-- The image of the code point under the runs of a case table. -/
def CaseRun.apply? (runs : List CaseRun) (n : Nat) : Option Nat :=
  (runs.find? fun r => r.first ≤ n && n ≤ r.last && (n - r.first) % r.step == 0).map
    fun r => ((n : Int) + r.shift).toNat

/-- Whether the code point lies in one of the ranges. -/
def inRanges (ranges : List (Nat × Nat)) (n : Nat) : Bool :=
  ranges.any fun (low, high) => low ≤ n && n ≤ high

/-- Lower case of one character away from its neighbours. -/
def lowerChar (c : Rune) : Chars :=
  if c.toNat < 128 then [c.toLower]
  else if c.toNat == 0x130 then ['i', '\u0307']
  else match CaseRun.apply? lowerRuns c.toNat with
    | some n => [Rune.ofNat n]
    | none => [c]

/-- Upper case of one character. -/
def upperChar (c : Rune) : Chars :=
  if c.toNat < 128 then [c.toUpper]
  else match upperExpansions.lookup c.toNat with
    | some ns => ns.map Rune.ofNat
    | none => match CaseRun.apply? upperRuns c.toNat with
      | some n => [Rune.ofNat n]
      | none => [c]

def isCaseIgnorable (c : Rune) : Bool := inRanges caseIgnorable c.toNat

/-- Characters with case: the letters of ASCII among them. -/
def isCased (c : Rune) : Bool := if c.toNat < 128 then c.isAlpha else inRanges cased c.toNat

/-- Whether the first character that counts has case. -/
def nextIsCased (s : Chars) : Bool :=
  match s.dropWhile isCaseIgnorable with
  | [] => false
  | c :: _ => isCased c

/-- Lower case of a text; `before` is what was read, from its last character to its first. -/
def lowerGo : Chars → Chars → Chars
  | _, [] => []
  | before, c :: rest =>
      let image : Chars :=
        if c == 'Σ' then
          if nextIsCased before && !nextIsCased rest then ['ς'] else ['σ']
        else lowerChar c
      image ++ lowerGo (c :: before) rest

/-- The text in lower case. -/
def lower (s : Chars) : Chars := lowerGo [] s

/-- The text in upper case. -/
def upper (s : Chars) : Chars := s.flatMap upperChar

/-- Lower case of the letters of ASCII alone. -/
def lowerAscii (s : Chars) : Chars := s.map Rune.toLower

/-- Whether two characters are the same letter to a matcher that folds case one character at a
time: besides the pairs of ASCII, the dotted and dotless i match i, the long s matches s, and the
Kelvin sign matches k. -/
def sameLetter (pattern c : Rune) : Bool :=
  c.toLower == pattern ||
    (pattern == 'i' && (c.toNat == 0x130 || c.toNat == 0x131)) ||
    (pattern == 's' && c.toNat == 0x17F) ||
    (pattern == 'k' && c.toNat == 0x212A)

/-- What follows the lower case word `pattern` at the start of the text, case ignored. -/
def dropWord? : Chars → Chars → Option Chars
  | [], s => some s
  | _ :: _, [] => none
  | p :: pattern, c :: s => if sameLetter p c then dropWord? pattern s else none

example : lower "ÀΣ".runes = "àς".runes := by decide +kernel
example : upper "straße".runes = "STRASSE".runes := by decide
example : dropWord? "url(".runes "URL(x".runes = some [.of 'x'] := by decide

end Folio.Text
