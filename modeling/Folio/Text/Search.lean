import Folio.Text.Blank

/-!
Looking for a piece of text inside another: the first occurrence of a character or a word, and
replacing every occurrence.
-/
namespace Folio.Text

/-- What stands before and after the first `c`, if there is one. -/
def splitAtFirst? (c : Rune) : Chars → Option (Chars × Chars)
  | [] => none
  | d :: rest =>
      if d == c then some ([], rest)
      else (splitAtFirst? c rest).map fun (before, after) => (d :: before, after)

/-- The pieces of a text between the characters `c`. -/
def splitOn (c : Rune) : Chars → List Chars
  | [] => [[]]
  | d :: rest =>
      match splitOn c rest with
      | [] => [[d]]
      | piece :: pieces => if d == c then [] :: piece :: pieces else (d :: piece) :: pieces

/-- What follows `pat` at the start of the text. -/
def dropPrefix? : Chars → Chars → Option Chars
  | [], s => some s
  | _ :: _, [] => none
  | p :: pat, c :: s => if p == c then dropPrefix? pat s else none

/-- Whether `pat` occurs in the text. -/
def occurs (pat : Chars) : Chars → Bool
  | [] => pat.isEmpty
  | c :: rest => pat.isPrefixOf (c :: rest) || occurs pat rest

/-- Every occurrence of `pat` replaced by `new`, from left to right; what is inserted is not
looked at again. `skip` counts the characters of the occurrence under way. -/
def replaceGo (pat new : Chars) : Nat → Chars → Chars
  | _, [] => []
  | skip + 1, _ :: rest => replaceGo pat new skip rest
  | 0, c :: rest =>
      if pat.isPrefixOf (c :: rest) then new ++ replaceGo pat new (pat.length - 1) rest
      else c :: replaceGo pat new 0 rest

/-- Every occurrence of a non-empty `pat` replaced by `new`. -/
def replaceAll (pat new s : Chars) : Chars := replaceGo pat new 0 s

example : splitAtFirst? ';' "a;b;c".runes = some ("a".runes, "b;c".runes) := by decide
example : splitOn ',' "a,,b".runes = ["a".runes, [], "b".runes] := by decide
example : replaceAll "aa".runes "a".runes "aaab".runes = "aab".runes := by decide

end Folio.Text
