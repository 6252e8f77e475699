import Folio.Sanitize.Policy
import Folio.Sanitize.Reference

/-!
Addresses in a sanitized fragment: those with a scheme that is not allowed are dropped, and so are
those that cannot be read. An address that is kept stays as it is written.
-/
namespace Folio.Sanitize

/-- Characters that do not count in an address: backquotes, blanks, controls, and the mark of a
character that could not be read. -/
def isIgnored (c : Rune) : Bool :=
  c == '\x60' || c.toNat ≤ 32 || (127 ≤ c.toNat && c.toNat ≤ 160) || Text.isBlank c ||
    c == '\uFFFD'

/-- The address as its scheme is looked for. -/
def plainAddress (value : Chars) : Except LongNumeral Chars :=
  (decode value).map fun s => Text.lower (s.filter fun c => !isIgnored c)

def isSchemeChar (c : Rune) : Bool := c.isAlphanum || c == '+' || c == '-' || c == '.'

/-- The scheme of an address, and what follows. What stands before a number is no scheme, the
number is a port. -/
def splitScheme (url : Chars) : Option Chars × Chars :=
  match Text.splitAtFirst? ':' url with
  | none => (none, url)
  | some (before, after) =>
      if before.isEmpty || !before.all isSchemeChar then (none, url)
      else if before != "http".runes && !after.isEmpty && after.all Rune.isDigit then (none, url)
      else (some before, after)

/-- Characters that turn into a delimiter of addresses when their compatible form is taken. -/
def hidesDelimiter (c : Rune) : Bool :=
  [0x2047, 0x2048, 0x2049, 0x2100, 0x2101, 0x2105, 0x2106, 0x2A74, 0xFE13, 0xFE16, 0xFE55, 0xFE56,
    0xFE5F, 0xFE6B, 0xFF03, 0xFF0F, 0xFF1A, 0xFF1F, 0xFF20].contains c.toNat

/-- Whether the host of an address can be read: its brackets come in pairs and no delimiter is
hidden in it. -/
def isReadable (rest : Chars) : Bool :=
  if "//".runes.isPrefixOf rest then
    let host := (rest.drop 2).takeWhile fun c => !(c == .of '/' || c == .of '?' || c == .of '#')
    host.contains '[' == host.contains ']' && !host.any hidesDelimiter
  else true

/-- Whether an address is kept. -/
def isAllowedAddress (value : Chars) : Except LongNumeral Bool :=
  (plainAddress value).map fun url =>
    let (scheme, rest) := splitScheme url
    isReadable rest && scheme.all fun s => allowedSchemes.contains s

/-- The attributes that hold an address, by the address of their name space. -/
def addressAttributes : List (Option Chars × Chars) := [
  (none, "href"), (none, "src"), (none, "cite"), (none, "action"), (none, "longdesc"),
  (none, "poster"), (none, "background"), (none, "datasrc"), (none, "dynsrc"), (none, "lowsrc"),
  (none, "ping"), (some "http://www.w3.org/1999/xlink", "href"),
  (some "http://www.w3.org/XML/1998/namespace", "base")]

/-- The attributes of drawings that may refer to another element. -/
def paintAttributes : List Chars := [
  "clip-path", "color-profile", "cursor", "fill", "filter", "marker", "marker-start", "marker-mid",
  "marker-end", "mask", "stroke"]

/-- What follows a reference to another document, `url(…)`, at the start of a text. -/
def afterForeignUrl? (s : Chars) : Option Chars := do
  let rest ← Text.dropPrefix? "url".runes s
  let inside ← Text.dropPrefix? ['('] (Text.trimLeft rest)
  match Text.trimLeft inside with
  | [] => none
  | c :: body =>
      let target := body.takeWhile (· != .of ')')
      if c == '#' || target.isEmpty || target.length == body.length then none
      else some (body.drop (target.length + 1))

/-- The text with a space for every reference to another document. -/
def dropForeignUrls : Nat → Chars → Chars
  | 0, s => s
  | _ + 1, [] => []
  | n + 1, c :: rest =>
      match afterForeignUrl? (c :: rest) with
      | some after => .of ' ' :: dropForeignUrls n after
      | none => c :: dropForeignUrls n rest

/-- The three escapes of markup undone, the ampersand last. -/
def unescape (s : Chars) : Chars :=
  Text.replaceAll "&amp;".runes ['&']
    (Text.replaceAll "&lt;".runes ['<'] (Text.replaceAll "&gt;".runes ['>'] s))

/-- A paint without references to other documents; nothing if nothing is left. -/
def cleanPaint (value : Chars) : Option Chars :=
  let s := unescape value
  let left := Text.trim (dropForeignUrls (s.length + 1) s)
  if left.isEmpty then none else some left

end Folio.Sanitize
