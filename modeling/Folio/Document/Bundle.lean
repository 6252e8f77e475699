import Folio.Settings
import Folio.Json.Basic

/-!
A bundle: all that a document is made of, with every default in its place.
-/
namespace Folio.Document

/-- How a style sheet or script is given. -/
inductive RefKind where
  /-- By its text. -/
  | inline
  /-- By its address. -/
  | reference
  /-- In a way that is not written into documents. -/
  | other (name : Chars)
deriving DecidableEq, Repr

def RefKind.name : RefKind → Chars
  | .inline => "inline".runes
  | .reference => "reference".runes
  | .other name => name

/-- The kind of a name. -/
def RefKind.ofName (name : Chars) : RefKind :=
  if name == "inline".runes then .inline
  else if name == "reference".runes then .reference
  else .other name

/-- A style sheet or a script. -/
structure ResourceRef where
  kind : RefKind
  content : Option Chars
  url : Option Chars
deriving DecidableEq, Repr

/-- The size of a page: a name, or two sides. -/
inductive PageSize where
  | named (name : Chars)
  | sides (width height : Option Chars)
deriving DecidableEq, Repr

/-- The frame around the safe area of a page, and the distances of that area from the edges of the
page's body. -/
structure SafeFrame where
  enabled : Bool
  stroke : Chars
  color : Chars
  top : Chars
  bottom : Chars
  left : Chars
  right : Chars
deriving DecidableEq, Repr

structure Layout where
  size : PageSize
  headerHeight : Option Chars
  footerHeight : Option Chars
  frame : SafeFrame
  /-- Whether the document lays out its pages itself. -/
  paginates : Bool
deriving DecidableEq, Repr

structure Security where
  sanitizes : Bool
  allowsExternal : Bool
deriving DecidableEq, Repr

/-- A page as its author gives it. -/
structure Page where
  body : Chars
  sectionClass : Chars
  title : Option Chars
  header : Option Chars
  headerHeight : Option Chars
  footer : Option Chars
  footerHeight : Option Chars
  showsHeader : Bool
  showsFooter : Bool
deriving DecidableEq, Repr

/-- The content of one meta tag: names and values. -/
abbrev MetaEntry := List (Chars × Json)

structure Bundle where
  title : Chars
  metaEntries : List MetaEntry
  styles : List ResourceRef
  pages : List Page
  layout : Layout
  security : Security
  /-- The header of every page that has none of its own. -/
  header : Chars
  footer : Chars
  scripts : List ResourceRef
  documentClass : Chars
deriving Repr

/-- The frame of a document that does not describe one. -/
def SafeFrame.standard : SafeFrame :=
  ⟨true, Settings.frameStroke, Settings.frameColor, ['0'], ['0'], ['0'], ['0']⟩

/-- The layout of a document that does not describe one. -/
def Layout.standard : Layout := ⟨.named Settings.pageSize, none, none, .standard, true⟩

/-- A page with nothing but a body. -/
def Page.ofBody (body : Chars) : Page := ⟨body, [], none, none, none, none, none, true, true⟩

end Folio.Document
