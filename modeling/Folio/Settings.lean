import Folio.Decimal.Numeral

/-!
The settings of the service: what its surroundings may change, and what is fixed.
-/
namespace Folio

/-- What the variables of the environment may change, and how deep its calls may be nested. -/
structure Settings where
  /-- The name of the least level that is recorded. -/
  logLevel : Chars
  /-- Milliseconds for loading and printing a document. -/
  renderTimeout : Int
  /-- Milliseconds for the pages of a document to be laid out. -/
  paginationTimeout : Int
  browserArguments : List Chars
  /-- The size of the largest request, in bytes. -/
  maxBytes : Int
  port : Int
  /-- How deep the lists and objects of a payload may be nested. -/
  maxDepth : Nat
deriving DecidableEq, Repr

namespace Settings

/-- The page size of a document that names none. -/
def pageSize : Chars := "A4".runes

def headerHeight : Chars := "20mm".runes

def footerHeight : Chars := "14mm".runes

def frameStroke : Chars := "1px".runes

def frameColor : Chars := "#000".runes

/-- Pixels kept free above the bottom of the safe area. -/
def overflowBuffer : Nat := 2

/-- The beginning of the names of printed files. -/
def filePrefix : Chars := "bundle-html2pdf".runes

/-- The name of a printed error document. -/
def errorFile : Chars := filePrefix ++ "-error.pdf".runes

/-- The settings of an empty environment. -/
def standard : Settings where
  logLevel := "INFO".runes
  renderTimeout := 30000
  paginationTimeout := 15000
  browserArguments :=
    ["--no-sandbox", "--disable-setuid-sandbox", "--disable-dev-shm-usage",
      "--disable-gpu"].map String.runes
  maxBytes := 20971520
  port := 8010
  maxDepth := 980

/-- The value of a variable as a whole number. -/
def whole (env : List (Chars × Chars)) (key : Chars) (default : Int) :
    Except Decimal.NumeralError Int :=
  match env.lookup key with
  | none => .ok default
  | some text => Decimal.readWhole text

/-- The settings that the variables of an environment make. -/
def read (env : List (Chars × Chars)) : Except Decimal.NumeralError Settings := do
  let level := Text.upper (Text.trim ((env.lookup "BUNDLEPDF_LOG_LEVEL".runes).getD []))
  let arguments := Text.words ((env.lookup "BUNDLEPDF_CHROMIUM_ARGS".runes).getD [])
  let renderTimeout ← whole env "BUNDLEPDF_RENDER_TIMEOUT_MS" standard.renderTimeout
  let paginationTimeout ← whole env "BUNDLEPDF_PAGINATION_TIMEOUT_MS" standard.paginationTimeout
  let maxBytes ← whole env "BUNDLEPDF_MAX_BUNDLE_BYTES" standard.maxBytes
  let port ← whole env "PORT" standard.port
  return {
    logLevel := if level.isEmpty then standard.logLevel else level
    renderTimeout, paginationTimeout, maxBytes, port
    maxDepth := standard.maxDepth
    browserArguments := if arguments.isEmpty then standard.browserArguments else arguments }

/-- The levels that may be named, by their weight. -/
def levelWeights : List (Chars × Int) := [
  ("CRITICAL", 50), ("FATAL", 50), ("ERROR", 40), ("WARNING", 30), ("WARN", 30), ("INFO", 20),
  ("DEBUG", 10), ("NOTSET", 0)]

/-- The weight of a level; that of INFO for a name that is none. -/
def levelWeight (name : Chars) : Int := (levelWeights.lookup name).getD 20

end Settings

/-- How records are taken: the weight of the least level, and the number of places to which they
go. -/
structure LogSetup where
  level : Int
  handlers : Nat
deriving DecidableEq, Repr

/-- Sets up the taking of records, unless that was done before: at the level that is given, or at
that of the settings. -/
def LogSetup.configure (setup : LogSetup) (settings : Settings) (level : Chars) : LogSetup :=
  if 0 < setup.handlers then setup
  else ⟨Settings.levelWeight (if level.isEmpty then settings.logLevel else level), 1⟩

example : (Settings.read []).toOption = some Settings.standard := by decide

end Folio
