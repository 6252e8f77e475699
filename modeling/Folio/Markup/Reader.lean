import Folio.Markup.StartTag

/-!
Reading marked-up text into events. The text is read twice: a first pass stops at a construct that
more text could complete, and a final pass, which knows that there is no more, goes on from there.
-/
namespace Folio.Markup

/-- What one step of a pass does. -/
inductive Step where
  /-- Reads a construct; `raw` is the element whose text follows, if it is raw text. -/
  | go (events : List Event) (raw : Option Chars) (rest : Chars)
  /-- Ends the pass before `rest`. -/
  | stop (events : List Event) (rest : Chars)

/-- What follows the blanks and `>` after `--`. -/
def commentEnd? : Chars → Option Chars
  | '-' :: '-' :: rest =>
      match rest.dropWhile Text.isBlank with
      | '>' :: after => some after
      | _ => none
  | _ => none

/-- What follows `]` and, after blanks, `>`. -/
def officeEnd? : Chars → Option Chars
  | ']' :: rest =>
      match rest.dropWhile Text.isBlank with
      | '>' :: after => some after
      | _ => none
  | _ => none

/-- What follows `]` twice and `>`, blanks between them. -/
def sectionEnd? : Chars → Option Chars
  | ']' :: rest => officeEnd? (rest.dropWhile Text.isBlank)
  | _ => none

/-- The text before the first place where `close?` succeeds, and what follows it. -/
def upTo? (close? : Chars → Option Chars) : Chars → Option (Chars × Chars)
  | [] => none
  | c :: rest =>
      match close? (c :: rest) with
      | some after => some ([], after)
      | none => (upTo? close? rest).map fun (content, after) => (c :: content, after)

/-- What follows an end tag of the raw text element. -/
def rawEnd? (name : Chars) : Chars → Option Chars
  | '<' :: '/' :: rest =>
      match Text.dropWord? name (rest.dropWhile Text.isBlank) with
      | some after =>
          match after.dropWhile Text.isBlank with
          | '>' :: after => some after
          | _ => none
      | none => none
  | _ => none

/-- The characters of the name in an end tag without other content. -/
def isPlainNameChar (c : Rune) : Bool :=
  c.isAlphanum || c == '-' || c == '.' || c == ':' || c == '_'

/-- The name between `</` and `>` if nothing but blanks stands around it. -/
def plainName? (inside : Chars) : Option Chars :=
  let body := inside.dropWhile Text.isBlank
  match body with
  | [] => none
  | c :: _ =>
      let name := body.takeWhile isPlainNameChar
      if c.isAlpha && (body.drop name.length).all Text.isBlank then some (Text.lower name) else none

/-- The raw text up to its end tag, or that tag. What only looks like the tag to a matcher that
folds case is text. -/
def stepRaw (name s : Chars) : Step :=
  match upTo? (rawEnd? name) s with
  | none => .stop [] s
  | some ([], after) =>
      let tag := s.take (s.length - after.length)
      if plainName? (tag.drop 2).dropLast == some name then .go [.close name] none after
      else .go [.text tag] (some name) after
  | some (content, _) => .go [.text content] (some name) (s.drop content.length)

/-- An end tag, after `</`. An end tag without a name is nothing, or a comment. -/
def endTag? (rest : Chars) : Option (List Event × Chars) :=
  (Text.splitAtFirst? '>' rest).map fun (inside, after) =>
    match plainName? inside with
    | some name => ([.close name], after)
    | none =>
        match inside with
        | [] => ([], after)
        | c :: _ =>
            if c.isAlpha then
              ([.close (Text.lower (inside.takeWhile fun c => !endsTagName c))], after)
            else ([.comment inside], after)

/-- The word at the start of a marked section with the blanks after it. -/
def statusWord? (s : Chars) : Option Chars :=
  match s with
  | [] => none
  | c :: _ =>
      if c.isAlpha then
        let word := s.takeWhile fun c => c.isAlphanum || c == .of '-' || c == .of '_' || c == .of '.'
        some (word ++ (s.drop word.length).takeWhile Text.isBlank)
      else none

/-- Marked sections that end at `]]>`. -/
def sectionWords : List Chars := ["temp", "cdata", "ignore", "include", "rcdata"]

/-- Marked sections of office documents, which end at `]>`. -/
def officeWords : List Chars := ["if", "else", "endif"]

/-- A marked section, after `<![`; `none` if the text ends inside it. -/
def markedSection (rest : Chars) : Except MarkupError (Option (List Event × Chars)) :=
  match rest, statusWord? rest with
  | [], _ => .ok none
  | _, none => .error (.expectedName (("<![".runes ++ rest).take 20))
  | _, some word =>
      if word.length == rest.length then .ok none
      else
        let status := Text.lower (Text.trim word)
        let found := fun (close? : Chars → Option Chars) =>
          (upTo? close? rest).map fun (content, after) => ([Event.marked content], after)
        if sectionWords.contains status then .ok (found sectionEnd?)
        else if officeWords.contains status then .ok (found officeEnd?)
        else .error (.unknownSection word)

/-- A construct up to the next `>`. -/
def upToAngle? (event : Chars → Event) (rest : Chars) : Option (List Event × Chars) :=
  (Text.splitAtFirst? '>' rest).map fun (content, after) => ([event content], after)

/-- A construct after `<!` that is no comment; `none` if the text ends inside it. -/
def declaration (rest : Chars) : Except MarkupError (Option (List Event × Chars)) :=
  match rest with
  | '[' :: inside => markedSection inside
  | _ =>
      if Text.lower (rest.take 7) == "doctype".runes then
        .ok ((Text.splitAtFirst? '>' (rest.drop 7)).map fun (content, after) =>
          ([.doctype (rest.take 7 ++ content)], after))
      else .ok (upToAngle? .comment rest)

/-- The text that stands for a construct the text ends inside of; `rest` follows its `<`. -/
def unfinished (rest : Chars) : Chars × Chars :=
  match Text.splitAtFirst? '>' rest with
  | some (inside, after) => (.of '<' :: inside ++ [.of '>'], after)
  | none =>
      match Text.splitAtFirst? '<' rest with
      | some (inside, after) => (.of '<' :: inside, .of '<' :: after)
      | none => (['<'], rest)

/-- A construct that was read, or the step for one that the text ends inside of. -/
def orUnfinished (final : Bool) (rest : Chars) : Option (List Event × Chars) → Step
  | some (events, after) => .go events none after
  | none =>
      if final then let (text, after) := unfinished rest; .go [.text text] none after
      else .stop [] (.of '<' :: rest)

/-- A construct at `<`; `rest` follows it. -/
def stepAngle (final : Bool) (rest : Chars) : Except MarkupError Step :=
  match rest with
  | [] => .ok (.stop [] ['<'])
  | c :: inside =>
      if c.isAlpha then
        (readStartTag rest).map fun
          | .tag tag after =>
              .go [.start tag]
                (if !tag.selfClosing && isRawText tag.name then some tag.name else none) after
          | .broken after =>
              .go [.text (.of '<' :: rest.take (rest.length - after.length))] none after
          | .unfinished => orUnfinished final rest none
      else if c == '/' then .ok (orUnfinished final rest (endTag? inside))
      else if c == '?' then .ok (orUnfinished final rest (upToAngle? .instruction inside))
      else if c == '!' then
        match Text.dropPrefix? ['-', '-'] inside with
        | some content => .ok <| orUnfinished final rest <|
            (upTo? commentEnd? content).map fun (content, after) => ([.comment content], after)
        | none => (declaration inside).map (orUnfinished final rest)
      else .ok (.go [.text ['<']] none rest)

/-- A numeric reference after `&#`: digits that a character other than a hexadecimal digit
follows. -/
def numericReference? (rest : Chars) : Option (Reference × Chars) :=
  let finish := fun (r : Reference) (after : Chars) =>
    match after with
    | [] => none
    | c :: _ => if Text.isHexDigit c then none else some (r, dropSemicolon after)
  match rest with
  | [] => none
  | x :: hexRest =>
      if x.isDigit then
        let digits := rest.takeWhile Rune.isDigit
        finish (.decimal digits) (rest.drop digits.length)
      else if x == 'x' || x == 'X' then
        let digits := hexRest.takeWhile Text.isHexDigit
        if digits.isEmpty then none else finish (.hexadecimal digits) (hexRest.drop digits.length)
      else none

/-- A named reference after `&`: a letter, then letters, digits, hyphens and points. At the end of
the text the name ends before its last hyphen or point. -/
def namedReference? (rest : Chars) : Option (Reference × Chars) :=
  match rest with
  | [] => none
  | first :: more =>
      if !first.isAlpha then none
      else
        let isMark := fun (c : Rune) => c == .of '-' || c == .of '.'
        let run := more.takeWhile fun c => c.isAlphanum || isMark c
        match more.drop run.length with
        | [] =>
            let cut := Text.dropEnd (fun c => !isMark c) run
            if cut.isEmpty then none
            else some (.name (first :: cut.dropLast), more.drop (cut.length - 1))
        | after => some (.name (first :: run), dropSemicolon after)

/-- A reference at `&`; `rest` follows it. One that is not finished ends the pass. -/
def stepAmpersand (final : Bool) (rest : Chars) : Step :=
  match rest with
  | [] => .stop [] ['&']
  | '#' :: digits =>
      match numericReference? digits with
      | some (r, after) => .go [.reference r] none after
      | none =>
          if digits.contains ';' then .stop [.text ['&', '#']] digits else .stop [] (.of '&' :: rest)
  | c :: more =>
      match namedReference? rest with
      | some (r, after) => .go [.reference r] none after
      | none =>
          if c.isAlpha then
            if final && more.isEmpty then .stop [] rest else .stop [] (.of '&' :: rest)
          else .go [.text ['&']] none rest

/-- One step at the start of a text that is not empty. -/
def step (final : Bool) (raw : Option Chars) (s : Chars) : Except MarkupError Step :=
  match raw with
  | some name => .ok (stepRaw name s)
  | none =>
      match s with
      | [] => .ok (.stop [] [])
      | c :: rest =>
          if c == '<' then stepAngle final rest
          else if c == '&' then .ok (stepAmpersand final rest)
          else
            let isText := fun (c : Rune) => c != .of '<' && c != .of '&'
            .ok (.go [.text (s.takeWhile isText)] none (s.dropWhile isText))

/-- The result of a pass: the events, the raw text element that is open, and what is left. -/
structure Scan where
  events : List Event
  raw : Option Chars
  rest : Chars
deriving DecidableEq, Repr

/-- A pass over a text. Every step but the last takes something off the text, so a pass of as many
steps as there are characters, and one more, is complete. -/
def pass (final : Bool) : Nat → Option Chars → Chars → Except MarkupError Scan
  | 0, raw, s => .ok ⟨[], raw, s⟩
  | _ + 1, raw, [] => .ok ⟨[], raw, []⟩
  | fuel + 1, raw, c :: s =>
      match step final raw (c :: s) with
      | .error e => .error e
      | .ok (.stop events rest) => .ok ⟨events, raw, rest⟩
      | .ok (.go events raw' rest) =>
          match pass final fuel raw' rest with
          | .error e => .error e
          | .ok later => .ok { later with events := events ++ later.events }

/-- The events of a text. What the final pass leaves is text, unless it is raw text without an end
tag, which is dropped. -/
def readEvents (s : Chars) : Except MarkupError (List Event) :=
  match pass false (s.length + 1) none s with
  | .error e => .error e
  | .ok first =>
      match pass true (first.rest.length + 1) first.raw first.rest with
      | .error e => .error e
      | .ok last =>
          let tail := if last.raw.isSome || last.rest.isEmpty then [] else [Event.text last.rest]
          .ok (first.events ++ last.events ++ tail)

/-- What opens the wording of an error about a marked section. -/
def refusal : Chars :=
  "The markup you provided was rejected by the parser. Trying a different parser or a different " ++
  "encoding may help.\n\nOriginal exception(s) from parser:\n AssertionError: "

/-- The wording of an error. -/
def MarkupError.message : MarkupError → Chars
  | .unknownSection status =>
      refusal ++ "unknown status keyword ".runes ++ Text.quoted status ++
        " in marked section".runes
  | .expectedName context =>
      refusal ++ "expected name token at ".runes ++ Text.quoted context
  | .longNumeral digits => (Decimal.NumeralError.tooLong digits).message

end Folio.Markup
