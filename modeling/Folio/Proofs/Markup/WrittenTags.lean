import Mathlib.Data.List.TakeWhile
import Folio.Markup.Reader

/-!
Reading tags as they are written: a name, and attributes with values between quotes. Such a tag is
read as what it is, and a text of such tags, with characters between them that begin no tag, has
no other start tags than these.
-/
namespace Folio.Markup

/-- A name that a tag can be written with, and whose element holds no raw text. -/
def isTagName (name : Chars) : Bool :=
  name.head?.any Rune.isAlpha && name.all isPlainNameChar && !isRawText (Text.lower name)

/-- A character at which the name of an attribute ends. -/
def endsAttributeName (c : Rune) : Bool := Text.isBlank c || c == '/' || c == '=' || c == '>'

/-- A name that an attribute can be written with. -/
def isAttributeName (name : Chars) : Bool :=
  !name.isEmpty && name.all fun c => !endsAttributeName c

/-- A name that is read as the name of a tag, up to a space or the end of the tag. -/
structure TagName (name : Chars) : Prop where
  first : ∃ c letters, name = c :: letters ∧ c.isAlpha
  inside : ∀ c ∈ name, endsTagName c = false

/-- A name that is read as the name of an attribute, up to an equals sign after it. It may begin
with another one. -/
structure AttributeName (name : Chars) : Prop where
  first : ∃ c letters, name = c :: letters ∧ Text.isBlank c = false ∧ c ≠ '/' ∧ c ≠ '>' ∧
    ∀ d ∈ letters, endsAttributeName d = false

/-- An attribute with its value between quotes. -/
structure QuotedAttribute where
  name : Chars
  quote : Rune
  value : Chars

namespace QuotedAttribute

/-- The attribute as it is written, with a space before it. -/
def text (a : QuotedAttribute) : Chars :=
  .of ' ' :: a.name ++ .of '=' :: a.quote :: a.value ++ [a.quote]

/-- The attribute is read as it is written. -/
structure Readable (a : QuotedAttribute) : Prop where
  name : AttributeName a.name
  quote : a.quote = '"' ∨ a.quote = '\''
  value : a.quote ∉ a.value

/-- Likewise, and its name can stand anywhere in a tag. -/
structure Sound (a : QuotedAttribute) : Prop where
  name : isAttributeName a.name
  quote : a.quote = '"' ∨ a.quote = '\''
  value : a.quote ∉ a.value

end QuotedAttribute

/-- What ends a tag. -/
def tagClose (selfClosing : Bool) : Chars := if selfClosing then ['/', '>'] else ['>']

section Cursor

variable {p : Rune → Bool} {b c : Rune} {run rest : Chars}

theorem skipWhile_of_not (hc : p c = false) : skipWhile p b (c :: rest) = ⟨b, c :: rest⟩ := by
  rw [skipWhile, hc]
  rfl

theorem exists_skipWhile_append (b : Rune) (rest : Chars) (hrun : ∀ d ∈ run, p d)
    (hc : p c = false) :
    ∃ last, skipWhile p b (run ++ c :: rest) = ⟨last, c :: rest⟩ := by
  induction run generalizing b with
  | nil => exact ⟨b, skipWhile_of_not hc⟩
  | cons d run ih =>
      rw [List.cons_append, skipWhile, hrun d List.mem_cons_self, if_pos rfl]
      exact ih d fun e he => hrun e (List.mem_cons_of_mem d he)

theorem takeWhile_append_cons (rest : Chars) (hrun : ∀ d ∈ run, p d) (hc : p c = false) :
    (run ++ c :: rest).takeWhile p = run := by
  rw [List.takeWhile_append_of_pos hrun, List.takeWhile_cons, hc, if_neg Bool.false_ne_true,
    List.append_nil]

theorem skipGap_of_not (hc : Text.isBlank c = false) (hslash : c ≠ '/') :
    skipGap b (c :: rest) = ⟨b, c :: rest⟩ := by
  simp [skipGap, hc, hslash]

theorem splitAtFirst?_append (rest : Chars) (hrun : c ∉ run) :
    Text.splitAtFirst? c (run ++ c :: rest) = some (run, rest) := by
  induction run with
  | nil => simp [Text.splitAtFirst?]
  | cons d run ih =>
      have hne : (d == c) = false := by
        rw [beq_eq_false_iff_ne]
        rintro rfl
        exact hrun List.mem_cons_self
      rw [List.cons_append, Text.splitAtFirst?, hne, ih fun h => hrun (List.mem_cons_of_mem d h)]
      rfl

end Cursor

namespace QuotedAttribute

variable {a : QuotedAttribute}

theorem Sound.readable (h : a.Sound) : a.Readable := by
  refine ⟨⟨?_⟩, h.quote, h.value⟩
  have hname := h.name
  rw [isAttributeName, Bool.and_eq_true, List.all_eq_true] at hname
  cases heq : a.name with
  | nil => simp [heq] at hname
  | cons c name =>
      rw [heq] at hname
      have hc : endsAttributeName c = false := by simpa using hname.2 c List.mem_cons_self
      simp only [endsAttributeName, Bool.or_eq_false_iff, beq_eq_false_iff_ne] at hc
      exact ⟨c, name, rfl, hc.1.1.1, hc.1.1.2, hc.2,
        fun d hd => by simpa using hname.2 d (List.mem_cons_of_mem c hd)⟩

/-- The gap before an attribute is its space. -/
theorem Readable.skipGap_text (h : a.Readable) (b : Rune) (rest : Chars) :
    skipGap b (a.text ++ rest) =
      ⟨' ', a.name ++ .of '=' :: a.quote :: a.value ++ a.quote :: rest⟩ := by
  obtain ⟨c, name, hname, hblank, hslash, -⟩ := h.name.first
  have hspace : Text.isBlank ' ' = true := by decide
  rw [text, hname]
  simp only [List.cons_append, List.append_assoc, List.nil_append, skipGap, hspace, Bool.true_or,
    if_true]
  exact skipGap_of_not hblank hslash

theorem Readable.attributeName?_eq (h : a.Readable) (rest : Chars) :
    ∃ last, attributeName? ⟨' ', a.name ++ .of '=' :: rest⟩ =
      some (a.name, ⟨last, .of '=' :: rest⟩) := by
  obtain ⟨c, name, hname, hblank, hslash, hend, hinside⟩ := h.name.first
  have hruns : ∀ d ∈ name, (!endsAttributeName d) = true := fun d hd => by rw [hinside d hd]; rfl
  have hequals : (!endsAttributeName '=') = false := by decide
  obtain ⟨last, hlast⟩ := exists_skipWhile_append c rest hruns hequals
  have htake := takeWhile_append_cons rest hruns hequals
  refine ⟨last, ?_⟩
  have hallows : allowsAttribute ' ' = true := by decide
  simp only [attributeName?, hname, List.cons_append, hallows, hblank, beq_false_of_ne hslash,
    beq_false_of_ne hend]
  exact congrArg some (Prod.ext (congrArg (c :: ·) htake) hlast)

theorem Readable.attributeValue_eq (h : a.Readable) (b : Rune) (rest : Chars) :
    attributeValue ⟨b, .of '=' :: a.quote :: a.value ++ a.quote :: rest⟩ =
      (some a.value, ⟨a.quote, rest⟩) := by
  have hsplit := splitAtFirst?_append rest h.value
  have hfacts : Text.isBlank a.quote = false ∧ (a.quote == '=') = false ∧
      (a.quote != '\'' && a.quote != '"') = false := by
    rcases h.quote with hquote | hquote
    · rw [hquote]
      decide
    · rw [hquote]
      decide
  have hequals : Text.isBlank '=' = false := by decide
  simp [attributeValue, Cursor.skipWhile, skipWhile, hequals, hfacts.1, hfacts.2.1, hfacts.2.2,
    hsplit]

end QuotedAttribute

/-- No attribute begins at the end of a tag. -/
theorem attributeName?_tagClose (b : Rune) (selfClosing : Bool) (rest : Chars) :
    attributeName? ⟨b, tagClose selfClosing ++ rest⟩ = none := by
  cases selfClosing <;> simp [attributeName?, tagClose]

theorem skipGap_tagClose (b : Rune) (selfClosing : Bool) (rest : Chars) :
    skipGap b (tagClose selfClosing ++ rest) = ⟨b, tagClose selfClosing ++ rest⟩ := by
  cases selfClosing with
  | false => exact skipGap_of_not (by decide) (by decide)
  | true => simp [skipGap, tagClose, (by decide : Text.isBlank '/' = false)]

/-- Spaces before the end of a tag are passed over. -/
theorem exists_skipGap_tagClose {gap : Chars} (hgap : ∀ c ∈ gap, c = ' ') (b : Rune)
    (selfClosing : Bool) (rest : Chars) :
    ∃ last, skipGap b (gap ++ (tagClose selfClosing ++ rest)) =
      ⟨last, tagClose selfClosing ++ rest⟩ := by
  induction gap generalizing b with
  | nil => exact ⟨b, skipGap_tagClose b selfClosing rest⟩
  | cons c gap ih =>
      obtain ⟨rfl, hlater⟩ := List.forall_mem_cons.1 hgap
      rw [List.cons_append, skipGap, if_pos (by simp [(by decide : Text.isBlank ' ' = true)])]
      exact ih hlater ' '

theorem tagEnd_tagClose (selfClosing : Bool) (rest : Chars) :
    tagEnd (tagClose selfClosing ++ rest) = .closed selfClosing rest := by
  cases selfClosing <;> rfl

/-- All attributes of a tag, up to its end. -/
theorem rawAttributes_written {attrs : List QuotedAttribute} (hattrs : ∀ a ∈ attrs, a.Readable)
    {gap : Chars} (hgap : ∀ c ∈ gap, c = ' ') {fuel : Nat} (hfuel : attrs.length ≤ fuel) (b : Rune)
    (selfClosing : Bool) (rest : Chars) :
    ∃ last, rawAttributes fuel
        (skipGap b (attrs.flatMap QuotedAttribute.text ++
          (gap ++ (tagClose selfClosing ++ rest)))) =
      (attrs.map fun a => (a.name, some a.value), ⟨last, tagClose selfClosing ++ rest⟩) := by
  induction attrs generalizing fuel b with
  | nil =>
      obtain ⟨last, hlast⟩ := exists_skipGap_tagClose hgap b selfClosing rest
      refine ⟨last, ?_⟩
      rw [List.flatMap_nil, List.nil_append, hlast]
      cases fuel with
      | zero => rfl
      | succ fuel =>
          rw [rawAttributes, attributeName?_tagClose]
          rfl
  | cons a attrs ih =>
      have ha := hattrs a List.mem_cons_self
      obtain ⟨fuel, rfl⟩ : ∃ less, fuel = less + 1 := ⟨fuel - 1, by simp at hfuel; omega⟩
      obtain ⟨afterName, hname⟩ := ha.attributeName?_eq (a.quote :: a.value ++
        a.quote :: (attrs.flatMap QuotedAttribute.text ++ (gap ++ (tagClose selfClosing ++ rest))))
      obtain ⟨last, hlast⟩ := ih (fun other hother => hattrs other (List.mem_cons_of_mem a hother))
        (Nat.le_of_succ_le_succ hfuel) a.quote
      refine ⟨last, ?_⟩
      have hvalue := ha.attributeValue_eq afterName
        (attrs.flatMap QuotedAttribute.text ++ (gap ++ (tagClose selfClosing ++ rest)))
      have hskip := ha.skipGap_text b
        (attrs.flatMap QuotedAttribute.text ++ (gap ++ (tagClose selfClosing ++ rest)))
      simp only [List.append_assoc, List.cons_append] at hname hvalue hskip
      rw [List.flatMap_cons, List.append_assoc, hskip, rawAttributes, hname]
      dsimp only
      rw [hvalue]
      dsimp only [Cursor.skipGap]
      rw [hlast]
      rfl

/-- The attributes that are read of a tag as it is written. -/
def readAttributes (attrs : List QuotedAttribute) :
    Except MarkupError (List (Chars × Option Chars)) :=
  (attrs.map fun a => (a.name, some a.value)).mapM readAttribute

theorem endsTagName_of_isPlainNameChar {c : Rune} (h : isPlainNameChar c) :
    endsTagName c = false := by
  rw [← Bool.not_eq_true]
  intro hends
  simp only [endsTagName, Bool.or_eq_true, beq_iff_eq] at hends
  rcases hends with ((((((rfl | rfl) | rfl) | rfl) | rfl) | rfl) | rfl) | rfl <;>
    exact absurd h (by decide)

theorem isPlainNameChar_of_isTagName {name : Chars} (hname : isTagName name) :
    ∀ c ∈ name, isPlainNameChar c := by
  rw [isTagName, Bool.and_eq_true, Bool.and_eq_true, List.all_eq_true] at hname
  exact hname.1.2

theorem exists_name_eq_cons {name : Chars} (hname : isTagName name) :
    ∃ c letters, name = c :: letters ∧ c.isAlpha := by
  cases name with
  | nil => contradiction
  | cons c letters =>
      rw [isTagName, Bool.and_eq_true, Bool.and_eq_true] at hname
      exact ⟨c, letters, rfl, hname.1.1⟩

theorem not_isRawText {name : Chars} (hname : isTagName name) :
    isRawText (Text.lower name) = false := by
  rw [isTagName, Bool.and_eq_true] at hname
  simpa using hname.2

theorem toNat_of_isAlpha {c : Rune} (hc : c.isAlpha) : 65 ≤ c.toNat ∧ c.toNat ≤ 122 := by
  simp only [Rune.isAlpha, Rune.isUpper, Rune.isLower, Bool.or_eq_true, Bool.and_eq_true,
    decide_eq_true_eq] at hc
  omega

theorem not_isBlank_of_isAlpha {c : Rune} (hc : c.isAlpha) : Text.isBlank c = false := by
  have hrange := toNat_of_isAlpha hc
  simp only [Text.isBlank, Bool.or_eq_false_iff, Bool.and_eq_false_iff, decide_eq_false_iff_not,
    beq_eq_false_iff_ne]
  omega

/-- The name in an end tag is read as it is written. -/
theorem plainName?_of_isTagName {name : Chars} (hname : isTagName name) :
    plainName? name = some (Text.lower name) := by
  obtain ⟨c, letters, hcons, halpha⟩ := exists_name_eq_cons hname
  have hplain := isPlainNameChar_of_isTagName hname
  have hbody : name.dropWhile Text.isBlank = name := by
    rw [hcons, List.dropWhile_cons, not_isBlank_of_isAlpha halpha]
    rfl
  have hall : name.takeWhile isPlainNameChar = name := List.takeWhile_eq_self_iff.2 hplain
  rw [plainName?, hbody]
  rw [hcons] at hall ⊢
  dsimp only
  rw [hall, List.drop_length, halpha]
  rfl

theorem tagName_of_isTagName {name : Chars} (hname : isTagName name) : TagName name where
  first := exists_name_eq_cons hname
  inside c hc := endsTagName_of_isPlainNameChar (isPlainNameChar_of_isTagName hname c hc)

/-- After the name of a tag come a space or its end. -/
theorem exists_attributes_eq_cons (attrs : List QuotedAttribute) {gap : Chars}
    (hgap : ∀ c ∈ gap, c = ' ') (selfClosing : Bool) (rest : Chars) : ∃ c after,
      attrs.flatMap QuotedAttribute.text ++ (gap ++ (tagClose selfClosing ++ rest)) = c :: after ∧
        endsTagName c = true := by
  cases attrs with
  | nil =>
      cases gap with
      | nil => cases selfClosing <;> exact ⟨_, _, rfl, by decide⟩
      | cons c gap =>
          obtain rfl := hgap c List.mem_cons_self
          exact ⟨' ', _, rfl, by decide⟩
  | cons a attrs => exact ⟨' ', _, rfl, by decide⟩

theorem length_le_flatMap_text (attrs : List QuotedAttribute) :
    attrs.length ≤ (attrs.flatMap QuotedAttribute.text).length := by
  induction attrs with
  | nil => exact Nat.le_refl _
  | cons a attrs ih =>
      rw [List.flatMap_cons, List.length_append, List.length_cons, QuotedAttribute.text]
      simp only [List.length_append, List.length_cons]
      omega

/-- There are enough characters for all attributes. -/
theorem length_le_skipGap {attrs : List QuotedAttribute} (hattrs : ∀ a ∈ attrs, a.Readable)
    (b : Rune) (rest : Chars) : attrs.length ≤
      (skipGap b (attrs.flatMap QuotedAttribute.text ++ rest)).rest.length := by
  cases attrs with
  | nil => exact Nat.zero_le _
  | cons a attrs =>
      have hlength := length_le_flatMap_text attrs
      rw [List.flatMap_cons, List.append_assoc,
        (hattrs a List.mem_cons_self).skipGap_text]
      simp only [List.length_append, List.length_cons]
      omega

section Written

variable {name : Chars} {attrs : List QuotedAttribute} {gap : Chars}

theorem TagName.readStartTag_eq (hname : TagName name) (hattrs : ∀ a ∈ attrs, a.Readable)
    (hgap : ∀ c ∈ gap, c = ' ') (selfClosing : Bool) (rest : Chars) :
    readStartTag (name ++ (attrs.flatMap QuotedAttribute.text ++
        (gap ++ (tagClose selfClosing ++ rest)))) =
      (readAttributes attrs).map fun read => .tag ⟨Text.lower name, read, selfClosing⟩ rest := by
  have hinside : ∀ c ∈ name, (!endsTagName c) = true := fun c hc => by
    rw [hname.inside c hc]
    rfl
  obtain ⟨c, after, hcons, hends⟩ := exists_attributes_eq_cons attrs hgap selfClosing rest
  have hstop : (!endsTagName c) = false := by
    rw [hends]
    rfl
  have htake := takeWhile_append_cons after hinside hstop
  obtain ⟨b, hskip⟩ := exists_skipWhile_append '<' after hinside hstop
  rw [← hcons] at htake hskip
  have hlength := length_le_skipGap hattrs b (gap ++ (tagClose selfClosing ++ rest))
  obtain ⟨last, hraw⟩ := rawAttributes_written hattrs hgap hlength b selfClosing rest
  simp only [readStartTag, htake, hskip, Cursor.skipGap, hraw, tagEnd_tagClose]
  rfl

/-- A step at a start tag as it is written, with spaces before its end. -/
theorem TagName.stepAngle_spaced (hname : TagName name) (hattrs : ∀ a ∈ attrs, a.Readable)
    (hgap : ∀ c ∈ gap, c = ' ') (final selfClosing : Bool) (rest : Chars) :
    stepAngle final (name ++ (attrs.flatMap QuotedAttribute.text ++
        (gap ++ (tagClose selfClosing ++ rest)))) =
      (readAttributes attrs).map fun read => .go [.start ⟨Text.lower name, read, selfClosing⟩]
        (if !selfClosing && isRawText (Text.lower name) then some (Text.lower name) else none)
        rest := by
  have hread := hname.readStartTag_eq hattrs hgap selfClosing rest
  obtain ⟨c, letters, rfl, halpha⟩ := hname.first
  rw [List.cons_append] at hread ⊢
  rw [stepAngle, if_pos halpha, hread]
  cases readAttributes attrs <;> rfl

/-- A step at a start tag as it is written. -/
theorem TagName.stepAngle_eq (hname : TagName name) (hattrs : ∀ a ∈ attrs, a.Readable)
    (final selfClosing : Bool) (rest : Chars) :
    stepAngle final
        (name ++ (attrs.flatMap QuotedAttribute.text ++ (tagClose selfClosing ++ rest))) =
      (readAttributes attrs).map fun read => .go [.start ⟨Text.lower name, read, selfClosing⟩]
        (if !selfClosing && isRawText (Text.lower name) then some (Text.lower name) else none)
        rest :=
  hname.stepAngle_spaced hattrs (List.forall_mem_nil _) final selfClosing rest

/-- Likewise, of an element that holds no raw text. -/
theorem stepAngle_written (hname : isTagName name) (hattrs : ∀ a ∈ attrs, a.Sound) (final : Bool)
    (rest : Chars) :
    stepAngle final (name ++ (attrs.flatMap QuotedAttribute.text ++ .of '>' :: rest)) =
      (readAttributes attrs).map fun read =>
        .go [.start ⟨Text.lower name, read, false⟩] none rest := by
  have hstep := (tagName_of_isTagName hname).stepAngle_eq (fun a ha => (hattrs a ha).readable)
    final false rest
  rw [not_isRawText hname] at hstep
  exact hstep

end Written

/-- A step at an end tag as it is written. -/
theorem stepAngle_writtenEnd {name : Chars} (hname : isTagName name) (final : Bool)
    (rest : Chars) : stepAngle final (.of '/' :: (name ++ .of '>' :: rest)) =
      .ok (.go [.close (Text.lower name)] none rest) := by
  have hend : .of '>' ∉ name := fun hmem =>
    absurd (isPlainNameChar_of_isTagName hname '>' hmem) (by decide)
  have hclose : endTag? (name ++ .of '>' :: rest) = some ([.close (Text.lower name)], rest) := by
    rw [endTag?, splitAtFirst?_append rest hend, Option.map_some]
    dsimp only
    rw [plainName?_of_isTagName hname]
  rw [stepAngle, if_neg (by decide), if_pos (by decide), hclose]
  rfl

end Folio.Markup
