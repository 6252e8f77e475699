import Folio.Proofs.Markup.EscapedValues
import Folio.Proofs.Markup.Outlines
import Folio.Proofs.Markup.Readings
import Folio.Proofs.Text.Pieces

/-!
Reading what is written of a tree, piece by piece: the tags of an element, a text with its marks
escaped, raw text up to its end tag, and the other constructs, which hold no end of their own.
-/
namespace Folio.Markup

/-- One character of text as it is written. -/
def textChar (c : Rune) : Chars :=
  if c == '&' then "&amp;".runes
  else if c == '<' then "&lt;".runes
  else if c == '>' then "&gt;".runes
  else [c]

/-- One character of a value that holds both quotes. -/
def quotedChar (c : Rune) : Chars := if c == '"' then "&quot;".runes else textChar c

section Values

variable {name value : Chars} {c : Rune}

theorem escapeText_eq (s : Chars) : escapeText s = s.flatMap textChar := rfl

theorem writes_textChar (c : Rune) : Writes (textChar c) c := by
  unfold textChar
  split
  · rename_i hc
    rw [beq_iff_eq.1 hc]
    exact Writes.of_name (by decide) fun rest => rfl
  · rename_i hamp
    split
    · rename_i hc
      rw [beq_iff_eq.1 hc]
      exact Writes.of_name (by decide) fun rest => rfl
    · split
      · rename_i hc
        rw [beq_iff_eq.1 hc]
        exact Writes.of_name (by decide) fun rest => rfl
      · exact Or.inl ⟨fun heq => hamp (beq_iff_eq.2 heq), rfl⟩

theorem writes_quotedChar (c : Rune) : Writes (quotedChar c) c := by
  unfold quotedChar
  split
  · rename_i hc
    rw [beq_iff_eq.1 hc]
    exact Writes.of_name (by decide) fun rest => rfl
  · exact writes_textChar c

/-- A quote stands for itself only. -/
theorem eq_of_mem_textChar {quote : Rune} (hquote : quote = '"' ∨ quote = '\'')
    (h : quote ∈ textChar c) : c = quote := by
  have hentities : ∀ s ∈ ["&amp;".runes, "&lt;".runes, "&gt;".runes], quote ∉ s := by
    rcases hquote with rfl | rfl <;> decide
  simp only [List.forall_mem_cons] at hentities
  unfold textChar at h
  split at h
  · exact absurd h hentities.1
  · split at h
    · exact absurd h hentities.2.1
    · split at h
      · exact absurd h hentities.2.2.1
      · exact (List.mem_singleton.1 h).symm

theorem quote_not_mem_flatMap (s : Chars) : .of '"' ∉ s.flatMap quotedChar := by
  rw [List.mem_flatMap]
  rintro ⟨c, -, hc⟩
  unfold quotedChar at hc
  split at hc
  · exact absurd hc (by decide)
  · rename_i hne
    exact hne (beq_iff_eq.2 (eq_of_mem_textChar (Or.inl rfl) hc))

theorem quoted_escapeText (s : Chars) :
    Text.replaceAll ['"'] "&quot;".runes (escapeText s) = s.flatMap quotedChar := by
  rw [Text.replaceAll_singleton, escapeText_eq, List.flatMap_assoc]
  congr 1
  funext c
  by_cases hc : c = '"'
  · rw [hc]
    decide
  · have hmem : .of '"' ∉ textChar c := fun h => hc (eq_of_mem_textChar (Or.inl rfl) h)
    rw [← Text.replaceAll_singleton, Text.replaceAll_of_not_mem [] hmem, quotedChar,
      beq_false_of_ne hc, if_neg Bool.false_ne_true]

/-- An attribute as it is written, between the quotes that its value does not hold. -/
def quotedAttribute (name value : Chars) : QuotedAttribute :=
  let s := escapeText value
  if !s.contains '"' then ⟨name, '"', s⟩
  else if !s.contains '\'' then ⟨name, '\'', s⟩
  else ⟨name, '"', Text.replaceAll ['"'] "&quot;".runes s⟩

theorem name_quotedAttribute (name value : Chars) : (quotedAttribute name value).name = name := by
  unfold quotedAttribute
  dsimp only
  split
  · rfl
  · split <;> rfl

theorem text_quotedAttribute (name value : Chars) : (quotedAttribute name value).text =
    .of ' ' :: name ++ .of '=' :: quoteValue (escapeText value) := by
  unfold quotedAttribute quoteValue
  dsimp only
  split
  · simp [QuotedAttribute.text]
  · split <;> simp [QuotedAttribute.text]

theorem readable_quotedAttribute (hname : AttributeName name) (value : Chars) :
    (quotedAttribute name value).Readable := by
  unfold quotedAttribute
  dsimp only
  split
  · rename_i hquote
    exact ⟨hname, Or.inl rfl, fun h => by simp [h] at hquote⟩
  · split
    · rename_i hquote
      exact ⟨hname, Or.inr rfl, fun h => by simp [h] at hquote⟩
    · refine ⟨hname, Or.inl rfl, ?_⟩
      rw [quoted_escapeText]
      exact quote_not_mem_flatMap value

/-- A value is read again as it was. -/
theorem readAttribute_quotedAttribute (hname : Text.lower name = name) (value : Chars) :
    readAttribute (name, some (quotedAttribute name value).value) = .ok (name, some value) := by
  have hescaped : decodeValue (escapeText value) = .ok value :=
    decodeValue_written writes_textChar value
  have hquoted : decodeValue (quotedAttribute name value).value = .ok value := by
    unfold quotedAttribute
    dsimp only
    split
    · exact hescaped
    · split
      · exact hescaped
      · rw [quoted_escapeText]
        exact decodeValue_written writes_quotedChar value
  rw [readAttribute, hquoted, hname]
  rfl

end Values

/-- The attributes of an element as they are written: sorted, with their written values. -/
def Element.writtenAttrs (e : Element) : List (Chars × Chars) :=
  (sortAttributes e.attrs).map fun a => (a.1, writtenValue e.name e.attrs a.1 a.2)

/-- The start tag that is written of an element. -/
def Element.startTag (e : Element) (selfClosing : Bool) : StartTag :=
  ⟨e.name, e.writtenAttrs.map fun a => (a.1, some a.2), selfClosing⟩

section Tags

variable {name t : Chars} {e : Element} {places : List (Event × Chars)}

theorem writeAttributes_eq (e : Element) : writeAttributes e.name e.attrs =
    (e.writtenAttrs.map fun a => quotedAttribute a.1 a.2).flatMap QuotedAttribute.text := by
  rw [List.flatMap_map, Element.writtenAttrs, List.flatMap_map, writeAttributes]
  congr 1
  funext a
  exact (text_quotedAttribute _ _).symm

theorem exists_of_mem_writtenAttrs {a : Chars × Chars} (ha : a ∈ e.writtenAttrs) :
    ∃ b ∈ e.attrs, a = (b.1, writtenValue e.name e.attrs b.1 b.2) := by
  obtain ⟨b, hb, rfl⟩ := List.mem_map.1 ha
  exact ⟨b, List.mem_mergeSort.1 hb, rfl⟩

/-- The start tag of an element is read as it is written. -/
theorem Element.Sound.step_startTag (he : e.Sound) (selfClosing : Bool) (t : Chars) :
    step false none (.of '<' ::
        (e.name ++ (writeAttributes e.name e.attrs ++ (tagClose selfClosing ++ t)))) =
      .ok (.go [.start (e.startTag selfClosing)] (Event.start (e.startTag selfClosing)).raw? t) := by
  have hnames : ∀ a ∈ e.writtenAttrs, AttributeName a.1 ∧ Text.lower a.1 = a.1 := by
    intro a ha
    obtain ⟨b, hb, rfl⟩ := exists_of_mem_writtenAttrs ha
    exact he.attrs b hb
  have hattrs : ∀ a ∈ e.writtenAttrs.map fun a => quotedAttribute a.1 a.2, a.Readable :=
    List.forall_mem_map.2 fun a ha => readable_quotedAttribute (hnames a ha).1 a.2
  have hread : readAttributes (e.writtenAttrs.map fun a => quotedAttribute a.1 a.2) =
      .ok (e.writtenAttrs.map fun a => (a.1, some a.2)) := by
    rw [readAttributes, List.map_map]
    refine mapM_map_eq_ok_map fun a ha => ?_
    rw [Function.comp_apply, name_quotedAttribute]
    exact readAttribute_quotedAttribute (hnames a ha).2 a.2
  have hstep := he.name.stepAngle_eq hattrs false selfClosing t
  rw [hread, he.lower] at hstep
  rw [writeAttributes_eq]
  exact hstep

/-- The name that an end tag is read with; one that ends with blanks is read without them. -/
def closedName (name : Chars) : Chars := (plainName? name).getD name

theorem TagName.step_endTag (hname : TagName name) (hlower : Text.lower name = name) (t : Chars) :
    step false none (.of '<' :: .of '/' :: (name ++ .of '>' :: t)) =
      .ok (.go [.close (closedName name)] none t) := by
  have hend : .of '>' ∉ name := fun hmem => absurd (hname.inside '>' hmem) (by decide)
  have htake : name.takeWhile (fun c => !endsTagName c) = name :=
    List.takeWhile_eq_self_iff.2 fun c hc => by rw [hname.inside c hc]; rfl
  have hclose : endTag? (name ++ .of '>' :: t) = some ([.close (closedName name)], t) := by
    rw [endTag?, splitAtFirst?_append t hend, Option.map_some]
    dsimp only
    rw [closedName]
    cases plainName? name with
    | some plain => rfl
    | none =>
        obtain ⟨c, letters, rfl, halpha⟩ := hname.first
        dsimp only
        rw [if_pos halpha, htake, hlower]
        rfl
  change stepAngle false (.of '/' :: (name ++ .of '>' :: t)) = _
  rw [stepAngle, if_neg (by decide), if_pos (by decide), hclose]
  rfl

end Tags

/-- The event adds text to a tree, of whatever kind, and no element. -/
def Event.IsTextual : Event → Prop
  | .start _ => False
  | .close _ => False
  | .reference (.name _) => True
  | .reference _ => False
  | _ => True

section Texts

variable {content t : Chars} {c : Rune} {kind : TextKind} {places : List (Event × Chars)}

/-- The text is laid out before what follows it, as events that add text. -/
def LaidAsText (s t : Chars) (places : List (Event × Chars)) : Prop :=
  ∃ ws, Laid none (s ++ t) (ws ++ places) ∧ ∀ w ∈ ws, w.1.IsTextual

theorem laidAsText_of_step {s : Chars} {e : Event} (he : e.IsTextual)
    (h : step false none (c :: (s ++ t)) = .ok (.go [e] none t)) (hlater : Laid none t places) :
    LaidAsText (c :: s) t places :=
  ⟨[(e, t)], .step h hlater, fun _ hw => List.mem_singleton.1 hw ▸ he⟩

theorem laidAsText_textChar (c : Rune) (hlater : Laid none t places) :
    LaidAsText (textChar c) t places := by
  unfold textChar
  split
  · exact laidAsText_of_step (e := .reference (.name "amp".runes)) trivial rfl hlater
  · rename_i hamp
    split
    · exact laidAsText_of_step (e := .reference (.name "lt".runes)) trivial rfl hlater
    · rename_i hangle
      split
      · exact laidAsText_of_step (e := .reference (.name "gt".runes)) trivial rfl hlater
      · have hc : isTextChar c = true := by
          simp only [isTextChar, bne, hangle, hamp]
          rfl
        exact ⟨[(.text [c], t)], .char hc hlater,
          fun _ hw => List.mem_singleton.1 hw ▸ trivial⟩

/-- Text outside raw text. -/
theorem laidAsText_escapeText (content : Chars) (hlater : Laid none t places) :
    LaidAsText (escapeText content) t places := by
  induction content with
  | nil => exact ⟨[], hlater, fun _ hw => absurd hw List.not_mem_nil⟩
  | cons c content ih =>
      obtain ⟨ws, hlaid, hws⟩ := ih
      obtain ⟨first, hfirst, htextual⟩ := laidAsText_textChar c hlaid
      rw [← List.append_assoc, ← List.append_assoc] at hfirst
      exact ⟨first ++ ws, hfirst, List.forall_mem_append.2 ⟨htextual, hws⟩⟩

theorem step_mark {mark : Rune} {s after : Chars} {events : List Event}
    (hmark : mark ∈ [.of '/', .of '?', .of '!'])
    (h : construct? mark s = .ok (some (events, after))) :
    step false none (.of '<' :: mark :: s) = .ok (.go events none after) := by
  change stepAngle false (mark :: s) = _
  rw [stepAngle_mark hmark, h]
  rfl

theorem upTo?_angle (h : .of '>' ∉ content) (t : Chars) :
    upTo? angle? (content ++ .of '>' :: t) = some (content, t) := by
  rw [← splitAtFirst?_angle]
  exact splitAtFirst?_append t h

theorem step_comment (h : NoEnd commentEnd? content []) (t : Chars) :
    step false none ("<!--".runes ++ content ++ "-->".runes ++ t) =
      .ok (.go [.comment content] none t) := by
  have hend : upTo? commentEnd? (content ++ .of '-' :: .of '-' :: .of '>' :: t) = some (content, t) :=
    upTo?_of_end (noEnd_comment h (.of '>' :: t)) rfl (List.cons_ne_nil _ _)
  have hfound : construct? '!'
      (.of '-' :: .of '-' :: (content ++ .of '-' :: .of '-' :: .of '>' :: t)) =
      .ok ((upTo? commentEnd? (content ++ .of '-' :: .of '-' :: .of '>' :: t)).map fun found =>
        ([.comment found.1], found.2)) := rfl
  rw [hend] at hfound
  rw [List.append_assoc, List.append_assoc]
  exact step_mark (by decide) hfound

theorem step_instruction (h : .of '>' ∉ content) (t : Chars) :
    step false none ("<?".runes ++ content ++ ">".runes ++ t) =
      .ok (.go [.instruction content] none t) := by
  have hfound : construct? '?' (content ++ .of '>' :: t) =
      .ok ((upTo? angle? (content ++ .of '>' :: t)).map fun found =>
        ([.instruction found.1], found.2)) := rfl
  rw [upTo?_angle h] at hfound
  rw [List.append_assoc, List.append_assoc]
  exact step_mark (by decide) hfound

theorem step_doctype (h : .of '>' ∉ content) (t : Chars) :
    step false none ("<!DOCTYPE ".runes ++ content ++ ">\n".runes ++ t) =
      .ok (.go [.doctype ("DOCTYPE ".runes ++ content)] none (.of '\n' :: t)) := by
  have hinside : .of '>' ∉ .of ' ' :: content := List.not_mem_cons_of_ne_of_not_mem (by decide) h
  have hfound : declaration ("DOCTYPE ".runes ++ (content ++ .of '>' :: .of '\n' :: t)) =
      .ok ((upTo? angle? (.of ' ' :: content ++ .of '>' :: .of '\n' :: t)).map fun found =>
        ([.doctype ("DOCTYPE".runes ++ found.1)], found.2)) :=
    declaration_of_ne (by decide) _
  rw [upTo?_angle hinside] at hfound
  rw [List.append_assoc, List.append_assoc]
  exact step_mark (by decide) hfound

/-- No marked section ends in a text without `]`. -/
theorem noEnd_section_of_not_mem {s : Chars} (h : .of ']' ∉ s) (t : Chars) :
    NoEnd sectionEnd? s t := by
  induction s with
  | nil => trivial
  | cons c s ih =>
      obtain ⟨hc, hlater⟩ := List.ne_and_not_mem_of_not_mem_cons h
      exact ⟨sectionEnd?_of_ne (Ne.symm hc) _, ih hlater⟩

/-- The word of a marked section ends before a bracket. -/
theorem statusWord?_of_word (word : Chars) (hfirst : word.head?.any Rune.isAlpha)
    (hword : word.all isStatusChar) (hc : isStatusChar c = false)
    (hblank : Text.isBlank c = false) (s : Chars) : statusWord? (word ++ c :: s) = some word := by
  cases word with
  | nil => contradiction
  | cons d word =>
      have hd : d.isAlpha = true := hfirst
      rw [List.all_eq_true] at hword
      rw [List.cons_append, statusWord?_cons, if_pos hd, ← List.cons_append,
        List.takeWhile_append_of_pos hword, List.dropWhile_append_of_pos hword,
        List.takeWhile_cons, List.dropWhile_cons, hc]
      simp [hblank]

theorem construct?_section (s : Chars) : construct? '!' (.of '[' :: s) = markedSection s := rfl

theorem step_cdata (h : NoEnd sectionEnd? content []) (t : Chars) :
    step false none ("<![CDATA[".runes ++ content ++ "]]>".runes ++ t) =
      .ok (.go [.marked ("CDATA[".runes ++ content)] none t) := by
  have hword : NoEnd sectionEnd? ("CDATA[".runes ++ content)
      (.of ']' :: .of ']' :: .of '>' :: t) := by
    have hopen : NoEnd sectionEnd? "CDATA[".runes (content ++ []) :=
      noEnd_section_of_not_mem (by decide) _
    exact noEnd_section (noEnd_append.2 ⟨hopen, h⟩) _
  have hend : upTo? sectionEnd? ("CDATA[".runes ++ content ++ .of ']' :: .of ']' :: .of '>' :: t) =
      some ("CDATA[".runes ++ content, t) :=
    upTo?_of_end hword rfl (List.cons_ne_nil _ _)
  have hstatus : statusWord? ("CDATA[".runes ++ content ++ .of ']' :: .of ']' :: .of '>' :: t) =
      some "CDATA".runes :=
    statusWord?_of_word "CDATA".runes (c := '[') (by decide) (by decide) (by decide)
      (by decide) (content ++ .of ']' :: .of ']' :: .of '>' :: t)
  have hlength : "CDATA".runes.length ≠
      ("CDATA[".runes ++ content ++ .of ']' :: .of ']' :: .of '>' :: t).length := by
    rw [List.length_append, List.length_append]
    have hlong : "CDATA".runes.length < "CDATA[".runes.length := by decide
    omega
  have hclose : sectionClose? "CDATA".runes = some sectionEnd? := by
    have hstatus : sectionWords.contains
        (Text.lower (Text.trim "CDATA".runes)) = true := by decide
    unfold sectionClose?
    dsimp only
    rw [if_pos hstatus]
  have hfound := markedSection_of_word hstatus hlength
  rw [hclose] at hfound
  dsimp only at hfound
  rw [hend, List.append_assoc] at hfound
  rw [List.append_assoc, List.append_assoc]
  exact step_mark (by decide) ((construct?_section _).trans hfound)

/-- A text of any kind but a declaration that holds a `>`: it would end there. -/
theorem laidAsText_writeText (h : kind.Sound content)
    (hdeclaration : kind = .declaration → .of '>' ∉ content) (hlater : Laid none t places) :
    LaidAsText (writeText false content kind) t places := by
  cases kind with
  | plain => exact laidAsText_escapeText content hlater
  | comment => exact laidAsText_of_step (e := .comment content) trivial (step_comment h t) hlater
  | cdata => exact laidAsText_of_step (e := .marked _) trivial (step_cdata h t) hlater
  | instruction =>
      exact laidAsText_of_step (e := .instruction content) trivial (step_instruction h t) hlater
  | declaration =>
      have hcontent : .of '>' ∉ content ++ [.of '?'] := by
        simpa using hdeclaration rfl
      have hstep := step_instruction hcontent t
      rw [← List.append_assoc, List.append_assoc (_ ++ content)] at hstep
      exact laidAsText_of_step (e := .instruction _) trivial hstep hlater
  | doctype =>
      have hbreak : isTextChar '\n' = true := by decide
      have hlaid := Laid.step (step_doctype h t) (.char hbreak hlater)
      refine ⟨[(.doctype _, .of '\n' :: t), (.text ['\n'], t)], hlaid, ?_⟩
      exact List.forall_mem_cons.2 ⟨trivial, List.forall_mem_singleton.2 trivial⟩

/-- Raw text up to its end tag. -/
theorem Laid.rawText {name s block after : Chars} (hname : isRawText name)
    (hblock : upTo? (rawClose? name) s = some (block, after)) (hlater : Laid none after places) :
    ∃ (ws : List (Event × Chars)) (texts : List Chars),
      Laid (some name) s (ws ++ (.close name, after) :: places) ∧
        ws.map Prod.fst = texts.map Event.text ∧ texts.flatten = block := by
  induction hn : s.length using Nat.strongRecOn generalizing s block with
  | ind n ih =>
      cases s with
      | nil => contradiction
      | cons c s =>
          generalize hdone : stepRaw name (c :: s) = done
          have hstep : Markup.step false (some name) (c :: s) = .ok done := congrArg Except.ok hdone
          cases rawStep_step hname hstep with
          | stop hnone =>
              rw [upTo?_eq_none_iff.2 hnone] at hblock
              contradiction
          | close hclose =>
              rw [upTo?, hclose] at hblock
              obtain ⟨rfl, rfl⟩ := Prod.mk.inj (Option.some.inj hblock)
              exact ⟨[], [], .step hstep hlater, rfl, rfl⟩
          | @text run rest heq hrun hnone =>
              rw [heq, upTo?_append_of_noEnd hnone] at hblock
              obtain ⟨⟨content, last⟩, hcontent, hpair⟩ := Option.map_eq_some_iff.1 hblock
              obtain ⟨rfl, rfl⟩ := Prod.mk.inj hpair
              have hless : rest.length < n := by
                have hlength := congrArg List.length heq
                have hpositive := List.length_pos_iff.2 hrun
                rw [List.length_append] at hlength
                omega
              obtain ⟨ws, texts, hlaid, htexts, rfl⟩ := ih _ hless hcontent rfl
              refine ⟨(.text run, rest) :: ws, run :: texts, .step hstep hlaid, ?_, rfl⟩
              rw [List.map_cons, htexts]
              rfl

end Texts

end Folio.Markup
