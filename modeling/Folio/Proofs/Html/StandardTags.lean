import Folio.Proofs.Html.Origins
import Folio.Proofs.Html.TagNames
import Folio.Proofs.Markup.WrittenTags
import Folio.Proofs.Text.Runs
import Folio.Proofs.Text.Trimming

/-!
The start tags of a text as the standard has them. No attribute is dropped for its name; apart from
that, a tag is read as it is for the tree. A tag that is written with its values between quotes is
read as it is written, and other text holds no tag.
-/
namespace Folio.Html

open Markup (QuotedAttribute isTagName isPlainNameChar)

/-- The tag without its faults, by which the standard drops nothing. -/
def Draft.faultless (d : Draft) : Draft := { d with fault := .none }

/-- A tag from a place on, as the standard reads it. -/
def readStandardTag : Place → Draft → Chars → Option (Token × Chars)
  | _, _, [] => none
  | place, d, c :: rest =>
      match place.move d.faultless c with
      | .go place d => readStandardTag place d rest
      | .done token => some (token, rest)
      | .again place d =>
          match place.move d.faultless c with
          | .go place d => readStandardTag place d rest
          | .done token => some (token, rest)
          | .again place d => readStandardTag place d rest

/-- The token that begins with the character `c`, as the standard reads it outside of drawings. Of a
start tag that is never finished nothing is left. -/
def standardToken (c : Rune) (rest : Chars) : Token × Chars :=
  match rest with
  | d :: inside =>
      if c == '<' && d.isAlpha then
        (readStandardTag .tagName ⟨false, [d], [], .none⟩ inside).getD (.nothing, [])
      else readToken false c rest
  | [] => readToken false c rest

/-- The start tags of the first tokens of a text, in order. -/
def standardTagsWithin : Nat → Chars → List Tag
  | 0, _ => []
  | _ + 1, [] => []
  | n + 1, c :: rest =>
      (standardToken c rest).1.tag?.toList ++ standardTagsWithin n (standardToken c rest).2

/-- The start tags of a text. -/
def standardTags (s : Chars) : List Tag := standardTagsWithin s.length s

/-- The name of an attribute that can be written: it holds nothing that would end it. -/
structure IsPlainName (name : Chars) : Prop where
  nonempty : name ≠ []
  chars : ∀ c ∈ name, isNameChar c ∧ c ≠ '='

/-- An attribute as it can be written: its value holds no quote like those around it. -/
structure IsWritten (a : QuotedAttribute) : Prop where
  name : IsPlainName a.name
  quote : a.quote = '"' ∨ a.quote = '\''
  value : a.quote ∉ a.value

/-- An attribute as it is read. -/
def readPair (a : QuotedAttribute) : Chars × Chars := (a.name, a.value.map visible)

section Steps

variable {place place' : Place} {d d' : Draft} {c : Rune} {s : Chars}

@[simp] theorem Draft.faultless_mark (d : Draft) (kind : TagFault) (bad : Bool) :
    (d.mark kind bad).faultless = d.faultless := by
  unfold Draft.mark
  split <;> rfl

@[simp] theorem Draft.faultless_endName (d : Draft) : d.endName.faultless = d.faultless := by
  unfold Draft.endName
  split <;> rfl

/-- Each step begins without faults. -/
theorem readStandardTag_faultless (place : Place) (d : Draft) (s : Chars) :
    readStandardTag place d.faultless s = readStandardTag place d s := by
  cases s <;> rfl

/-- A step that goes on, whatever its faults. -/
theorem readStandardTag_go (h : place.move d.faultless c = .go place' d') (s : Chars) :
    readStandardTag place d (c :: s) = readStandardTag place' d'.faultless s := by
  rw [readStandardTag, h, readStandardTag_faultless]

/-- A character of the name of a tag is no end of it. -/
theorem of_isPlainNameChar (h : isPlainNameChar c) :
    Text.isSpace c = false ∧ c ≠ '/' ∧ c ≠ '>' ∧ c ≠ '\x00' := by
  have hother : ∀ d, isPlainNameChar d = false → c ≠ d := by
    rintro d hd rfl
    exact absurd (h.symm.trans hd) (by decide)
  refine ⟨?_, hother _ (by decide), hother _ (by decide), hother _ (by decide)⟩
  rw [Text.isSpace, beq_false_of_ne (hother ' ' (by decide)),
    beq_false_of_ne (hother '\n' (by decide)), beq_false_of_ne (hother '\t' (by decide)),
    beq_false_of_ne (hother '\x0c' (by decide)), beq_false_of_ne (hother '\r' (by decide))]
  rfl

theorem visible_of_ne (h : c ≠ '\x00') : visible c = c := by
  rw [visible, beq_false_of_ne h]
  rfl

theorem move_beforeName (hc : isNameChar c) (hequals : c ≠ '=') (d : Draft) :
    ∃ kind bad, Place.move .beforeName d c = .go .name ((d.addAttribute c).mark kind bad) := by
  obtain ⟨hspace, hslash, hend, -, -⟩ := of_isNameChar hc
  rw [Place.move, moveBetween, hspace, beq_false_of_ne hend, beq_false_of_ne hslash,
    beq_false_of_ne hequals]
  exact ⟨_, _, rfl⟩

theorem move_name (hc : isNameChar c) (hequals : c ≠ '=') (d : Draft) :
    ∃ bad, Place.move .name d c = .go .name ((d.addToName c).mark .attributeName bad) := by
  obtain ⟨hspace, hslash, hend, hzero, -⟩ := of_isNameChar hc
  rw [Place.move, moveName, hspace, beq_false_of_ne hend, beq_false_of_ne hslash,
    beq_false_of_ne hequals, beq_false_of_ne hzero]
  exact ⟨_, rfl⟩

end Steps

section Runs

variable {closing : Bool} {tagName name value before s : Chars} {attrs : List (Chars × Chars)}
  {fault : TagFault} {quote : Rune}

/-- The name of an attribute. -/
theorem readStandardTag_name (hname : ∀ c ∈ name, isNameChar c ∧ c ≠ '=') :
    readStandardTag .name ⟨closing, tagName, (before, value) :: attrs, fault⟩ (name ++ s) =
      readStandardTag .name ⟨closing, tagName, (name.reverse ++ before, value) :: attrs, .none⟩ s := by
  induction name generalizing before fault with
  | nil => exact (readStandardTag_faultless .name _ s).symm
  | cons c name ih =>
      obtain ⟨⟨hc, hequals⟩, hlater⟩ := List.forall_mem_cons.1 hname
      obtain ⟨bad, hmove⟩ := move_name hc hequals
        (Draft.faultless ⟨closing, tagName, (before, value) :: attrs, fault⟩)
      rw [List.cons_append, readStandardTag_go hmove, Draft.faultless_mark]
      refine (ih hlater).trans ?_
      rw [visible_of_ne (of_isNameChar hc).2.2.2.1, List.reverse_cons, List.append_assoc]
      rfl

/-- The value of an attribute, up to the quote that ends it. -/
theorem readStandardTag_value (hvalue : quote ∉ value) :
    readStandardTag (.quoted quote) ⟨closing, tagName, (name, before) :: attrs, fault⟩
        (value ++ quote :: s) =
      readStandardTag .afterValue
        ⟨closing, tagName, (name, (value.map visible).reverse ++ before) :: attrs, .none⟩ s := by
  induction value generalizing before fault with
  | nil =>
      have hmove : ∀ d, Place.move (.quoted quote) d quote = .go .afterValue d := by
        intro d
        rw [Place.move, beq_self_eq_true]
        rfl
      exact readStandardTag_go (hmove _) s
  | cons c value ih =>
      obtain ⟨hc, hlater⟩ := List.ne_and_not_mem_of_not_mem_cons hvalue
      have hmove : ∀ d, Place.move (.quoted quote) d c =
          .go (.quoted quote) ((d.addToValue c).mark .other (c == '\x00')) := by
        intro d
        rw [Place.move, beq_false_of_ne (Ne.symm hc)]
        rfl
      rw [List.cons_append, readStandardTag_go (hmove _), Draft.faultless_mark]
      refine (ih hlater).trans ?_
      rw [List.map_cons, List.reverse_cons, List.append_assoc]
      rfl

/-- The name of a tag. -/
theorem readStandardTag_tagName (hname : ∀ c ∈ name, isPlainNameChar c) :
    readStandardTag .tagName ⟨closing, before, attrs, fault⟩ (name ++ s) =
      readStandardTag .tagName ⟨closing, name.reverse ++ before, attrs, .none⟩ s := by
  induction name generalizing before fault with
  | nil => exact (readStandardTag_faultless .tagName _ s).symm
  | cons c name ih =>
      obtain ⟨hc, hlater⟩ := List.forall_mem_cons.1 hname
      obtain ⟨hspace, hslash, hend, hzero⟩ := of_isPlainNameChar hc
      have hmove : Place.move .tagName ⟨closing, before, attrs, .none⟩ c = .go .tagName
          (Draft.mark ⟨closing, visible c :: before, attrs, .none⟩ .other (c == '\x00')) := by
        rw [Place.move, hspace, beq_false_of_ne hend, beq_false_of_ne hslash]
        rfl
      rw [List.cons_append, readStandardTag_go hmove, Draft.faultless_mark]
      refine (ih hlater).trans ?_
      rw [visible_of_ne hzero, List.reverse_cons, List.append_assoc]
      rfl

end Runs

section Attributes

variable {a : QuotedAttribute} {as : List QuotedAttribute} {place : Place} {closing : Bool}
  {tagName s : Chars} {attrs : List (Chars × Chars)} {fault : TagFault}

/-- An attribute under way, as its reading leaves it. -/
def draftPair (a : QuotedAttribute) : Chars × Chars := (a.name.reverse, (a.value.map visible).reverse)

/-- A written attribute is read as it is written. -/
theorem readStandardTag_attribute (ha : IsWritten a)
    (hplace : place = .tagName ∨ place = .afterValue) :
    readStandardTag place ⟨closing, tagName, attrs, fault⟩ (a.text ++ s) =
      readStandardTag .afterValue ⟨closing, tagName, draftPair a :: attrs, .none⟩ s := by
  obtain ⟨name, quote, value⟩ := a
  obtain ⟨⟨hnonempty, hchars⟩, hquote, hvalue⟩ := ha
  obtain ⟨c, letters, rfl⟩ := List.exists_cons_of_ne_nil hnonempty
  obtain ⟨⟨hc, hequals⟩, hletters⟩ := List.forall_mem_cons.1 hchars
  have htext : QuotedAttribute.text ⟨c :: letters, quote, value⟩ ++ s =
      .of ' ' :: c :: (letters ++ .of '=' :: quote :: (value ++ quote :: s)) := by
    simp [QuotedAttribute.text]
  have hspace : ∀ d, place.move d ' ' = .go .beforeName d := by
    rcases hplace with rfl | rfl <;> exact fun d => rfl
  obtain ⟨kind, bad, hfirst⟩ := move_beforeName hc hequals
    (Draft.faultless ⟨closing, tagName, attrs, fault⟩)
  have hend : ∀ d, Place.move .name d '=' = .go .beforeValue d.endName := fun _ => rfl
  have hopen : ∀ d, Place.move .beforeValue d quote = .go (.quoted quote) d := by
    rcases hquote with rfl | rfl <;> exact fun d => rfl
  rw [htext, readStandardTag_go (hspace _), readStandardTag_faultless, readStandardTag_faultless,
    readStandardTag_go hfirst, Draft.faultless_mark]
  refine (readStandardTag_name hletters).trans ?_
  rw [readStandardTag_go (hend _), Draft.faultless_endName, readStandardTag_go (hopen _)]
  refine (readStandardTag_value hvalue).trans ?_
  rw [visible_of_ne (of_isNameChar hc).2.2.2.1, draftPair, List.reverse_cons, List.append_nil]
  rfl

/-- The attributes of a tag, up to its end. -/
theorem readStandardTag_attributes (has : ∀ a ∈ as, IsWritten a)
    (hplace : place = .tagName ∨ place = .afterValue) :
    readStandardTag place ⟨closing, tagName, attrs, fault⟩
        (as.flatMap QuotedAttribute.text ++ .of '>' :: s) =
      some (Draft.finish ⟨closing, tagName, (as.map draftPair).reverse ++ attrs, .none⟩ false, s) := by
  induction as generalizing place attrs fault with
  | nil => rcases hplace with rfl | rfl <;> rfl
  | cons a as ih =>
      obtain ⟨ha, hlater⟩ := List.forall_mem_cons.1 has
      rw [List.flatMap_cons, List.append_assoc, readStandardTag_attribute ha hplace,
        ih hlater (Or.inr rfl), List.map_cons, List.reverse_cons, List.append_assoc]
      rfl

/-- The finished tag has its attributes as they are read, the first of each name. -/
theorem finish_written {name : Chars} (hlower : Text.lowerAscii name = name)
    (has : ∀ a ∈ as, IsWritten a) :
    Draft.finish ⟨false, name.reverse, (as.map draftPair).reverse, .none⟩ false =
      .start ⟨name, firstValues (as.map readPair), false⟩ := by
  have hattrs : (as.map draftPair).map (fun a => (Text.lowerAscii a.1.reverse, a.2.reverse)) =
      as.map readPair := by
    rw [List.map_map]
    refine List.map_congr_left fun a ha => ?_
    rw [Function.comp_apply, draftPair, List.reverse_reverse, List.reverse_reverse,
      lowerAscii_eq_self fun c hc => ((has a ha).name.chars c hc).1]
    rfl
  rw [Draft.finish]
  dsimp only
  rw [List.reverse_reverse, List.reverse_reverse, hattrs, hlower]
  rfl

end Attributes

/-- A text from its first tag on. -/
def fromTag (s : Chars) : Chars := s.dropWhile (· != .of '<')

section Tokens

variable {name s after : Chars} {as : List QuotedAttribute}

/-- A written start tag is read as it is written. -/
theorem standardToken_start (hname : isTagName name) (hlower : Text.lowerAscii name = name)
    (has : ∀ a ∈ as, IsWritten a) :
    standardToken '<' (name ++ (as.flatMap QuotedAttribute.text ++ .of '>' :: after)) =
      (.start ⟨name, firstValues (as.map readPair), false⟩, after) := by
  have hchars := Markup.isPlainNameChar_of_isTagName hname
  obtain ⟨c, letters, rfl, hletter⟩ := Markup.exists_name_eq_cons hname
  have hread : readStandardTag .tagName ⟨false, [c], [], .none⟩
      (letters ++ (as.flatMap QuotedAttribute.text ++ .of '>' :: after)) =
      some (.start ⟨c :: letters, firstValues (as.map readPair), false⟩, after) := by
    refine (readStandardTag_tagName (List.forall_mem_cons.1 hchars).2).trans ?_
    rw [readStandardTag_attributes has (Or.inl rfl), List.append_nil, ← List.reverse_cons,
      finish_written hlower has]
  rw [List.cons_append, standardToken, hletter, beq_self_eq_true, Bool.true_and, if_pos rfl, hread]
  rfl

theorem readTag_close {before : Chars} {fault : TagFault} (hname : ∀ c ∈ name, isPlainNameChar c) :
    ∃ closed, readTag .tagName ⟨true, before, [], fault⟩ (name ++ .of '>' :: after) =
      .inr (.close closed, after) := by
  induction name generalizing before fault with
  | nil => exact ⟨_, rfl⟩
  | cons c name ih =>
      obtain ⟨hc, hlater⟩ := List.forall_mem_cons.1 hname
      obtain ⟨hspace, hslash, hend, hzero⟩ := of_isPlainNameChar hc
      have hmove : Place.move .tagName ⟨true, before, [], fault⟩ c =
          .go .tagName ⟨true, visible c :: before, [], fault⟩ := by
        rw [Place.move, hspace, beq_false_of_ne hend, beq_false_of_ne hslash,
          beq_false_of_ne hzero]
        rfl
      rw [List.cons_append, readTag, hmove]
      exact ih hlater

/-- A written end tag is no start tag. -/
theorem standardToken_close (hname : isTagName name) : ∃ closed,
    standardToken '<' (.of '/' :: (name ++ .of '>' :: after)) = (.close closed, after) := by
  have hchars := Markup.isPlainNameChar_of_isTagName hname
  obtain ⟨c, letters, rfl, hletter⟩ := Markup.exists_name_eq_cons hname
  obtain ⟨closed, hread⟩ : ∃ closed, readTag .tagName ⟨true, [c], [], .none⟩
      (letters ++ .of '>' :: after) = .inr (.close closed, after) :=
    readTag_close (List.forall_mem_cons.1 hchars).2
  have hclosing : readClosing (c :: letters ++ .of '>' :: after) = (.close closed, after) := by
    rw [List.cons_append, readClosing, if_pos hletter, readTagFrom, hread]
  exact ⟨closed, hclosing⟩

theorem dropWhile_dropWhile {p q : Rune → Bool} (h : ∀ c, q c → p c) (s : Chars) :
    (s.dropWhile q).dropWhile p = s.dropWhile p := by
  induction s with
  | nil => rfl
  | cons c s ih =>
      rw [List.dropWhile_cons]
      split
      · rename_i hc
        rw [ih, List.dropWhile_cons, if_pos (h c hc)]
      · rfl

/-- Text before the next tag holds no start tag. -/
theorem standardToken_text {c : Rune} (hc : c ≠ '<') (rest : Chars) :
    (standardToken c rest).1.tag? = none ∧ (standardToken c rest).2 <:+ rest ∧
      fromTag (standardToken c rest).2 = fromTag rest := by
  have hread : standardToken c rest = readToken false c rest := by
    unfold standardToken
    split
    · rw [beq_false_of_ne hc, Bool.false_and, if_neg Bool.false_ne_true]
    · rfl
  have hplain : ∀ d : Rune, !(d == '&' || d == '<' || d == '\x00') → d != '<' := by
    intro d hd
    simp only [Bool.not_eq_true', Bool.or_eq_false_iff] at hd
    exact bne_iff_ne.2 (ne_of_beq_false hd.1.2)
  have hspace : ∀ d, Text.isSpace d → d != '<' := by
    rintro d hd
    refine bne_iff_ne.2 ?_
    rintro rfl
    exact absurd hd (by decide)
  rw [hread, readToken, beq_false_of_ne hc, if_neg Bool.false_ne_true]
  split
  · exact ⟨rfl, List.suffix_refl _, rfl⟩
  · split
    · exact ⟨rfl, List.dropWhile_suffix _, dropWhile_dropWhile hspace rest⟩
    · exact ⟨rfl, List.dropWhile_suffix _, dropWhile_dropWhile hplain rest⟩

/-- The start tags of a text are those from its first tag on. -/
theorem exists_standardTagsWithin_fromTag {n : Nat} (h : s.length ≤ n) :
    ∃ m, (fromTag s).length ≤ m ∧
      standardTagsWithin n s = standardTagsWithin m (fromTag s) := by
  induction n generalizing s with
  | zero =>
      obtain rfl := List.length_eq_zero_iff.1 (Nat.le_zero.1 h)
      exact ⟨0, Nat.le_refl 0, rfl⟩
  | succ n ih =>
      cases s with
      | nil => exact ⟨n + 1, Nat.zero_le _, rfl⟩
      | cons c s =>
          by_cases hc : c = '<'
          · subst hc
            exact ⟨n + 1, h, rfl⟩
          · obtain ⟨hnone, hsuffix, hrest⟩ := standardToken_text hc s
            have hlength := hsuffix.length_le
            rw [List.length_cons] at h
            obtain ⟨m, hm, htags⟩ := ih (s := (standardToken c s).2) (by omega)
            rw [hrest] at hm htags
            have hdrop : fromTag (c :: s) = fromTag s :=
              List.dropWhile_cons_of_pos (bne_iff_ne.2 hc)
            refine ⟨m, hdrop ▸ hm, ?_⟩
            rw [standardTagsWithin, hnone, hdrop]
            exact htags

/-- The start tags are the given ones, from the first tag on. -/
def Shows (s : Chars) (tags : List Tag) : Prop :=
  ∀ n, (fromTag s).length ≤ n →
    standardTagsWithin n (fromTag s) = tags

theorem Shows.eq {tags : List Tag} (h : Shows s tags) : standardTags s = tags := by
  obtain ⟨m, hm, heq⟩ := exists_standardTagsWithin_fromTag (Nat.le_refl s.length)
  exact heq.trans (h m hm)

theorem shows_nil : Shows [] [] := fun n _ => by cases n <;> rfl

/-- Text without tags before a text. -/
theorem Shows.append {tags : List Tag} (h : Shows after tags) (hs : .of '<' ∉ s) :
    Shows (s ++ after) tags := by
  have hdrop : fromTag (s ++ after) = fromTag after :=
    List.dropWhile_append_of_pos fun c hc => bne_iff_ne.2 fun heq => hs (heq ▸ hc)
  intro n hn
  rw [hdrop] at hn ⊢
  exact h n hn

theorem Shows.token {tags : List Tag} {t : Token} (h : Shows after tags)
    (hread : standardToken '<' s = (t, after)) (hlength : after.length ≤ s.length) :
    Shows (.of '<' :: s) (t.tag?.toList ++ tags) := by
  intro n hn
  have hstop : fromTag (.of '<' :: s) = .of '<' :: s := rfl
  rw [hstop] at hn ⊢
  rw [List.length_cons] at hn
  obtain ⟨n, rfl⟩ : ∃ less, n = less + 1 := ⟨n - 1, by omega⟩
  obtain ⟨m, hm, heq⟩ := exists_standardTagsWithin_fromTag (s := after) (n := n) (by omega)
  rw [standardTagsWithin, hread]
  dsimp only
  rw [heq, h m hm]

/-- A written start tag before a text. -/
theorem Shows.start {tags : List Tag} (h : Shows after tags) (hname : isTagName name)
    (hlower : Text.lowerAscii name = name) (has : ∀ a ∈ as, IsWritten a) :
    Shows (.of '<' :: (name ++ (as.flatMap QuotedAttribute.text ++ .of '>' :: after)))
      (⟨name, firstValues (as.map readPair), false⟩ :: tags) := by
  refine h.token (standardToken_start hname hlower has) ?_
  simp only [List.length_append, List.length_cons]
  omega

/-- A written end tag before a text. -/
theorem Shows.close {tags : List Tag} (h : Shows after tags) (hname : isTagName name) :
    Shows (.of '<' :: .of '/' :: (name ++ .of '>' :: after)) tags := by
  obtain ⟨closed, hread⟩ : ∃ closed, standardToken '<' (.of '/' :: (name ++ .of '>' :: after)) =
    (.close closed, after) := standardToken_close hname
  refine h.token hread ?_
  simp only [List.length_append, List.length_cons]
  omega

end Tokens

end Folio.Html
