import Folio.Proofs.Markup.WrittenTags
import Folio.Proofs.Outcomes
import Folio.Proofs.Text.Runs

/-!
Constructs with more text after them. What ends inside a text is read in the same way when the text
goes on, and what follows the text follows what is left of it. There is one exception, a value that
begins with a quote which the text does not close: a quote further on may close it.
-/
namespace Folio.Markup

/-- The place, when the text goes on. -/
def Cursor.append (c : Cursor) (t : Chars) : Cursor := ⟨c.before, c.rest ++ t⟩

section Cursor

variable {p : Rune → Bool}

theorem rest_skipWhile (p : Rune → Bool) (b : Rune) (s : Chars) :
    (skipWhile p b s).rest = s.dropWhile p := by
  induction s generalizing b with
  | nil => rfl
  | cons c s ih =>
      rw [skipWhile, List.dropWhile_cons]
      split
      · exact ih c
      · rfl

theorem skipWhile_append {c : Rune} {s : Chars} (hc : c ∈ s) (hp : p c = false) (b : Rune)
    (t : Chars) : skipWhile p b (s ++ t) = (skipWhile p b s).append t := by
  induction s generalizing b with
  | nil => exact absurd hc List.not_mem_nil
  | cons d s ih =>
      rw [List.cons_append, skipWhile, skipWhile]
      split
      · rename_i hd
        rcases List.mem_cons.1 hc with rfl | hlater
        · rw [hp] at hd
          contradiction
        · exact ih hlater d
      · rfl

theorem suffix_skipWhile (p : Rune → Bool) (b : Rune) (s : Chars) :
    (skipWhile p b s).rest <:+ s := by
  rw [rest_skipWhile]
  exact List.dropWhile_suffix p

theorem suffix_skipGap (b : Rune) (s : Chars) : (skipGap b s).rest <:+ s := by
  induction s generalizing b with
  | nil => exact List.suffix_refl _
  | cons c s ih =>
      rw [skipGap]
      split
      · exact (ih c).trans (List.suffix_cons c s)
      · exact List.suffix_refl _

theorem skipGap_append {s : Chars} (hs : .of '>' ∈ s) (b : Rune) (t : Chars) :
    skipGap b (s ++ t) = (skipGap b s).append t := by
  induction s generalizing b with
  | nil => exact absurd hs List.not_mem_nil
  | cons c s ih =>
      rcases List.mem_cons.1 hs with rfl | hlater
      · have hblank : Text.isBlank '>' = false := by decide
        simp [skipGap, hblank, Cursor.append]
      · have hhead : (s ++ t).head? = s.head? := by
          obtain ⟨d, rest, rfl⟩ := List.exists_cons_of_ne_nil (List.ne_nil_of_mem hlater)
          rfl
        rw [List.cons_append, skipGap, skipGap, hhead]
        split
        · exact ih hlater c
        · rfl

theorem Cursor.skipWhile_append {c : Cursor} {d : Rune} (hd : d ∈ c.rest) (hp : p d = false)
    (t : Chars) : (c.append t).skipWhile p = (c.skipWhile p).append t :=
  Markup.skipWhile_append hd hp c.before t

theorem Cursor.mem_skipWhile {c : Cursor} {d : Rune} (hd : d ∈ c.rest) (hp : p d = false) :
    d ∈ (c.skipWhile p).rest := by
  rw [Cursor.skipWhile, rest_skipWhile]
  exact Text.mem_dropWhile hd hp

end Cursor

section Split

variable {c : Rune} {s before after : Chars}

theorem splitAtFirst?_eq_none_iff : Text.splitAtFirst? c s = none ↔ c ∉ s := by
  induction s with
  | nil => simp [Text.splitAtFirst?]
  | cons d s ih =>
      rw [Text.splitAtFirst?]
      split
      · rename_i hd
        simp [beq_iff_eq.1 hd]
      · rename_i hd
        rw [Option.map_eq_none_iff, ih, List.mem_cons, not_or]
        exact ⟨fun h => ⟨fun heq => hd (by simp [heq]), h⟩, And.right⟩

theorem splitAtFirst?_sound (h : Text.splitAtFirst? c s = some (before, after)) :
    s = before ++ c :: after ∧ c ∉ before := by
  induction s generalizing before with
  | nil => contradiction
  | cons d s ih =>
      rw [Text.splitAtFirst?] at h
      split at h
      · rename_i hd
        obtain ⟨rfl, rfl⟩ := Prod.mk.inj (Option.some.inj h)
        rw [beq_iff_eq.1 hd]
        exact ⟨rfl, List.not_mem_nil⟩
      · rename_i hd
        obtain ⟨⟨run, last⟩, hsplit, heq⟩ := Option.map_eq_some_iff.1 h
        obtain ⟨rfl, rfl⟩ := Prod.mk.inj heq
        obtain ⟨rfl, hnot⟩ := ih hsplit
        refine ⟨rfl, fun hmem => ?_⟩
        rcases List.mem_cons.1 hmem with rfl | hlater
        · exact hd (by simp)
        · exact hnot hlater

theorem splitAtFirst?_more (h : Text.splitAtFirst? c s = some (before, after)) (t : Chars) :
    Text.splitAtFirst? c (s ++ t) = some (before, after ++ t) := by
  obtain ⟨rfl, hnot⟩ := splitAtFirst?_sound h
  rw [List.append_assoc, List.cons_append]
  exact splitAtFirst?_append (after ++ t) hnot

theorem suffix_splitAtFirst? (h : Text.splitAtFirst? c s = some (before, after)) :
    c :: after <:+ s := by
  obtain ⟨rfl, -⟩ := splitAtFirst?_sound h
  exact List.suffix_append before _

end Split

/-- The value at the place begins with a quote that is not closed. -/
def Cursor.beginsUnclosed (c : Cursor) : Bool :=
  let afterName := c.skipWhile Text.isBlank
  let start := (afterName.skipWhile (· == .of '=')).skipWhile Text.isBlank
  !(afterName.rest.takeWhile (· == .of '=')).isEmpty && match start.rest with
    | [] => false
    | quote :: rest => (quote == '\'' || quote == '"') && !rest.contains quote

/-- Every quote that begins a value of the attributes from a place on is closed. -/
def attributesClosed : Nat → Cursor → Bool
  | 0, _ => true
  | fuel + 1, c =>
      match attributeName? c with
      | none => true
      | some (_, afterName) => !afterName.beginsUnclosed &&
          attributesClosed fuel (attributeValue afterName).2.skipGap

/-- Every quote that begins a value of a start tag is closed; the text begins with its name. -/
def tagClosed (s : Chars) : Bool :=
  let start := (skipWhile (fun c => !endsTagName c) '<' s).skipGap
  attributesClosed start.rest.length start

section Attributes

variable {c : Cursor}

theorem attributeName?_append (hc : .of '>' ∈ c.rest) (t : Chars) :
    attributeName? (c.append t) =
      (attributeName? c).map fun (name, after) => (name, after.append t) := by
  obtain ⟨b, s⟩ := c
  obtain ⟨first, rest, rfl⟩ := List.exists_cons_of_ne_nil (List.ne_nil_of_mem hc)
  change attributeName? ⟨b, first :: (rest ++ t)⟩ = _
  dsimp only [attributeName?]
  by_cases hfirst : (!allowsAttribute b || Text.isBlank first || first == '/' || first == '>') = true
  · rw [if_pos hfirst, if_pos hfirst]
    rfl
  · have hrest : .of '>' ∈ rest := by
      rcases List.mem_cons.1 hc with rfl | hlater
      · exact absurd hfirst (by simp)
      · exact hlater
    have hp :
        (fun x => !(Text.isBlank x || x == .of '/' || x == .of '=' || x == .of '>')) '>' = false := by
      decide
    rw [if_neg hfirst, if_neg hfirst, Text.takeWhile_append_of_mem hrest hp, skipWhile_append hrest hp]
    rfl

/-- A name takes at least one character. -/
theorem suffix_attributeName? {name : Chars} {after : Cursor}
    (h : attributeName? c = some (name, after)) :
    after.rest <:+ c.rest ∧ after.rest.length < c.rest.length := by
  obtain ⟨b, s⟩ := c
  cases s with
  | nil => contradiction
  | cons first rest =>
      simp only [attributeName?, Option.ite_none_left_eq_some] at h
      obtain ⟨-, h⟩ := h
      obtain ⟨-, rfl⟩ := Prod.mk.inj (Option.some.inj h)
      have hsuffix := suffix_skipWhile
        (fun x => !(Text.isBlank x || x == .of '/' || x == .of '=' || x == .of '>')) first rest
      exact ⟨hsuffix.trans (List.suffix_cons first rest),
        Nat.lt_succ_of_le hsuffix.length_le⟩

theorem bareValue_append (hc : .of '>' ∈ c.rest) (t : Chars) :
    bareValue (c.append t) = ((bareValue c).1, (bareValue c).2.append t) := by
  have hp : (fun x => !(Text.isBlank x || x == .of '>')) '>' = false := by decide
  exact Prod.ext (Text.takeWhile_append_of_mem hc hp t) (Cursor.skipWhile_append hc hp t)

theorem attributeValue_append (hc : .of '>' ∈ c.rest) (hclosed : c.beginsUnclosed = false)
    (t : Chars) :
    attributeValue (c.append t) = ((attributeValue c).1, (attributeValue c).2.append t) := by
  have hblank : Text.isBlank '>' = false := by decide
  have hequals : ('>' == '=') = false := by decide
  have hname := Cursor.mem_skipWhile hc hblank
  have hafter := Cursor.mem_skipWhile (p := (· == .of '=')) hname hequals
  have hstart := Cursor.mem_skipWhile hafter hblank
  unfold Cursor.beginsUnclosed at hclosed
  unfold attributeValue
  dsimp only at hclosed ⊢
  rw [Cursor.skipWhile_append hc hblank, Cursor.skipWhile_append (p := (· == .of '=')) hname hequals,
    Cursor.skipWhile_append hafter hblank]
  generalize c.skipWhile Text.isBlank = afterName at *
  generalize afterName.skipWhile (· == .of '=') = afterEquals at *
  generalize afterEquals.skipWhile Text.isBlank = start at *
  have hrun : (afterName.append t).rest.takeWhile (· == .of '=') =
      afterName.rest.takeWhile (· == .of '=') := Text.takeWhile_append_of_mem hname hequals t
  rw [hrun]
  split
  · rfl
  · rename_i hsome
    obtain ⟨b, s⟩ := start
    obtain ⟨quote, rest, rfl⟩ := List.exists_cons_of_ne_nil (List.ne_nil_of_mem hstart)
    have hbare := bareValue_append hstart t
    simp only [Cursor.append, List.cons_append] at hbare ⊢
    rw [hbare]
    split
    · rfl
    · rename_i hquote
      cases hsplit : Text.splitAtFirst? quote rest with
      | some pair =>
          obtain ⟨value, after⟩ := pair
          rw [splitAtFirst?_more hsplit]
      | none =>
          rw [splitAtFirst?_eq_none_iff] at hsplit
          simp only [Bool.and_eq_true, bne_iff_ne, not_and, not_not] at hquote
          simp [hsome, hsplit] at hclosed
          exact absurd (hquote hclosed.1) hclosed.2

theorem suffix_attributeValue (c : Cursor) : (attributeValue c).2.rest <:+ c.rest := by
  have hstart : ((c.skipWhile Text.isBlank).skipWhile (· == .of '=')).rest <:+ c.rest :=
    (suffix_skipWhile _ _ _).trans (suffix_skipWhile _ _ _)
  unfold attributeValue
  dsimp only
  generalize (c.skipWhile Text.isBlank).skipWhile (· == .of '=') = afterEquals at *
  replace hstart := (suffix_skipWhile Text.isBlank afterEquals.before afterEquals.rest).trans hstart
  change (afterEquals.skipWhile Text.isBlank).rest <:+ c.rest at hstart
  generalize afterEquals.skipWhile Text.isBlank = start at *
  have hbare : (bareValue start).2.rest <:+ c.rest := (suffix_skipWhile _ _ _).trans hstart
  split
  · exact List.suffix_refl _
  · split
    · exact hbare
    · rename_i quote rest hcons
      split
      · exact hbare
      · split
        · rename_i hsplit
          have hquoted := (suffix_splitAtFirst? hsplit).trans (List.suffix_cons quote rest)
          exact ((List.suffix_cons _ _).trans hquoted).trans (hcons ▸ hstart)
        · split
          · exact hstart
          · split
            · exact hbare
            · exact List.suffix_refl _

theorem suffix_rawAttributes (fuel : Nat) (c : Cursor) :
    (rawAttributes fuel c).2.rest <:+ c.rest := by
  induction fuel generalizing c with
  | zero => exact List.suffix_refl _
  | succ fuel ih =>
      rw [rawAttributes]
      split
      · exact List.suffix_refl _
      · rename_i hname
        exact (((ih _).trans (suffix_skipGap _ _)).trans (suffix_attributeValue _)).trans
          (suffix_attributeName? hname).1

/-- The attributes of a tag that ends inside the text. Of steps there are enough in both cases. -/
theorem rawAttributes_append {fuel more : Nat} (hfuel : c.rest.length ≤ fuel)
    (hmore : c.rest.length ≤ more) (hend : .of '>' ∈ (rawAttributes fuel c).2.rest)
    (hclosed : attributesClosed fuel c) (t : Chars) :
    rawAttributes more (c.append t) =
      ((rawAttributes fuel c).1, (rawAttributes fuel c).2.append t) := by
  induction fuel generalizing c more with
  | zero =>
      have hempty : c.rest = [] := List.length_eq_zero_iff.1 (Nat.le_zero.1 hfuel)
      rw [rawAttributes, hempty] at hend
      exact absurd hend List.not_mem_nil
  | succ fuel ih =>
      have hc : .of '>' ∈ c.rest := (suffix_rawAttributes _ c).subset hend
      obtain ⟨more, rfl⟩ : ∃ less, more = less + 1 :=
        ⟨more - 1, by have := List.length_pos_of_mem hc; omega⟩
      rw [rawAttributes, attributeName?_append hc]
      rw [rawAttributes] at hend ⊢
      rw [attributesClosed] at hclosed
      cases hname : attributeName? c with
      | none => rfl
      | some pair =>
          obtain ⟨name, afterName⟩ := pair
          rw [hname] at hend hclosed
          dsimp only [Option.map_some] at hend hclosed ⊢
          obtain ⟨hvalue, hlater⟩ := Bool.and_eq_true_iff.1 hclosed
          obtain ⟨hsuffix, hlength⟩ := suffix_attributeName? hname
          have hgap := (suffix_skipGap (attributeValue afterName).2.before _).trans
            (suffix_attributeValue afterName)
          have hafterGap := (suffix_rawAttributes fuel _).subset hend
          have hafterValue := (suffix_skipGap _ _).subset hafterGap
          have hafterName := (suffix_attributeValue afterName).subset hafterValue
          have hshort := hgap.length_le
          rw [attributeValue_append hafterName (by simpa using hvalue)]
          have hskip : ((attributeValue afterName).2.append t).skipGap =
              (attributeValue afterName).2.skipGap.append t := skipGap_append hafterValue _ t
          dsimp only
          rw [hskip, ih (by dsimp only [Cursor.skipGap]; omega)
            (by dsimp only [Cursor.skipGap]; omega) hend hlater]

end Attributes

/-- What is read, when the text goes on after it. -/
def TagReading.append (t : Chars) : TagReading → TagReading
  | .tag read rest => .tag read (rest ++ t)
  | .unfinished => .unfinished
  | .broken rest => .broken (rest ++ t)

/-- How a tag ends, when the text goes on after it. -/
def TagEnd.append (t : Chars) : TagEnd → TagEnd
  | .closed selfClosing rest => .closed selfClosing (rest ++ t)
  | .unfinished => .unfinished
  | .broken rest => .broken (rest ++ t)

section StartTag

variable {s rest : Chars}

theorem tagEnd_append (hs : .of '>' ∈ s) (t : Chars) : tagEnd (s ++ t) = (tagEnd s).append t := by
  obtain ⟨c, s, rfl⟩ := List.exists_cons_of_ne_nil (List.ne_nil_of_mem hs)
  rw [List.cons_append]
  by_cases hc : c = '>'
  · rw [hc]
    rfl
  · have hrest : .of '>' ∈ s := (List.mem_cons.1 hs).resolve_left (Ne.symm hc)
    obtain ⟨d, s, rfl⟩ := List.exists_cons_of_ne_nil (List.ne_nil_of_mem hrest)
    rw [List.cons_append]
    by_cases hslash : c = '/'
    · by_cases hd : d = '>'
      · rw [hslash, hd]
        rfl
      · simp [tagEnd, hslash, hd, TagEnd.append]
    · simp only [tagEnd, beq_iff_eq, hc, hslash, if_false]
      split
      · rfl
      · rfl

theorem suffix_of_tagEnd_closed {selfClosing : Bool} (h : tagEnd s = .closed selfClosing rest) :
    .of '>' :: rest <:+ s := by
  cases s with
  | nil => contradiction
  | cons c s =>
      by_cases hc : c = '>'
      · subst hc
        obtain ⟨-, rfl⟩ := TagEnd.closed.inj h
        exact List.suffix_refl _
      · by_cases hslash : c = '/'
        · subst hslash
          cases s with
          | nil => contradiction
          | cons d s =>
              by_cases hd : d = '>'
              · subst hd
                obtain ⟨-, rfl⟩ := TagEnd.closed.inj h
                exact List.suffix_cons _ _
              · simp [tagEnd, hd] at h
        · simp only [tagEnd, beq_iff_eq, hc, hslash, if_false] at h
          split at h <;> contradiction

theorem eq_of_tagEnd_broken (h : tagEnd s = .broken rest) : rest = s := by
  cases s with
  | nil => contradiction
  | cons c s =>
      by_cases hc : c = '>'
      · subst hc
        contradiction
      · by_cases hslash : c = '/'
        · subst hslash
          unfold tagEnd at h
          simp only [hc, beq_iff_eq, if_false, beq_self_eq_true, if_true] at h
          split at h <;> contradiction
        · simp only [tagEnd, beq_iff_eq, hc, hslash, if_false] at h
          split at h
          · contradiction
          · exact (TagEnd.broken.inj h).symm

/-- Where the attributes of a tag begin. -/
def afterTagName (s : Chars) : Cursor := (skipWhile (fun c => !endsTagName c) '<' s).skipGap

/-- The attributes of a tag as written, and the place after them. -/
def tagAttributes (s : Chars) : List (Chars × Option Chars) × Cursor :=
  rawAttributes (afterTagName s).rest.length (afterTagName s)

theorem readStartTag_eq (s : Chars) : readStartTag s =
    match tagEnd (tagAttributes s).2.rest with
    | .unfinished => .ok .unfinished
    | .broken rest => .ok (.broken rest)
    | .closed selfClosing rest => ((tagAttributes s).1.mapM readAttribute).map fun attrs =>
        .tag ⟨Text.lower (s.takeWhile fun c => !endsTagName c), attrs, selfClosing⟩ rest := rfl

theorem suffix_tagAttributes (s : Chars) : (tagAttributes s).2.rest <:+ s :=
  ((suffix_rawAttributes _ _).trans (suffix_skipGap _ _)).trans (suffix_skipWhile _ _ _)

theorem tagAttributes_append (hend : .of '>' ∈ (tagAttributes s).2.rest) (hclosed : tagClosed s)
    (t : Chars) : tagAttributes (s ++ t) = ((tagAttributes s).1, (tagAttributes s).2.append t) := by
  have hname : (!endsTagName '>') = false := by decide
  have hstart : .of '>' ∈ (afterTagName s).rest := (suffix_rawAttributes _ _).subset hend
  have hskip := (suffix_skipGap (skipWhile (fun c => !endsTagName c) '<' s).before _).subset hstart
  have hs := (suffix_skipWhile (fun c => !endsTagName c) '<' s).subset hskip
  have happend : afterTagName (s ++ t) = (afterTagName s).append t := by
    rw [afterTagName, skipWhile_append hs hname]
    exact skipGap_append hskip _ t
  rw [tagAttributes, happend]
  exact rawAttributes_append (Nat.le_refl _) (by simp [Cursor.append]) hend hclosed t

/-- A start tag that ends inside the text, and whose quotes are closed in it. -/
theorem readStartTag_append {reading : TagReading} (h : readStartTag s = .ok reading)
    (hend : .of '>' ∈ (tagAttributes s).2.rest) (hclosed : tagClosed s) (t : Chars) :
    readStartTag (s ++ t) = .ok (reading.append t) := by
  have hs := (suffix_tagAttributes s).subset hend
  have hname : (!endsTagName '>') = false := by decide
  rw [readStartTag_eq] at h
  rw [readStartTag_eq, tagAttributes_append hend hclosed]
  dsimp only [Cursor.append]
  rw [tagEnd_append hend, Text.takeWhile_append_of_mem hs hname]
  cases htagEnd : tagEnd (tagAttributes s).2.rest with
  | unfinished =>
      rw [htagEnd] at h
      rw [← Except.ok.inj h]
      simp only [TagEnd.append, TagReading.append]
  | broken rest =>
      rw [htagEnd] at h
      rw [← Except.ok.inj h]
      simp only [TagEnd.append, TagReading.append]
  | closed selfClosing rest =>
      rw [htagEnd] at h
      obtain ⟨attrs, hattrs, rfl⟩ := exists_of_map_eq_ok h
      simp only [TagEnd.append, TagReading.append, hattrs]
      rfl

theorem suffix_of_tag {tag : StartTag} (h : readStartTag s = .ok (.tag tag rest)) :
    .of '>' :: rest <:+ (tagAttributes s).2.rest := by
  rw [readStartTag_eq] at h
  cases htagEnd : tagEnd (tagAttributes s).2.rest with
  | unfinished =>
      rw [htagEnd] at h
      cases h
  | broken _ =>
      rw [htagEnd] at h
      cases h
  | closed selfClosing after =>
      rw [htagEnd] at h
      obtain ⟨attrs, -, heq⟩ := exists_of_map_eq_ok h
      rw [(TagReading.tag.inj heq).2]
      exact suffix_of_tagEnd_closed htagEnd

theorem eq_of_broken (h : readStartTag s = .ok (.broken rest)) :
    rest = (tagAttributes s).2.rest := by
  rw [readStartTag_eq] at h
  cases htagEnd : tagEnd (tagAttributes s).2.rest with
  | unfinished =>
      rw [htagEnd] at h
      cases h
  | broken after =>
      rw [htagEnd] at h
      rw [← TagReading.broken.inj (Except.ok.inj h)]
      exact eq_of_tagEnd_broken htagEnd
  | closed selfClosing after =>
      rw [htagEnd] at h
      obtain ⟨attrs, -, heq⟩ := exists_of_map_eq_ok h
      cases heq

end StartTag

end Folio.Markup
