import Folio.Proofs.Markup.Continuation

/-!
Start tags with text after them that has no quotes. What is read of a tag, and leaves something of
the text, is read in the same way when such a text follows, closed quotes or not.
-/
namespace Folio.Markup

/-- The text has no quote. -/
def Unquoted (t : Chars) : Prop := .of '\'' ∉ t ∧ .of '"' ∉ t

section Cursor

variable {p : Rune → Bool} {c : Cursor} {b : Rune} {s t : Chars}

theorem Cursor.append_rest (c : Cursor) (t : Chars) : (c.append t).rest = c.rest ++ t := rfl

/-- A run that ends inside a text is the same when the text goes on. -/
theorem takeWhile_append_of_ne_nil (h : s.dropWhile p ≠ []) (t : Chars) :
    (s ++ t).takeWhile p = s.takeWhile p ∧ (s ++ t).dropWhile p = s.dropWhile p ++ t := by
  obtain ⟨d, hd, hp⟩ : ∃ d ∈ s, p d = false := by
    by_contra hnone
    refine h (List.dropWhile_eq_nil_iff.2 fun d hd => ?_)
    by_contra hp
    exact hnone ⟨d, hd, Bool.eq_false_iff.2 hp⟩
  exact ⟨Text.takeWhile_append_of_mem hd hp t, Text.dropWhile_append_of_mem hd hp t⟩

theorem skipWhile_append_of_ne_nil (h : (skipWhile p b s).rest ≠ []) (t : Chars) :
    skipWhile p b (s ++ t) = (skipWhile p b s).append t := by
  induction s generalizing b with
  | nil => exact absurd rfl h
  | cons d s ih =>
      rw [skipWhile] at h
      rw [List.cons_append, skipWhile, skipWhile]
      split
      · rename_i hd
        rw [if_pos hd] at h
        exact ih h
      · rfl

theorem Cursor.skipWhile_append_of_ne_nil (h : (c.skipWhile p).rest ≠ []) (t : Chars) :
    (c.append t).skipWhile p = (c.skipWhile p).append t :=
  Markup.skipWhile_append_of_ne_nil h t

theorem skipGap_append_of_ne_nil (h : (skipGap b s).rest ≠ []) (t : Chars) :
    skipGap b (s ++ t) = (skipGap b s).append t := by
  induction s generalizing b with
  | nil => exact absurd rfl h
  | cons d s ih =>
      by_cases hend : s = [] ∧ d = '/'
      · obtain ⟨rfl, rfl⟩ := hend
        exact absurd rfl h
      · have hgap : (Text.isBlank d || (d == '/' && (s ++ t).head? != some (.of '>'))) =
            (Text.isBlank d || (d == '/' && s.head? != some (.of '>'))) := by
          cases s with
          | nil =>
              have hslash : (d == '/') = false := beq_false_of_ne fun heq => hend ⟨rfl, heq⟩
              rw [hslash, Bool.false_and, Bool.false_and]
          | cons e s => rfl
        rw [skipGap] at h
        rw [List.cons_append, skipGap, skipGap, hgap]
        split
        · rename_i hskip
          rw [if_pos hskip] at h
          exact ih h
        · rfl

theorem skipGap_of_blank (h : (skipWhile Text.isBlank b s).rest = []) : (skipGap b s).rest = [] := by
  induction s generalizing b with
  | nil => rfl
  | cons d s ih =>
      rw [skipWhile] at h
      split at h
      · rename_i hblank
        rw [skipGap, hblank, Bool.true_or, if_pos rfl]
        exact ih h
      · contradiction

end Cursor

section Attributes

variable {c : Cursor} {t : Chars}

theorem ne_nil_of_suffix {s u : Chars} (h : u <:+ s) (hu : u ≠ []) : s ≠ [] := by
  rintro rfl
  exact hu (List.suffix_nil.1 h)

theorem attributeName?_none_append (hc : c.rest ≠ []) (h : attributeName? c = none) (t : Chars) :
    attributeName? (c.append t) = none := by
  obtain ⟨b, s⟩ := c
  obtain ⟨first, rest, rfl⟩ := List.exists_cons_of_ne_nil hc
  simp only [attributeName?, ite_eq_left_iff, reduceCtorEq, imp_false, not_not] at h
  exact if_pos h

theorem attributeName?_some_append {name : Chars} {after : Cursor}
    (h : attributeName? c = some (name, after)) (hafter : after.rest ≠ []) (t : Chars) :
    attributeName? (c.append t) = some (name, after.append t) := by
  obtain ⟨b, s⟩ := c
  cases s with
  | nil => contradiction
  | cons first rest =>
      simp only [attributeName?, Option.ite_none_left_eq_some] at h
      obtain ⟨hfirst, h⟩ := h
      obtain ⟨rfl, rfl⟩ := Prod.mk.inj (Option.some.inj h)
      have hrun := (rest_skipWhile _ first rest) ▸ hafter
      change attributeName? ⟨b, first :: (rest ++ t)⟩ = _
      rw [attributeName?]
      dsimp only
      rw [if_neg hfirst, (takeWhile_append_of_ne_nil hrun t).1, skipWhile_append_of_ne_nil hafter]

theorem bareValue_append_of_ne_nil (h : (bareValue c).2.rest ≠ []) (t : Chars) :
    bareValue (c.append t) = ((bareValue c).1, (bareValue c).2.append t) := by
  have hrun := (rest_skipWhile _ c.before c.rest) ▸ h
  exact Prod.ext (takeWhile_append_of_ne_nil hrun t).1 (Cursor.skipWhile_append_of_ne_nil h t)

/-- No quote is found that is not there. -/
theorem splitAtFirst?_unquoted {quote : Rune} {s : Chars} (hquote : quote = '\'' ∨ quote = '"')
    (ht : Unquoted t) (h : Text.splitAtFirst? quote s = none) :
    Text.splitAtFirst? quote (s ++ t) = none := by
  rw [splitAtFirst?_eq_none_iff] at h ⊢
  refine mt List.mem_append.1 (not_or.2 ⟨h, ?_⟩)
  rcases hquote with rfl | rfl
  · exact ht.1
  · exact ht.2

/-- The value that stands after some equals signs: `start` is the place after the blanks that
follow them. -/
def valueAfter (c : Cursor) (equals : Chars) (afterEquals start : Cursor) :
    Option Chars × Cursor :=
  match start.rest with
  | [] => (some (bareValue start).1, (bareValue start).2)
  | quote :: rest =>
      if quote != '\'' && quote != '"' then (some (bareValue start).1, (bareValue start).2)
      else match Text.splitAtFirst? quote rest with
        | some (value, after) => (some value, ⟨quote, after⟩)
        | none =>
            if start.rest.length < afterEquals.rest.length then (some [], start)
            else if 1 < equals.length then
              (some (.of '=' :: (bareValue start).1), (bareValue start).2)
            else (none, c)

/-- The equals signs after a name and blanks. -/
def equalsAfter (c : Cursor) : Chars := (c.skipWhile Text.isBlank).rest.takeWhile (· == .of '=')

/-- The place after these equals signs. -/
def Cursor.afterEquals (c : Cursor) : Cursor :=
  (c.skipWhile Text.isBlank).skipWhile (· == .of '=')

theorem attributeValue_eq (c : Cursor) : attributeValue c =
    if (equalsAfter c).isEmpty then (none, c)
    else valueAfter c (equalsAfter c) c.afterEquals (c.afterEquals.skipWhile Text.isBlank) := rfl

theorem valueAfter_append {start afterEquals : Cursor} {equals : Chars}
    (h : (valueAfter c equals afterEquals start).2.rest ≠ []) (ht : Unquoted t) :
    valueAfter (c.append t) equals (afterEquals.append t) (start.append t) =
      ((valueAfter c equals afterEquals start).1,
        (valueAfter c equals afterEquals start).2.append t) := by
  have hbare : (bareValue start).2.rest ≠ [] → bareValue (start.append t) =
      ((bareValue start).1, (bareValue start).2.append t) :=
    fun hrest => bareValue_append_of_ne_nil hrest t
  obtain ⟨b, text⟩ := start
  cases text with
  | nil => exact absurd rfl h
  | cons quote rest =>
      simp only [valueAfter, Cursor.append, List.cons_append] at h hbare ⊢
      split at h
      · rename_i hplain
        rw [if_pos hplain, if_pos hplain, hbare h]
      · rename_i hquote
        rw [if_neg hquote, if_neg hquote]
        have hmark : quote = '\'' ∨ quote = '"' := by
          by_contra hnot
          simp only [not_or] at hnot
          exact hquote (by simp [hnot.1, hnot.2])
        cases hsplit : Text.splitAtFirst? quote rest with
        | some pair => rw [splitAtFirst?_more hsplit]
        | none =>
            rw [hsplit] at h
            rw [splitAtFirst?_unquoted hmark ht hsplit]
            have hlength : (quote :: (rest ++ t)).length < (afterEquals.rest ++ t).length ↔
                (quote :: rest).length < afterEquals.rest.length := by
              simp only [List.length_append, List.length_cons]
              omega
            dsimp only at h ⊢
            by_cases hblank : (quote :: rest).length < afterEquals.rest.length
            · rw [if_pos hblank]
              exact if_pos (hlength.2 hblank)
            · rw [if_neg hblank] at h
              rw [if_neg hblank]
              refine (if_neg (mt hlength.1 hblank)).trans ?_
              split
              · rename_i hmany
                rw [if_pos hmany] at h
                rw [hbare h]
              · rfl

/-- A value after which something is left of the text is the same when the text goes on without
quotes. -/
theorem attributeValue_append_of_ne_nil (h : (attributeValue c).2.skipGap.rest ≠ [])
    (ht : Unquoted t) :
    attributeValue (c.append t) = ((attributeValue c).1, (attributeValue c).2.append t) := by
  rw [attributeValue_eq] at h
  rw [attributeValue_eq, attributeValue_eq]
  have hname : (c.skipWhile Text.isBlank).rest ≠ [] := by
    intro hnil
    refine h ?_
    rw [equalsAfter, hnil]
    exact skipGap_of_blank hnil
  by_cases hequals : (equalsAfter c).isEmpty
  · have hmore : (equalsAfter (c.append t)).isEmpty := by
      rw [equalsAfter] at hequals
      rw [equalsAfter, Cursor.skipWhile_append_of_ne_nil hname, Cursor.append_rest]
      obtain ⟨d, more, hcons⟩ := List.exists_cons_of_ne_nil hname
      rw [hcons, List.takeWhile_cons] at hequals
      rw [hcons, List.cons_append, List.takeWhile_cons]
      split at hequals
      · contradiction
      · rename_i hd
        rw [if_neg hd]
        rfl
    rw [if_pos hequals, if_pos hmore]
  · rw [if_neg hequals] at h ⊢
    have hvalue := ne_nil_of_suffix (suffix_skipGap _ _) h
    have hstart : (c.afterEquals.skipWhile Text.isBlank).rest ≠ [] := by
      intro hnil
      refine hvalue ?_
      rw [valueAfter, hnil]
      have hbare : (bareValue (c.afterEquals.skipWhile Text.isBlank)).2.rest <:+ [] :=
        hnil ▸ suffix_skipWhile _ _ _
      exact List.suffix_nil.1 hbare
    have hafter : c.afterEquals.rest ≠ [] := ne_nil_of_suffix (suffix_skipWhile _ _ _) hstart
    have happend : (c.append t).afterEquals = c.afterEquals.append t := by
      rw [Cursor.afterEquals, Cursor.skipWhile_append_of_ne_nil hname]
      exact Cursor.skipWhile_append_of_ne_nil hafter t
    have hrun : equalsAfter (c.append t) = equalsAfter c := by
      rw [equalsAfter, Cursor.skipWhile_append_of_ne_nil hname]
      rw [Cursor.afterEquals, Cursor.skipWhile, rest_skipWhile] at hafter
      exact (takeWhile_append_of_ne_nil hafter t).1
    rw [hrun, if_neg hequals, happend, Cursor.skipWhile_append_of_ne_nil hstart]
    exact valueAfter_append hvalue ht

/-- The attributes of a tag after which something is left of the text. -/
theorem rawAttributes_append_of_ne_nil {fuel more : Nat} (hfuel : c.rest.length ≤ fuel)
    (hmore : c.rest.length ≤ more) (hend : (rawAttributes fuel c).2.rest ≠ []) (ht : Unquoted t) :
    rawAttributes more (c.append t) =
      ((rawAttributes fuel c).1, (rawAttributes fuel c).2.append t) := by
  induction fuel generalizing c more with
  | zero => exact absurd (List.length_eq_zero_iff.1 (Nat.le_zero.1 hfuel)) hend
  | succ fuel ih =>
      have hc : c.rest ≠ [] := ne_nil_of_suffix (suffix_rawAttributes _ c) hend
      obtain ⟨more, rfl⟩ : ∃ less, more = less + 1 :=
        ⟨more - 1, by have := List.length_pos_iff.2 hc; omega⟩
      rw [rawAttributes] at hend
      rw [rawAttributes, rawAttributes]
      cases hname : attributeName? c with
      | none => rw [attributeName?_none_append hc hname]
      | some pair =>
          obtain ⟨name, afterName⟩ := pair
          rw [hname] at hend
          dsimp only at hend ⊢
          have hlength := (suffix_attributeName? hname).2
          have hgap := ne_nil_of_suffix (suffix_rawAttributes fuel _) hend
          have hvalue := ne_nil_of_suffix (suffix_skipGap _ _) hgap
          have hafter := ne_nil_of_suffix (suffix_attributeValue afterName) hvalue
          have hshort : (attributeValue afterName).2.skipGap.rest.length ≤ afterName.rest.length :=
            ((suffix_skipGap _ _).trans (suffix_attributeValue afterName)).length_le
          have hskip : ((attributeValue afterName).2.append t).skipGap =
              (attributeValue afterName).2.skipGap.append t := skipGap_append_of_ne_nil hgap t
          rw [attributeName?_some_append hname hafter]
          dsimp only
          rw [attributeValue_append_of_ne_nil hgap ht]
          dsimp only
          rw [hskip, ih (by omega) (by omega) hend]

theorem tagEnd_append_of_ne {s : Chars} (h : tagEnd s ≠ .unfinished) (t : Chars) :
    tagEnd (s ++ t) = (tagEnd s).append t := by
  cases s with
  | nil => exact absurd rfl h
  | cons c s =>
      by_cases hangle : .of '>' ∈ c :: s
      · exact tagEnd_append hangle t
      · have hc : c ≠ '>' := fun heq => hangle (heq ▸ List.mem_cons_self)
        have hslash : c ≠ '/' := by
          rintro rfl
          refine h ?_
          cases s with
          | nil => rfl
          | cons d s =>
              have hd : d ≠ '>' := fun heq => hangle (by simp [heq])
              simp [tagEnd, hd]
        simp only [List.cons_append, tagEnd, beq_iff_eq, hc, hslash, if_false]
        split <;> rfl

/-- A start tag that ends inside the text, or is broken off in it. -/
theorem readStartTag_append_of_ne {s : Chars} {reading : TagReading}
    (h : readStartTag s = .ok reading) (hne : reading ≠ .unfinished) (ht : Unquoted t) :
    readStartTag (s ++ t) = .ok (reading.append t) := by
  rw [readStartTag_eq] at h
  have htagEnd : tagEnd (tagAttributes s).2.rest ≠ .unfinished := by
    intro hunfinished
    rw [hunfinished] at h
    exact hne (Except.ok.inj h).symm
  have hend : (tagAttributes s).2.rest ≠ [] := by
    intro hnil
    rw [hnil] at htagEnd
    exact htagEnd rfl
  have hstart : (afterTagName s).rest ≠ [] := ne_nil_of_suffix (suffix_rawAttributes _ _) hend
  have hname : (skipWhile (fun c => !endsTagName c) '<' s).rest ≠ [] :=
    ne_nil_of_suffix (suffix_skipGap _ _) hstart
  have happend : afterTagName (s ++ t) = (afterTagName s).append t := by
    rw [afterTagName, skipWhile_append_of_ne_nil hname]
    exact skipGap_append_of_ne_nil hstart t
  have hattrs : tagAttributes (s ++ t) = ((tagAttributes s).1, (tagAttributes s).2.append t) := by
    rw [tagAttributes, happend]
    exact rawAttributes_append_of_ne_nil (Nat.le_refl _) (by simp [Cursor.append]) hend ht
  rw [rest_skipWhile] at hname
  rw [readStartTag_eq, hattrs]
  dsimp only [Cursor.append]
  rw [tagEnd_append_of_ne htagEnd, (takeWhile_append_of_ne_nil hname t).1]
  cases htag : tagEnd (tagAttributes s).2.rest with
  | unfinished => exact absurd htag htagEnd
  | broken rest =>
      rw [htag] at h
      rw [← Except.ok.inj h]
      simp only [TagEnd.append, TagReading.append]
  | closed selfClosing rest =>
      rw [htag] at h
      obtain ⟨attrs, hmap, rfl⟩ := exists_of_map_eq_ok h
      simp only [TagEnd.append, TagReading.append, hmap]
      rfl

end Attributes

end Folio.Markup
