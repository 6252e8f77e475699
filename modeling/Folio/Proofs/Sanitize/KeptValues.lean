import Folio.Proofs.Markup.WrittenTags
import Folio.Proofs.Sanitize.WrittenValues
import Folio.Proofs.Text.Lowered

/-!
Values of a sanitized fragment that are shown as they were. Where every ampersand of a value begins
a reference with a semicolon that stands for something, the references are kept as they are
written, and the value is decoded as before.
-/
namespace Folio.Sanitize

open Markup (takeWhile_append_cons)

/-- What stands between the ampersand and the semicolon of a reference that stands for something. -/
inductive IsReference : Chars → Prop
  | decimal {digits : Chars} (nonempty : digits ≠ []) (all : ∀ c ∈ digits, c.isDigit)
      (short : digits.length ≤ Decimal.maxDigits) (text : numberText (Decimal.valueOf digits) ≠ none) :
      IsReference (.of '#' :: digits)
  | hexadecimal {mark : Rune} {digits : Chars} (mark_eq : mark = 'x' ∨ mark = 'X')
      (nonempty : digits ≠ []) (all : ∀ c ∈ digits, Text.isHexDigit c)
      (text : numberText (Text.hexNumber digits) ≠ none) : IsReference (.of '#' :: mark :: digits)
  | name {name : Chars} (nonempty : name ≠ []) (all : ∀ c ∈ name, c.isAlphanum)
      (short : name.length ≤ 32) (known : ∃ e ∈ Markup.entity? name, e.bare) : IsReference name

/-- Every ampersand of the text begins a reference that stands for something. -/
inductive WellReferenced : Chars → Prop
  | nil : WellReferenced []
  | char {c : Rune} {s : Chars} (hc : c ≠ '&') (later : WellReferenced s) : WellReferenced (c :: s)
  | reference {name s : Chars} (known : IsReference name) (later : WellReferenced s) :
      WellReferenced (.of '&' :: (name ++ .of ';' :: s))

theorem WellReferenced.of_not_mem {s : Chars} (h : .of '&' ∉ s) : WellReferenced s := by
  induction s with
  | nil => exact .nil
  | cons c s ih =>
      obtain ⟨hc, hlater⟩ := List.ne_and_not_mem_of_not_mem_cons h
      exact .char (Ne.symm hc) (ih hlater)

section Characters

variable {c : Rune}

theorem toNat_of_isAlphanum (h : c.isAlphanum) : c.toNat < 128 := by
  simp only [Rune.isAlphanum, Rune.isAlpha, Rune.isUpper, Rune.isLower, Rune.isDigit,
    Bool.or_eq_true, Bool.and_eq_true, decide_eq_true_eq] at h
  omega

theorem isAlphanum_of_isDigit (h : c.isDigit) : c.isAlphanum := by
  rw [Rune.isAlphanum, h, Bool.or_true]

theorem isAlphanum_of_isHexDigit (h : Text.isHexDigit c) : c.isAlphanum := by
  have hascii : c.toNat < 128 := by
    have hvalue := h
    simp only [Text.isHexDigit, Text.hexValue?] at hvalue
    split at hvalue
    · rename_i hdigit
      exact toNat_of_isAlphanum (isAlphanum_of_isDigit hdigit)
    · split at hvalue
      · rename_i hlower
        have hbound := of_decide_eq_true (Bool.and_eq_true_iff.1 hlower).2
        exact Nat.lt_of_le_of_lt hbound (by decide)
      · split at hvalue
        · rename_i hupper
          have hbound := of_decide_eq_true (Bool.and_eq_true_iff.1 hupper).2
          exact Nat.lt_of_le_of_lt hbound (by decide)
        · contradiction
  exact Text.ascii_forall (P := fun c => Text.isHexDigit c → c.isAlphanum) (by decide +kernel)
    hascii h

/-- A letter or digit ends no name of a reference, and runs on in each. -/
theorem of_isAlphanum (h : c.isAlphanum) : endsName c = false ∧ Markup.isNameChar c :=
  Text.ascii_forall (P := fun c => c.isAlphanum → endsName c = false ∧ Markup.isNameChar c)
    (by decide +kernel) (toNat_of_isAlphanum h) h

end Characters

section References

variable {name s : Chars}

/-- The characters of a reference. -/
theorem IsReference.chars (h : IsReference name) : ∀ c ∈ name, c.isAlphanum ∨ c = '#' := by
  cases h with
  | decimal _ hall _ _ =>
      refine List.forall_mem_cons.2 ⟨Or.inr rfl, fun c hc => Or.inl ?_⟩
      exact isAlphanum_of_isDigit (hall c hc)
  | hexadecimal hx _ hall _ =>
      refine List.forall_mem_cons.2 ⟨Or.inr rfl, List.forall_mem_cons.2 ⟨Or.inl ?_, ?_⟩⟩
      · rcases hx with rfl | rfl <;> decide
      · exact fun c hc => Or.inl (isAlphanum_of_isHexDigit (hall c hc))
  | name _ hall _ _ => exact fun c hc => Or.inl (hall c hc)

/-- A name that counts begins the name of a character. -/
theorem beginsEntity_of_entity? {e : Markup.Entity} (h : Markup.entity? name = some e) :
    beginsEntity name := by
  have hself : name.isPrefixOf name := List.isPrefixOf_iff_prefix.2 (List.prefix_refl name)
  unfold Markup.entity? at h
  rw [beginsEntity, Bool.or_eq_true]
  split at h
  · rename_i found hfound
    obtain ⟨before, after, heq, -⟩ := List.lookup_eq_some_iff.1 hfound
    refine Or.inl (List.any_eq_true.2 ⟨(name, found), ?_, hself⟩)
    rw [heq]
    exact List.mem_append_right before List.mem_cons_self
  · refine Or.inr ?_
    rw [← Std.HashMap.any_toList]
    exact List.any_eq_true.2 ⟨_, Std.HashMap.mem_toList_iff_getElem?_eq_some.2 h, hself⟩

/-- The digits of a number, up to its semicolon. -/
theorem referenceName?_number (mark rest : Chars) {digits : Chars}
    (hmark : (rest.takeWhile fun x => x == .of 'x' || x == .of 'X').take 1 = mark)
    (hdigits : (rest.drop mark.length).takeWhile
      (if mark.isEmpty then Rune.isDigit else Text.isHexDigit) = digits)
    (hend : rest.drop (mark.length + digits.length) = .of ';' :: s) :
    referenceName? (.of '#' :: rest) = some (.of '#' :: mark ++ digits) := by
  have hclose : closesNumber (.of ';' :: s) = true := rfl
  change (if closesNumber (rest.drop (_ + _)) = true then _ else _) = _
  rw [hmark, hdigits, hend, hclose]
  rfl

/-- A reference with its semicolon is split off. -/
theorem IsReference.splitReference?_eq (h : IsReference name) (s : Chars) :
    splitReference? (name ++ .of ';' :: s) = some (name, s) := by
  suffices hname : referenceName? (name ++ .of ';' :: s) = some name by
    have hdrop : (name ++ .of ';' :: s).drop (name.length + 1) = s := by
      rw [List.drop_append]
      simp
    rw [splitReference?, hname, Option.map_some, hdrop]
  cases h with
  | @decimal digits hnonempty hall _ _ =>
      have hdigit := takeWhile_append_cons s hall (by decide : Rune.isDigit ';' = false)
      have hplain :
          (digits ++ .of ';' :: s).takeWhile (fun x => x == .of 'x' || x == .of 'X') = [] := by
        obtain ⟨d, digits, rfl⟩ := List.exists_cons_of_ne_nil hnonempty
        have hd := hall d List.mem_cons_self
        rw [List.cons_append, List.takeWhile_cons, if_neg]
        intro hx
        rcases Bool.or_eq_true_iff.1 hx with hx | hx <;>
          exact absurd (beq_iff_eq.1 hx ▸ hd) (by decide)
      refine referenceName?_number (s := s) [] (digits ++ .of ';' :: s) ?_ hdigit ?_
      · rw [hplain]
        rfl
      · rw [List.length_nil, Nat.zero_add]
        exact List.drop_left
  | @hexadecimal mark digits hx hnonempty hall _ =>
      have hdigit := takeWhile_append_cons s hall (by decide : Text.isHexDigit ';' = false)
      refine referenceName?_number (s := s) [mark] (mark :: (digits ++ .of ';' :: s)) ?_ hdigit ?_
      · rcases hx with rfl | rfl <;> rfl
      · rw [List.length_singleton, Nat.add_comm]
        exact List.drop_left
  | name hnonempty hall _ hknown =>
      obtain ⟨e, he, -⟩ := hknown
      have hrun : (name ++ .of ';' :: s).takeWhile (fun x => !endsName x) = name :=
        takeWhile_append_cons s (fun c hc => by rw [(of_isAlphanum (hall c hc)).1]; rfl) (by decide)
      obtain ⟨c, letters, rfl⟩ := List.exists_cons_of_ne_nil hnonempty
      have hnumber : (c == '#') = false := by
        refine beq_false_of_ne ?_
        rintro rfl
        exact absurd (hall '#' List.mem_cons_self) (by decide)
      have hhead : ((c :: letters ++ .of ';' :: s).drop (c :: letters).length).head? =
          some (.of ';') := by
        rw [List.drop_left]
        rfl
      rw [List.cons_append, referenceName?, hnumber, if_neg Bool.false_ne_true, ← List.cons_append]
      dsimp only
      rw [hrun, hhead, beginsEntity_of_entity? he]
      rfl

/-- It stands for something. -/
theorem IsReference.exists_referenceText (h : IsReference name) :
    ∃ value, referenceText name = .ok (some value) := by
  cases h with
  | @decimal digits hnonempty hall hshort htext =>
      obtain ⟨value, hvalue⟩ := Option.ne_none_iff_exists'.1 htext
      obtain ⟨d, digits, rfl⟩ := List.exists_cons_of_ne_nil hnonempty
      have hd := hall d List.mem_cons_self
      have hlength : ¬ Decimal.maxDigits < digits.length + 1 := Nat.not_lt.2 hshort
      refine ⟨value, ?_⟩
      rw [referenceText, if_neg, if_neg hlength, hvalue]
      intro hx
      rcases Bool.or_eq_true_iff.1 hx with hx | hx <;>
        exact absurd (beq_iff_eq.1 hx ▸ hd) (by decide)
  | @hexadecimal mark digits hx hnonempty hall htext =>
      obtain ⟨value, hvalue⟩ := Option.ne_none_iff_exists'.1 htext
      have hmark : (mark == 'x' || mark == 'X') = true := by
        rcases hx with rfl | rfl <;> rfl
      refine ⟨value, ?_⟩
      rw [referenceText, if_pos hmark, if_neg (mt List.isEmpty_iff.1 hnonempty), hvalue]
  | name hnonempty hall _ hknown =>
      obtain ⟨e, he, hbare⟩ := hknown
      refine ⟨e.value, ?_⟩
      unfold referenceText
      split
      · exact absurd (hall '#' List.mem_cons_self) (by decide)
      · exact absurd (hall '#' List.mem_cons_self) (by decide)
      · rw [Option.mem_def.1 he, Option.bind_some, if_pos hbare]

/-- It is read as one reference, whatever follows. -/
theorem IsReference.exists_reference? (h : IsReference name) :
    ∃ r, ∀ s, Markup.reference? (name ++ .of ';' :: s) = some (r, s) := by
  cases h with
  | @decimal digits hnonempty hall _ _ =>
      refine ⟨.decimal digits, fun s => ?_⟩
      have hrun := takeWhile_append_cons s hall (by decide : Rune.isDigit ';' = false)
      simp [Markup.reference?, hrun, hnonempty, Markup.dropSemicolon]
  | @hexadecimal mark digits hx hnonempty hall _ =>
      refine ⟨.hexadecimal digits, fun s => ?_⟩
      have hrun := takeWhile_append_cons s hall (by decide : Text.isHexDigit ';' = false)
      rcases hx with rfl | rfl <;>
        simp [Markup.reference?, hrun, hnonempty, Markup.dropSemicolon, Rune.isDigit]
  | name hnonempty hall hshort _ =>
      refine ⟨.name (name ++ [.of ';']), fun s => ?_⟩
      have hrun : (name ++ .of ';' :: s).takeWhile Markup.isNameChar = name :=
        takeWhile_append_cons s (fun c hc => (of_isAlphanum (hall c hc)).2) (by decide)
      unfold Markup.reference?
      split
      · rename_i hnil
        exact absurd hnil (List.append_ne_nil_of_left_ne_nil hnonempty _)
      · rename_i heq
        obtain ⟨c, letters, rfl⟩ := List.exists_cons_of_ne_nil hnonempty
        obtain ⟨rfl, -⟩ := List.cons.inj heq
        exact absurd (hall '#' List.mem_cons_self) (by decide)
      · dsimp only
        rw [hrun, List.take_of_length_le hshort, List.drop_left,
          if_neg (mt List.isEmpty_iff.1 hnonempty)]
        rfl

end References

/-- One character of a value as it is kept: the ampersand stays. -/
def keptChar (quote c : Rune) : Chars := if c == '&' then ['&'] else valueChar quote c

section Values

variable {quote : Rune} {s : Chars}

theorem keptChar_of_ne {c : Rune} (hc : c ≠ '&') : keptChar quote c = valueChar quote c := by
  rw [keptChar, beq_false_of_ne hc, if_neg Bool.false_ne_true]

/-- The characters of a value as they are written: as they are, or as references. -/
theorem keptChar_cases (quote c : Rune) : keptChar quote c = [c] ∨
    ∃ name, IsReference name ∧ keptChar quote c = .of '&' :: (name ++ [.of ';']) := by
  have hmark (name : Chars) (hname : name ∈ (["lt", "quot"] : List Chars)) :
      IsReference name := by
    have hletters : ∀ n ∈ (["lt", "quot"] : List Chars), n.all Rune.isAlphanum := by decide
    have hall := List.all_eq_true.1 (hletters name hname)
    simp only [List.mem_cons, List.not_mem_nil, or_false] at hname
    rcases hname with rfl | rfl
    · exact .name (by decide) hall (by decide) ⟨_, rfl, rfl⟩
    · exact .name (by decide) hall (by decide) ⟨_, rfl, rfl⟩
  unfold keptChar valueChar
  split
  · rename_i hamp
    rw [beq_iff_eq.1 hamp]
    exact Or.inl rfl
  · split
    · exact Or.inr ⟨"lt".runes, hmark "lt" (by decide), rfl⟩
    · split
      · exact Or.inr ⟨"quot".runes, hmark "quot" (by decide), rfl⟩
      · exact Or.inl rfl

/-- The characters of references stay. -/
theorem keptChar_of_isReference {c : Rune} (hc : c.isAlphanum ∨ c = '#' ∨ c = ';') :
    keptChar quote c = [c] := by
  have hne : c ≠ '&' ∧ c ≠ '<' ∧ c ≠ '"' := by
    refine ⟨?_, ?_, ?_⟩
    all_goals
      rintro rfl
      revert hc
      decide
  rw [keptChar_of_ne hne.1, valueChar_of_ne quote hne.1 hne.2.1, beq_false_of_ne hne.2.2,
    Bool.false_and, if_neg Bool.false_ne_true]

theorem flatMap_keptChar_reference {name : Chars} (h : IsReference name) (s : Chars) :
    (.of '&' :: (name ++ .of ';' :: s)).flatMap (keptChar quote) =
      .of '&' :: (name ++ .of ';' :: s.flatMap (keptChar quote)) := by
  have hname : name.flatMap (keptChar quote) = name := by
    rw [List.flatMap_congr (g := fun c => [c]) fun c hc =>
      keptChar_of_isReference ((h.chars c hc).imp_right Or.inl)]
    exact List.flatMap_singleton' name
  rw [List.flatMap_cons, List.flatMap_append, List.flatMap_cons, hname,
    keptChar_of_isReference (Or.inr (Or.inr rfl))]
  rfl

/-- Text in front of a text. -/
theorem WellReferenced.keptChar_append (h : WellReferenced s) (quote : Rune) {c : Rune}
    (hc : c ≠ '&') : WellReferenced (keptChar quote c ++ s) := by
  rcases keptChar_cases quote c with heq | ⟨name, hname, heq⟩
  · rw [heq]
    exact .char hc h
  · rw [heq, List.cons_append, List.append_assoc]
    exact .reference hname h

theorem WellReferenced.flatMap_keptChar (h : WellReferenced s) (quote : Rune) :
    WellReferenced (s.flatMap (keptChar quote)) := by
  induction h with
  | nil => exact .nil
  | char hc _ ih =>
      rw [List.flatMap_cons]
      exact ih.keptChar_append quote hc
  | reference hknown _ ih =>
      rw [flatMap_keptChar_reference hknown]
      exact .reference hknown ih

/-- A reference that is written anew stays as it is. -/
theorem IsReference.writePiece_eq {name : Chars} (h : IsReference name) (after : Chars) :
    writePiece (fun name _ => .of '&' :: name ++ [.of ';']) ("&amp;".runes ++ ·)
        (name ++ .of ';' :: after) =
      .ok (.of '&' :: (name ++ .of ';' :: after)) := by
  obtain ⟨value, hvalue⟩ := h.exists_referenceText
  rw [writePiece, h.splitReference?_eq]
  dsimp only
  rw [hvalue]
  exact congrArg Except.ok (by simp)

theorem WellReferenced.exists_pieces (h : WellReferenced s) {first : Chars} {pieces : List Chars}
    (hsplit : Text.splitOn '&' s = first :: pieces) : ∃ texts,
      pieces.mapM (writePiece (fun name _ => .of '&' :: name ++ [.of ';']) ("&amp;".runes ++ ·)) =
        .ok texts ∧ first ++ texts.flatten = s := by
  induction h generalizing first pieces with
  | nil =>
      obtain ⟨rfl, rfl⟩ := List.cons.inj hsplit
      exact ⟨[], rfl, rfl⟩
  | @char c s hc _ ih =>
      obtain ⟨later, pieces', hlater⟩ := Text.exists_splitOn_eq_cons '&' s
      obtain ⟨texts, htexts, heq⟩ := ih hlater
      have hfirst := Text.splitOn_append_of_not_mem (mt List.mem_singleton.1 (Ne.symm hc)) hlater
      obtain ⟨rfl, rfl⟩ := List.cons.inj (hsplit.symm.trans hfirst)
      exact ⟨texts, htexts, congrArg (c :: ·) heq⟩
  | @reference name s hknown _ ih =>
      obtain ⟨later, pieces', hlater⟩ := Text.exists_splitOn_eq_cons '&' s
      obtain ⟨texts, htexts, heq⟩ := ih hlater
      have hrun : .of '&' ∉ name ++ [.of ';'] := by
        rw [List.mem_append, List.mem_singleton]
        rintro (hmem | heq)
        · exact absurd (hknown.chars '&' hmem) (by decide)
        · exact absurd heq (by decide)
      have hafter := Text.splitOn_append_of_not_mem hrun hlater
      rw [List.append_assoc, List.append_assoc, List.singleton_append, List.singleton_append]
        at hafter
      have hamp := Text.splitOn_append (c := '&') List.not_mem_nil (name ++ .of ';' :: s)
      rw [List.nil_append, hafter] at hamp
      obtain ⟨rfl, rfl⟩ := List.cons.inj (hsplit.symm.trans hamp)
      refine ⟨(.of '&' :: (name ++ .of ';' :: later)) :: texts, ?_, ?_⟩
      · rw [List.mapM_cons, hknown.writePiece_eq, htexts]
        rfl
      · rw [← heq]
        simp

/-- What stands for a text stays as it is. -/
theorem WellReferenced.escapeAmpersands_eq (h : WellReferenced s) : escapeAmpersands s = .ok s := by
  obtain ⟨first, pieces, hsplit⟩ := Text.exists_splitOn_eq_cons '&' s
  obtain ⟨texts, htexts, heq⟩ := h.exists_pieces hsplit
  rw [escapeAmpersands, mapReferences, ampersandPieces, hsplit]
  dsimp only
  rw [htexts]
  exact congrArg Except.ok heq

theorem replaceGo_keptChar (quote c : Rune) (rest : Chars) :
    Text.replaceGo "&amp;".runes ['&'] 0 (valueChar quote c ++ rest) =
      keptChar quote c ++ Text.replaceGo "&amp;".runes ['&'] 0 rest := by
  by_cases hamp : c = '&'
  · subst hamp
    rfl
  · rw [keptChar_of_ne hamp]
    unfold valueChar
    rw [beq_false_of_ne hamp, if_neg Bool.false_ne_true]
    split
    · rfl
    · split
      · rfl
      · have hbegins : "&amp;".runes.isPrefixOf (c :: rest) = false := by
          change ('&' == c && _) = false
          rw [beq_false_of_ne (Ne.symm hamp), Bool.false_and]
        rw [List.singleton_append, Text.replaceGo, hbegins, if_neg Bool.false_ne_true]
        rfl

/-- The ampersands of a written value are restored. -/
theorem replaceAll_flatMap_valueChar (quote : Rune) (value : Chars) :
    Text.replaceAll "&amp;".runes ['&'] (value.flatMap (valueChar quote)) =
      value.flatMap (keptChar quote) := by
  induction value with
  | nil => rfl
  | cons c value ih =>
      rw [List.flatMap_cons, List.flatMap_cons, Text.replaceAll, replaceGo_keptChar]
      exact congrArg (keptChar quote c ++ ·) ih

/-- The value is restored with its references as they were. -/
theorem WellReferenced.restore_eq (h : WellReferenced s) (quote : Rune) :
    restore (s.flatMap (valueChar quote)) = .ok (s.flatMap (keptChar quote)) := by
  rw [restore, replaceAll_flatMap_valueChar]
  exact (h.flatMap_keptChar quote).escapeAmpersands_eq

/-- One step of decoding takes the reference off. -/
theorem decodeValueGo_reference {body rest : Chars} {r : Markup.Reference}
    (h : Markup.reference? body = some (r, rest)) (fuel : Nat) :
    Markup.decodeValueGo (fuel + 1) (.of '&' :: body) =
      r.inValue.bind fun text => (Markup.decodeValueGo fuel rest).map (text ++ ·) := by
  rw [Markup.decodeValueGo, if_pos (beq_self_eq_true _), h]
  rfl

theorem WellReferenced.decodeValueGo_eq (h : WellReferenced s) (quote : Rune) {fuel more : Nat}
    (hfuel : (s.flatMap (keptChar quote)).length ≤ fuel) (hmore : s.length ≤ more) :
    Markup.decodeValueGo fuel (s.flatMap (keptChar quote)) = Markup.decodeValueGo more s := by
  induction h generalizing fuel more with
  | nil => cases fuel <;> cases more <;> rfl
  | @char c s hc _ ih =>
      rw [List.length_cons] at hmore
      obtain ⟨more, rfl⟩ : ∃ less, more = less + 1 := ⟨more - 1, by omega⟩
      have hmore' : s.length ≤ more := by omega
      have hplain (n : Nat) (t : Chars) : Markup.decodeValueGo (n + 1) (c :: t) =
          (Markup.decodeValueGo n t).map (c :: ·) := by
        rw [Markup.decodeValueGo, beq_false_of_ne hc, if_neg Bool.false_ne_true]
      rw [List.flatMap_cons, keptChar_of_ne hc] at hfuel ⊢
      rcases writes_valueChar quote c with ⟨-, hsame⟩ | ⟨body, r, hbody, hvalue, hread⟩
      · rw [hsame, List.length_append, List.length_singleton] at hfuel
        obtain ⟨fuel, rfl⟩ : ∃ less, fuel = less + 1 := ⟨fuel - 1, by omega⟩
        have hfuel' : (s.flatMap (keptChar quote)).length ≤ fuel := by omega
        rw [hsame, List.singleton_append, hplain, hplain, ih hfuel' hmore']
      · rw [hbody, List.length_append, List.length_cons] at hfuel
        obtain ⟨fuel, rfl⟩ : ∃ less, fuel = less + 1 := ⟨fuel - 1, by omega⟩
        have hfuel' : (s.flatMap (keptChar quote)).length ≤ fuel := by omega
        rw [hbody, List.cons_append, decodeValueGo_reference (hread _), hvalue, hplain,
          ih hfuel' hmore']
        rfl
  | @reference name s hknown _ ih =>
      obtain ⟨r, hr⟩ := hknown.exists_reference?
      rw [flatMap_keptChar_reference hknown] at hfuel ⊢
      simp only [List.length_cons, List.length_append] at hfuel hmore
      obtain ⟨more, rfl⟩ : ∃ less, more = less + 1 := ⟨more - 1, by omega⟩
      obtain ⟨fuel, rfl⟩ : ∃ less, fuel = less + 1 := ⟨fuel - 1, by omega⟩
      have hfuel' : (s.flatMap (keptChar quote)).length ≤ fuel := by omega
      have hmore' : s.length ≤ more := by omega
      rw [decodeValueGo_reference (hr _), decodeValueGo_reference (hr _), ih hfuel' hmore']

/-- It is decoded as it was. -/
theorem WellReferenced.decodeValue_eq (h : WellReferenced s) (quote : Rune) :
    Markup.decodeValue (s.flatMap (keptChar quote)) = Markup.decodeValue s :=
  h.decodeValueGo_eq quote (Nat.le_refl _) (Nat.le_refl _)

/-- A value whose references are restored is shown as it was. -/
theorem WellReferenced.decodeValue_of_restore (h : WellReferenced s) {written : Chars}
    (hwritten : restore (quoteValue s).2 = .ok written) :
    Markup.decodeValue written = Markup.decodeValue s := by
  rw [quoteValue_snd, h.restore_eq] at hwritten
  rw [← Except.ok.inj hwritten]
  exact h.decodeValue_eq _

end Values

end Folio.Sanitize
