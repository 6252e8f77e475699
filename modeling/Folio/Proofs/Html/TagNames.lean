import Folio.Html.Token
import Folio.Proofs.Text.Lowered
import Mathlib.Data.List.Nodup

/-!
The attributes of the tags that are read: which characters their names and values have. A name holds
nothing that would end it, so it is read again wherever it is written.
-/
namespace Folio.Html

/-- A character inside the name of an attribute. -/
def isNameChar (c : Rune) : Bool :=
  !Text.isSpace c && c != '/' && c != '>' && c != '\x00' && c.toLower == c

/-- The name of an attribute as it is read: only its first character may be an equals sign. -/
structure IsName (name : Chars) : Prop where
  nonempty : name ≠ []
  chars : ∀ c ∈ name, isNameChar c
  equals : .of '=' ∉ name.tail

/-- The attributes of a tag as they are read: with names, each at most once, and without the
character zero in their values. -/
structure Tag.Sound (tag : Tag) : Prop where
  names : ∀ a ∈ tag.attrs, IsName a.1
  values : ∀ a ∈ tag.attrs, .of '\x00' ∉ a.2
  distinct : (tag.attrs.map Prod.fst).Nodup

def Token.Sound (t : Token) : Prop := ∀ tag, t = .start tag → tag.Sound

/-- An attribute under way, its characters from the last to the first. -/
structure IsDraft (a : Chars × Chars) : Prop where
  nonempty : a.1 ≠ []
  chars : ∀ c ∈ a.1, isNameChar c.toLower
  equals : ∀ c ∈ a.1.dropLast, c.toLower ≠ '='
  value : .of '\x00' ∉ a.2

def Draft.Sound (d : Draft) : Prop := ∀ a ∈ d.attrs, IsDraft a

/-- What a character leads to is sound. -/
def Move.Sound : Move → Prop
  | .go _ d => d.Sound
  | .again _ d => d.Sound
  | .done t => t.Sound

section Values

variable {attrs : List (Chars × Chars)}

theorem mem_of_mem_firstValues {a : Chars × Chars} (h : a ∈ firstValues attrs) : a ∈ attrs := by
  induction attrs with
  | nil => exact h
  | cons first attrs ih =>
      rcases List.mem_cons.1 h with rfl | hlater
      · exact List.mem_cons_self
      · exact List.mem_cons_of_mem first (ih (List.mem_filter.1 hlater).1)

theorem nodup_firstValues (attrs : List (Chars × Chars)) :
    ((firstValues attrs).map Prod.fst).Nodup := by
  induction attrs with
  | nil => exact List.nodup_nil
  | cons first attrs ih =>
      rw [firstValues, List.map_cons, List.nodup_cons]
      refine ⟨fun hmem => ?_, ih.sublist (List.Sublist.map _ List.filter_sublist)⟩
      obtain ⟨b, hb, heq⟩ := List.mem_map.1 hmem
      exact absurd heq (bne_iff_ne.1 (List.mem_filter.1 hb).2)

/-- The first attribute of a name is kept. -/
theorem mem_firstValues {before after : List (Chars × Chars)} {a : Chars × Chars}
    (h : ∀ b ∈ before, b.1 ≠ a.1) : a ∈ firstValues (before ++ a :: after) := by
  induction before with
  | nil => exact List.mem_cons_self
  | cons first before ih =>
      obtain ⟨hfirst, hlater⟩ := List.forall_mem_cons.1 h
      exact List.mem_cons_of_mem _ (List.mem_filter.2 ⟨ih hlater, bne_iff_ne.2 (Ne.symm hfirst)⟩)

end Values

section Characters

variable {c : Rune}

theorem of_isNameChar (h : isNameChar c) :
    Text.isSpace c = false ∧ c ≠ '/' ∧ c ≠ '>' ∧ c ≠ '\x00' ∧ c.toLower = c := by
  simpa [isNameChar, and_assoc] using h

theorem lowerAscii_eq_self {name : Chars} (h : ∀ c ∈ name, isNameChar c) :
    Text.lowerAscii name = name :=
  (List.map_congr_left fun c hc => (of_isNameChar (h c hc)).2.2.2.2).trans (List.map_id name)

theorem visible_of_not_ascii (h : ¬ c.toNat < 128) : visible c = c := by
  refine if_neg fun hzero => h ?_
  rw [beq_iff_eq.1 hzero]
  decide

/-- A character that does not end a name, as it is read in one. -/
theorem isNameChar_visible (hspace : ¬ Text.isSpace c) (hslash : c ≠ '/') (hend : c ≠ '>') :
    isNameChar (visible c).toLower := by
  by_cases hascii : c.toNat < 128
  · exact Text.ascii_forall (P := fun c => ¬ Text.isSpace c → c ≠ .of '/' → c ≠ .of '>' →
      isNameChar (visible c).toLower) (by decide +kernel) hascii hspace hslash hend
  · have hzero : c ≠ '\x00' := by
      rintro rfl
      exact hascii (by decide)
    rw [visible_of_not_ascii hascii, Text.toLower_of_not_ascii hascii, isNameChar,
      Text.toLower_of_not_ascii hascii]
    simp [hspace, hslash, hend, hzero]

theorem toLower_visible_ne_equals (h : c ≠ '=') : (visible c).toLower ≠ '=' := by
  by_cases hascii : c.toNat < 128
  · exact Text.ascii_forall (P := fun c => c ≠ .of '=' → (visible c).toLower ≠ .of '=')
      (by decide +kernel) hascii h
  · rwa [visible_of_not_ascii hascii, Text.toLower_of_not_ascii hascii]

theorem visible_ne_zero (c : Rune) : visible c ≠ '\x00' := by
  unfold visible
  split
  · decide
  · rename_i hzero
    exact fun heq => hzero (beq_iff_eq.2 heq)

end Characters

section Drafts

variable {d : Draft} {c : Rune}

theorem Draft.Sound.addAttribute (h : d.Sound) (hc : isNameChar (visible c).toLower) :
    (d.addAttribute c).Sound :=
  List.forall_mem_cons.2 ⟨⟨List.cons_ne_nil _ _, List.forall_mem_singleton.2 hc,
    fun _ hmem => absurd hmem List.not_mem_nil, List.not_mem_nil⟩, h⟩

theorem Draft.Sound.addToName (h : d.Sound) (hc : isNameChar (visible c).toLower)
    (hequals : c ≠ '=') : (d.addToName c).Sound := by
  unfold Draft.addToName
  split
  · exact h
  · rename_i n v rest hattrs
    rw [Draft.Sound, hattrs] at h
    obtain ⟨hfirst, hlater⟩ := List.forall_mem_cons.1 h
    have hlast := List.dropLast_cons_of_ne_nil (x := visible c) hfirst.nonempty
    refine List.forall_mem_cons.2 ⟨⟨List.cons_ne_nil _ _, ?_, ?_, hfirst.value⟩, hlater⟩
    · exact List.forall_mem_cons.2 ⟨hc, hfirst.chars⟩
    · rw [hlast]
      exact List.forall_mem_cons.2 ⟨toLower_visible_ne_equals hequals, hfirst.equals⟩

theorem Draft.Sound.addToValue (h : d.Sound) (c : Rune) : (d.addToValue c).Sound := by
  unfold Draft.addToValue
  split
  · exact h
  · rename_i n v rest hattrs
    rw [Draft.Sound, hattrs] at h
    obtain ⟨hfirst, hlater⟩ := List.forall_mem_cons.1 h
    refine List.forall_mem_cons.2 ⟨⟨hfirst.nonempty, hfirst.chars, hfirst.equals, ?_⟩, hlater⟩
    exact fun hmem => (List.mem_cons.1 hmem).elim (fun heq => visible_ne_zero c heq.symm)
      hfirst.value

theorem Draft.Sound.mark (h : d.Sound) (kind : TagFault) (bad : Bool) : (d.mark kind bad).Sound := by
  unfold Draft.mark
  split <;> exact h

theorem Draft.Sound.endName (h : d.Sound) : d.endName.Sound := by
  unfold Draft.endName
  split <;> exact h

/-- An attribute as it stands in the finished tag. -/
theorem IsDraft.isName {a : Chars × Chars} (h : IsDraft a) :
    IsName (Text.lowerAscii a.1.reverse) where
  nonempty := by
    rw [Text.lowerAscii, ne_eq, List.map_eq_nil_iff, List.reverse_eq_nil_iff]
    exact h.nonempty
  chars := List.forall_mem_map.2 fun c hc => h.chars c (List.mem_reverse.1 hc)
  equals := by
    rw [Text.lowerAscii, ← List.map_tail, List.tail_reverse, List.mem_map]
    rintro ⟨c, hc, heq⟩
    exact h.equals c (List.mem_reverse.1 hc) heq

theorem Draft.Sound.finish (h : d.Sound) (selfClosing : Bool) : (d.finish selfClosing).Sound := by
  intro tag htag
  unfold Draft.finish at htag
  dsimp only at htag
  split at htag
  · contradiction
  · obtain rfl := Token.start.inj htag
    set attrs := firstValues (d.attrs.reverse.map fun a => (Text.lowerAscii a.1.reverse, a.2.reverse))
    have hsub : List.Sublist (if d.fault == .attributeName then attrs.filter fun a => !isBrokenName a.1
        else attrs) attrs := by
      split
      · exact List.filter_sublist
      · exact List.Sublist.refl _
    have hdraft : ∀ a ∈ attrs, ∃ b, IsDraft b ∧ a = (Text.lowerAscii b.1.reverse, b.2.reverse) := by
      intro a ha
      obtain ⟨b, hb, rfl⟩ := List.mem_map.1 (mem_of_mem_firstValues ha)
      exact ⟨b, h b (List.mem_reverse.1 hb), rfl⟩
    refine ⟨fun a ha => ?_, fun a ha => ?_, (nodup_firstValues _).sublist (hsub.map Prod.fst)⟩
    · obtain ⟨b, hb, rfl⟩ := hdraft a (hsub.mem ha)
      exact hb.isName
    · obtain ⟨b, hb, rfl⟩ := hdraft a (hsub.mem ha)
      exact fun hmem => hb.value (List.mem_reverse.1 hmem)

end Drafts

section Moves

variable {d : Draft} {c : Rune}

theorem Move.Sound.ite {p : Prop} [Decidable p] {x y : Move} (hx : p → x.Sound) (hy : ¬ p → y.Sound) :
    (if p then x else y).Sound := by
  split
  · exact hx ‹_›
  · exact hy ‹_›

theorem sound_moveBetween (afterName : Bool) (h : d.Sound) (c : Rune) :
    (moveBetween afterName d c).Sound := by
  refine .ite (fun _ => h) fun hspace => .ite (fun _ => h.finish false) fun hend => ?_
  refine .ite (fun _ => h) fun hslash => .ite (fun _ => h) fun _ => ?_
  refine Draft.Sound.mark (h.addAttribute (isNameChar_visible hspace ?_ ?_)) _ _
  · exact fun heq => hslash (beq_iff_eq.2 heq)
  · exact fun heq => hend (beq_iff_eq.2 heq)

theorem sound_moveName (h : d.Sound) (c : Rune) : (moveName d c).Sound := by
  refine .ite (fun _ => h.endName) fun hequals => .ite (fun _ => h.endName.finish false) fun hend => ?_
  refine .ite (fun _ => h.endName) fun hspace => .ite (fun _ => h.endName) fun hslash => ?_
  have hchar : isNameChar (visible c).toLower := isNameChar_visible hspace
    (fun heq => hslash (beq_iff_eq.2 heq)) (fun heq => hend (beq_iff_eq.2 heq))
  have hname := h.addToName hchar fun heq => hequals (beq_iff_eq.2 heq)
  exact .ite (fun _ => hname.mark _ _) fun _ => hname.mark _ _

/-- Whatever character comes next, the tag stays sound. -/
theorem sound_move (place : Place) (h : d.Sound) (c : Rune) : (place.move d c).Sound := by
  cases place with
  | tagName =>
      refine .ite (fun _ => h) fun _ => .ite (fun _ => h.finish false) fun _ => ?_
      have hname : Draft.Sound { d with name := visible c :: d.name } := h
      exact .ite (fun _ => h) fun _ => hname.mark _ _
  | beforeName => exact sound_moveBetween false h c
  | name => exact sound_moveName h c
  | afterName => exact sound_moveBetween true h c
  | beforeValue =>
      refine .ite (fun _ => h) fun _ => .ite (fun _ => h) fun _ => ?_
      exact .ite (fun _ => (h.mark _ _).finish false) fun _ => (h.addToValue c).mark _ _
  | quoted quote => exact .ite (fun _ => h) fun _ => (h.addToValue c).mark _ _
  | bare =>
      refine .ite (fun _ => h) fun _ => .ite (fun _ => h.finish false) fun _ => ?_
      exact (h.addToValue c).mark _ _
  | afterValue =>
      refine .ite (fun _ => h) fun _ => .ite (fun _ => h.finish false) fun _ => ?_
      exact .ite (fun _ => h) fun _ => h.mark _ _
  | slash => exact .ite (fun _ => h.finish true) fun _ => h.mark _ _

end Moves

section Tokens

/-- The tag that is read from a place on. -/
theorem sound_readTag {place : Place} {d : Draft} {s rest : Chars} {t : Token} (h : d.Sound)
    (hread : readTag place d s = .inr (t, rest)) : t.Sound := by
  induction s generalizing place d with
  | nil => contradiction
  | cons c s ih =>
      have hmove := sound_move place h c
      rw [readTag] at hread
      generalize place.move d c = move at hmove hread
      cases move with
      | go place' d' => exact ih hmove hread
      | done t' =>
          obtain ⟨rfl, -⟩ := Prod.mk.inj (Sum.inr.inj hread)
          exact hmove
      | again place' d' =>
          have hagain := sound_move place' hmove c
          dsimp only at hread
          generalize place'.move d' c = move at hagain hread
          cases move with
          | go place'' d'' => exact ih hagain hread
          | done t' =>
              obtain ⟨rfl, -⟩ := Prod.mk.inj (Sum.inr.inj hread)
              exact hagain
          | again place'' d'' => exact ih hagain hread

theorem sound_readTagFrom (closing : Bool) (source : Chars) (c : Rune) (rest : Chars) :
    (readTagFrom closing source c rest).1.Sound := by
  have hdraft : Draft.Sound ⟨closing, [c], [], .none⟩ := fun _ ha => absurd ha List.not_mem_nil
  unfold readTagFrom
  split
  · rename_i hread
    exact sound_readTag hdraft hread
  · nofun
  · nofun

theorem sound_readClosing (s : Chars) : (readClosing s).1.Sound := by
  unfold readClosing
  split
  · nofun
  · split
    · exact sound_readTagFrom true _ _ _
    · split <;> nofun

theorem sound_readDeclaration (drawing : Bool) (s : Chars) :
    (readDeclaration drawing s).1.Sound := by
  unfold readDeclaration
  split
  · nofun
  · split
    · nofun
    · split
      · dsimp only
        split <;> nofun
      · nofun

/-- Every tag that is read is sound. -/
theorem sound_readToken (drawing : Bool) (c : Rune) (rest : Chars) :
    (readToken drawing c rest).1.Sound := by
  unfold readToken
  split
  · unfold readOpening
    split
    · nofun
    · split
      · exact sound_readDeclaration drawing _
      · split
        · exact sound_readClosing _
        · split
          · exact sound_readTagFrom false _ _ _
          · split
            · nofun
            · split <;> nofun
  · split
    · nofun
    · split <;> nofun

end Tokens

end Folio.Html
