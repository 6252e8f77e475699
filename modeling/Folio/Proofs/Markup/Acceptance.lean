import Folio.Markup.Node
import Folio.Proofs.Markup.Joining
import Folio.Proofs.Outcomes

/-!
Texts that the reader accepts. It refuses a text for one of two reasons: a marked section, or a
reference by a number of too many digits. A text that has neither is read, whatever else is wrong
with it.
-/
namespace Folio.Markup

/-- The text begins with what may be refused. -/
def beginsRefused : Chars → Bool
  | '<' :: '!' :: '[' :: _ => true
  | '&' :: '#' :: rest => Decimal.maxDigits < (rest.takeWhile Rune.isDigit).length
  | _ => false

/-- Nowhere in the text does something begin that may be refused. -/
def isAcceptable : Chars → Bool
  | [] => true
  | c :: rest => !beginsRefused (c :: rest) && isAcceptable rest

/-- The references by number in a text are short enough to be read. -/
def ShortNumbers (s : Chars) : Prop :=
  ∀ rest, .of '&' :: .of '#' :: rest <:+ s → (rest.takeWhile Rune.isDigit).length ≤ Decimal.maxDigits

/-- The reference is by no number of too many digits. -/
def Reference.IsShort : Reference → Prop
  | .decimal digits => digits.length ≤ Decimal.maxDigits
  | _ => True

/-- The event is no reference by a number of too many digits. -/
def Event.IsShort : Event → Prop
  | .reference r => r.IsShort
  | _ => True

/-- The events of a step. -/
def Step.events : Step → List Event
  | .go events _ _ => events
  | .stop events _ => events

/-- What a step leaves of the text. -/
def Step.rest : Step → Chars
  | .go _ _ rest => rest
  | .stop _ rest => rest

/-- The raw text element that is open after a step. -/
def Step.raw? : Step → Option Chars
  | .go _ raw _ => raw
  | .stop _ _ => none

section Texts

variable {s t : Chars}

theorem isAcceptable_of_suffix (h : isAcceptable s) (ht : t <:+ s) : isAcceptable t := by
  induction s with
  | nil => rwa [List.suffix_nil.1 ht]
  | cons c s ih =>
      rcases List.suffix_cons_iff.1 ht with rfl | hlater
      · exact h
      · exact ih (Bool.and_eq_true_iff.1 h).2 hlater

theorem beginsRefused_of_suffix (h : isAcceptable s) (ht : t <:+ s) : beginsRefused t = false := by
  have ht := isAcceptable_of_suffix h ht
  cases t with
  | nil => rfl
  | cons c t => simpa using (Bool.and_eq_true_iff.1 ht).1

theorem beginsRefused_iff : beginsRefused s ↔ (∃ rest, s = .of '<' :: .of '!' :: .of '[' :: rest) ∨
    ∃ rest, s = .of '&' :: .of '#' :: rest ∧
      Decimal.maxDigits < (rest.takeWhile Rune.isDigit).length := by
  unfold beginsRefused
  split
  · exact iff_of_true rfl (Or.inl ⟨_, rfl⟩)
  · rw [decide_eq_true_iff]
    constructor
    · exact fun h => Or.inr ⟨_, rfl, h⟩
    · rintro (⟨rest, heq⟩ | ⟨rest, heq, h⟩)
      · cases heq
      · cases heq
        exact h
  · rename_i hsection hnumber
    refine iff_of_false Bool.false_ne_true ?_
    rintro (⟨rest, rfl⟩ | ⟨rest, rfl, -⟩)
    · exact hsection rest rfl
    · exact hnumber rest rfl

/-- Text without marks before an acceptable text completes nothing that is refused. -/
theorem isAcceptable_append (hs : .of '<' ∉ s ∧ .of '&' ∉ s) (ht : isAcceptable t) :
    isAcceptable (s ++ t) := by
  induction s with
  | nil => exact ht
  | cons c s ih =>
      obtain ⟨hangle, hnotAngle⟩ := List.ne_and_not_mem_of_not_mem_cons hs.1
      obtain ⟨hamp, hnotAmp⟩ := List.ne_and_not_mem_of_not_mem_cons hs.2
      have hbegins : ¬ beginsRefused (c :: (s ++ t)) = true := by
        rw [beginsRefused_iff]
        rintro (⟨rest, heq⟩ | ⟨rest, heq, -⟩)
        · exact hangle (List.cons.inj heq).1.symm
        · exact hamp (List.cons.inj heq).1.symm
      rw [List.cons_append, isAcceptable, Bool.and_eq_true, Bool.not_eq_true', ← Bool.not_eq_true]
      exact ⟨hbegins, ih ⟨hnotAngle, hnotAmp⟩⟩

/-- What begins a tag completes nothing that is refused. -/
theorem isAcceptable_angle {c : Rune} (hc : c ≠ '!') (h : isAcceptable (c :: s)) :
    isAcceptable (.of '<' :: c :: s) := by
  have hbegins : ¬ beginsRefused (.of '<' :: c :: s) = true := by
    rw [beginsRefused_iff]
    rintro (⟨rest, heq⟩ | ⟨rest, heq, -⟩)
    · exact hc (List.cons.inj (List.cons.inj heq).2).1
    · exact absurd (List.cons.inj heq).1 (by decide)
  rw [isAcceptable, Bool.and_eq_true, Bool.not_eq_true', ← Bool.not_eq_true]
  exact ⟨hbegins, h⟩

theorem takeWhile_append_endTag (s t : Chars) :
    (s ++ .of '<' :: .of '/' :: t).takeWhile Rune.isDigit = s.takeWhile Rune.isDigit := by
  have hstop : (.of '<' :: .of '/' :: t).takeWhile Rune.isDigit = [] := rfl
  rw [List.takeWhile_append, hstop, List.append_nil]
  split
  · rename_i hall
    exact ((List.takeWhile_prefix _).eq_of_length hall).symm
  · rfl

/-- An end tag after some text completes nothing that is refused. -/
theorem beginsRefused_of_append_endTag {c : Rune}
    (h : beginsRefused (c :: s ++ .of '<' :: .of '/' :: t)) : beginsRefused (c :: s) := by
  rw [beginsRefused_iff] at h ⊢
  rcases h with ⟨rest, heq⟩ | ⟨rest, heq, hlength⟩
  · cases s with
    | nil => simp at heq
    | cons d s =>
        cases s with
        | nil => simp at heq
        | cons e s =>
            simp only [List.cons_append, List.cons.injEq] at heq
            obtain ⟨rfl, rfl, rfl, -⟩ := heq
            exact Or.inl ⟨s, rfl⟩
  · cases s with
    | nil => simp at heq
    | cons d s =>
        simp only [List.cons_append, List.cons.injEq] at heq
        obtain ⟨rfl, rfl, rfl⟩ := heq
        rw [takeWhile_append_endTag] at hlength
        exact Or.inr ⟨s, rfl, hlength⟩

/-- An end tag after an acceptable text completes nothing that is refused. -/
theorem isAcceptable_append_endTag (hs : isAcceptable s)
    (ht : isAcceptable (.of '<' :: .of '/' :: t)) :
    isAcceptable (s ++ .of '<' :: .of '/' :: t) := by
  induction s with
  | nil => exact ht
  | cons c s ih =>
      obtain ⟨hbegins, hlater⟩ := Bool.and_eq_true_iff.1 hs
      rw [List.cons_append, isAcceptable, Bool.and_eq_true]
      refine ⟨?_, ih hlater⟩
      rw [Bool.not_eq_true', ← Bool.not_eq_true] at hbegins ⊢
      exact mt beginsRefused_of_append_endTag hbegins

theorem shortNumbers_of_isAcceptable (h : isAcceptable s) : ShortNumbers s := by
  intro rest hrest
  have hbegins := beginsRefused_of_suffix h hrest
  exact Nat.le_of_not_lt (of_decide_eq_false hbegins)

/-- A piece of a text has no longer references than the text. -/
theorem ShortNumbers.piece (h : ShortNumbers s) (ht : t <:+: s) : ShortNumbers t := by
  obtain ⟨before, after, rfl⟩ := ht
  intro rest hrest
  obtain ⟨more, rfl⟩ := hrest
  have hwhole : .of '&' :: .of '#' :: (rest ++ after) <:+
      before ++ (more ++ .of '&' :: .of '#' :: rest) ++ after :=
    ⟨before ++ more, by simp⟩
  have hrun : (rest.takeWhile Rune.isDigit).length ≤
      ((rest ++ after).takeWhile Rune.isDigit).length := by
    rw [List.takeWhile_append]
    split
    · rw [List.length_append]
      exact Nat.le_trans (List.takeWhile_prefix _).length_le (Nat.le_add_right _ _)
    · exact Nat.le_refl _
  exact Nat.le_trans hrun (h _ hwhole)

end Texts

section Values

variable {s rest : Chars} {r : Reference}

theorem suffix_dropSemicolon (s : Chars) : dropSemicolon s <:+ s := (Skips.dropSemicolon s).suffix

/-- What follows a reference is left of the text, and the reference is no longer than those of the
text. -/
theorem reference?_sound (hs : ShortNumbers (.of '&' :: s)) (h : reference? s = some (r, rest)) :
    rest <:+ s ∧ r.IsShort := by
  unfold reference? at h
  split at h
  · contradiction
  · rename_i more
    dsimp only at h
    split at h
    · obtain ⟨rfl, rfl⟩ := Prod.mk.inj (Option.some.inj h)
      refine ⟨?_, hs more (List.suffix_refl _)⟩
      exact ((suffix_dropSemicolon _).trans (List.drop_suffix _ _)).trans (List.suffix_cons _ _)
    · split at h
      · contradiction
      · rename_i x inside
        rw [Option.ite_none_right_eq_some] at h
        obtain ⟨rfl, rfl⟩ := Prod.mk.inj (Option.some.inj h.2)
        refine ⟨?_, trivial⟩
        exact (((suffix_dropSemicolon _).trans (List.drop_suffix _ _)).trans
          (List.suffix_cons _ _)).trans (List.suffix_cons _ _)
  · dsimp only at h
    rw [Option.ite_none_left_eq_some] at h
    obtain ⟨-, h⟩ := h
    have hdrop := List.drop_suffix ((s.takeWhile isNameChar).take 32).length s
    split at h
    · rename_i hsemicolon
      obtain ⟨rfl, rfl⟩ := Prod.mk.inj (Option.some.inj h)
      rw [hsemicolon] at hdrop
      exact ⟨(List.suffix_cons _ _).trans hdrop, trivial⟩
    · obtain ⟨rfl, rfl⟩ := Prod.mk.inj (Option.some.inj h)
      exact ⟨hdrop, trivial⟩

theorem exists_inValue (h : r.IsShort) : ∃ text, r.inValue = .ok text := by
  cases r with
  | decimal digits =>
      rw [Reference.inValue, decimalNumber, if_neg (Nat.not_lt.2 h)]
      exact ⟨_, rfl⟩
  | hexadecimal digits => exact ⟨_, rfl⟩
  | name text => exact ⟨_, rfl⟩

/-- A value whose references are short is decoded. -/
theorem exists_decodeValueGo (fuel : Nat) (h : ShortNumbers s) :
    ∃ text, decodeValueGo fuel s = .ok text := by
  induction fuel generalizing s with
  | zero => exact ⟨s, rfl⟩
  | succ fuel ih =>
      cases s with
      | nil => exact ⟨[], rfl⟩
      | cons c s =>
          have hs : ShortNumbers s := h.piece (List.suffix_cons c s).isInfix
          rw [decodeValueGo]
          split
          · rename_i hamp
            obtain rfl := beq_iff_eq.1 hamp
            split
            · rename_i r rest hreference
              obtain ⟨hsuffix, hshort⟩ := reference?_sound h hreference
              obtain ⟨text, htext⟩ := exists_inValue hshort
              obtain ⟨tail, htail⟩ := ih (hs.piece hsuffix.isInfix)
              rw [htext, htail]
              exact ⟨_, rfl⟩
            · obtain ⟨tail, htail⟩ := ih hs
              rw [htail]
              exact ⟨_, rfl⟩
          · obtain ⟨tail, htail⟩ := ih hs
            rw [htail]
            exact ⟨_, rfl⟩

end Values

section Tags

variable {c : Cursor}

theorem infix_bareValue (c : Cursor) : (bareValue c).1 <:+: c.rest :=
  (List.takeWhile_prefix _).isInfix

/-- The last of some equals signs stands before what follows them. -/
theorem suffix_equals (h : ¬ (c.rest.takeWhile (· == .of '=')).isEmpty) :
    .of '=' :: (c.skipWhile (· == .of '=')).rest <:+ c.rest := by
  have hsplit := List.takeWhile_append_dropWhile (p := (· == .of '=')) (l := c.rest)
  have hall : ∀ x ∈ c.rest.takeWhile (· == Rune.of '='), x = '=' :=
    fun x hx => beq_iff_eq.1 (List.mem_takeWhile_imp (p := (· == Rune.of '=')) hx)
  rw [Cursor.skipWhile, rest_skipWhile]
  rcases List.eq_nil_or_concat (c.rest.takeWhile (· == .of '=')) with hnil | ⟨front, last, hconcat⟩
  · exact absurd (List.isEmpty_iff.2 hnil) h
  · rw [List.concat_eq_append] at hconcat
    rw [hconcat] at hsplit hall
    obtain rfl := hall last (List.mem_append_right front List.mem_cons_self)
    rw [List.append_assoc] at hsplit
    exact ⟨front, hsplit⟩

/-- The value of an attribute stands in the text. One that begins with an equals sign begins with
the last of those before it. -/
theorem infix_attributeValue {value : Chars} (h : (attributeValue c).1 = some value) :
    value <:+: c.rest := by
  have hname : (c.skipWhile Text.isBlank).rest <:+ c.rest := suffix_skipWhile _ _ _
  unfold attributeValue at h
  dsimp only at h
  generalize c.skipWhile Text.isBlank = afterName at *
  split at h
  · contradiction
  · rename_i hsome
    have hequals := (suffix_equals hsome).trans hname
    generalize afterName.skipWhile (· == .of '=') = afterEquals at *
    have hblanks : (afterEquals.skipWhile Text.isBlank).rest <:+ afterEquals.rest :=
      suffix_skipWhile _ _ _
    generalize afterEquals.skipWhile Text.isBlank = start at *
    have hstart : start.rest <:+ c.rest := hblanks.trans ((List.suffix_cons _ _).trans hequals)
    have hbare : (bareValue start).1 <:+: c.rest := (infix_bareValue start).trans hstart.isInfix
    split at h
    · exact Option.some.inj h ▸ hbare
    · rename_i quote rest hrest
      split at h
      · exact Option.some.inj h ▸ hbare
      · split at h
        · rename_i inside after hsplit
          obtain rfl := Option.some.inj h
          obtain ⟨rfl, -⟩ := splitAtFirst?_sound hsplit
          have hinside : inside <:+: quote :: (inside ++ quote :: after) :=
            ⟨[quote], quote :: after, by simp⟩
          exact hinside.trans (hrest ▸ hstart).isInfix
        · split at h
          · exact Option.some.inj h ▸ List.nil_infix
          · rename_i hlength
            split at h
            · obtain rfl := Option.some.inj h
              have hsame : start.rest = afterEquals.rest :=
                hblanks.eq_of_length (Nat.le_antisymm hblanks.length_le (Nat.le_of_not_lt hlength))
              have hvalue : .of '=' :: (bareValue start).1 <+: .of '=' :: start.rest :=
                (List.prefix_cons_inj (Rune.of '=')).2 (List.takeWhile_prefix _)
              exact hvalue.isInfix.trans (hsame ▸ hequals).isInfix
            · contradiction

theorem infix_of_mem_rawAttributes {fuel : Nat} {c : Cursor} {a : Chars × Option Chars}
    (ha : a ∈ (rawAttributes fuel c).1) : ∀ value ∈ a.2, value <:+: c.rest := by
  induction fuel generalizing c with
  | zero => exact absurd ha List.not_mem_nil
  | succ fuel ih =>
      rw [rawAttributes] at ha
      split at ha
      · exact absurd ha List.not_mem_nil
      · rename_i name afterName hname
        have hafter := (suffix_attributeName? hname).1
        rcases List.mem_cons.1 ha with rfl | hlater
        · exact fun value hvalue => (infix_attributeValue hvalue).trans hafter.isInfix
        · have hrest := ((suffix_skipGap (attributeValue afterName).2.before _).trans
            (suffix_attributeValue afterName)).trans hafter
          exact fun value hvalue => (ih hlater value hvalue).trans hrest.isInfix

theorem exists_readAttribute {a : Chars × Option Chars} (h : ∀ value ∈ a.2, ShortNumbers value) :
    ∃ read, readAttribute a = .ok read := by
  obtain ⟨name, value⟩ := a
  cases value with
  | none => exact ⟨_, rfl⟩
  | some value =>
      obtain ⟨text, htext⟩ := exists_decodeValueGo value.length (h value rfl)
      rw [readAttribute, decodeValue, htext]
      exact ⟨_, rfl⟩

/-- A start tag whose references are short is read. -/
theorem exists_readStartTag {s : Chars} (h : ShortNumbers s) :
    ∃ reading, readStartTag s = .ok reading := by
  have hstart : ShortNumbers (afterTagName s).rest :=
    h.piece ((suffix_skipGap _ _).trans (suffix_skipWhile _ _ _)).isInfix
  obtain ⟨attrs, hattrs⟩ : ∃ attrs, (tagAttributes s).1.mapM readAttribute = .ok attrs :=
    exists_mapM fun a ha => exists_readAttribute fun value hvalue =>
      hstart.piece (infix_of_mem_rawAttributes ha value hvalue)
  rw [readStartTag_eq, hattrs]
  split <;> exact ⟨_, rfl⟩

end Tags

/-- A step stays in the text, and reports no reference by a number of too many digits. -/
structure Step.Stays (s : Chars) (done : Step) : Prop where
  suffix : done.rest <:+ s
  short : ∀ event ∈ done.events, event.IsShort
  rawText : ∀ name ∈ done.raw?, isRawText name

section Steps

variable {final : Bool} {s rest : Chars}

theorem short_nil : ∀ event ∈ ([] : List Event), event.IsShort :=
  fun _ h => absurd h List.not_mem_nil

theorem short_singleton {event : Event} (h : event.IsShort) :
    ∀ other ∈ [event], other.IsShort := by
  intro other hother
  exact List.mem_singleton.1 hother ▸ h

theorem suffix_unfinished (rest : Chars) : (unfinished rest).2 <:+ rest := by
  unfold unfinished
  split
  · rename_i hsplit
    exact (List.suffix_cons _ _).trans (suffix_splitAtFirst? hsplit)
  · split
    · rename_i hsplit
      exact suffix_splitAtFirst? hsplit
    · exact List.suffix_refl _

/-- A construct, finished or not. -/
theorem stays_orUnfinished {found : Option (List Event × Chars)}
    (hfound : ∀ pair ∈ found, pair.2 <:+ rest ∧ ∀ event ∈ pair.1, event.IsShort) :
    (orUnfinished final rest found).Stays (.of '<' :: rest) := by
  cases found with
  | some pair =>
      obtain ⟨hsuffix, hshort⟩ := hfound pair rfl
      exact ⟨hsuffix.trans (List.suffix_cons _ _), hshort, rawText_none⟩
  | none =>
      cases final with
      | false => exact ⟨List.suffix_refl _, short_nil, rawText_none⟩
      | true =>
          exact ⟨(suffix_unfinished rest).trans (List.suffix_cons _ _),
            short_singleton trivial, rawText_none⟩

theorem stays_stepRaw {name : Chars} (hname : isRawText name) (s : Chars) :
    (stepRaw name s).Stays s := by
  have hclose := endsAtAngle_rawEnd? hname
  have hraw : ∀ other ∈ some name, isRawText other := fun other hother =>
    Option.some.inj hother ▸ hname
  unfold stepRaw
  split
  · exact ⟨List.suffix_refl _, short_nil, rawText_none⟩
  · rename_i after hupTo
    have hsuffix := (List.suffix_cons _ _).trans (hclose.suffix_upTo? hupTo)
    dsimp only
    split
    · exact ⟨hsuffix, short_singleton trivial, rawText_none⟩
    · exact ⟨hsuffix, short_singleton trivial, hraw⟩
  · exact ⟨List.drop_suffix _ _, short_singleton trivial, hraw⟩

/-- The digits of a reference by number stand at the start of what follows its mark. -/
theorem eq_of_numericReference? {digits after : Chars}
    (h : numericReference? s = some (.decimal digits, after)) :
    digits = s.takeWhile Rune.isDigit := by
  cases s with
  | nil => contradiction
  | cons x s =>
      have hend : ∀ {r text}, numberEnd? r text = some (.decimal digits, after) →
          r = .decimal digits := by
        intro r text hend
        cases text with
        | nil => contradiction
        | cons c text =>
            rw [numberEnd?, Option.ite_none_left_eq_some] at hend
            exact (Prod.mk.inj (Option.some.inj hend.2)).1
      rw [numericReference?_cons] at h
      split at h
      · exact (Reference.decimal.inj (hend h)).symm
      · split at h
        · rw [Option.ite_none_left_eq_some] at h
          have hkind := hend h.2
          contradiction
        · contradiction

/-- A named reference is none by number. -/
theorem ne_of_namedReference? {digits after : Chars} :
    namedReference? s ≠ some (.decimal digits, after) := by
  intro h
  cases s with
  | nil => contradiction
  | cons first more =>
      dsimp only [namedReference?] at h
      split at h
      · contradiction
      · split at h
        · split at h
          · contradiction
          · cases h
        · cases h

theorem stays_stepAmpersand (h : isAcceptable (.of '&' :: rest)) :
    (stepAmpersand final rest).Stays (.of '&' :: rest) := by
  have hplain := plain_stepAmpersand final rest
  have hshort : ∀ event ∈ (stepAmpersand final rest).events, event.IsShort := by
    unfold stepAmpersand
    split
    · exact short_nil
    · rename_i digits
      split
      · rename_i r after hreference
        cases r with
        | decimal run =>
            rw [eq_of_numericReference? hreference]
            exact short_singleton (shortNumbers_of_isAcceptable h digits (List.suffix_refl _))
        | hexadecimal run => exact short_singleton trivial
        | name run => exact short_singleton trivial
      · split
        · exact short_singleton trivial
        · exact short_nil
    · rename_i c more _
      split
      · rename_i r after hreference
        cases r with
        | decimal run => exact absurd hreference ne_of_namedReference?
        | hexadecimal run => exact short_singleton trivial
        | name run => exact short_singleton trivial
      · split
        · split <;> exact short_nil
        · exact short_singleton trivial
  cases hstep : stepAmpersand final rest with
  | go events raw left =>
      rw [hstep] at hplain hshort
      obtain ⟨-, rfl, hskips⟩ := hplain
      exact ⟨hskips.suffix, hshort, rawText_none⟩
  | stop events left =>
      rw [hstep] at hplain hshort
      exact ⟨hplain.2.suffix, hshort, rawText_none⟩

theorem short_endTagEvents (inside : Chars) : ∀ event ∈ endTagEvents inside, event.IsShort := by
  unfold endTagEvents
  split
  · exact short_singleton trivial
  · split
    · exact short_nil
    · split
      · exact short_singleton trivial
      · exact short_singleton trivial

/-- A declaration that is no marked section is not refused. -/
theorem exists_declaration (h : ∀ inside, s ≠ .of '[' :: inside) :
    ∃ found, declaration s = .ok found ∧ ∀ pair ∈ found, ∀ event ∈ pair.1, event.IsShort := by
  cases s with
  | nil => exact ⟨_, rfl, fun _ hpair => absurd hpair (Option.not_mem_none _)⟩
  | cons c s =>
      have hc : c ≠ '[' := fun heq => h s (by rw [heq])
      rw [declaration_of_ne hc]
      split
      · refine ⟨_, rfl, fun pair hpair => ?_⟩
        obtain ⟨found, -, rfl⟩ := Option.map_eq_some_iff.1 hpair
        exact short_singleton trivial
      · refine ⟨_, rfl, fun pair hpair => ?_⟩
        obtain ⟨found, -, rfl⟩ := Option.map_eq_some_iff.1 hpair
        exact short_singleton trivial

/-- A construct that is no marked section is not refused. -/
theorem exists_construct? {mark : Rune} (hmark : mark ∈ [.of '/', .of '?', .of '!'])
    (h : isAcceptable (.of '<' :: mark :: s)) : ∃ found, construct? mark s = .ok found ∧
      ∀ pair ∈ found, ∀ event ∈ pair.1, event.IsShort := by
  unfold construct?
  split
  · refine ⟨_, rfl, fun pair hpair => ?_⟩
    obtain ⟨found, -, rfl⟩ := Option.map_eq_some_iff.1 hpair
    exact short_endTagEvents _
  · split
    · refine ⟨_, rfl, fun pair hpair => ?_⟩
      obtain ⟨found, -, rfl⟩ := Option.map_eq_some_iff.1 hpair
      exact short_singleton trivial
    · rename_i hslash hquestion
      split
      · refine ⟨_, rfl, fun pair hpair => ?_⟩
        obtain ⟨found, -, rfl⟩ := Option.map_eq_some_iff.1 hpair
        exact short_singleton trivial
      · apply exists_declaration
        rintro inside rfl
        have hbang : mark = '!' := by
          simpa [beq_iff_eq.not.1 hslash, beq_iff_eq.not.1 hquestion] using hmark
        subst hbang
        have hrefused := beginsRefused_of_suffix h (List.suffix_refl _)
        contradiction

theorem stays_tagStep {reading : TagReading} (h : readStartTag rest = .ok reading) :
    (tagStep final rest reading).Stays (.of '<' :: rest) := by
  cases reading with
  | tag tag after =>
      have hsuffix := ((List.suffix_cons _ _).trans (suffix_of_tag h)).trans
        (suffix_tagAttributes rest)
      refine ⟨hsuffix.trans (List.suffix_cons _ _), short_singleton trivial, ?_⟩
      intro name hname
      simp only [Step.raw?, tagStep, Option.mem_def, Option.ite_none_right_eq_some,
        Bool.and_eq_true] at hname
      rw [← Option.some.inj hname.2]
      exact hname.1.2
  | broken after =>
      have hsuffix : after <:+ rest := eq_of_broken h ▸ suffix_tagAttributes rest
      exact ⟨hsuffix.trans (List.suffix_cons _ _), short_singleton trivial, rawText_none⟩
  | unfinished =>
      have hnone : ∀ pair ∈ (none : Option (List Event × Chars)),
          pair.2 <:+ rest ∧ ∀ event ∈ pair.1, event.IsShort :=
        fun _ hpair => absurd hpair (Option.not_mem_none _)
      exact stays_orUnfinished hnone

theorem exists_stepAngle (h : isAcceptable (.of '<' :: rest)) :
    ∃ done, stepAngle final rest = .ok done ∧ done.Stays (.of '<' :: rest) := by
  cases rest with
  | nil => exact ⟨_, rfl, List.suffix_refl _, short_nil, rawText_none⟩
  | cons c s =>
      by_cases hletter : c.isAlpha
      · have hshort := (shortNumbers_of_isAcceptable h).piece (List.suffix_cons _ _).isInfix
        obtain ⟨reading, hreading⟩ := exists_readStartTag hshort
        rw [stepAngle_letter hletter, hreading]
        exact ⟨_, rfl, stays_tagStep hreading⟩
      · by_cases hmark : c ∈ [.of '/', .of '?', .of '!']
        · obtain ⟨found, hfound, hall⟩ := exists_construct? hmark h
          rw [stepAngle_mark hmark, hfound]
          refine ⟨_, rfl, stays_orUnfinished fun pair hpair => ⟨?_, hall pair hpair⟩⟩
          obtain rfl : found = some pair := hpair
          have hsuffix := (construct?_complete hfound).1
          exact ((List.suffix_cons _ _).trans hsuffix).trans (List.suffix_cons _ _)
        · rw [stepAngle_other hletter hmark]
          exact ⟨_, rfl, List.suffix_cons _ _, short_singleton trivial, rawText_none⟩

/-- A step in an acceptable text succeeds. -/
theorem exists_step (final : Bool) {raw : Option Chars} (hraw : ∀ name ∈ raw, isRawText name)
    (h : isAcceptable s) : ∃ done, step final raw s = .ok done ∧ done.Stays s := by
  cases raw with
  | some name => exact ⟨_, rfl, stays_stepRaw (hraw name rfl) s⟩
  | none =>
      cases s with
      | nil => exact ⟨_, rfl, List.suffix_refl _, short_nil, rawText_none⟩
      | cons c s =>
          dsimp only [step]
          split
          · rename_i hangle
            obtain rfl := beq_iff_eq.1 hangle
            exact exists_stepAngle h
          · split
            · rename_i hamp
              obtain rfl := beq_iff_eq.1 hamp
              exact ⟨_, rfl, stays_stepAmpersand h⟩
            · exact ⟨_, rfl, List.dropWhile_suffix _, short_singleton trivial, rawText_none⟩

end Steps

section Pass

/-- A pass over an acceptable text succeeds, and stays in it. -/
theorem exists_pass (final : Bool) (fuel : Nat) {raw : Option Chars} {s : Chars}
    (hraw : ∀ name ∈ raw, isRawText name) (h : isAcceptable s) :
    ∃ scan, pass final fuel raw s = .ok scan ∧ scan.rest <:+ s ∧
      (∀ event ∈ scan.events, event.IsShort) ∧ ∀ name ∈ scan.raw, isRawText name := by
  induction fuel generalizing raw s with
  | zero => exact ⟨_, rfl, List.suffix_refl _, short_nil, hraw⟩
  | succ fuel ih =>
      cases s with
      | nil => exact ⟨_, rfl, List.suffix_refl _, short_nil, hraw⟩
      | cons c s =>
          obtain ⟨done, hstep, hstays⟩ := exists_step final hraw h
          rw [pass, hstep]
          cases done with
          | stop events rest => exact ⟨_, rfl, hstays.suffix, hstays.short, hraw⟩
          | go events raw' rest =>
              obtain ⟨scan, hscan, hsuffix, hshort, hlater⟩ :=
                ih hstays.rawText (isAcceptable_of_suffix h hstays.suffix)
              dsimp only [Step.raw?, Step.rest] at hscan ⊢
              rw [hscan]
              refine ⟨_, rfl, hsuffix.trans hstays.suffix, fun event hevent => ?_, hlater⟩
              exact (List.mem_append.1 hevent).elim (hstays.short event) (hshort event)

theorem exists_readEvents {s : Chars} (h : isAcceptable s) :
    ∃ events, readEvents s = .ok events ∧ ∀ event ∈ events, event.IsShort := by
  obtain ⟨first, hfirst, hsuffix, hshort, hraw⟩ :=
    exists_pass false (s.length + 1) rawText_none h
  obtain ⟨last, hlast, -, hmore, -⟩ :=
    exists_pass true (first.rest.length + 1) hraw (isAcceptable_of_suffix h hsuffix)
  rw [readEvents, hfirst]
  dsimp only
  rw [hlast]
  refine ⟨_, rfl, fun event hevent => ?_⟩
  rcases List.mem_append.1 hevent with hevent | htail
  · exact (List.mem_append.1 hevent).elim (hshort event) (hmore event)
  · rw [List.mem_ite_nil_left, List.mem_singleton] at htail
    rw [htail.2]
    exact trivial

/-- Events without too long references build a tree. -/
theorem exists_foldlM {events : List Event} (h : ∀ event ∈ events, event.IsShort) (b : Builder) :
    ∃ built, events.foldlM Builder.event b = .ok built := by
  induction events generalizing b with
  | nil => exact ⟨b, rfl⟩
  | cons event events ih =>
      have hevent : ∃ next, b.event event = .ok next := by
        cases event with
        | reference r =>
            cases r with
            | decimal digits =>
                have hlength : digits.length ≤ Decimal.maxDigits := h _ List.mem_cons_self
                rw [Builder.event, Builder.referenceText, decimalNumber,
                  if_neg (Nat.not_lt.2 hlength)]
                exact ⟨_, rfl⟩
            | hexadecimal digits => exact ⟨_, rfl⟩
            | name text => exact ⟨_, rfl⟩
        | _ => exact ⟨_, rfl⟩
      obtain ⟨next, hnext⟩ := hevent
      rw [List.foldlM_cons, hnext]
      exact ih (fun other hother => h other (List.mem_cons_of_mem event hother)) next

/-- An acceptable text is read. -/
theorem isOk_read_of_isAcceptable {s : Chars} (h : isAcceptable s) : (Node.read s).isOk := by
  obtain ⟨events, hevents, hshort⟩ := exists_readEvents h
  obtain ⟨built, hbuilt⟩ := exists_foldlM hshort .empty
  rw [Node.read, hevents]
  dsimp only
  rw [Node.ofEvents, hbuilt]
  rfl

end Pass

end Folio.Markup
