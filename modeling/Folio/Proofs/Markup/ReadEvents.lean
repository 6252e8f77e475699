import Folio.Proofs.Markup.Acceptance
import Folio.Proofs.Markup.AttributeNames
import Folio.Proofs.Markup.RawText

/-!
What the reader reports. Names come in lower case and can be written in a tag again, the content of
a construct does not hold the end of it, and after the start tag of a raw text element come its
text and its end tag, in whatever way the source is cut off or goes wrong.
-/
namespace Folio.Markup

/-- A start tag whose names are in lower case, and are read again when they are written. Its values
are decoded from pieces of the source. -/
structure StartTag.Sound (source : Chars) (tag : StartTag) : Prop where
  name : TagName tag.name
  lower : Text.lower tag.name = tag.name
  attrs : ∀ a ∈ tag.attrs, AttributeName a.1 ∧ Text.lower a.1 = a.1
  values : ∀ a ∈ tag.attrs, ∀ value ∈ a.2, ∃ raw, raw <:+: source ∧ decodeValue raw = .ok value

section Names

variable {c : Rune} {s name : Chars}

/-- Lower case of the first character does not depend on those after it. -/
theorem lower_cons (c : Rune) (s : Chars) : Text.lower (c :: s) =
    (if c == 'Σ' then [.of 'σ'] else Text.lowerChar c) ++ Text.lowerGo [c] s := rfl

theorem isTagMark_of_endsTagName (h : endsTagName c) : Text.isTagMark c := by
  simp only [endsTagName, Bool.or_eq_true, beq_iff_eq] at h
  rcases h with ((((((rfl | rfl) | rfl) | rfl) | rfl) | rfl) | rfl) | rfl <;> decide

theorem TagName.lowered (h : TagName name) : TagName (Text.lower name) := by
  obtain ⟨c, letters, rfl, halpha⟩ := h.first
  have hascii : c.toNat < 128 := by
    have hrange := toNat_of_isAlpha halpha
    omega
  have hsigma : c ≠ 'Σ' := fun heq => absurd (heq ▸ hascii) (by decide)
  refine ⟨⟨c.toLower, Text.lowerGo [c] letters, ?_, ?_⟩, fun d hd => ?_⟩
  · rw [lower_cons, beq_false_of_ne hsigma, if_neg Bool.false_ne_true, Text.lowerChar,
      if_pos hascii]
    rfl
  · exact Text.ascii_forall (P := fun c => c.isAlpha → c.toLower.isAlpha) (by decide +kernel)
      hascii halpha
  · rw [Bool.eq_false_iff]
    intro hends
    have hmem := Text.mem_of_mem_lower hd (isTagMark_of_endsTagName hends)
    rw [h.inside d hmem] at hends
    contradiction

theorem attributeName_of_attributeName? {c after : Cursor} {name : Chars}
    (h : attributeName? c = some (name, after)) : AttributeName name := by
  unfold attributeName? at h
  split at h
  · contradiction
  · rename_i first rest _
    rw [Option.ite_none_left_eq_some] at h
    obtain ⟨hfirst, heq⟩ := h
    obtain ⟨rfl, -⟩ := Prod.mk.inj (Option.some.inj heq)
    simp only [Bool.or_eq_true, beq_iff_eq, not_or] at hfirst
    refine ⟨first, _, rfl, Bool.eq_false_iff.2 hfirst.1.1.2, hfirst.1.2, hfirst.2, fun d hd => ?_⟩
    have hinside := List.mem_takeWhile_imp hd
    simpa [endsAttributeName] using hinside

theorem attributeName_of_mem_rawAttributes {fuel : Nat} {c : Cursor} {a : Chars × Option Chars}
    (ha : a ∈ (rawAttributes fuel c).1) : AttributeName a.1 := by
  induction fuel generalizing c with
  | zero => exact absurd ha List.not_mem_nil
  | succ fuel ih =>
      rw [rawAttributes] at ha
      split at ha
      · exact absurd ha List.not_mem_nil
      · rename_i name afterName hname
        rcases List.mem_cons.1 ha with rfl | hlater
        · exact attributeName_of_attributeName? hname
        · exact ih hlater

/-- A start tag is read with sound names. -/
theorem sound_of_readStartTag {tag : StartTag} {rest : Chars} (hc : c.isAlpha)
    (h : readStartTag (c :: s) = .ok (.tag tag rest)) : tag.Sound (c :: s) := by
  rw [readStartTag_eq] at h
  split at h
  · cases h
  · cases h
  · obtain ⟨attrs, hattrs, heq⟩ := exists_of_map_eq_ok h
    obtain ⟨rfl, -⟩ := TagReading.tag.inj heq
    have hfirst : endsTagName c = false := by
      rw [Bool.eq_false_iff]
      intro hends
      simp only [endsTagName, Bool.or_eq_true, beq_iff_eq] at hends
      rcases hends with ((((((rfl | rfl) | rfl) | rfl) | rfl) | rfl) | rfl) | rfl <;>
        exact absurd hc (by decide)
    have hname : TagName ((c :: s).takeWhile fun c => !endsTagName c) := by
      refine ⟨⟨c, _, List.takeWhile_cons_of_pos (by rw [hfirst]; rfl), hc⟩, fun d hd => ?_⟩
      simpa using List.mem_takeWhile_imp hd
    refine ⟨hname.lowered, Text.lower_lower _, fun a ha => ?_, fun a ha => ?_⟩
    · obtain ⟨⟨name, value⟩, hraw, hread⟩ := exists_of_mem_mapM hattrs ha
      have hlowered : a.1 = Text.lower name := by
        cases value with
        | none => exact congrArg Prod.fst (Except.ok.inj hread).symm
        | some value =>
            obtain ⟨text, -, rfl⟩ := exists_of_map_eq_ok hread
            rfl
      rw [hlowered]
      exact ⟨attributeName_lower_iff.2 (attributeName_of_mem_rawAttributes hraw), Text.lower_lower name⟩
    · obtain ⟨⟨name, value⟩, hraw, hread⟩ := exists_of_mem_mapM hattrs ha
      cases value with
      | none =>
          rw [← Except.ok.inj hread]
          exact fun value hvalue => absurd hvalue (Option.not_mem_none value)
      | some raw =>
          obtain ⟨text, htext, rfl⟩ := exists_of_map_eq_ok hread
          intro value hvalue
          obtain rfl := Option.some.inj hvalue
          have hstart : (afterTagName (c :: s)).rest <:+ c :: s :=
            (suffix_skipGap _ _).trans (suffix_skipWhile _ _ _)
          exact ⟨raw, (infix_of_mem_rawAttributes hraw raw rfl).trans hstart.isInfix, htext⟩

end Names

/-- An event whose content does not hold its own end, and whose names can be written again. -/
def Event.Sound (source : Chars) : Event → Prop
  | .start tag => tag.Sound source
  | .comment content => NoEnd commentEnd? content []
  | .doctype content => .of '>' ∉ content
  | .instruction content => .of '>' ∉ content
  | .marked content => NoEnd sectionEnd? content []
  | .text _ => True
  | .reference _ => True
  | .close _ => True

theorem Event.Sound.mono {source s : Chars} {e : Event} (h : e.Sound s) (hs : s <:+: source) :
    e.Sound source := by
  cases e with
  | start tag =>
      obtain ⟨hname, hlower, hattrs, hvalues⟩ := h
      refine ⟨hname, hlower, hattrs, fun a ha value hvalue => ?_⟩
      obtain ⟨raw, hraw, hdecode⟩ := hvalues a ha value hvalue
      exact ⟨raw, hraw.trans hs, hdecode⟩
  | _ => exact h

/-- The raw text element that the event opens. -/
def Event.raw? : Event → Option Chars
  | .start tag => if !tag.selfClosing && isRawText tag.name then some tag.name else none
  | _ => none

theorem isRawText_of_raw? {e : Event} {name : Chars} (h : e.raw? = some name) : isRawText name := by
  cases e with
  | start tag =>
      rw [Event.raw?, Option.ite_none_right_eq_some, Bool.and_eq_true] at h
      exact Option.some.inj h.2 ▸ h.1.2
  | _ => contradiction

/-- At most one event, which is sound and opens no raw text. -/
def OneSound (source : Chars) (events : List Event) : Prop :=
  events = [] ∨ ∃ e, events = [e] ∧ e.Sound source ∧ e.raw? = none

/-- A step outside raw text, with the character it begins at. -/
inductive PlainStep (c : Rune) (s : Chars) : Step → Prop
  | read {e : Event} {rest : Chars} (he : e.Sound s) (hrest : rest <:+ s) :
      PlainStep c s (.go [e] e.raw? rest)
  | skip {rest : Chars} (hrest : rest <:+ s) : PlainStep c s (.go [] none rest)
  | stop {events : List Event} {rest : Chars}
      (hevents : ∀ e ∈ events, ∃ content, e = .text content) (hrest : rest <:+ c :: s) :
      PlainStep c s (.stop events rest)

section Steps

variable {final : Bool} {c mark : Rune} {source s rest content after : Chars} {events : List Event}
  {done : Step}

theorem OneSound.plainStep (h : OneSound s events) (hrest : rest <:+ s) :
    PlainStep c s (.go events none rest) := by
  rcases h with rfl | ⟨e, rfl, he, hraw⟩
  · exact .skip hrest
  · exact hraw ▸ .read he hrest

theorem plainStep_text (content : Chars) (hrest : rest <:+ s) :
    PlainStep c s (.go [.text content] none rest) :=
  .read (e := .text content) trivial hrest

theorem plainStep_stop (hrest : rest <:+ c :: s) : PlainStep c s (.stop [] rest) :=
  .stop (fun _ he => absurd he List.not_mem_nil) hrest

theorem plainStep_orUnfinished {found : Option (List Event × Chars)}
    (hfound : ∀ pair ∈ found, OneSound s pair.1 ∧ pair.2 <:+ s) :
    PlainStep '<' s (orUnfinished final s found) := by
  cases found with
  | some pair =>
      obtain ⟨hsound, hrest⟩ := hfound pair rfl
      exact hsound.plainStep hrest
  | none =>
      cases final with
      | false => exact plainStep_stop (List.suffix_refl _)
      | true => exact plainStep_text _ (suffix_unfinished s)

theorem not_mem_of_upTo?_angle (h : upTo? angle? s = some (content, after)) : .of '>' ∉ content := by
  rw [← splitAtFirst?_angle] at h
  exact (splitAtFirst?_sound h).2

theorem oneSound_endTagEvents (h : .of '>' ∉ s) : OneSound source (endTagEvents s) := by
  unfold endTagEvents
  split
  · exact Or.inr ⟨_, rfl, trivial, rfl⟩
  · split
    · exact Or.inl rfl
    · split
      · exact Or.inr ⟨_, rfl, trivial, rfl⟩
      · exact Or.inr ⟨_, rfl, endsAtAngle_commentEnd?.noEnd_of_not_mem h, rfl⟩

/-- A marked section holds no end of one, of whichever kind its own end is. -/
theorem oneSound_markedSection (h : markedSection s = .ok (some (events, after))) :
    OneSound source events := by
  cases s with
  | nil => cases h
  | cons c s =>
      cases hword : statusWord? (c :: s) with
      | none =>
          unfold markedSection at h
          rw [hword] at h
          contradiction
      | some word =>
          by_cases hlength : word.length = (c :: s).length
          · unfold markedSection at h
            rw [hword] at h
            dsimp only at h
            rw [hlength, beq_self_eq_true, if_pos rfl] at h
            cases h
          · rw [markedSection_of_word hword hlength] at h
            cases hclose : sectionClose? word with
            | none =>
                rw [hclose] at h
                contradiction
            | some close? =>
                rw [hclose] at h
                obtain ⟨⟨content, rest⟩, hupTo, heq⟩ := Option.map_eq_some_iff.1 (Except.ok.inj h)
                obtain ⟨rfl, rfl⟩ := Prod.mk.inj heq
                obtain ⟨t, -, -, hnone⟩ := exists_end_of_upTo? hupTo
                refine Or.inr ⟨_, rfl, ?_, rfl⟩
                unfold sectionClose? at hclose
                dsimp only at hclose
                split at hclose
                · obtain rfl := Option.some.inj hclose
                  exact endsAtAngle_sectionEnd?.noEnd_nil hnone
                · split at hclose
                  · obtain rfl := Option.some.inj hclose
                    exact noEnd_section_of_office (endsAtAngle_officeEnd?.noEnd_nil hnone)
                  · contradiction

/-- There is no `>` in the word that a document type begins with. -/
theorem not_mem_of_isDoctype (h : isDoctype s) : .of '>' ∉ s.take 7 := fun hmem =>
  absurd (beq_iff_eq.1 h ▸ mem_lower hmem) (by decide)

theorem oneSound_declaration (h : declaration s = .ok (some (events, after))) :
    OneSound source events := by
  cases s with
  | nil => cases h
  | cons c s =>
      by_cases hc : c = '['
      · subst hc
        exact oneSound_markedSection h
      · rw [declaration_of_ne hc] at h
        split at h
        · rename_i hword
          obtain ⟨⟨content, rest⟩, hupTo, heq⟩ := Option.map_eq_some_iff.1 (Except.ok.inj h)
          obtain ⟨rfl, rfl⟩ := Prod.mk.inj heq
          exact Or.inr ⟨_, rfl, List.not_mem_append (not_mem_of_isDoctype hword)
            (not_mem_of_upTo?_angle hupTo), rfl⟩
        · obtain ⟨⟨content, rest⟩, hupTo, heq⟩ := Option.map_eq_some_iff.1 (Except.ok.inj h)
          obtain ⟨rfl, rfl⟩ := Prod.mk.inj heq
          exact Or.inr ⟨_, rfl,
            endsAtAngle_commentEnd?.noEnd_of_not_mem (not_mem_of_upTo?_angle hupTo), rfl⟩

theorem oneSound_construct? (h : construct? mark s = .ok (some (events, after))) :
    OneSound source events := by
  unfold construct? at h
  split at h
  · obtain ⟨⟨inside, rest⟩, hupTo, heq⟩ := Option.map_eq_some_iff.1 (Except.ok.inj h)
    obtain ⟨rfl, rfl⟩ := Prod.mk.inj heq
    exact oneSound_endTagEvents (not_mem_of_upTo?_angle hupTo)
  · split at h
    · obtain ⟨⟨content, rest⟩, hupTo, heq⟩ := Option.map_eq_some_iff.1 (Except.ok.inj h)
      obtain ⟨rfl, rfl⟩ := Prod.mk.inj heq
      exact Or.inr ⟨_, rfl, not_mem_of_upTo?_angle hupTo, rfl⟩
    · split at h
      · obtain ⟨⟨content, rest⟩, hupTo, heq⟩ := Option.map_eq_some_iff.1 (Except.ok.inj h)
        obtain ⟨rfl, rfl⟩ := Prod.mk.inj heq
        obtain ⟨t, -, -, hnone⟩ := exists_end_of_upTo? hupTo
        exact Or.inr ⟨_, rfl, endsAtAngle_commentEnd?.noEnd_nil hnone, rfl⟩
      · exact oneSound_declaration h

theorem plainStep_stepAngle (h : stepAngle final s = .ok done) : PlainStep '<' s done := by
  cases s with
  | nil =>
      rw [← Except.ok.inj h]
      exact plainStep_stop (List.suffix_refl _)
  | cons c s =>
      by_cases hletter : c.isAlpha
      · rw [stepAngle_letter hletter] at h
        obtain ⟨reading, hreading, rfl⟩ := exists_of_map_eq_ok h
        cases reading with
        | tag tag after =>
            have hafter := ((List.suffix_cons _ _).trans (suffix_of_tag hreading)).trans
              (suffix_tagAttributes (c :: s))
            exact .read (e := .start tag) (sound_of_readStartTag hletter hreading) hafter
        | broken after =>
            exact plainStep_text _ (eq_of_broken hreading ▸ suffix_tagAttributes (c :: s))
        | unfinished =>
            exact plainStep_orUnfinished fun _ hpair => absurd hpair (Option.not_mem_none _)
      · by_cases hmark : c ∈ [.of '/', .of '?', .of '!']
        · rw [stepAngle_mark hmark] at h
          obtain ⟨found, hfound, rfl⟩ := exists_of_map_eq_ok h
          refine plainStep_orUnfinished fun pair hpair => ?_
          obtain rfl := Option.mem_def.1 hpair
          have hafter := (construct?_complete hfound).1
          exact ⟨oneSound_construct? hfound,
            ((List.suffix_cons _ _).trans hafter).trans (List.suffix_cons _ _)⟩
        · rw [stepAngle_other hletter hmark] at h
          rw [← Except.ok.inj h]
          exact plainStep_text _ (List.suffix_refl _)

theorem plainStep_stepAmpersand (final : Bool) (s : Chars) :
    PlainStep '&' s (stepAmpersand final s) := by
  unfold stepAmpersand
  split
  · exact plainStep_stop (List.suffix_refl _)
  · rename_i digits
    split
    · rename_i r after hreference
      exact .read (e := .reference r) trivial
        ((skips_of_numericReference? hreference).suffix.trans (List.suffix_cons _ _))
    · split
      · exact .stop (fun e he => ⟨_, List.mem_singleton.1 he⟩)
          ((List.suffix_cons _ _).trans (List.suffix_cons _ _))
      · exact plainStep_stop (List.suffix_refl _)
  · rename_i c more _
    split
    · rename_i r after hreference
      exact .read (e := .reference r) trivial (skips_of_namedReference? hreference).suffix
    · split
      · split
        · exact plainStep_stop (List.suffix_cons _ _)
        · exact plainStep_stop (List.suffix_refl _)
      · exact plainStep_text _ (List.suffix_refl _)

/-- A step outside raw text reads at most one event. -/
theorem plainStep_step (h : step final none (c :: s) = .ok done) : PlainStep c s done := by
  dsimp only [step] at h
  split at h
  · rename_i hc
    exact beq_iff_eq.1 hc ▸ plainStep_stepAngle h
  · rename_i hangle
    split at h
    · rename_i hc
      rw [← Except.ok.inj h, beq_iff_eq.1 hc]
      exact plainStep_stepAmpersand final s
    · rename_i hamp
      have hc : (c != '<' && c != '&') = true := by
        simp only [bne, hangle, hamp]
        rfl
      rw [← Except.ok.inj h, List.dropWhile_cons, if_pos hc]
      exact plainStep_text _ (List.dropWhile_suffix _)

end Steps

/-- The raw text element that is open, with its text so far. -/
abbrev OpenText := Option (Chars × Chars)

/-- An event that may come while the raw text element is open, or outside raw text, and what is
open after it. Raw text stands in the source as it is. -/
inductive Event.Comes (source : Chars) : OpenText → Event → OpenText → Prop
  | outside {e : Event} (he : e.Sound source) : Comes source none e (e.raw?.map fun name => (name, []))
  | text {name before content : Chars} (hend : NoEnd (rawClose? name) (before ++ content) [])
      (hsource : before ++ content <:+: source) :
      Comes source (some (name, before)) (.text content) (some (name, before ++ content))
  | close {name before : Chars} : Comes source (some (name, before)) (.close name) none

/-- Events in the order in which they may come. -/
inductive InOrder (source : Chars) : OpenText → List Event → OpenText → Prop
  | nil (o : OpenText) : InOrder source o [] o
  | cons {e : Event} {events : List Event} {o o' o'' : OpenText} (he : e.Comes source o o')
      (hlater : InOrder source o' events o'') : InOrder source o (e :: events) o''

/-- The rest of the source, with what is open. -/
def OpenText.At (source : Chars) : OpenText → Chars → Prop
  | none, s => s <:+ source
  | some (name, before), s =>
      isRawText name ∧ before ++ s <:+ source ∧ NoEnd (rawClose? name) before s

section Order

variable {source s rest : Chars} {o o' o'' : OpenText} {events later : List Event} {final : Bool}
  {raw' : Option Chars}

theorem InOrder.append (h : InOrder source o events o') (hlater : InOrder source o' later o'') :
    InOrder source o (events ++ later) o'' := by
  induction h with
  | nil => exact hlater
  | cons he _ ih => exact .cons he (ih hlater)

theorem InOrder.singleton {e : Event} (h : e.Comes source o o') : InOrder source o [e] o' :=
  .cons h (.nil o')

/-- Texts outside raw text. -/
theorem inOrder_texts (h : ∀ e ∈ events, ∃ content, e = .text content) :
    InOrder source none events none := by
  induction events with
  | nil => exact .nil none
  | cons e events ih =>
      obtain ⟨⟨content, rfl⟩, hlater⟩ := List.forall_mem_cons.1 h
      exact .cons (.outside (e := .text content) trivial) (ih hlater)

/-- A step that a pass goes on after. -/
theorem OpenText.At.go (ho : o.At source s) (hs : s ≠ [])
    (h : step final (o.map Prod.fst) s = .ok (.go events raw' rest)) :
    ∃ o', InOrder source o events o' ∧ o'.map Prod.fst = raw' ∧ o'.At source rest := by
  generalize hdone : Step.go events raw' rest = done at h
  cases o with
  | none =>
      obtain ⟨c, s, rfl⟩ := List.exists_cons_of_ne_nil hs
      have hsource : s <:+ source := (List.suffix_cons c s).trans ho
      cases plainStep_step h with
      | @read e after he hrest =>
          obtain ⟨rfl, rfl, rfl⟩ := Step.go.inj hdone
          refine ⟨_, .singleton (.outside (he.mono hsource.isInfix)), ?_, ?_⟩
          · cases e.raw? <;> rfl
          · cases hraw : e.raw? with
            | none => exact hrest.trans hsource
            | some name => exact ⟨isRawText_of_raw? hraw, hrest.trans hsource, trivial⟩
      | skip hrest =>
          obtain ⟨rfl, rfl, rfl⟩ := Step.go.inj hdone
          exact ⟨none, .nil none, rfl, hrest.trans hsource⟩
      | stop => contradiction
  | some text =>
      obtain ⟨name, before⟩ := text
      obtain ⟨hname, hsource, hbefore⟩ := ho
      cases rawStep_step hname h with
      | stop => contradiction
      | close hclose =>
          obtain ⟨rfl, rfl, rfl⟩ := Step.go.inj hdone
          have hafter := (List.suffix_cons _ _).trans ((endsAtAngle_rawClose? hname).suffix hclose)
          exact ⟨none, .singleton .close, rfl,
            (hafter.trans (List.suffix_append before s)).trans hsource⟩
      | @text run _ heq hrun hnone =>
          obtain ⟨rfl, rfl, rfl⟩ := Step.go.inj hdone
          subst heq
          have htext : NoEnd (rawClose? name) (before ++ run) rest := noEnd_append.2 ⟨hbefore, hnone⟩
          rw [← List.append_assoc] at hsource
          exact ⟨some (name, before ++ run),
            .singleton (.text ((endsAtAngle_rawClose? hname).noEnd_nil htext)
              ((List.prefix_append _ _).isInfix.trans hsource.isInfix)),
            rfl, hname, hsource, htext⟩

/-- The step at which a pass ends. -/
theorem OpenText.At.stop (ho : o.At source s) (hs : s ≠ [])
    (h : step final (o.map Prod.fst) s = .ok (.stop events rest)) :
    InOrder source o events o ∧ o.At source rest := by
  generalize hdone : Step.stop events rest = done at h
  cases o with
  | none =>
      obtain ⟨c, s, rfl⟩ := List.exists_cons_of_ne_nil hs
      cases plainStep_step h with
      | read => contradiction
      | skip => contradiction
      | stop hevents hrest =>
          obtain ⟨rfl, rfl⟩ := Step.stop.inj hdone
          exact ⟨inOrder_texts hevents, hrest.trans ho⟩
  | some text =>
      obtain ⟨name, before⟩ := text
      cases rawStep_step ho.1 h with
      | stop hnone =>
          obtain ⟨rfl, rfl⟩ := Step.stop.inj hdone
          exact ⟨.nil _, ho⟩
      | close => contradiction
      | text => contradiction

/-- The events of a pass. -/
theorem OpenText.At.pass {fuel : Nat} {scan : Scan} (ho : o.At source s)
    (h : Markup.pass final fuel (o.map Prod.fst) s = .ok scan) :
    ∃ o', InOrder source o scan.events o' ∧ o'.map Prod.fst = scan.raw ∧
      o'.At source scan.rest := by
  induction fuel generalizing o s scan with
  | zero =>
      rw [← Except.ok.inj h]
      exact ⟨o, .nil o, rfl, ho⟩
  | succ fuel ih =>
      cases s with
      | nil =>
          rw [← Except.ok.inj h]
          exact ⟨o, .nil o, rfl, ho⟩
      | cons c s =>
          obtain ⟨events, rest, hstep, rfl⟩ | ⟨events, raw', rest, later, hstep, hlater, rfl⟩ :=
            pass_cons_cases h
          · obtain ⟨horder, hrest⟩ := ho.stop (List.cons_ne_nil c s) hstep
            exact ⟨o, horder, rfl, hrest⟩
          · obtain ⟨o', horder, rfl, hrest⟩ := ho.go (List.cons_ne_nil c s) hstep
            obtain ⟨o'', hmore, hraw, hlast⟩ := ih hrest hlater
            exact ⟨o'', horder.append hmore, hraw, hlast⟩

/-- The events of a text come in order. -/
theorem inOrder_readEvents (h : readEvents s = .ok events) : ∃ o, InOrder s none events o := by
  obtain ⟨first, last, hfirst, hlast, rfl⟩ := exists_passes_of_readEvents h
  obtain ⟨o, horder, hraw, hrest⟩ :=
    @OpenText.At.pass s s none _ _ _ (List.suffix_refl s) hfirst
  rw [← hraw] at hlast
  obtain ⟨o', horder', hraw', -⟩ := hrest.pass hlast
  have hboth := horder.append horder'
  by_cases hend : (last.raw.isSome || last.rest.isEmpty) = true
  · refine ⟨o', ?_⟩
    rwa [if_pos hend, List.append_nil]
  · have hnone : o' = none := by
      rw [← hraw'] at hend
      cases o' with
      | none => rfl
      | some text => exact absurd rfl hend
    subst hnone
    refine ⟨none, ?_⟩
    rw [if_neg hend]
    exact hboth.append (inOrder_texts fun e he => ⟨_, List.mem_singleton.1 he⟩)

end Order

end Folio.Markup
