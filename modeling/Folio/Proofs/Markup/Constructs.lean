import Folio.Proofs.Markup.Continuation

/-!
Constructs that end with `>`: end tags, comments, declarations, marked sections and the end tags of
raw text. One that is read completely is read in the same way when the text goes on.
-/
namespace Folio.Markup

/-- What opens a construct: the characters after it are the end of the text, and `>` is not one of
its own. -/
structure PassesAngle (open? : Chars → Option Chars) : Prop where
  suffix {s rest : Chars} (h : open? s = some rest) : rest <:+ s
  mem {s rest : Chars} (h : open? s = some rest) (hs : .of '>' ∈ s) : .of '>' ∈ rest
  append {s : Chars} (hs : .of '>' ∈ s) (t : Chars) : open? (s ++ t) = (open? s).map (· ++ t)

/-- What ends a construct: the first `>` is its last character. -/
structure EndsAtAngle (close? : Chars → Option Chars) : Prop where
  suffix {s after : Chars} (h : close? s = some after) : .of '>' :: after <:+ s
  append {s : Chars} (hs : .of '>' ∈ s) (t : Chars) : close? (s ++ t) = (close? s).map (· ++ t)

section Ends

variable {open? close? : Chars → Option Chars}

theorem not_isBlank_angle : Text.isBlank '>' = false := by decide

theorem passesAngle_some : PassesAngle some := by
  refine ⟨fun h => ?_, fun h hs => ?_, fun _ _ => rfl⟩
  · exact Option.some.inj h ▸ List.suffix_refl _
  · rw [← Option.some.inj h]
    exact hs

theorem passesAngle_blanks : PassesAngle fun s => some (s.dropWhile Text.isBlank) := by
  refine ⟨fun h => ?_, fun h hs => ?_, fun hs t => ?_⟩
  · rw [← Option.some.inj h]
    exact List.dropWhile_suffix _
  · rw [← Option.some.inj h]
    exact Text.mem_dropWhile hs not_isBlank_angle
  · rw [Text.dropWhile_append_of_mem hs not_isBlank_angle]
    rfl

/-- What follows a character that satisfies `p`. -/
def dropIf? (p : Rune → Bool) : Chars → Option Chars
  | [] => none
  | c :: s => if p c then some s else none

theorem passesAngle_dropIf? {p : Rune → Bool} (hp : p '>' = false) :
    PassesAngle (dropIf? p) := by
  have hcons : ∀ {s rest}, dropIf? p s = some rest → ∃ c, p c ∧ s = c :: rest := by
    intro s rest h
    cases s with
    | nil => contradiction
    | cons c s =>
        rw [dropIf?, Option.ite_none_right_eq_some] at h
        exact ⟨c, h.1, congrArg (c :: ·) (Option.some.inj h.2)⟩
  refine ⟨fun h => ?_, fun h hs => ?_, fun {s} hs t => ?_⟩
  · obtain ⟨c, -, rfl⟩ := hcons h
    exact List.suffix_cons c _
  · obtain ⟨c, hc, rfl⟩ := hcons h
    refine (List.mem_cons.1 hs).resolve_left ?_
    rintro rfl
    rw [hp] at hc
    contradiction
  · obtain ⟨c, s, rfl⟩ := List.exists_cons_of_ne_nil (List.ne_nil_of_mem hs)
    rw [List.cons_append, dropIf?, dropIf?]
    split <;> rfl

/-- One opening after the other. -/
theorem PassesAngle.bind {next? : Chars → Option Chars} (hopen : PassesAngle open?)
    (hnext : PassesAngle next?) : PassesAngle fun s => (open? s).bind next? := by
  refine ⟨fun h => ?_, fun h hs => ?_, fun {s} hs t => ?_⟩
  · obtain ⟨rest, hrest, hafter⟩ := Option.bind_eq_some_iff.1 h
    exact (hnext.suffix hafter).trans (hopen.suffix hrest)
  · obtain ⟨rest, hrest, hafter⟩ := Option.bind_eq_some_iff.1 h
    exact hnext.mem hafter (hopen.mem hrest hs)
  · rw [hopen.append hs]
    cases hrest : open? s with
    | none => rfl
    | some rest => exact hnext.append (hopen.mem hrest hs) t

theorem PassesAngle.endsAtAngle (hopen : PassesAngle open?) (hclose : EndsAtAngle close?) :
    EndsAtAngle fun s => (open? s).bind close? := by
  refine ⟨fun h => ?_, fun {s} hs t => ?_⟩
  · obtain ⟨rest, hrest, hafter⟩ := Option.bind_eq_some_iff.1 h
    exact (hclose.suffix hafter).trans (hopen.suffix hrest)
  · rw [hopen.append hs]
    cases hrest : open? s with
    | none => rfl
    | some rest => exact hclose.append (hopen.mem hrest hs) t

theorem passesAngle_dropPrefix? {pat : Chars} (hpat : .of '>' ∉ pat) :
    PassesAngle (Text.dropPrefix? pat) := by
  induction pat with
  | nil =>
      have heq : Text.dropPrefix? [] = some := by
        funext s
        rw [Text.dropPrefix?]
      rw [heq]
      exact passesAngle_some
  | cons p pat ih =>
      obtain ⟨hp, hlater⟩ := not_or.1 (mt List.mem_cons.2 hpat)
      have heq : Text.dropPrefix? (p :: pat) =
          fun s => (dropIf? (p == ·) s).bind (Text.dropPrefix? pat) := by
        funext s
        cases s with
        | nil => rfl
        | cons c s =>
            rw [Text.dropPrefix?, dropIf?]
            split <;> rfl
      rw [heq]
      exact (passesAngle_dropIf? (beq_false_of_ne (Ne.symm hp))).bind (ih hlater)

theorem sameLetter_angle {p : Rune} (hp : '>' ≠ p) : Text.sameLetter p '>' = false := by
  have hlower : ((.of '>' : Rune).toLower == p) = false := beq_false_of_ne hp
  rw [Text.sameLetter, hlower]
  simp

theorem passesAngle_dropWord? {pattern : Chars} (hpattern : .of '>' ∉ pattern) :
    PassesAngle (Text.dropWord? pattern) := by
  induction pattern with
  | nil =>
      have heq : Text.dropWord? [] = some := by
        funext s
        rw [Text.dropWord?]
      rw [heq]
      exact passesAngle_some
  | cons p pattern ih =>
      have heq : Text.dropWord? (p :: pattern) =
          fun s => (dropIf? (Text.sameLetter p) s).bind (Text.dropWord? pattern) := by
        funext s
        cases s with
        | nil => rfl
        | cons c s =>
            rw [Text.dropWord?, dropIf?]
            split <;> rfl
      obtain ⟨hp, hlater⟩ := List.ne_and_not_mem_of_not_mem_cons hpattern
      rw [heq]
      exact (passesAngle_dropIf? (sameLetter_angle hp)).bind (ih hlater)

/-- What follows `>` at the start of the text. -/
def angle? : Chars → Option Chars
  | '>' :: after => some after
  | _ => none

theorem endsAtAngle_angle? : EndsAtAngle angle? := by
  refine ⟨fun {s after} h => ?_, fun {s} hs t => ?_⟩
  · unfold angle? at h
    split at h
    · exact Option.some.inj h ▸ List.suffix_refl _
    · contradiction
  · obtain ⟨c, s, rfl⟩ := List.exists_cons_of_ne_nil (List.ne_nil_of_mem hs)
    rw [List.cons_append]
    by_cases hc : c = '>'
    · rw [hc]
      rfl
    · simp [angle?, hc]

/-- What follows blanks and `>`. -/
def blanksAngle? (s : Chars) : Option Chars := angle? (s.dropWhile Text.isBlank)

theorem endsAtAngle_blanksAngle? : EndsAtAngle blanksAngle? :=
  passesAngle_blanks.endsAtAngle endsAtAngle_angle?

/-- What opens the end of a construct is read off its pattern. -/
theorem dropPrefix?_of_head_ne {p c : Rune} (pat s : Chars) (h : c ≠ p) :
    Text.dropPrefix? (p :: pat) (c :: s) = none := by
  rw [Text.dropPrefix?, beq_false_of_ne (Ne.symm h), if_neg Bool.false_ne_true]

theorem officeEnd?_eq : officeEnd? = fun s => (Text.dropPrefix? [']'] s).bind blanksAngle? := by
  funext s
  rcases s with _ | ⟨c, s⟩
  · rfl
  · by_cases hc : c = ']'
    · subst hc
      rfl
    · simp [officeEnd?, hc, dropPrefix?_of_head_ne]

theorem sectionEnd?_eq : sectionEnd? = fun s => (Text.dropPrefix? [']'] s).bind fun rest =>
    (some (rest.dropWhile Text.isBlank)).bind officeEnd? := by
  funext s
  rcases s with _ | ⟨c, s⟩
  · rfl
  · by_cases hc : c = ']'
    · subst hc
      rfl
    · simp [sectionEnd?, hc, dropPrefix?_of_head_ne]

theorem commentEnd?_eq :
    commentEnd? = fun s => (Text.dropPrefix? ['-'] s).bind fun rest =>
      (Text.dropPrefix? ['-'] rest).bind blanksAngle? := by
  funext s
  rcases s with _ | ⟨c, s⟩
  · rfl
  · by_cases hc : c = '-'
    · subst hc
      rcases s with _ | ⟨d, s⟩
      · rfl
      · by_cases hd : d = '-'
        · subst hd
          rfl
        · simp [commentEnd?, hd, Text.dropPrefix?, Ne.symm hd]
    · simp [commentEnd?, hc, dropPrefix?_of_head_ne]

theorem rawEnd?_eq (name : Chars) :
    rawEnd? name = fun s => (Text.dropPrefix? ['<'] s).bind fun rest =>
      (Text.dropPrefix? ['/'] rest).bind fun rest => (some (rest.dropWhile Text.isBlank)).bind
        fun rest => (Text.dropWord? name rest).bind blanksAngle? := by
  funext s
  rcases s with _ | ⟨c, s⟩
  · rfl
  · by_cases hc : c = '<'
    · subst hc
      rcases s with _ | ⟨d, s⟩
      · rfl
      · by_cases hd : d = '/'
        · subst hd
          simp only [rawEnd?, Text.dropPrefix?, beq_self_eq_true, if_true, Option.bind_some]
          cases Text.dropWord? name (s.dropWhile Text.isBlank) <;> rfl
        · simp [rawEnd?, hd, Text.dropPrefix?, Ne.symm hd]
    · simp [rawEnd?, hc, dropPrefix?_of_head_ne]

theorem endsAtAngle_officeEnd? : EndsAtAngle officeEnd? := by
  rw [officeEnd?_eq]
  exact (passesAngle_dropPrefix? (by decide)).endsAtAngle endsAtAngle_blanksAngle?

theorem endsAtAngle_sectionEnd? : EndsAtAngle sectionEnd? := by
  rw [sectionEnd?_eq]
  exact (passesAngle_dropPrefix? (by decide)).endsAtAngle
    (passesAngle_blanks.endsAtAngle endsAtAngle_officeEnd?)

theorem endsAtAngle_commentEnd? : EndsAtAngle commentEnd? := by
  rw [commentEnd?_eq]
  have hdash : PassesAngle (Text.dropPrefix? ['-']) := passesAngle_dropPrefix? (by decide)
  exact hdash.endsAtAngle (hdash.endsAtAngle endsAtAngle_blanksAngle?)

theorem endsAtAngle_rawEnd? {name : Chars} (hname : isRawText name) :
    EndsAtAngle (rawEnd? name) := by
  have hletters : .of '>' ∉ name := by
    have hall : ∀ n ∈ rawTextElements, .of '>' ∉ n := by decide
    exact hall name (List.contains_iff_mem.1 hname)
  rw [rawEnd?_eq]
  exact (passesAngle_dropPrefix? (by decide)).endsAtAngle
    ((passesAngle_dropPrefix? (by decide)).endsAtAngle
      (passesAngle_blanks.endsAtAngle
        ((passesAngle_dropWord? hletters).endsAtAngle endsAtAngle_blanksAngle?)))

end Ends

section Constructs

variable {close? : Chars → Option Chars} {s content after : Chars} {events : List Event}

theorem EndsAtAngle.suffix_upTo? (hclose : EndsAtAngle close?)
    (h : upTo? close? s = some (content, after)) : .of '>' :: after <:+ s := by
  induction s generalizing content with
  | nil => contradiction
  | cons c s ih =>
      rw [upTo?] at h
      split at h
      · rename_i hc
        obtain ⟨-, rfl⟩ := Prod.mk.inj (Option.some.inj h)
        exact hclose.suffix hc
      · obtain ⟨⟨run, last⟩, hrun, heq⟩ := Option.map_eq_some_iff.1 h
        obtain ⟨-, rfl⟩ := Prod.mk.inj heq
        exact (ih hrun).trans (List.suffix_cons c s)

theorem EndsAtAngle.upTo?_append (hclose : EndsAtAngle close?)
    (h : upTo? close? s = some (content, after)) (t : Chars) :
    upTo? close? (s ++ t) = some (content, after ++ t) := by
  induction s generalizing content with
  | nil => contradiction
  | cons c s ih =>
      have hmem : .of '>' ∈ c :: s := (hclose.suffix_upTo? h).subset List.mem_cons_self
      have happend := hclose.append hmem t
      rw [List.cons_append] at happend
      rw [List.cons_append, upTo?, happend]
      rw [upTo?] at h
      cases hc : close? (c :: s) with
      | some found =>
          rw [hc] at h
          obtain ⟨rfl, rfl⟩ := Prod.mk.inj (Option.some.inj h)
          rfl
      | none =>
          rw [hc] at h
          obtain ⟨⟨run, last⟩, hrun, heq⟩ := Option.map_eq_some_iff.1 h
          obtain ⟨rfl, rfl⟩ := Prod.mk.inj heq
          dsimp only [Option.map_none]
          rw [ih hrun]
          rfl

theorem splitAtFirst?_angle (s : Chars) : Text.splitAtFirst? '>' s = upTo? angle? s := by
  induction s with
  | nil => rfl
  | cons c s ih =>
      by_cases hc : c = '>'
      · rw [hc]
        rfl
      · have hangle : angle? (c :: s) = none := by simp [angle?, hc]
        rw [Text.splitAtFirst?, upTo?, hangle, ih, beq_false_of_ne hc, if_neg Bool.false_ne_true]

/-- What an end tag is read as, given what stands in it. -/
def endTagEvents (inside : Chars) : List Event :=
  match plainName? inside with
  | some name => [.close name]
  | none =>
      match inside with
      | [] => []
      | c :: _ =>
          if c.isAlpha then [.close (Text.lower (inside.takeWhile fun c => !endsTagName c))]
          else [.comment inside]

theorem endTag?_eq (s : Chars) : endTag? s =
    (upTo? angle? s).map fun (inside, after) => (endTagEvents inside, after) := by
  rw [endTag?, splitAtFirst?_angle]
  congr 1
  funext found
  obtain ⟨inside, after⟩ := found
  dsimp only [endTagEvents]
  cases plainName? inside with
  | some name => rfl
  | none =>
      cases inside with
      | nil => rfl
      | cons c inside =>
          dsimp only
          split <;> rfl

theorem upToAngle?_eq (event : Chars → Event) (s : Chars) : upToAngle? event s =
    (upTo? angle? s).map fun (content, after) => ([event content], after) := by
  rw [upToAngle?, splitAtFirst?_angle]

/-- A construct with its end is read in the same way when the text goes on. -/
theorem EndsAtAngle.construct (hclose : EndsAtAngle close?) {f : Chars → List Event}
    (h : (upTo? close? s).map (fun found => (f found.1, found.2)) = some (events, after)) :
    .of '>' :: after <:+ s ∧ ∀ t, (upTo? close? (s ++ t)).map (fun found => (f found.1, found.2)) =
      some (events, after ++ t) := by
  obtain ⟨⟨content, last⟩, hupTo, heq⟩ := Option.map_eq_some_iff.1 h
  obtain ⟨rfl, rfl⟩ := Prod.mk.inj heq
  refine ⟨hclose.suffix_upTo? hupTo, fun t => ?_⟩
  rw [hclose.upTo?_append hupTo]
  rfl

/-- How a marked section of the given word ends. -/
def sectionClose? (word : Chars) : Option (Chars → Option Chars) :=
  let status := Text.lower (Text.trim word)
  if sectionWords.contains status then some sectionEnd?
  else if officeWords.contains status then some officeEnd?
  else none

theorem endsAtAngle_of_sectionClose? {word : Chars} (h : sectionClose? word = some close?) :
    EndsAtAngle close? := by
  unfold sectionClose? at h
  dsimp only at h
  split at h
  · rw [← Option.some.inj h]
    exact endsAtAngle_sectionEnd?
  · split at h
    · rw [← Option.some.inj h]
      exact endsAtAngle_officeEnd?
    · contradiction

theorem markedSection_of_word {word : Chars} (hword : statusWord? s = some word)
    (hlength : word.length ≠ s.length) : markedSection s =
      match sectionClose? word with
      | some close? => .ok ((upTo? close? s).map fun found => ([.marked found.1], found.2))
      | none => .error (.unknownSection word) := by
  cases s with
  | nil => contradiction
  | cons c s =>
      unfold markedSection
      rw [hword]
      dsimp only
      rw [beq_false_of_ne hlength, if_neg Bool.false_ne_true, sectionClose?]
      split
      · rfl
      · split <;> rfl

/-- The characters of the word of a marked section. -/
def isStatusChar (c : Rune) : Bool := c.isAlphanum || c == '-' || c == '_' || c == '.'

theorem statusWord?_cons (c : Rune) (s : Chars) : statusWord? (c :: s) =
    if c.isAlpha then some ((c :: s).takeWhile isStatusChar ++
      ((c :: s).dropWhile isStatusChar).takeWhile Text.isBlank) else none := by
  rw [← Text.drop_length_takeWhile isStatusChar]
  rfl

theorem isStatusChar_angle : isStatusChar '>' = false := by decide

theorem statusWord?_append (hs : .of '>' ∈ s) (t : Chars) :
    statusWord? (s ++ t) = statusWord? s := by
  obtain ⟨c, s, rfl⟩ := List.exists_cons_of_ne_nil (List.ne_nil_of_mem hs)
  rw [List.cons_append, statusWord?_cons, statusWord?_cons, ← List.cons_append,
    Text.takeWhile_append_of_mem hs isStatusChar_angle, Text.dropWhile_append_of_mem hs isStatusChar_angle,
    Text.takeWhile_append_of_mem (Text.mem_dropWhile hs isStatusChar_angle) not_isBlank_angle]

/-- The word is the start of the text, and has no `>` in it. -/
theorem length_statusWord?_lt {word : Chars} (hs : .of '>' ∈ s) (h : statusWord? s = some word) :
    word.length < s.length := by
  obtain ⟨c, s, rfl⟩ := List.exists_cons_of_ne_nil (List.ne_nil_of_mem hs)
  rw [statusWord?_cons, Option.ite_none_right_eq_some] at h
  have hblanks := Text.length_takeWhile_ne (Text.mem_dropWhile hs isStatusChar_angle) not_isBlank_angle
  have hle := (List.takeWhile_prefix Text.isBlank
    (l := (c :: s).dropWhile isStatusChar)).length_le
  have htotal := congrArg List.length
    (List.takeWhile_append_dropWhile (p := isStatusChar) (l := c :: s))
  rw [← Option.some.inj h.2]
  rw [List.length_append] at htotal ⊢
  omega

theorem construct_markedSection (h : markedSection s = .ok (some (events, after))) :
    .of '>' :: after <:+ s ∧ ∀ t, markedSection (s ++ t) = .ok (some (events, after ++ t)) := by
  cases hword : statusWord? s with
  | none =>
      cases s with
      | nil => cases h
      | cons c s =>
          unfold markedSection at h
          rw [hword] at h
          contradiction
  | some word =>
      by_cases hlength : word.length = s.length
      · cases s with
        | nil => contradiction
        | cons c s =>
            unfold markedSection at h
            rw [hword] at h
            dsimp only at h
            rw [hlength, beq_self_eq_true, if_pos rfl] at h
            cases h
      · rw [markedSection_of_word hword hlength] at h
        cases hclose : sectionClose? word with
        | none =>
            rw [hclose] at h
            contradiction
        | some close? =>
            rw [hclose] at h
            obtain ⟨hsuffix, happend⟩ := (endsAtAngle_of_sectionClose? hclose).construct
              (f := fun content => [.marked content]) (Except.ok.inj h)
            refine ⟨hsuffix, fun t => ?_⟩
            have hmem : .of '>' ∈ s := hsuffix.subset List.mem_cons_self
            have hshort := length_statusWord?_lt hmem hword
            have hword' := (statusWord?_append hmem t).trans hword
            rw [markedSection_of_word hword' (by rw [List.length_append]; omega), hclose]
            exact congrArg Except.ok (happend t)

theorem mem_lower (hs : .of '>' ∈ s) : .of '>' ∈ Text.lower s := by
  have hchar : ∀ before rest, .of '>' ∈ Text.lowerGo before (.of '>' :: rest) := fun before rest =>
    List.mem_append_left _ (List.mem_singleton.2 rfl)
  have hgo : ∀ before, .of '>' ∈ Text.lowerGo before s := by
    induction s with
    | nil => exact absurd hs List.not_mem_nil
    | cons c s ih =>
        intro before
        rcases List.mem_cons.1 hs with rfl | hlater
        · exact hchar before s
        · exact List.mem_append_right _ (ih hlater _)
  exact hgo []

/-- The word that a document type begins with. -/
def isDoctype (s : Chars) : Bool := Text.lower (s.take 7) == "doctype".runes

theorem isDoctype_append (hs : .of '>' ∈ s) (t : Chars) : isDoctype (s ++ t) = isDoctype s := by
  unfold isDoctype
  by_cases hlength : 7 ≤ s.length
  · rw [List.take_append_of_le_length hlength]
  · have hshort : .of '>' ∈ s.take 7 := by rwa [List.take_of_length_le (by omega)]
    have hlong : .of '>' ∈ (s ++ t).take 7 := by
      rw [List.take_append]
      exact List.mem_append_left _ hshort
    have hword : ∀ u : Chars, .of '>' ∈ u → (Text.lower u == "doctype".runes) = false := by
      intro u hu
      rw [beq_eq_false_iff_ne]
      intro heq
      have hmem := heq ▸ mem_lower hu
      exact absurd hmem (by decide)
    rw [hword _ hshort, hword _ hlong]

theorem length_of_isDoctype (h : isDoctype s) (hs : .of '>' ∈ s) : 7 ≤ s.length := by
  by_contra hlength
  have hshort : .of '>' ∈ s.take 7 := by rwa [List.take_of_length_le (by omega)]
  have hmem := beq_iff_eq.1 h ▸ mem_lower hshort
  exact absurd hmem (by decide)

theorem declaration_of_ne {c : Rune} (hc : c ≠ '[') (s : Chars) : declaration (c :: s) =
    if isDoctype (c :: s) then
      .ok ((upTo? angle? ((c :: s).drop 7)).map fun found =>
        ([.doctype ((c :: s).take 7 ++ found.1)], found.2))
    else .ok ((upTo? angle? (c :: s)).map fun found => ([.comment found.1], found.2)) := by
  unfold declaration
  split
  · rename_i heq
    exact absurd (List.cons.inj heq).1 hc
  · rw [splitAtFirst?_angle, upToAngle?_eq]
    rfl

theorem construct_declaration (h : declaration s = .ok (some (events, after))) :
    .of '>' :: after <:+ s ∧ ∀ t, declaration (s ++ t) = .ok (some (events, after ++ t)) := by
  cases s with
  | nil => cases h
  | cons c s =>
      by_cases hc : c = '['
      · subst hc
        obtain ⟨hsuffix, happend⟩ := construct_markedSection h
        exact ⟨hsuffix.trans (List.suffix_cons _ s), happend⟩
      · rw [declaration_of_ne hc] at h
        split at h
        · rename_i hword
          obtain ⟨hsuffix, happend⟩ := endsAtAngle_angle?.construct
            (f := fun content => [.doctype ((c :: s).take 7 ++ content)]) (Except.ok.inj h)
          have hwhole := hsuffix.trans (List.drop_suffix 7 (c :: s))
          have hmem := hwhole.subset List.mem_cons_self
          have hlength := length_of_isDoctype hword hmem
          refine ⟨hwhole, fun t => ?_⟩
          have hword' : isDoctype (c :: s ++ t) = true := (isDoctype_append hmem t).trans hword
          rw [List.cons_append] at hword' ⊢
          rw [declaration_of_ne hc, if_pos hword', ← List.cons_append,
            List.take_append_of_le_length hlength, List.drop_append_of_le_length hlength]
          exact congrArg Except.ok (happend t)
        · rename_i hword
          obtain ⟨hsuffix, happend⟩ := endsAtAngle_angle?.construct
            (f := fun content => [.comment content]) (Except.ok.inj h)
          have hmem := hsuffix.subset List.mem_cons_self
          refine ⟨hsuffix, fun t => ?_⟩
          have hword' : ¬ isDoctype (c :: s ++ t) = true := by rwa [isDoctype_append hmem t]
          rw [List.cons_append] at hword' ⊢
          rw [declaration_of_ne hc, if_neg hword']
          exact congrArg Except.ok (happend t)

/-- The construct that begins with `<` and the mark, without these. -/
def construct? (mark : Rune) (s : Chars) : Except MarkupError (Option (List Event × Chars)) :=
  if mark == '/' then .ok ((upTo? angle? s).map fun found => (endTagEvents found.1, found.2))
  else if mark == '?' then .ok ((upTo? angle? s).map fun found => ([.instruction found.1], found.2))
  else match Text.dropPrefix? ['-', '-'] s with
    | some content =>
        .ok ((upTo? commentEnd? content).map fun found => ([.comment found.1], found.2))
    | none => declaration s

/-- A construct that is read completely ends with `>`, and is read in the same way when the text
goes on. -/
theorem construct?_complete {mark : Rune} (h : construct? mark s = .ok (some (events, after))) :
    .of '>' :: after <:+ s ∧ ∀ t, construct? mark (s ++ t) = .ok (some (events, after ++ t)) := by
  have hdashes : PassesAngle (Text.dropPrefix? ['-', '-']) := passesAngle_dropPrefix? (by decide)
  unfold construct? at h ⊢
  split
  · rename_i hmark
    rw [if_pos hmark] at h
    obtain ⟨hsuffix, happend⟩ := endsAtAngle_angle?.construct
      (f := endTagEvents) (Except.ok.inj h)
    exact ⟨hsuffix, fun t => congrArg Except.ok (happend t)⟩
  · rename_i hmark
    rw [if_neg hmark] at h
    split
    · rename_i hquestion
      rw [if_pos hquestion] at h
      obtain ⟨hsuffix, happend⟩ := endsAtAngle_angle?.construct
        (f := fun content => [.instruction content]) (Except.ok.inj h)
      exact ⟨hsuffix, fun t => congrArg Except.ok (happend t)⟩
    · rename_i hquestion
      rw [if_neg hquestion] at h
      cases hcomment : Text.dropPrefix? ['-', '-'] s with
      | some content =>
          rw [hcomment] at h
          obtain ⟨hsuffix, happend⟩ := endsAtAngle_commentEnd?.construct
            (f := fun content => [.comment content]) (Except.ok.inj h)
          have hwhole := hsuffix.trans (hdashes.suffix hcomment)
          refine ⟨hwhole, fun t => ?_⟩
          rw [hdashes.append (hwhole.subset List.mem_cons_self), hcomment]
          exact congrArg Except.ok (happend t)
      | none =>
          rw [hcomment] at h
          obtain ⟨hsuffix, happend⟩ := construct_declaration h
          refine ⟨hsuffix, fun t => ?_⟩
          rw [hdashes.append (hsuffix.subset List.mem_cons_self), hcomment]
          exact happend t

/-- The step for what is read at `<` and a letter; `rest` follows the `<`. -/
def tagStep (final : Bool) (rest : Chars) : TagReading → Step
  | .tag tag after => .go [.start tag]
      (if !tag.selfClosing && isRawText tag.name then some tag.name else none) after
  | .broken after => .go [.text (.of '<' :: rest.take (rest.length - after.length))] none after
  | .unfinished => orUnfinished final rest none

/-- What a letter after `<` is read as. -/
theorem stepAngle_letter {final : Bool} {c : Rune} (hc : c.isAlpha) (s : Chars) :
    stepAngle final (c :: s) = (readStartTag (c :: s)).map (tagStep final (c :: s)) := by
  rw [stepAngle, if_pos hc]
  rfl

/-- What a mark after `<` is read as. -/
theorem stepAngle_mark {final : Bool} {mark : Rune} (hmark : mark ∈ [.of '/', .of '?', .of '!'])
    (s : Chars) :
    stepAngle final (mark :: s) = (construct? mark s).map (orUnfinished final (mark :: s)) := by
  have hletter : ¬ mark.isAlpha := by
    simp only [List.mem_cons, List.not_mem_nil, or_false] at hmark
    rcases hmark with rfl | rfl | rfl <;> decide
  rw [stepAngle, if_neg hletter, construct?]
  split
  · rw [endTag?_eq]
    rfl
  · rename_i hslash
    split
    · rw [upToAngle?_eq]
      rfl
    · rename_i hquestion
      have hbang : mark = '!' := by
        simpa [beq_iff_eq.not.1 hslash, beq_iff_eq.not.1 hquestion] using hmark
      rw [if_pos (beq_iff_eq.2 hbang)]
      cases Text.dropPrefix? ['-', '-'] s <;> rfl

/-- Nothing else begins with `<`. -/
theorem stepAngle_other {final : Bool} {c : Rune} (hletter : ¬ c.isAlpha)
    (hmark : c ∉ [.of '/', .of '?', .of '!']) (s : Chars) :
    stepAngle final (c :: s) = .ok (.go [.text ['<']] none (c :: s)) := by
  simp only [List.mem_cons, List.not_mem_nil, or_false, not_or] at hmark
  obtain ⟨hslash, hquestion, hbang⟩ := hmark
  rw [stepAngle, if_neg hletter, beq_false_of_ne hslash, beq_false_of_ne hquestion,
    beq_false_of_ne hbang]
  rfl

end Constructs

end Folio.Markup
