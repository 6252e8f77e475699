import Folio.Decimal.Numeral
import Folio.Proofs.Resource.References
import Folio.Proofs.Text.Lowered

/-!
Sets of image candidates as the HTML standard reads them: a candidate is an address that ends at a
space, with descriptors up to a comma, and is kept if these are the sizes it may have. Such
descriptors have no comma of their own, and no external address begins as they do.
-/
namespace Folio.Resource

section Standard

/-- White space and commas stand between candidates. -/
def isSeparator (c : Rune) : Bool := Text.isSpace c || c == ','

/-- An image candidate as it is written: its address, its descriptors, and its text up to and with
the comma that ends it. -/
structure Candidate where
  url : Chars
  descriptors : List Chars
  source : Chars
deriving DecidableEq, Repr

/-- The descriptor under way, from its last character to its first, if it has any. -/
def endDescriptor (word : Chars) : List Chars := if word.isEmpty then [] else [word.reverse]

/-- The descriptors up to the comma after them, and what follows it. A space or a comma between
parentheses is part of a descriptor. -/
def readDescriptors : Bool → Chars → Chars → List Chars × Chars
  | _, word, [] => (endDescriptor word, [])
  | true, word, c :: s => readDescriptors (c != ')') (c :: word) s
  | false, word, c :: s =>
      if c == ',' then (endDescriptor word, s)
      else if Text.isSpace c then
        let (later, rest) := readDescriptors false [] s
        (endDescriptor word ++ later, rest)
      else readDescriptors (c == '(') (c :: word) s

/-- The next candidate, and what follows it. Without descriptors the commas that end it are the
last of the characters up to a space. -/
def nextCandidate? (s : Chars) : Option (Candidate × Chars) :=
  let body := s.dropWhile isSeparator
  let run := body.takeWhile fun c => !Text.isSpace c
  let after := body.dropWhile fun c => !Text.isSpace c
  if body.isEmpty then none
  else if run.getLast? == some (.of ',') then some (⟨Text.dropEnd (· == .of ',') run, [], run⟩, after)
  else
    let (descriptors, rest) := readDescriptors false [] (after.dropWhile Text.isSpace)
    some (⟨run, descriptors, between body rest⟩, rest)

/-- The candidates of a text, read at most `fuel` times. -/
def readCandidatesGo : Nat → Chars → List Candidate
  | 0, _ => []
  | fuel + 1, s =>
      match nextCandidate? s with
      | some (c, rest) => c :: readCandidatesGo fuel rest
      | none => []

/-- The candidates of a text. -/
def readCandidates (value : Chars) : List Candidate := readCandidatesGo (value.length + 1) value

/-- A point that no digit follows is after the whole part of the numeral. -/
def hasOpenPoint (s : Chars) : Bool :=
  match s.dropWhile Rune.isDigit with
  | '.' :: rest => !rest.head?.any Rune.isDigit
  | _ => false

/-- The number that a valid numeral after its sign stands for. -/
def readMagnitude? (negative : Bool) (s : Chars) : Option Decimal.Binary64 :=
  if hasOpenPoint s then none else Decimal.unsigned? negative s

/-- The number that a valid numeral stands for. -/
def readFloat? : Chars → Option Decimal.Binary64
  | '-' :: s => readMagnitude? true s
  | s => readMagnitude? false s

/-- A number that a density may be: within the range, and not below zero. -/
def isDensity : Decimal.Binary64 → Bool
  | .finite negative mantissa _ => !negative || mantissa == 0
  | _ => false

/-- Which sizes the descriptors have given. -/
structure Sizes where
  width : Bool
  density : Bool
  height : Bool
deriving DecidableEq, Repr

/-- A whole number that is not zero. -/
def isCount (s : Chars) : Bool := !s.isEmpty && s.all Rune.isDigit && Decimal.valueOf s != 0

/-- The sizes with that of a descriptor, unless it is none or may not stand beside the others. -/
def Sizes.add? (sizes : Sizes) (descriptor : Chars) : Option Sizes :=
  let body := descriptor.dropLast
  let letter := descriptor.getLast?
  if letter == some (.of 'w') && isCount body && !(sizes.width || sizes.density) then
    some { sizes with width := true }
  else if letter == some (.of 'x') && (readFloat? body).any isDensity &&
      !(sizes.width || sizes.density || sizes.height) then
    some { sizes with density := true }
  else if letter == some (.of 'h') && isCount body && !(sizes.height || sizes.density) then
    some { sizes with height := true }
  else none

/-- The candidate is one of the images that can be shown: its descriptors are sizes, and a height
does not stand without a width. -/
def Candidate.isKept (c : Candidate) : Bool :=
  (c.descriptors.foldlM Sizes.add? ⟨false, false, false⟩).any fun sizes =>
    !sizes.height || sizes.width

example : (readCandidates "a.png 1x,, data:a,b 2w (1,2),\tc.png,".runes).map (·.url) =
    ["a.png", "data:a,b", "c.png"].map String.runes := by decide
example : (readCandidates "a -1x, b -.0e2x, c 2w 1h, d 1h, e 1.x, f +1w".runes).map
    Candidate.isKept = [false, true, true, false, false, false] := by decide +kernel

end Standard

section Descriptors

variable {word s rest d : Chars} {ds : List Chars} {inParens : Bool}

/-- A character that a number begins with. -/
def startsNumber (c : Rune) : Bool := c.isDigit || c == '-' || c == '.'

theorem isBlank_of_isSpace {c : Rune} (h : Text.isSpace c) : Text.isBlank c := by
  simp only [Text.isSpace, Bool.or_eq_true, beq_iff_eq] at h
  rcases h with (((rfl | rfl) | rfl) | rfl) | rfl <;> decide

/-- No external address begins as a number does. -/
theorem foreign_of_startsNumber {c : Rune} (h : startsNumber c) :
    isForeign c ∧ Text.isBlank c = false := by
  have hascii : c.toNat < 128 := by
    simp only [startsNumber, Bool.or_eq_true, beq_iff_eq, Rune.isDigit, Bool.and_eq_true,
      decide_eq_true_eq] at h
    rcases h with (⟨-, hdigit⟩ | rfl) | rfl
    · have hcode : c.toNat ≤ 57 := hdigit
      omega
    · decide
    · decide
  have hall : ∀ n ∈ List.range 128, startsNumber (Rune.ofNat n) →
      isForeign (Rune.ofNat n) ∧ Text.isBlank (Rune.ofNat n) = false := by
    decide +kernel
  exact Text.ascii_forall (P := fun c => startsNumber c → isForeign c ∧ Text.isBlank c = false)
    hall hascii h

/-- A descriptor without parentheses that begins as a number does. -/
structure IsPlain (d : Chars) : Prop where
  noParens : .of '(' ∉ d
  first : ∀ c ∈ d.head?, startsNumber c

/-- The descriptor under way is the beginning of the first one that is read. -/
theorem readDescriptors_of_word (hword : word ≠ []) (inParens : Bool) (s : Chars) :
    ∃ d ds, (readDescriptors inParens word s).1 = d :: ds ∧ word.reverse <+: d := by
  have hend : endDescriptor word = [word.reverse] := if_neg (mt List.isEmpty_iff.1 hword)
  induction s generalizing word inParens with
  | nil => exact ⟨word.reverse, [], by rw [readDescriptors, hend], List.prefix_refl _⟩
  | cons c s ih =>
      have hgrown (next : Bool) : ∃ d ds, (readDescriptors next (c :: word) s).1 = d :: ds ∧
          word.reverse <+: d := by
        obtain ⟨d, ds, hds, hbegins⟩ := ih (List.cons_ne_nil c word) next rfl
        rw [List.reverse_cons] at hbegins
        exact ⟨d, ds, hds, (List.prefix_append _ _).trans hbegins⟩
      cases inParens with
      | true => exact hgrown _
      | false =>
          rw [readDescriptors]
          split
          · exact ⟨word.reverse, [], hend, List.prefix_refl _⟩
          · split
            · exact ⟨word.reverse, _, by rw [hend]; rfl, List.prefix_refl _⟩
            · exact hgrown _

/-- A word under way of plain descriptors opens no parenthesis, and begins as a number does. -/
theorem plain_of_word {c : Rune} (h : readDescriptors inParens (c :: word) s = (ds, rest))
    (hall : ∀ d ∈ ds, IsPlain d) : c ≠ '(' ∧ (word = [] → startsNumber c) := by
  obtain ⟨d, ds', hds, hbegins⟩ := readDescriptors_of_word (List.cons_ne_nil c word) inParens s
  rw [h] at hds
  obtain rfl : ds = d :: ds' := hds
  have hd := hall d List.mem_cons_self
  rw [List.reverse_cons] at hbegins
  refine ⟨?_, fun hnil => ?_⟩
  · rintro rfl
    exact hd.noParens (hbegins.subset (by simp))
  · obtain ⟨more, rfl⟩ := hbegins
    exact hd.first c (by simp [hnil])

/-- The text of the descriptors goes up to a comma, or to the end. If they are plain, it has no
other comma, and it begins as a number does if none is under way. -/
theorem readDescriptors_sound (h : readDescriptors inParens word s = (ds, rest)) :
    ∃ text, (s = text ∧ rest = [] ∨ s = text ++ .of ',' :: rest) ∧
      (inParens = false → (∀ d ∈ ds, IsPlain d) →
        .of ',' ∉ text ∧ (word = [] → ∀ c ∈ (Text.trimLeft text).head?, startsNumber c)) := by
  induction s generalizing inParens word ds with
  | nil =>
      rw [readDescriptors] at h
      obtain ⟨-, rfl⟩ := Prod.mk.inj h
      exact ⟨[], Or.inl ⟨rfl, rfl⟩, fun _ _ => ⟨List.not_mem_nil, fun _ c hc => by cases hc⟩⟩
  | cons c s ih =>
      have hends {text : Chars} (hs : s = text ∧ rest = [] ∨ s = text ++ .of ',' :: rest) :
          c :: s = c :: text ∧ rest = [] ∨ c :: s = (c :: text) ++ .of ',' :: rest :=
        hs.imp (And.imp_left (congrArg (c :: ·))) (congrArg (c :: ·))
      cases inParens with
      | true =>
          obtain ⟨text, hs, -⟩ := ih h
          exact ⟨c :: text, hends hs, fun hparens => absurd hparens Bool.noConfusion⟩
      | false =>
          rw [readDescriptors] at h
          split at h
          · rename_i hcomma
            obtain ⟨-, rfl⟩ := Prod.mk.inj h
            rw [eq_of_beq hcomma]
            exact ⟨[], Or.inr rfl, fun _ _ => ⟨List.not_mem_nil, fun _ c hc => by cases hc⟩⟩
          · rename_i hcomma
            have hne : ',' ≠ c := fun heq => hcomma (by rw [heq, beq_self_eq_true])
            split at h
            · rename_i hspace
              obtain ⟨hds, rfl⟩ := Prod.mk.inj h
              obtain ⟨text, hs, hplain⟩ := ih (rfl : readDescriptors false [] s = (_, _))
              refine ⟨c :: text, hends hs, fun _ hall => ?_⟩
              have hlater := hplain rfl fun d hd => hall d (hds ▸ List.mem_append_right _ hd)
              refine ⟨List.not_mem_cons_of_ne_of_not_mem hne hlater.1, fun _ => ?_⟩
              rw [Text.trimLeft, List.dropWhile_cons_of_pos (isBlank_of_isSpace hspace)]
              exact hlater.2 rfl
            · rename_i hspace
              obtain ⟨text, hs, hplain⟩ := ih h
              refine ⟨c :: text, hends hs, fun _ hall => ?_⟩
              obtain ⟨hparen, hstarts⟩ := plain_of_word h hall
              have hlater := hplain (beq_false_of_ne hparen) hall
              refine ⟨List.not_mem_cons_of_ne_of_not_mem hne hlater.1, fun hnil => ?_⟩
              have hblank := Bool.eq_false_iff.1 (foreign_of_startsNumber (hstarts hnil)).2
              rw [Text.trimLeft, List.dropWhile_cons_of_neg hblank]
              intro e he
              rw [List.head?_cons, Option.mem_some_iff] at he
              exact he ▸ hstarts hnil

end Descriptors

section Numbers

variable {s d : Chars} {ds : List Chars} {sizes sizes' : Sizes} {x : Decimal.Binary64}

/-- The characters of numerals. -/
def isNumeralChar (c : Rune) : Bool :=
  c.isDigit || c == '-' || c == '+' || c == '.' || c == 'e' || c == 'E'

theorem isNumeralChar_of_isDigit {c : Rune} (h : c.isDigit) : isNumeralChar c := by
  simp [isNumeralChar, h]

theorem splitSign_sound (s : Chars) :
    ∃ sign, s = sign ++ (Decimal.splitSign s).2 ∧ ∀ c ∈ sign, isNumeralChar c := by
  unfold Decimal.splitSign
  split
  · exact ⟨['-'], rfl, List.forall_mem_singleton.2 (by decide)⟩
  · exact ⟨['+'], rfl, List.forall_mem_singleton.2 (by decide)⟩
  · exact ⟨[], rfl, fun _ hc => absurd hc List.not_mem_nil⟩

theorem numeralChars_of_exponent? {e : Int} (h : Decimal.exponent? s = some e) :
    ∀ c ∈ s, isNumeralChar c := by
  cases s with
  | nil => exact fun _ hc => absurd hc List.not_mem_nil
  | cons letter s =>
      rw [Decimal.exponent?] at h
      obtain ⟨hletter, hdigits⟩ := Option.ite_none_right_eq_some.1 h
      obtain ⟨sign, hs, hsign⟩ := splitSign_sound s
      obtain ⟨hall, -⟩ := Option.ite_none_left_eq_some.1 hdigits
      simp only [Bool.or_eq_true, Bool.not_eq_true', not_or, Bool.not_eq_false,
        List.all_eq_true] at hall
      intro c hc
      rcases List.mem_cons.1 hc with rfl | hlater
      · simp only [Bool.or_eq_true, beq_iff_eq] at hletter
        rcases hletter with rfl | rfl <;> decide
      · rw [hs, List.mem_append] at hlater
        exact hlater.elim (hsign c) fun hdigit => isNumeralChar_of_isDigit (hall.2 c hdigit)

/-- A numeral without its sign begins with a digit or with the point. -/
theorem numeralChars_of_unsigned? {negative : Bool} (h : Decimal.unsigned? negative s = some x) :
    (∀ c ∈ s, isNumeralChar c) ∧ ∃ c ∈ s.head?, startsNumber c := by
  have hrun (s : Chars) : ∀ c ∈ s.takeWhile Rune.isDigit, isNumeralChar c := fun c hc =>
    isNumeralChar_of_isDigit (List.mem_takeWhile_imp hc)
  have hs := List.takeWhile_append_dropWhile (p := Rune.isDigit) (l := s)
  rw [Decimal.unsigned?] at h
  generalize htail : s.dropWhile Rune.isDigit = tail at h hs
  dsimp only at h
  obtain ⟨hdigits, hvalue⟩ := Option.ite_none_left_eq_some.1 h
  obtain ⟨e, hexponent, -⟩ := Option.map_eq_some_iff.1 hvalue
  constructor
  · rw [← hs]
    intro c hc
    rcases List.mem_append.1 hc with hwhole | hlater
    · exact hrun s c hwhole
    · split at hexponent
      · rename_i rest
        rcases List.mem_cons.1 hlater with rfl | hrest
        · decide
        · rw [← List.takeWhile_append_dropWhile (p := Rune.isDigit) (l := rest),
            List.mem_append] at hrest
          exact hrest.elim (hrun rest c) (numeralChars_of_exponent? hexponent c)
      · exact numeralChars_of_exponent? hexponent c hlater
  · cases s with
    | nil =>
        rw [← htail] at hdigits
        exact absurd rfl hdigits
    | cons c s =>
        refine ⟨c, rfl, ?_⟩
        by_cases hdigit : c.isDigit
        · simp [startsNumber, hdigit]
        · rw [List.takeWhile_cons_of_neg hdigit] at hdigits
          rw [List.dropWhile_cons_of_neg hdigit] at htail
          split at hdigits
          · obtain rfl := (List.cons.inj htail).1
            decide
          · exact absurd rfl hdigits

theorem isPlain_of_readFloat? (h : readFloat? s = some x) : IsPlain (s ++ [.of 'x']) := by
  have hchars (s : Chars) (hs : ∀ c ∈ s, isNumeralChar c) : .of '(' ∉ s ++ [.of 'x'] := by
    intro hmem
    rcases List.mem_append.1 hmem with hnumeral | hlast
    · exact absurd (hs _ hnumeral) (by decide)
    · exact absurd (List.mem_singleton.1 hlast) (by decide)
  unfold readFloat? at h
  split at h
  · rename_i s
    obtain ⟨hall, -⟩ := numeralChars_of_unsigned? (Option.ite_none_left_eq_some.1 h).2
    refine ⟨hchars _ (List.forall_mem_cons.2 ⟨by decide, hall⟩), fun c hc => ?_⟩
    obtain rfl : '-' = c := by simpa using hc
    decide
  · obtain ⟨hall, c, hc, hstart⟩ := numeralChars_of_unsigned? (Option.ite_none_left_eq_some.1 h).2
    refine ⟨hchars _ hall, fun d hd => ?_⟩
    obtain ⟨rest, rfl⟩ := List.head?_eq_some_iff.1 hc
    obtain rfl : c = d := by simpa using hd
    exact hstart

theorem isPlain_of_isCount (h : isCount s) {c : Rune} (hc : c ≠ '(') : IsPlain (s ++ [c]) := by
  simp only [isCount, Bool.and_eq_true, Bool.not_eq_true', List.all_eq_true] at h
  obtain ⟨⟨hne, hdigits⟩, -⟩ := h
  constructor
  · intro hmem
    rcases List.mem_append.1 hmem with hdigit | hlast
    · exact absurd (hdigits _ hdigit) (by decide)
    · exact hc (List.mem_singleton.1 hlast).symm
  · intro d hd
    cases s with
    | nil => exact absurd hne (by simp)
    | cons e s =>
        obtain rfl : e = d := by simpa using hd
        simp [startsNumber, hdigits e List.mem_cons_self]

/-- A size begins as a number does, and has no parentheses. -/
theorem isPlain_of_add? (h : sizes.add? d = some sizes') : IsPlain d := by
  have hletter {c : Rune} (hlast : d.getLast? = some c) : d = d.dropLast ++ [c] :=
    (List.dropLast_append_getLast? c hlast).symm
  unfold Sizes.add? at h
  dsimp only at h
  split at h
  · rename_i hwidth
    simp only [Bool.and_eq_true, beq_iff_eq] at hwidth
    rw [hletter hwidth.1.1]
    exact isPlain_of_isCount hwidth.1.2 (by decide)
  · split at h
    · rename_i hdensity
      simp only [Bool.and_eq_true, beq_iff_eq, Option.any_eq_true] at hdensity
      obtain ⟨⟨hlast, x, hx, -⟩, -⟩ := hdensity
      rw [hletter hlast]
      exact isPlain_of_readFloat? hx
    · obtain ⟨hheight, -⟩ := Option.ite_none_right_eq_some.1 h
      simp only [Bool.and_eq_true, beq_iff_eq] at hheight
      rw [hletter hheight.1.1]
      exact isPlain_of_isCount hheight.1.2 (by decide)

theorem isPlain_of_foldlM (h : ds.foldlM Sizes.add? sizes = some sizes') :
    ∀ d ∈ ds, IsPlain d := by
  induction ds generalizing sizes with
  | nil => exact fun _ hd => absurd hd List.not_mem_nil
  | cons d ds ih =>
      rw [List.foldlM_cons] at h
      obtain ⟨next, hnext, hlater⟩ := Option.bind_eq_some_iff.1 h
      exact List.forall_mem_cons.2 ⟨isPlain_of_add? hnext, ih hlater⟩

theorem isPlain_of_isKept {c : Candidate} (h : c.isKept) : ∀ d ∈ c.descriptors, IsPlain d := by
  obtain ⟨sizes, hsizes, -⟩ := (Option.any_eq_true _ _).1 h
  exact isPlain_of_foldlM hsizes

end Numbers

end Folio.Resource
