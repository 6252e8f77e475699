import Folio.Markup.Escape
import Folio.Proofs.Markup.WrittenTags
import Folio.Proofs.Outcomes

/-!
Values of attributes as they are written. A value is written character by character, each one as it
is or as a reference to it, and is read again as it was, and so are attributes with such values.
-/
namespace Folio.Markup

/-- The text is the character, or a reference that is read as the character whatever follows. -/
def Writes (text : Chars) (c : Rune) : Prop :=
  (c ≠ '&' ∧ text = [c]) ∨ ∃ body r, text = .of '&' :: body ∧ r.inValue = .ok [c] ∧
    ∀ rest, reference? (body ++ rest) = some (r, rest)

/-- A character is written by its name. -/
theorem Writes.of_name {name : Chars} {c : Rune} (hnamed : named? name = some [c])
    (hread : ∀ rest, reference? (name ++ rest) = some (.name name, rest)) :
    Writes (.of '&' :: name) c := by
  refine Or.inr ⟨name, .name name, rfl, ?_, hread⟩
  rw [Reference.inValue, hnamed]

section Written

variable {write : Rune → Chars}

theorem decodeValueGo_written (hwrite : ∀ c, Writes (write c) c) {value : Chars} {fuel : Nat}
    (hfuel : (value.flatMap write).length ≤ fuel) :
    decodeValueGo fuel (value.flatMap write) = .ok value := by
  induction value generalizing fuel with
  | nil =>
      rw [List.flatMap_nil]
      cases fuel <;> rfl
  | cons c value ih =>
      rw [List.flatMap_cons, List.length_append] at hfuel
      rw [List.flatMap_cons]
      rcases hwrite c with ⟨hamp, hsame⟩ | ⟨body, r, hbody, hvalue, hread⟩
      · rw [hsame] at hfuel ⊢
        obtain ⟨fuel, rfl⟩ : ∃ less, fuel = less + 1 :=
          ⟨fuel - 1, by rw [List.length_singleton] at hfuel; omega⟩
        rw [List.length_singleton] at hfuel
        rw [List.singleton_append, decodeValueGo, beq_false_of_ne hamp,
          if_neg Bool.false_ne_true, ih (by omega)]
        rfl
      · rw [hbody] at hfuel ⊢
        rw [List.length_cons] at hfuel
        obtain ⟨fuel, rfl⟩ : ∃ less, fuel = less + 1 := ⟨fuel - 1, by omega⟩
        rw [List.cons_append, decodeValueGo, if_pos (beq_self_eq_true _), hread]
        dsimp only
        rw [hvalue, ih (by omega)]
        rfl

/-- A value that is written so is read again. -/
theorem decodeValue_written (hwrite : ∀ c, Writes (write c) c) (value : Chars) :
    decodeValue (value.flatMap write) = .ok value :=
  decodeValueGo_written hwrite (Nat.le_refl _)

/-- A value without references stands for itself. -/
theorem decodeValue_of_not_mem {value : Chars} (h : .of '&' ∉ value) :
    decodeValue value = .ok value := by
  have hgo : ∀ fuel, decodeValueGo fuel value = .ok value := by
    induction value with
    | nil => exact fun fuel => by cases fuel <;> rfl
    | cons c value ih =>
        obtain ⟨hc, hlater⟩ := List.ne_and_not_mem_of_not_mem_cons h
        intro fuel
        cases fuel with
        | zero => rfl
        | succ fuel =>
            rw [decodeValueGo, beq_false_of_ne (Ne.symm hc), if_neg Bool.false_ne_true, ih hlater]
            rfl
  exact hgo _

end Written

/-- The marks that are written as references, with what follows the ampersand. -/
def markNames : List (Rune × Chars) := [
  ('&', "amp;".runes), ('<', "lt;".runes), ('>', "gt;".runes), ('"', "quot;".runes),
  ('\'', "#x27;".runes)]

/-- A character is written as it is, or is a mark and written by its name. -/
theorem escapeChar_cases (c : Rune) : (c ∉ markNames.map Prod.fst ∧ escapeChar c = [c]) ∨
    ∃ name, (c, name) ∈ markNames ∧ escapeChar c = .of '&' :: name := by
  by_cases h : c ∈ markNames.map Prod.fst
  · have hmarks : ∀ m ∈ markNames, escapeChar m.1 = .of '&' :: m.2 := by decide
    obtain ⟨⟨_, name⟩, hname, rfl⟩ := List.mem_map.1 h
    exact Or.inr ⟨name, hname, hmarks _ hname⟩
  · refine Or.inl ⟨h, ?_⟩
    simp only [markNames, List.map_cons, List.mem_cons, not_or] at h
    obtain ⟨hamp, hangle, hend, hdouble, hsingle, -⟩ := h
    simp [escapeChar, hamp, hangle, hend, hdouble, hsingle]

theorem writes_escapeChar (c : Rune) : Writes (escapeChar c) c := by
  have hmarks : ∀ m ∈ markNames, Writes (.of '&' :: m.2) m.1 := by
    have hnumber : numbered (Text.hexNumber "27".runes) = ['\''] := by decide
    simp only [markNames, List.forall_mem_cons]
    exact ⟨Writes.of_name (by decide) fun rest => rfl, Writes.of_name (by decide) fun rest => rfl,
      Writes.of_name (by decide) fun rest => rfl, Writes.of_name (by decide) fun rest => rfl,
      Or.inr ⟨"#x27;".runes, .hexadecimal "27".runes, rfl, congrArg Except.ok hnumber,
        fun rest => rfl⟩, List.forall_mem_nil _⟩
  rcases escapeChar_cases c with ⟨hc, hsame⟩ | ⟨name, hname, hescaped⟩
  · refine Or.inl ⟨?_, hsame⟩
    rintro rfl
    exact hc (by decide)
  · rw [hescaped]
    exact hmarks _ hname

/-- An escaped value is read again as it was. -/
theorem decodeValue_escape (value : Chars) : decodeValue (escape value) = .ok value :=
  decodeValue_written writes_escapeChar value

/-- An escaped value holds no mark but the ampersand. -/
theorem mark_not_mem_escape {mark : Rune} (hmark : mark ∈ [.of '<', .of '>', .of '"', .of '\''])
    (value : Chars) : mark ∉ escape value := by
  simp only [List.mem_cons, List.not_mem_nil, or_false] at hmark
  have hnames : ∀ m ∈ markNames, mark ∉ .of '&' :: m.2 := by
    rcases hmark with rfl | rfl | rfl | rfl <;> decide
  have hmem : mark ∈ markNames.map Prod.fst := by
    rcases hmark with rfl | rfl | rfl | rfl <;> decide
  rw [escape, List.mem_flatMap]
  rintro ⟨c, -, hc⟩
  rcases escapeChar_cases c with ⟨hplain, hsame⟩ | ⟨name, hname, hescaped⟩
  · rw [hsame, List.mem_singleton] at hc
    exact hplain (hc ▸ hmem)
  · rw [hescaped] at hc
    exact hnames _ hname hc

theorem quote_not_mem_escape (value : Chars) : .of '"' ∉ escape value :=
  mark_not_mem_escape (by decide) value

/-- Attributes with their values escaped, between quotes. -/
def escapedAttributes (attrs : List (Chars × Chars)) : List QuotedAttribute :=
  attrs.map fun a => ⟨a.1, '"', escape a.2⟩

section Attributes

variable {attrs : List (Chars × Chars)}

theorem readable_escapedAttributes (h : ∀ a ∈ attrs, AttributeName a.1) :
    ∀ a ∈ escapedAttributes attrs, a.Readable :=
  List.forall_mem_map.2 fun a ha => ⟨h a ha, Or.inl rfl, quote_not_mem_escape a.2⟩

theorem sound_escapedAttributes (h : ∀ a ∈ attrs, isAttributeName a.1) :
    ∀ a ∈ escapedAttributes attrs, a.Sound :=
  List.forall_mem_map.2 fun a ha => ⟨h a ha, Or.inl rfl, quote_not_mem_escape a.2⟩

/-- Their names are read in lower case, and their values as they were. -/
theorem readAttributes_escapedAttributes (attrs : List (Chars × Chars)) :
    readAttributes (escapedAttributes attrs) =
      .ok (attrs.map fun a => (Text.lower a.1, some a.2)) := by
  rw [readAttributes, escapedAttributes, List.map_map]
  apply mapM_map_eq_ok_map
  intro a _
  rw [Function.comp_apply, readAttribute, decodeValue_escape]
  rfl

theorem cons_spaced {words : List Chars} (hwords : words ≠ []) :
    .of ' ' :: Text.spaced words = words.flatMap (.of ' ' :: ·) := by
  obtain ⟨first, words, rfl⟩ := List.exists_cons_of_ne_nil hwords
  clear hwords
  induction words generalizing first with
  | nil => simp [Text.spaced]
  | cons second words ih =>
      rw [List.flatMap_cons, ← ih second]
      simp [Text.spaced, List.intercalate]

/-- They are written with a space before each. -/
theorem cons_spaced_writeAttribute (h : attrs ≠ []) :
    .of ' ' :: Text.spaced (attrs.map fun a => writeAttribute a.1 a.2) =
      (escapedAttributes attrs).flatMap QuotedAttribute.text := by
  rw [cons_spaced fun hnil => h (List.map_eq_nil_iff.1 hnil), escapedAttributes, List.flatMap_map,
    List.flatMap_map]
  rfl

end Attributes

end Folio.Markup
