import Folio.Proofs.Document.LayoutText
import Folio.Service.App

/-!
What a text needs to be written in bytes: no half of a surrogate pair. The document of a bundle has
one exactly if its sections have one, or another of the parts that come from the bundle; what is
written around them has none.
-/
namespace Folio.Service

open Document (Bundle Sheet assemblePages writeDocument)

section Texts

variable {s t : Chars}

theorem isEncodable_iff : isEncodable s ↔ ∀ c ∈ s, c.isHalf = false := by
  simp [isEncodable]

@[simp] theorem isEncodable_nil : isEncodable [] = true := rfl

@[simp] theorem isEncodable_append : isEncodable (s ++ t) = (isEncodable s && isEncodable t) := by
  simp [isEncodable, List.any_append]

@[simp] theorem isEncodable_cons_of (c : Char) (s : Chars) :
    isEncodable (.of c :: s) = isEncodable s := by
  simp [isEncodable, Rune.isHalf]

theorem isEncodable_map_of (s : List Char) : isEncodable (s.map .of) = true := by
  rw [isEncodable_iff, List.forall_mem_map]
  exact fun _ _ => rfl

@[simp] theorem isEncodable_runes (s : String) : isEncodable s.runes = true :=
  isEncodable_map_of s.toList

theorem isEncodable_decimal (n : Nat) : isEncodable (Text.decimal n) = true :=
  isEncodable_map_of (Nat.toDigits 10 n)

theorem isEncodable_flatten {lines : List Chars} :
    isEncodable lines.flatten ↔ ∀ line ∈ lines, isEncodable line := by
  induction lines with
  | nil => simp
  | cons line lines ih => simp [ih]

theorem isEncodable_intercalate {sep : Chars} (hsep : isEncodable sep) (lines : List Chars) :
    isEncodable (List.intercalate sep lines) ↔ ∀ line ∈ lines, isEncodable line := by
  rw [← isEncodable_flatten, isEncodable_iff, isEncodable_iff]
  constructor
  · exact fun h c hc => h c (Document.mem_intercalate_of_mem sep hc)
  · exact fun h c hc => (Document.mem_intercalate hc).elim (isEncodable_iff.1 hsep c) (h c)

end Texts

section Documents

theorem forall_isEncodable_runes (rules : List String) :
    ∀ line ∈ rules.map String.runes, isEncodable line := by
  rw [List.forall_mem_map]
  exact fun rule _ => isEncodable_runes rule

theorem isEncodable_scriptTag : isEncodable Paginate.scriptTag := by
  have hlines : ∀ line ∈ ["(function () \x7b".runes, Paginate.bufferLine] ++
      Paginate.scriptLines.map String.runes, isEncodable (line ++ [.of '\n']) := by
    simp [Paginate.bufferLine, isEncodable_decimal]
  have hsource : isEncodable Paginate.scriptSource := by
    rw [Paginate.scriptSource, List.flatMap_def, isEncodable_flatten, List.forall_mem_map]
    exact hlines
  simp [Paginate.scriptTag, hsource]

/-- A style sheet can be written in bytes exactly if its measures can. -/
theorem isEncodable_sheet_iff (s : Sheet) :
    isEncodable s.write ↔ ∀ value ∈ s.slots, isEncodable value := by
  have hframe : ∀ line ∈ s.frameLines, isEncodable line := by
    unfold Sheet.frameLines
    split
    · exact List.forall_mem_cons.2 ⟨rfl, List.forall_mem_append.2
        ⟨forall_isEncodable_runes _, List.forall_mem_singleton.2 rfl⟩⟩
    · exact List.forall_mem_singleton.2 rfl
  have hmarkers : ∀ line ∈ Document.markerRules.map Document.markerLine, isEncodable line := by
    decide
  have hslots : (∀ value ∈ s.slots, isEncodable value) ↔
      (∀ line ∈ s.propertyLines, isEncodable line) ∧ isEncodable s.pageLine := by
    simp [Sheet.slots, Sheet.valueLines, Sheet.properties, Document.propertyLine,
      Sheet.pageValueLine, Sheet.propertyLines, Sheet.pageLine, Document.writeDeclaration,
      List.intercalate, and_assoc]
  rw [hslots, Sheet.write, isEncodable_intercalate rfl, Sheet.lines]
  simp only [List.forall_mem_append]
  have hopening : ∀ line ∈ [[], "<style id=\"bundle-layout\">".runes, ":root\x7b".runes],
      isEncodable line := by decide
  have hclose : ∀ line ∈ ["\x7d".runes, []], isEncodable line := by decide
  have hrules := forall_isEncodable_runes
  constructor
  · rintro ⟨⟨⟨⟨⟨⟨⟨⟨⟨-, hproperties⟩, -⟩, -⟩, -⟩, -⟩, -⟩, -⟩, hpage⟩, -⟩
    exact ⟨hproperties, hpage _ List.mem_cons_self⟩
  · rintro ⟨hproperties, hpage⟩
    exact ⟨⟨⟨⟨⟨⟨⟨⟨⟨hopening, hproperties⟩, hclose⟩, hrules _⟩, hframe⟩, hmarkers⟩, hrules _⟩,
      hrules _⟩, List.forall_mem_singleton.2 hpage⟩, hrules _⟩

/-- The texts of a bundle that its document has besides the sections. -/
def writtenParts (b : Bundle) : List Chars :=
  [Markup.escape b.title, Document.metaTags b.metaEntries, Document.styleTags b.keptStyles.value,
    Markup.escape b.classText, Document.scriptTags b.keptScripts.value] ++ b.layout.sheet.slots

theorem isEncodable_writeDocument_iff (b : Bundle) (sections : Chars) :
    isEncodable (writeDocument b b.keptStyles.value sections b.keptScripts.value) ↔
      isEncodable sections ∧ ∀ part ∈ writtenParts b, isEncodable part := by
  have hscript : isEncodable (if b.layout.paginates then Paginate.scriptTag else []) := by
    split
    · exact isEncodable_scriptTag
    · rfl
  simp [writeDocument, Document.writeHead, Document.writeBody, Markup.writeAttribute,
    isEncodable_sheet_iff, writtenParts, hscript]
  tauto

/-- The document of a bundle can be written in bytes exactly if its sections can, and all else that
comes from the bundle. -/
theorem isEncodable_of_compile {b : Bundle} {html : Chars} (h : b.compile.value = .ok html) :
    ∃ sections, (assemblePages b).value = .ok sections ∧
      (isEncodable html ↔ isEncodable sections ∧ ∀ part ∈ writtenParts b, isEncodable part) := by
  obtain ⟨sections, hsections, rfl⟩ := exists_of_map_eq_ok h
  exact ⟨sections, hsections, isEncodable_writeDocument_iff b sections⟩

end Documents

end Folio.Service
