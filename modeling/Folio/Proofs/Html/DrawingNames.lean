import Folio.Proofs.Entries
import Folio.Proofs.Html.Origins
import Folio.Proofs.Html.TagNames

/-!
The attributes of elements as they are reported. Inside a drawing some have another name than in
their tag, but no two attributes of a tag get one name, so each is reported with its value.
-/
namespace Folio.Html

open Build (drawingAttributes spacedAttributes drawingName)

/-- The name of an attribute as it is reported for an element. -/
def reportedName (drawing : Bool) (name : Chars) : Chars :=
  if drawing then drawingName name else name

/-- A name under which an attribute of some tag is reported. -/
def IsReported (reported : Chars) : Prop :=
  ∃ drawing name, IsName name ∧ reported = reportedName drawing name

/-- The names that attributes get inside a drawing in place of their own. -/
def respeltNames : List Chars :=
  drawingAttributes ++ spacedAttributes.map Prod.snd

/-- The name in the tag of an attribute that is reported for a drawing. -/
def sourceName (reported : Chars) : Chars :=
  ((spacedAttributes.find? fun e => e.2 == reported).map Prod.fst).getD
    (Text.lowerAscii reported)

/-- Names that are written with capitals are made of letters, and are so in lower case. -/
theorem isAlpha_drawingAttributes :
    ∀ n ∈ drawingAttributes, ∀ c ∈ n, c.isAlpha ∧ c.toLower.isAlpha := by
  have hall : ∀ n ∈ drawingAttributes, n.all fun c => c.isAlpha && c.toLower.isAlpha := by
    decide +kernel
  intro n hn c hc
  exact Bool.and_eq_true_iff.1 (List.all_eq_true.1 (hall n hn) c hc)

section Names

variable {name : Chars}

/-- A name is written in capitals, put into a name space, or stays as it is. -/
theorem drawingName_cases (name : Chars) :
    (∃ n ∈ drawingAttributes, Text.lowerAscii n = name ∧ drawingName name = n) ∨
      (∃ e ∈ spacedAttributes, e.1 = name ∧ drawingName name = e.2) ∨
      drawingName name = name := by
  unfold drawingName
  split
  · rename_i n hfind
    exact Or.inl ⟨n, List.mem_of_find?_eq_some hfind,
      beq_iff_eq.1 (List.find?_some hfind :), rfl⟩
  · cases hlookup : spacedAttributes.lookup name with
    | none => exact Or.inr (Or.inr rfl)
    | some reported =>
        obtain ⟨before, after, heq, -⟩ := List.lookup_eq_some_iff.1 hlookup
        refine Or.inr (Or.inl ⟨(name, reported), ?_, rfl, rfl⟩)
        rw [heq]
        exact List.mem_append_right before List.mem_cons_self

/-- The name of an attribute in a name space holds slashes, and no other name does. -/
theorem sourceName_of_not_mem (h : .of '/' ∉ name) : sourceName name = Text.lowerAscii name := by
  have hslash : ∀ e ∈ spacedAttributes, .of '/' ∈ e.2 := by decide
  have hnone : spacedAttributes.find? (fun e => e.2 == name) = none :=
    List.find?_eq_none.2 fun e he heq => h (beq_iff_eq.1 heq ▸ hslash e he)
  rw [sourceName, hnone]
  rfl

/-- The name of a tag is found again. -/
theorem sourceName_drawingName (h : IsName name) : sourceName (drawingName name) = name := by
  have hspaced : ∀ e ∈ spacedAttributes, sourceName e.2 = e.1 := by decide +kernel
  have hcapital : ∀ n ∈ drawingAttributes, .of '/' ∉ n :=
    fun n hn hmem => absurd (isAlpha_drawingAttributes n hn '/' hmem).1 (by decide)
  rcases drawingName_cases name with ⟨n, hn, rfl, heq⟩ | ⟨e, he, rfl, heq⟩ | heq
  · rw [heq, sourceName_of_not_mem (hcapital n hn)]
  · rw [heq, hspaced e he]
  · have hplain : .of '/' ∉ name := fun hmem => absurd (h.chars '/' hmem) (by decide)
    rw [heq, sourceName_of_not_mem hplain, lowerAscii_eq_self h.chars]

end Names

theorem reportedName_cases (drawing : Bool) (name : Chars) :
    reportedName drawing name = name ∨ reportedName drawing name ∈ respeltNames := by
  cases drawing with
  | false => exact Or.inl rfl
  | true =>
      change drawingName name = name ∨ drawingName name ∈ respeltNames
      rcases drawingName_cases name with ⟨n, hn, -, heq⟩ | ⟨e, he, -, heq⟩ | heq
      · exact Or.inr (heq ▸ List.mem_append_left _ hn)
      · exact Or.inr (heq ▸ List.mem_append_right _ (List.mem_map_of_mem he))
      · exact Or.inl heq

/-- Every attribute of a tag is reported, in its place and with its value. -/
theorem reportedAttributes_eq {tag : Tag} (h : tag.Sound) (drawing : Bool) :
    reportedAttributes drawing tag.attrs =
      tag.attrs.map fun a => (reportedName drawing a.1, a.2) := by
  cases drawing with
  | false => exact (List.map_id _).symm
  | true =>
      let named : List (Chars × Chars) := tag.attrs.map fun a => (drawingName a.1, a.2)
      have hback : named.map (sourceName ∘ Prod.fst) = tag.attrs.map Prod.fst := by
        rw [List.map_map]
        exact List.map_congr_left fun a ha => sourceName_drawingName (h.names a ha)
      have hdistinct : (([] ++ named).map Prod.fst).Nodup := by
        refine List.Nodup.of_map sourceName ?_
        rw [List.nil_append, List.map_map, hback]
        exact h.distinct
      have hentries := Entries.foldl_put_of_nodup hdistinct
      rwa [List.foldl_map, List.nil_append] at hentries

/-- The attributes of an element have names under which attributes of tags are reported. -/
theorem isReported_of_mem_reportedAttributes {tag : Tag} (h : tag.Sound) {drawing : Bool}
    {attr : Chars × Chars} (hattr : attr ∈ reportedAttributes drawing tag.attrs) :
    IsReported attr.1 := by
  rw [reportedAttributes_eq h] at hattr
  obtain ⟨a, ha, rfl⟩ := List.mem_map.1 hattr
  exact ⟨drawing, a.1, h.names a ha, rfl⟩

theorem eq_start_of_tag?_eq_some {t : Token} {tag : Tag} (h : t.tag? = some tag) :
    t = .start tag := by
  cases t with
  | start other => exact congrArg Token.start (Option.some.inj h)
  | _ => contradiction

/-- Where tokens are taken as they are or as other things than tags, every tag that is taken is
sound. -/
theorem sound_of_mem_readTags {accept : Bool → Token → Token}
    (haccept : ∀ seen t tag, accept seen t = .start tag → t = .start tag) {n : Nat} {seen : Bool}
    {s : Chars} {b : Build} {tag : Tag} (h : tag ∈ readTags accept n seen s b) : tag.Sound := by
  induction n generalizing seen s b with
  | zero => exact absurd h List.not_mem_nil
  | succ n ih =>
      cases s with
      | nil => exact absurd h List.not_mem_nil
      | cons c s =>
          rw [readTags] at h
          rcases List.mem_append.1 h with hhere | hlater
          · refine sound_readToken b.inDrawing c s tag (haccept seen _ tag ?_)
            exact eq_start_of_tag?_eq_some (Option.mem_toList.1 hhere)
          · exact ih hlater

end Folio.Html
