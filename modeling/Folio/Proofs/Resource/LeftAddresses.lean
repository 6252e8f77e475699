import Folio.Proofs.Resource.FastPath

/-!
The addresses that are left in the start tags of a stripped fragment. In one that is written anew no
attribute is external; one that is given back as it came may have an external value that a later
one of the same name replaces in the tree.
-/
namespace Folio.Resource

open Markup (Node Element elements readEvents startTags treeAttributes)

section Written

variable {name value : Chars} {attrs : List (Chars × Chars)}

/-- No attribute that holds an address holds words. -/
theorem not_holdsWords_of_mem (hname : name ∈ urlAttributes) (element : Chars) :
    Markup.holdsWords element name = false := by
  have heverywhere : ∀ n ∈ urlAttributes,
      (["class", "accesskey", "dropzone"] : List Chars).contains n = false := by decide
  have hsomewhere : ∀ n ∈ urlAttributes, ∀ row ∈ Markup.wordAttributes,
      row.2.contains n = false := by decide
  rw [Markup.holdsWords, heverywhere name hname, Bool.false_or]
  cases hlookup : Markup.wordAttributes.lookup (Text.lower element) with
  | none => rfl
  | some words =>
      obtain ⟨before, after, heq, -⟩ := List.lookup_eq_some_iff.1 hlookup
      exact hsomewhere name hname (_, words)
        (heq ▸ List.mem_append_right before List.mem_cons_self)

/-- An attribute that holds an address is written as it is. -/
theorem writtenValue_of_mem (hname : name ∈ urlAttributes) (element value : Chars) :
    Markup.writtenValue element attrs name value = value := by
  have hmeta : ∀ n ∈ urlAttributes, n ≠ "charset".runes ∧ n ≠ "content".runes := by decide
  obtain ⟨hcharset, hcontent⟩ := hmeta name hname
  rw [Markup.writtenValue, not_holdsWords_of_mem hname, beq_false_of_ne hcharset,
    beq_false_of_ne hcontent]
  simp

theorem mem_urlAttributes (h : isExternalAttribute name value) : name ∈ urlAttributes := by
  rw [isExternalAttribute, Bool.and_eq_true] at h
  exact List.contains_iff_mem.1 h.1

end Written

section Left

variable {html : Chars} {nodes : List Node} {events : List Markup.Event}

theorem stripFragment_of_tainted (hread : Node.read html = .ok nodes) (hleaves : mayLeave html)
    (h : anyTainted nodes) : stripFragment html = .ok (Node.writeAll (stripNodes nodes)) := by
  rw [stripFragment, if_pos hleaves, stripParsed, hread]
  exact congrArg Except.ok (if_pos h)

theorem stripFragment_of_not_tainted (hread : Node.read html = .ok nodes)
    (h : anyTainted nodes = false) : stripFragment html = .ok html := by
  rw [stripFragment, stripParsed_of_not_tainted hread h, ite_self]

/-- What is left in a fragment that is written anew. -/
theorem not_external_of_written (hrestorable : Restorable nodes)
    (hread : Node.read html = .ok nodes)
    (hevents : readEvents (Node.writeAll (stripNodes nodes)) = .ok events) :
    ∀ tag ∈ startTags events, ∀ name value, (name, some value) ∈ tag.attrs →
      isExternalAttribute name value = false := by
  intro tag htag name value hmem
  obtain ⟨e, he, selfClosing, rfl⟩ :=
    Markup.exists_element_of_mem_startTags (hrestorable.allOf hread) hevents htag
  obtain ⟨a, ha, heq⟩ := List.mem_map.1 hmem
  obtain ⟨rfl, hvalue⟩ := Prod.mk.inj heq
  obtain rfl := Option.some.inj hvalue
  obtain ⟨b, hb, rfl⟩ := Markup.exists_of_mem_writtenAttrs ha
  obtain ⟨e', -, -, hattrs⟩ := exists_of_mem_stripNodes nodes e he
  have hstays := not_external_of_mem_stripAttributes (hattrs ▸ hb)
  rw [Bool.eq_false_iff]
  intro hexternal
  dsimp only at hexternal
  rw [writtenValue_of_mem (mem_urlAttributes hexternal)] at hexternal
  exact absurd hexternal (Bool.eq_false_iff.1 hstays)

/-- In a fragment from which nothing is taken away, the value that the tree has is not external. -/
theorem exists_lookup_of_not_tainted (hread : Node.read html = .ok nodes)
    (hevents : readEvents html = .ok events) (h : anyTainted nodes = false) :
    ∀ tag ∈ startTags events, ∀ a ∈ tag.attrs, ∃ value,
      (treeAttributes tag.attrs).lookup a.1 = some value ∧ isExternalAttribute a.1 value = false := by
  intro tag htag a ha
  have hkey := Markup.mem_keys_treeAttributes.2 (List.mem_map_of_mem (f := Prod.fst) ha)
  obtain ⟨b, hb, hname⟩ := List.mem_map.1 hkey
  obtain ⟨e, he, heq⟩ := exists_element_of_startTag hread hevents htag
  rw [anyTainted_eq, List.any_eq_false] at h
  refine ⟨b.2, ?_, Bool.eq_false_iff.2 fun hexternal => ?_⟩
  · rw [Entries.lookup_eq_some_iff (Markup.nodup_treeAttributes _), ← hname]
    exact hb
  · rw [← hname] at hexternal
    exact h e he (taints_iff.2 (Or.inl ⟨b, heq ▸ hb, Or.inl hexternal⟩))

/-- A stripped fragment has an external address in a start tag only if nothing is taken away from
it, and the tree has a value of the same name that stays inside. -/
theorem left_of_stripFragment (hread : Node.read html = .ok nodes) (hleaves : mayLeave html)
    (hrestorable : anyTainted nodes → Restorable nodes) :
    ∃ out events, stripFragment html = .ok out ∧ readEvents out = .ok events ∧
      ∀ tag ∈ startTags events, ∀ name value, (name, some value) ∈ tag.attrs →
        isExternalAttribute name value → anyTainted nodes = false ∧
          ∃ later, (treeAttributes tag.attrs).lookup name = some later ∧
            isExternalAttribute name later = false := by
  cases htainted : anyTainted nodes with
  | true =>
      have hall := (hrestorable htainted).allOf hread
      obtain ⟨-, events, hevents⟩ := Markup.startPlaces_writeAll hall
      refine ⟨_, events, stripFragment_of_tainted hread hleaves htainted, hevents, ?_⟩
      intro tag htag name value hmem hexternal
      have hnot := not_external_of_written (hrestorable htainted) hread hevents tag htag name value hmem
      exact absurd hexternal (Bool.eq_false_iff.1 hnot)
  | false =>
      obtain ⟨events, -, hevents, -⟩ := Markup.exists_events_of_read hread
      refine ⟨html, events, stripFragment_of_not_tainted hread htainted, hevents, ?_⟩
      intro tag htag name value hmem _
      exact ⟨rfl, exists_lookup_of_not_tainted hread hevents htainted tag htag _ hmem⟩

end Left

/-- A link and an image from outside, and an image whose address is given twice. -/
def linkedFragment : Chars :=
  ("<p><a href=\"https://x/y\">t</a><img src=\"//x/z.png\">" ++
    "<img src=\"//x/a.png\" src=\"a.png\"></p>").runes

def linkedTree : List Node := [
  .element "p".runes [] [
    .element "a".runes [("href".runes, "https://x/y".runes)] [.text .plain "t".runes],
    .element "img".runes [("src".runes, "//x/z.png".runes)] [],
    .element "img".runes [("src".runes, "a.png".runes)] []]]

theorem read_linkedFragment : Node.read linkedFragment = .ok linkedTree := (rfl)

theorem left_of_stripFragment_linked : ∃ out events, stripFragment linkedFragment = .ok out ∧
    readEvents out = .ok events ∧ ∀ tag ∈ startTags events, ∀ name value,
      (name, some value) ∈ tag.attrs → isExternalAttribute name value = false := by
  obtain ⟨out, events, hout, hevents, hleft⟩ := left_of_stripFragment read_linkedFragment
    (by decide +kernel) fun _ => by decide +kernel
  refine ⟨out, events, hout, hevents, fun tag htag name value hmem => ?_⟩
  rw [Bool.eq_false_iff]
  intro hexternal
  exact absurd (hleft tag htag name value hmem hexternal).1 (by decide +kernel)

/-- Where only the last value of a name is looked at, the first one is left. -/
theorem not_forall_not_external_stripFragment : ¬ ∀ html out events, mayLeave html →
    stripFragment html = .ok out → readEvents out = .ok events → ∀ tag ∈ startTags events,
      ∀ name value, (name, some value) ∈ tag.attrs → isExternalAttribute name value = false := by
  intro hall
  have hkept := hall "<img src=\"//evil.example/x.png\" src=\"a.png\">".runes
    "<img src=\"//evil.example/x.png\" src=\"a.png\">".runes
    [.start ⟨"img".runes, [("src".runes, some "//evil.example/x.png".runes),
      ("src".runes, some "a.png".runes)], false⟩]
    (by decide +kernel) (by decide +kernel) (by decide +kernel) _ List.mem_cons_self
    "src".runes "//evil.example/x.png".runes List.mem_cons_self
  exact absurd hkept (by decide +kernel)

end Folio.Resource
