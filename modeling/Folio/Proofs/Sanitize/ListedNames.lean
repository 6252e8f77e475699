import Folio.Proofs.Html.DrawingNames
import Folio.Proofs.Html.StandardTags
import Folio.Proofs.Markup.Continuation
import Folio.Sanitize.Fragment

/-!
The attributes that the policy lists, and the names under which it is asked for them. An attribute
that it lists is asked for as it is named in its tag, but for the view box of a drawing: there the
name is reported with a capital, and the policy has it without.
-/
namespace Folio.Sanitize

open Html (IsName IsPlainName IsReported isNameChar reportedName respeltNames)

/-- The names that the policy lists, for some element or for all. -/
def listedNames : List Chars := sharedAttributes ++ ownAttributes.flatMap Prod.snd

/-- The name under which the policy is asked for an attribute of a tag. -/
def askedName (drawing : Bool) (name : Chars) : Chars := (splitSpace (reportedName drawing name)).2

/-- An attribute of a tag that the policy lists for its element, and that is kept as it is: it is no
view box, no style and no address, and a paint only if nothing is taken off it. -/
structure IsListed (tag : Chars) (attr : Chars × Chars) : Prop where
  allowed : isAllowedAttribute tag attr.1
  no_viewBox : attr.1 ≠ "viewbox".runes
  no_style : attr.1 ≠ "style".runes
  no_address : isAddress none attr.1 = false
  paint : paintAttributes.contains (attr.1) → cleanPaint attr.2 = some attr.2

section Names

variable {tag name reported : Chars}

theorem data_or_mem_listedNames (h : isAllowedAttribute tag name) :
    "data-".runes <+: name ∨ name ∈ listedNames := by
  rw [isAllowedAttribute, Bool.or_eq_true, Bool.or_eq_true, List.isPrefixOf_iff_prefix] at h
  rcases h with (hdata | hshared) | hown
  · exact Or.inl hdata
  · exact Or.inr (List.mem_append_left _ (List.contains_iff_mem.1 hshared))
  · refine Or.inr (List.mem_append_right _ ?_)
    cases hlookup : ownAttributes.lookup tag with
    | none =>
        rw [hlookup] at hown
        contradiction
    | some names =>
        rw [hlookup] at hown
        obtain ⟨before, after, heq, -⟩ := List.lookup_eq_some_iff.1 hlookup
        refine List.mem_flatMap.2 ⟨(tag, names), ?_, List.contains_iff_mem.1 hown⟩
        rw [heq]
        exact List.mem_append_right before List.mem_cons_self

/-- Without a name space the name is the whole one; else it stands behind the brace. -/
theorem splitSpace_cases (name : Chars) : splitSpace name = (none, name) ∨
    ∀ c ∈ (splitSpace name).2, c ∈ name.tail := by
  unfold splitSpace
  split
  · exact Or.inl rfl
  · split
    · exact Or.inl rfl
    · split
      · exact Or.inl rfl
      · rename_i hsplit
        exact Or.inr fun c hc =>
          (Markup.suffix_splitAtFirst? hsplit).subset (List.mem_cons_of_mem _ hc)

theorem isPlainName_of_data (h : IsName name) (hdata : "data-".runes <+: (splitSpace name).2) :
    IsPlainName (splitSpace name).2 := by
  have hnonempty : (splitSpace name).2 ≠ [] := by
    intro hnil
    rw [hnil] at hdata
    exact absurd (List.prefix_nil.1 hdata) (by decide)
  refine ⟨hnonempty, fun c hc => ?_⟩
  rcases splitSpace_cases name with heq | htail
  · rw [heq] at hdata hc
    obtain ⟨rest, rfl⟩ := hdata
    refine ⟨h.chars c hc, ?_⟩
    rintro rfl
    rcases List.mem_cons.1 hc with heq | hlater
    · exact absurd heq (by decide)
    · exact h.equals hlater
  · refine ⟨h.chars c (List.mem_of_mem_tail (htail c hc)), ?_⟩
    rintro rfl
    exact h.equals (htail '=' hc)

/-- No data attribute gets another name. -/
theorem not_data_of_mem_respeltNames (h : reported ∈ respeltNames) :
    ¬ "data-".runes <+: (splitSpace reported).2 := by
  have hspaced : ∀ e ∈ Html.Build.spacedAttributes, ¬ "data-".runes <+: (splitSpace e.2).2 := by
    decide +kernel
  rcases List.mem_append.1 h with hcapital | hspace
  · intro hdata
    have hdash : .of '-' ∈ reported := by
      have hmem : .of '-' ∈ (splitSpace reported).2 := hdata.subset (by decide)
      rcases splitSpace_cases reported with heq | htail
      · rwa [heq] at hmem
      · exact List.mem_of_mem_tail (htail '-' hmem)
    exact absurd (Html.isAlpha_drawingAttributes reported hcapital '-' hdash).1 (by decide)
  · obtain ⟨e, he, rfl⟩ := List.mem_map.1 hspace
    exact hspaced e he

/-- A name that is allowed can be written, whatever the name of the attribute in its tag is. -/
theorem isPlainName_of_isAllowedAttribute (h : IsReported reported)
    (hallowed : isAllowedAttribute tag (splitSpace reported).2) :
    IsPlainName (splitSpace reported).2 := by
  have hlisted : ∀ n ∈ listedNames, n ≠ [] ∧ n.all fun c => isNameChar c && c != .of '=' := by
    decide +kernel
  obtain ⟨drawing, name, hname, rfl⟩ := h
  rcases data_or_mem_listedNames hallowed with hdata | hn
  · rcases Html.reportedName_cases drawing name with heq | hmem
    · rw [heq] at hdata ⊢
      exact isPlainName_of_data hname hdata
    · exact absurd hdata (not_data_of_mem_respeltNames hmem)
  · refine ⟨(hlisted _ hn).1, fun c hc => ?_⟩
    exact (Bool.and_eq_true_iff.1 (List.all_eq_true.1 (hlisted _ hn).2 c hc)).imp_right bne_iff_ne.1

/-- A data attribute keeps its name. -/
theorem reportedName_of_data (h : "data-".runes <+: name) (drawing : Bool) :
    reportedName drawing name = name := by
  have hspaced : ∀ e ∈ Html.Build.spacedAttributes, ¬ "data-".runes <+: e.1 := by
    decide +kernel
  cases drawing with
  | false => rfl
  | true =>
      rcases Html.drawingName_cases name with ⟨n, hn, rfl, -⟩ | ⟨e, he, rfl, -⟩ | heq
      · obtain ⟨c, hc, hdash⟩ := List.mem_map.1 (h.subset (by decide : .of '-' ∈ "data-".runes))
        have hletter := (Html.isAlpha_drawingAttributes n hn c hc).2
        rw [hdash] at hletter
        exact absurd hletter (by decide)
      · exact absurd h (hspaced e he)
      · exact heq

/-- A listed name but for the view box is reported as it is, or in its name space. -/
theorem splitSpace_reportedName_of_listed {n : Chars} (hn : n ∈ listedNames)
    (hbox : n ≠ "viewbox".runes) (drawing : Bool) :
    splitSpace (reportedName drawing n) = (none, n) ∨
      n = "xmlns".runes ∧ splitSpace (reportedName drawing n) =
        (some Html.Build.xmlnsSpace, n) := by
  have hplain : ∀ n ∈ listedNames, splitSpace n = (none, n) := by decide +kernel
  have hcapital : ∀ n ∈ listedNames, n = "viewbox".runes ∨
      ∀ d ∈ Html.Build.drawingAttributes, Text.lowerAscii d ≠ n := by
    decide +kernel
  have hspaced : ∀ e ∈ Html.Build.spacedAttributes, e.1 ∈ listedNames → e.1 = "xmlns".runes ∧
      splitSpace e.2 = (some Html.Build.xmlnsSpace, e.1) := by
    decide +kernel
  cases drawing with
  | false => exact Or.inl (hplain n hn)
  | true =>
      change splitSpace (Html.Build.drawingName n) = _ ∨
        _ ∧ splitSpace (Html.Build.drawingName n) = _
      rcases Html.drawingName_cases n with ⟨d, hd, heq, -⟩ | ⟨e, he, heq, hname⟩ | heq
      · rcases hcapital n hn with rfl | hother
        · exact absurd rfl hbox
        · exact absurd heq (hother d hd)
      · obtain rfl := heq
        obtain ⟨hxmlns, hsplit⟩ := hspaced e he hn
        exact Or.inr ⟨hxmlns, hname ▸ hsplit⟩
      · rw [heq]
        exact Or.inl (hplain n hn)

/-- The policy is asked for what it lists, and the attribute has no name space or is that of name
spaces. -/
theorem splitSpace_reportedName (h : isAllowedAttribute tag name) (hbox : name ≠ "viewbox".runes)
    (drawing : Bool) : splitSpace (reportedName drawing name) = (none, name) ∨
      name = "xmlns".runes ∧ splitSpace (reportedName drawing name) =
        (some Html.Build.xmlnsSpace, name) := by
  rcases data_or_mem_listedNames h with hdata | hn
  · rw [reportedName_of_data hdata]
    obtain ⟨rest, rfl⟩ := hdata
    exact Or.inl rfl
  · exact splitSpace_reportedName_of_listed hn hbox drawing

end Names

section Clean

variable {tag : Chars} {attr kept : Chars × Chars}

/-- What is kept of an attribute has the name that the policy was asked for. -/
theorem of_cleanAttribute_eq_some (h : cleanAttribute tag attr = .ok (some kept)) :
    kept.1 = (splitSpace attr.1).2 ∧ isAllowedAttribute tag (splitSpace attr.1).2 := by
  change (if isAllowedAttribute tag (splitSpace attr.1).2 then _ else Except.ok none) = _ at h
  split at h
  · rename_i hallowed
    obtain ⟨value?, -, heq⟩ := exists_of_map_eq_ok h
    obtain ⟨value, -, rfl⟩ := Option.map_eq_some_iff.1 heq.symm
    exact ⟨rfl, hallowed⟩
  · cases h

theorem cleanValue_eq {space : Option Chars} {name value : Chars}
    (haddress : isAddress space name = false)
    (hpaint : paintAttributes.contains name → cleanPaint value = some value)
    (hstyle : name ≠ "style".runes) : cleanValue space name value = .ok (some value) := by
  rw [cleanValue, haddress, if_neg Bool.false_ne_true]
  split
  · rename_i hpainted
    rw [hpaint (Bool.and_eq_true_iff.1 hpainted).2]
    rfl
  · rw [beq_false_of_ne hstyle, Bool.and_false, if_neg Bool.false_ne_true]
    rfl

/-- An attribute that the policy lists is kept as it is. -/
theorem IsListed.cleanAttribute_eq (h : IsListed tag attr) (drawing : Bool) :
    cleanAttribute tag (reportedName drawing attr.1, attr.2) = .ok (some attr) := by
  have hkept : ∀ space, splitSpace (reportedName drawing attr.1) = (space, attr.1) →
      isAddress space attr.1 = false →
      cleanAttribute tag (reportedName drawing attr.1, attr.2) = .ok (some attr) := by
    intro space hsplit haddress
    rw [cleanAttribute]
    dsimp only
    rw [hsplit, if_pos h.allowed, cleanValue_eq haddress h.paint h.no_style]
    rfl
  rcases splitSpace_reportedName h.allowed h.no_viewBox drawing with hsplit | ⟨hname, hsplit⟩
  · exact hkept none hsplit h.no_address
  · refine hkept _ hsplit ?_
    rw [hname]
    decide

variable {before after attrs keptAttrs : List (Chars × Chars)}

theorem exists_of_mem_cleanAttributes (h : cleanAttributes tag attrs = .ok keptAttrs)
    (hkept : kept ∈ keptAttrs) : ∃ a ∈ attrs, cleanAttribute tag a = .ok (some kept) := by
  obtain ⟨results, hresults, rfl⟩ := exists_of_map_eq_ok h
  obtain ⟨result, hmem, heq⟩ := List.mem_filterMap.1 hkept
  obtain rfl : result = some kept := heq
  exact exists_of_mem_mapM hresults hmem

/-- An attribute is kept in its place among the others. -/
theorem exists_of_cleanAttributes (hattr : cleanAttribute tag attr = .ok (some kept))
    (h : cleanAttributes tag (before ++ attr :: after) = .ok keptAttrs) :
    ∃ keptBefore keptAfter, keptAttrs = keptBefore ++ kept :: keptAfter ∧
      cleanAttributes tag before = .ok keptBefore := by
  obtain ⟨results, hresults, rfl⟩ := exists_of_map_eq_ok h
  rw [List.mapM_append] at hresults
  obtain ⟨first, hfirst, hjoin⟩ := exists_of_bind_eq_ok hresults
  obtain ⟨later, hlater, hjoin⟩ := exists_of_bind_eq_ok hjoin
  obtain rfl := Except.ok.inj hjoin
  rw [List.mapM_cons, hattr] at hlater
  obtain ⟨_, hone, hmore⟩ := exists_of_bind_eq_ok hlater
  obtain rfl := Except.ok.inj hone
  obtain ⟨more, -, hmore⟩ := exists_of_bind_eq_ok hmore
  obtain rfl := Except.ok.inj hmore
  refine ⟨first.filterMap id, more.filterMap id, List.filterMap_append, ?_⟩
  rw [cleanAttributes, hfirst]
  rfl

end Clean

end Folio.Sanitize
