import Folio.Paginate.Frame
import Folio.Proofs.Paginate.PageSections

/-!
What the pages of a section are made of. A section that was put in order differs from the section
as it was by the inline styles of the section and of its body, by bands taken away, and by a body
and a flow where there were none; the content of its flow is what it was.
-/
namespace Folio.Paginate

/-- The tag is the other one, except for the inline style. -/
def Tag.Restyled (tag original : Tag) : Prop := ∃ style, tag = { original with style }

theorem Tag.Restyled.refl (tag : Tag) : tag.Restyled tag := ⟨tag.style, rfl⟩

theorem Tag.Restyled.trans {first second third : Tag} (h₁ : first.Restyled second)
    (h₂ : second.Restyled third) : first.Restyled third := by
  obtain ⟨style, rfl⟩ := h₁
  obtain ⟨_, rfl⟩ := h₂
  exact ⟨style, rfl⟩

/-- What does not depend on the inline style is the same. -/
theorem Tag.Restyled.apply_eq {α : Type} {tag original : Tag} (h : tag.Restyled original)
    {p : Tag → α} (hp : ∀ tag style, p { tag with style } = p tag) : p tag = p original := by
  obtain ⟨style, rfl⟩ := h
  exact hp original style

theorem Tag.withStyle_restyled (name value : Chars) (tag : Tag) :
    (tag.withStyle name value).Restyled tag := ⟨_, rfl⟩

theorem mem_of_mem_removeFirst {p : Tag → Bool} {nodes : List Node} {node : Node}
    (hnode : node ∈ removeFirst p nodes) : node ∈ nodes := by
  unfold removeFirst at hnode
  cases hsplit : split? p nodes with
  | none => simpa [hsplit] using hnode
  | some s =>
      simp only [hsplit, List.mem_append] at hnode
      rw [← row_of_split? hsplit, Split.row, List.mem_append]
      exact hnode.imp_right (List.mem_cons_of_mem _)

theorem split?_append_of_none {p : Tag → Bool} {before : List Node}
    (hbefore : ∀ node ∈ before, ¬ node.isTagged p) (nodes : List Node) :
    split? p (before ++ nodes) =
      (split? p nodes).map fun s => { s with before := before ++ s.before } := by
  cases hsplit : split? p nodes with
  | none =>
      rw [split?_eq_none_iff] at hsplit
      simp only [Option.map_none, split?_eq_none_iff, List.mem_append]
      rintro node (hnode | hnode)
      · exact hbefore node hnode
      · exact hsplit node hnode
  | some s =>
      obtain ⟨htag, hs⟩ := split?_sound hsplit
      rw [← row_of_split? hsplit, Split.row, ← List.append_assoc]
      refine split?_append_element ?_ htag _ _
      simp only [List.mem_append]
      rintro node (hnode | hnode)
      · exact hbefore node hnode
      · exact hs node hnode

theorem split?_append_of_some {p : Tag → Bool} {before : List Node} {s : Split}
    (h : split? p before = some s) (nodes : List Node) :
    split? p (before ++ nodes) = some { s with after := s.after ++ nodes } := by
  obtain ⟨htag, hbefore⟩ := split?_sound h
  rw [← row_of_split? h, Split.row, List.append_assoc, List.cons_append]
  exact split?_append_element hbefore htag _ _

/-- The first element of one kind stays when the first of another kind is taken away. -/
theorem split?_removeFirst {p q : Tag → Bool} (hne : ∀ tag, q tag → p tag = false)
    {nodes : List Node} {s : Split} (h : split? p nodes = some s) :
    ∃ before after, split? p (removeFirst q nodes) = some ⟨before, s.tag, s.children, after⟩ := by
  unfold removeFirst
  cases hband : split? q nodes with
  | none => exact ⟨s.before, s.after, h⟩
  | some band =>
      have hnot : p band.tag = false := hne band.tag (split?_sound hband).1
      rw [← row_of_split? hband, Split.row] at h
      cases hfirst : split? p band.before with
      | some t =>
          rw [split?_append_of_some hfirst, Option.some.injEq] at h
          subst h
          exact ⟨_, _, split?_append_of_some hfirst _⟩
      | none =>
          rw [split?_eq_none_iff] at hfirst
          rw [split?_append_of_none hfirst] at h
          simp only [split?, hnot, Bool.false_eq_true, if_false, Option.map_map] at h
          obtain ⟨t, ht, rfl⟩ := Option.map_eq_some_iff.1 h
          refine ⟨band.before ++ t.before, t.after, ?_⟩
          simp only [split?_append_of_none hfirst, ht, Option.map_some, Function.comp_apply]

theorem split?_removeFirst_eq_none {p q : Tag → Bool} {nodes : List Node}
    (h : split? p nodes = none) : split? p (removeFirst q nodes) = none := by
  rw [split?_eq_none_iff] at h ⊢
  exact fun node hnode => h node (mem_of_mem_removeFirst hnode)

namespace BandRule

theorem apply_tag (rule : BandRule) (s : Section) : (rule.apply s).tag.Restyled s.tag := by
  unfold apply
  split
  · exact Tag.withStyle_restyled _ _ _
  · split
    · exact Tag.Restyled.refl _
    · split
      · exact Tag.Restyled.refl _
      · exact Tag.withStyle_restyled _ _ _

/-- A rule sets its own property, to nothing on a page without the band. -/
theorem lookup_apply (rule : BandRule) (s : Section) :
    (rule.apply s).tag.style.lookup rule.property =
      if s.tag.hasClass rule.absent then some noHeight
      else ((s.tag.attrs.lookup rule.heightKey).filter (!·.isEmpty)).or
        (s.tag.style.lookup rule.property) := by
  unfold apply
  split
  · exact Entries.lookup_put_self _ _ _
  · cases hheight : s.tag.attrs.lookup rule.heightKey with
    | none => rfl
    | some height =>
        cases hempty : height.isEmpty with
        | true => simp [Option.filter_some, hempty]
        | false =>
            simp only [Bool.false_eq_true, if_false, Option.filter_some, hempty, Bool.not_false,
              if_true, Option.some_or]
            exact Entries.lookup_put_self _ _ _

/-- A rule leaves other properties. -/
theorem lookup_apply_of_ne {rule : BandRule} {property : Chars} (hne : property ≠ rule.property)
    (s : Section) : (rule.apply s).tag.style.lookup property = s.tag.style.lookup property := by
  unfold apply
  split
  · exact Entries.lookup_put_of_ne hne _ _
  · split
    · rfl
    · split
      · rfl
      · exact Entries.lookup_put_of_ne hne _ _

theorem apply_children (rule : BandRule) (s : Section) :
    (rule.apply s).children = s.children ∨
      (rule.apply s).children = removeFirst rule.isBand s.children := by
  unfold apply
  split
  · exact Or.inr rfl
  · split
    · exact Or.inl rfl
    · split <;> exact Or.inl rfl

theorem mem_of_mem_apply {rule : BandRule} {s : Section} {node : Node}
    (hnode : node ∈ (rule.apply s).children) : node ∈ s.children := by
  rcases rule.apply_children s with h | h
  · exact h ▸ hnode
  · exact mem_of_mem_removeFirst (h ▸ hnode)

/-- A rule for a band leaves the body of a section, or the section without one. -/
theorem split?_isBody_apply (rule : BandRule)
    (hband : ∀ tag, rule.isBand tag → tag.isBody = false) (s : Section) :
    (split? Tag.isBody s.children = none ∧ split? Tag.isBody (rule.apply s).children = none) ∨
    ∃ b before after, split? Tag.isBody s.children = some b ∧
      split? Tag.isBody (rule.apply s).children = some ⟨before, b.tag, b.children, after⟩ := by
  cases hsplit : split? Tag.isBody s.children with
  | none =>
      refine Or.inl ⟨rfl, ?_⟩
      rcases rule.apply_children s with h | h
      · rw [h, hsplit]
      · rw [h, split?_removeFirst_eq_none hsplit]
  | some b =>
      refine Or.inr ⟨b, ?_⟩
      rcases rule.apply_children s with h | h
      · exact ⟨b.before, b.after, rfl, by rw [h, hsplit]⟩
      · obtain ⟨before, after, hafter⟩ := split?_removeFirst hband hsplit
        exact ⟨before, after, rfl, by rw [h, hafter]⟩

/-- The body that leaves room for both bands. -/
theorem rooms_restyled (vars : Properties) (page body : Tag) :
    (footerRule.room vars page (headerRule.room vars page body)).Restyled body :=
  (Tag.withStyle_restyled _ _ _).trans (Tag.withStyle_restyled _ _ _)

end BandRule

theorem isBody_of_isHeader {tag : Tag} (h : tag.isHeader) : tag.isBody = false := by
  have hname : tag.name = "header".runes := by simpa [Tag.isHeader] using h
  simp [Tag.isBody, hname]

theorem isBody_of_isFooter {tag : Tag} (h : tag.isFooter) : tag.isBody = false := by
  have hname : tag.name = "footer".runes := by simpa [Tag.isFooter] using h
  simp [Tag.isBody, hname]

/-- What a body is, and what is in it, after both bands were seen to. -/
theorem split?_isBody_bands (s : Section) :
    (split? Tag.isBody s.children = none ∧
      split? Tag.isBody (footerRule.apply (headerRule.apply s)).children = none) ∨
    ∃ b before after, split? Tag.isBody s.children = some b ∧
      split? Tag.isBody (footerRule.apply (headerRule.apply s)).children =
        some ⟨before, b.tag, b.children, after⟩ := by
  have hheader := headerRule.split?_isBody_apply (fun _ h => isBody_of_isHeader h) s
  have hfooter := footerRule.split?_isBody_apply (fun _ h => isBody_of_isFooter h)
    (headerRule.apply s)
  rcases hheader with ⟨hnone, hnone'⟩ | ⟨b, before, after, hb, hb'⟩
  · rcases hfooter with ⟨-, h⟩ | ⟨c, _, _, hc, -⟩
    · exact Or.inl ⟨hnone, h⟩
    · simp [hnone'] at hc
  · rcases hfooter with ⟨h, -⟩ | ⟨c, before', after', hc, hc'⟩
    · simp [hb'] at h
    · rw [hb', Option.some.injEq] at hc
      subst hc
      exact Or.inr ⟨b, before', after', hb, hc'⟩

/-- The frame and the content of its flow are those of the section: the tags of section and body
are only restyled, and no node is new but a body or a flow that was not there. -/
structure Frame.MadeFrom (f : Frame) (content : List Node) (s : Section) : Prop where
  tag : f.tag.Restyled s.tag
  around : ∀ node ∈ f.before ++ f.after, node ∈ s.children
  first : ∀ node ∈ f.before, ¬ node.isTagged Tag.isBody
  body : f.body.Restyled (Section.aroundBody s.children).tag
  flow : Section.aroundFlow (Section.aroundBody s.children).children =
    ⟨f.bodyBefore, f.flow, content, f.bodyAfter⟩

namespace Section

theorem aroundBody_of_some {children : List Node} {b : Split}
    (h : split? Tag.isBody children = some b) : aroundBody children = b := by
  simp [aroundBody, h]

/-- A new body has no content, and the children of the section are around it. -/
theorem aroundBody_of_none {children : List Node} (h : split? Tag.isBody children = none) :
    (aroundBody children).tag = newBody ∧ (aroundBody children).children = [] ∧
      (aroundBody children).before ++ (aroundBody children).after = children := by
  unfold aroundBody
  rw [h]
  cases hfooter : split? Tag.isFooter children with
  | none => simp
  | some f => exact ⟨rfl, rfl, row_of_split? hfooter⟩

theorem before_aroundBody (children : List Node) :
    ∀ node ∈ (aroundBody children).before, ¬ node.isTagged Tag.isBody := by
  cases h : split? Tag.isBody children with
  | some b =>
      rw [aroundBody_of_some h]
      exact (split?_sound h).2
  | none =>
      have hall := (aroundBody_of_none h).2.2
      rw [split?_eq_none_iff] at h
      exact fun node hnode => h node (hall ▸ List.mem_append.2 (Or.inl hnode))

theorem isBody_aroundBody (children : List Node) : (aroundBody children).tag.isBody := by
  cases h : split? Tag.isBody children with
  | some b =>
      rw [aroundBody_of_some h]
      exact (split?_sound h).1
  | none =>
      rw [(aroundBody_of_none h).1]
      decide

theorem isFlow_aroundFlow (children : List Node) : (aroundFlow children).tag.isFlow := by
  unfold aroundFlow
  cases h : split? Tag.isFlow children with
  | some f => exact (split?_sound h).1
  | none =>
      change newFlow.isFlow
      decide

theorem before_aroundFlow (children : List Node) :
    ∀ node ∈ (aroundFlow children).before, ¬ node.isTagged Tag.isFlow := by
  unfold aroundFlow
  cases h : split? Tag.isFlow children with
  | some f => exact (split?_sound h).2
  | none => simp

/-- A flow is one of the children of the body, or a new one around all of them. -/
theorem aroundFlow_cases (children : List Node) :
    (aroundFlow children).row = children ∨ aroundFlow children = ⟨[], newFlow, children, []⟩ := by
  unfold aroundFlow
  cases h : split? Tag.isFlow children with
  | none => exact Or.inr rfl
  | some f => exact Or.inl (row_of_split? h)

/-- The children of a section in order are around the same body, restyled, as before. -/
theorem aroundBody_withBands (vars : Properties) (s : Section) :
    (s.withBands vars).tag.Restyled s.tag ∧
    (aroundBody (s.withBands vars).children).tag.Restyled (aroundBody s.children).tag ∧
    (aroundBody (s.withBands vars).children).children = (aroundBody s.children).children ∧
    ∀ node ∈ (aroundBody (s.withBands vars).children).before ++
      (aroundBody (s.withBands vars).children).after, node ∈ s.children := by
  have htag : (footerRule.apply (headerRule.apply s)).tag.Restyled s.tag :=
    (footerRule.apply_tag _).trans (headerRule.apply_tag s)
  have hmem : ∀ node ∈ (footerRule.apply (headerRule.apply s)).children, node ∈ s.children :=
    fun node hnode => BandRule.mem_of_mem_apply (BandRule.mem_of_mem_apply hnode)
  rcases split?_isBody_bands s with ⟨hnone, hbands⟩ | ⟨b, before, after, hb, hbands⟩
  · obtain ⟨htagOld, hchildrenOld, -⟩ := aroundBody_of_none hnone
    obtain ⟨htagNew, hchildrenNew, hrow⟩ := aroundBody_of_none hbands
    simp only [withBands, hbands]
    refine ⟨htag, ?_, ?_, ?_⟩
    · rw [htagNew, htagOld]
      exact Tag.Restyled.refl _
    · rw [hchildrenNew, hchildrenOld]
    · rw [hrow]
      exact hmem
  · obtain ⟨hbody, hbefore⟩ : b.tag.isBody ∧ ∀ node ∈ before, ¬ node.isTagged Tag.isBody :=
      split?_sound hbands
    have hrow : before ++ .element b.tag b.children :: after =
        (footerRule.apply (headerRule.apply s)).children := row_of_split? hbands
    have hroom := BandRule.rooms_restyled vars (footerRule.apply (headerRule.apply s)).tag b.tag
    simp only [withBands, hbands, Split.row]
    generalize footerRule.room vars _ (headerRule.room vars _ b.tag) = body at hroom ⊢
    have hbody' : body.isBody := by rwa [hroom.apply_eq (p := Tag.isBody) fun _ _ => rfl]
    rw [aroundBody_of_some (split?_append_element hbefore hbody' b.children after),
      aroundBody_of_some hb]
    refine ⟨htag, hroom, rfl, ?_⟩
    intro node hnode
    apply hmem node
    rw [← hrow, List.mem_append]
    exact (List.mem_append.1 hnode).imp_right (List.mem_cons_of_mem _)

/-- The body of a section in order leaves room for both bands. -/
theorem room_withBands (vars : Properties) (s : Section) {rule : BandRule}
    (hrule : rule = headerRule ∨ rule = footerRule) :
    (split? Tag.isBody (s.withBands vars).children).bind (·.tag.style.lookup rule.side) =
      (split? Tag.isBody s.children).map fun _ =>
        rule.height vars (footerRule.apply (headerRule.apply s)).tag := by
  rcases split?_isBody_bands s with ⟨hnone, hbands⟩ | ⟨b, before, after, hb, hbands⟩
  · rw [hnone, withBands]
    simp only [hbands]
    rfl
  · obtain ⟨hbody, hbefore⟩ : b.tag.isBody ∧ ∀ node ∈ before, ¬ node.isTagged Tag.isBody :=
      split?_sound hbands
    have hroom := BandRule.rooms_restyled vars (footerRule.apply (headerRule.apply s)).tag b.tag
    have hbody' := (hroom.apply_eq (p := Tag.isBody) fun _ _ => rfl).trans hbody
    have hsides : headerRule.side ≠ footerRule.side := by decide
    rw [hb, withBands]
    simp only [hbands, Split.row]
    rw [split?_append_element hbefore hbody']
    rcases hrule with rfl | rfl
    · exact (Entries.lookup_put_of_ne hsides _ _).trans (Entries.lookup_put_self _ _ _)
    · exact Entries.lookup_put_self _ _ _

/-- Of the properties of the root only the heights of the bands count. -/
theorem prepare_congr {vars vars' : Properties}
    (hheader : vars'.lookup headerRule.property = vars.lookup headerRule.property)
    (hfooter : vars'.lookup footerRule.property = vars.lookup footerRule.property) (s : Section) :
    s.prepare vars' = s.prepare vars := by
  simp only [prepare, withBands, BandRule.room, BandRule.height, hheader, hfooter]

theorem prepare_madeFrom (vars : Properties) (s : Section) :
    (s.prepare vars).1.MadeFrom (s.prepare vars).2 s := by
  obtain ⟨htag, hbody, hchildren, haround⟩ := aroundBody_withBands vars s
  exact ⟨htag, haround, before_aroundBody _, hbody, by rw [← hchildren]; rfl⟩

/-- The content of the flow of a page: of the first flow in its first body; of a body without a
flow, all of it. -/
def flowContent (s : Section) : List Node :=
  match split? Tag.isBody s.children with
  | none => []
  | some b =>
      match split? Tag.isFlow b.children with
      | none => b.children
      | some f => f.children

theorem flowContent_eq (s : Section) :
    s.flowContent = (aroundFlow (aroundBody s.children).children).children := by
  unfold flowContent
  cases h : split? Tag.isBody s.children with
  | none =>
      rw [(aroundBody_of_none h).2.1]
      rfl
  | some b =>
      rw [aroundBody_of_some h]
      cases hflow : split? Tag.isFlow b.children <;> simp [aroundFlow, hflow]

end Section

/-- The page with the given content of its flow. -/
def Frame.page (f : Frame) (content : List Node) : Section :=
  ⟨f.tag, f.before ++
    .element f.body (f.bodyBefore ++ .element f.flow content :: f.bodyAfter) :: f.after⟩

theorem Frame.node_page (f : Frame) (content : List Node) :
    (f.page content).node = f.box content := rfl

namespace Frame.MadeFrom

variable {f : Frame} {content : List Node} {s : Section}

theorem content_eq (h : f.MadeFrom content s) : s.flowContent = content := by
  rw [s.flowContent_eq, h.flow]

theorem isBody (h : f.MadeFrom content s) : f.body.isBody := by
  rw [h.body.apply_eq (p := Tag.isBody) fun _ _ => rfl]
  exact Section.isBody_aroundBody s.children

theorem isFlow (h : f.MadeFrom content s) : f.flow.isFlow := by
  have := Section.isFlow_aroundFlow (Section.aroundBody s.children).children
  rwa [h.flow] at this

theorem split?_page (h : f.MadeFrom content s) (items : List Node) :
    split? Tag.isBody (f.page items).children =
      some ⟨f.before, f.body, f.bodyBefore ++ .element f.flow items :: f.bodyAfter, f.after⟩ :=
  split?_append_element h.first h.isBody _ _

theorem split?_body (h : f.MadeFrom content s) (items : List Node) :
    split? Tag.isFlow (f.bodyBefore ++ .element f.flow items :: f.bodyAfter) =
      some ⟨f.bodyBefore, f.flow, items, f.bodyAfter⟩ := by
  refine split?_append_element ?_ h.isFlow _ _
  have := Section.before_aroundFlow (Section.aroundBody s.children).children
  rwa [h.flow] at this

/-- What is put into the flow of a page is the content of its flow. -/
theorem flowContent_page (h : f.MadeFrom content s) (items : List Node) :
    (f.page items).flowContent = items := by
  simp [Section.flowContent, h.split?_page, h.split?_body]

theorem isPage (h : f.MadeFrom content s) (hs : s.tag.isPage) : f.tag.isPage := by
  rwa [h.tag.apply_eq (p := Tag.isPage) fun _ _ => rfl]

end Frame.MadeFrom

end Folio.Paginate
