import Folio.Proofs.Paginate.Fit

/-!
Putting a page in order a second time. A page that was made has no band that it should not have,
the properties that are set on it have the values they are set to, and its body leaves room for
its bands; so its frame is found again.
-/
namespace Folio.Paginate

theorem Tag.withStyle_eq_self {name value : Chars} {tag : Tag}
    (h : tag.style.lookup name = some value) : tag.withStyle name value = tag := by
  rw [withStyle, Entries.put_eq_self h]

theorem removeFirst_eq_self {p : Tag → Bool} {nodes : List Node}
    (hnone : ∀ node ∈ nodes, ¬ node.isTagged p) : removeFirst p nodes = nodes := by
  rw [removeFirst, split?_eq_none_iff.2 hnone]

/-- If there is only one element of the kind, none is left without the first one. -/
theorem none_of_removeFirst {p : Tag → Bool} {nodes : List Node}
    (hone : nodes.countP (Node.isTagged p) ≤ 1) :
    ∀ node ∈ removeFirst p nodes, ¬ node.isTagged p := by
  unfold removeFirst
  cases hsplit : split? p nodes with
  | none => exact split?_eq_none_iff.1 hsplit
  | some s =>
      obtain ⟨htag, hbefore⟩ := split?_sound hsplit
      have hafter : s.after.countP (Node.isTagged p) = 0 := by
        rw [← row_of_split? hsplit, Split.row, List.countP_append, List.countP_cons,
          isTagged_element, htag, if_pos rfl] at hone
        omega
      intro node hnode
      rcases List.mem_append.1 hnode with h | h
      · exact hbefore node h
      · exact List.countP_eq_zero.1 hafter node h

theorem countP_removeFirst_le {p q : Tag → Bool} (nodes : List Node) :
    (removeFirst p nodes).countP (Node.isTagged q) ≤ nodes.countP (Node.isTagged q) := by
  unfold removeFirst
  cases hsplit : split? p nodes with
  | none => exact Nat.le_refl _
  | some s =>
      rw [← row_of_split? hsplit, Split.row, List.countP_append, List.countP_append,
        List.countP_cons]
      omega

namespace BandRule

/-- Nothing is left to do for the band: without it the page has none and no room for one, and a
height of the page's own is set. -/
structure Settled (rule : BandRule) (s : Section) : Prop where
  bare : s.tag.hasClass rule.absent → ∀ node ∈ s.children, ¬ node.isTagged rule.isBand
  flat : s.tag.hasClass rule.absent → s.tag.style.lookup rule.property = some noHeight
  own : s.tag.hasClass rule.absent = false → ∀ height,
    s.tag.attrs.lookup rule.heightKey = some height → height.isEmpty = false →
      s.tag.style.lookup rule.property = some height

variable {rule other : BandRule} {s t : Section}

theorem Settled.apply_eq (h : rule.Settled s) : rule.apply s = s := by
  unfold apply
  cases habsent : s.tag.hasClass rule.absent with
  | true =>
      rw [if_pos rfl, removeFirst_eq_self (h.bare habsent), Tag.withStyle_eq_self (h.flat habsent)]
  | false =>
      rw [if_neg Bool.false_ne_true]
      cases hheight : s.tag.attrs.lookup rule.heightKey with
      | none => rfl
      | some height =>
          cases hempty : height.isEmpty with
          | true => simp [hempty]
          | false => simp [hempty, Tag.withStyle_eq_self (h.own habsent height hheight hempty)]

theorem settled_apply (hone : s.children.countP (Node.isTagged rule.isBand) ≤ 1) :
    rule.Settled (rule.apply s) := by
  unfold apply
  cases habsent : s.tag.hasClass rule.absent with
  | true =>
      rw [if_pos rfl]
      constructor
      · exact fun _ => none_of_removeFirst hone
      · exact fun _ => Entries.lookup_put_self _ _ _
      · exact fun h => absurd (habsent.symm.trans h) (by decide)
  | false =>
      have hown : ∀ t : Section, t.tag.hasClass rule.absent = false →
          (∀ height, t.tag.attrs.lookup rule.heightKey = some height → height.isEmpty = false →
            t.tag.style.lookup rule.property = some height) → rule.Settled t := by
        intro t ht h
        refine ⟨fun hyes => ?_, fun hyes => ?_, fun _ => h⟩
        · exact absurd (ht.symm.trans hyes) (by decide)
        · exact absurd (ht.symm.trans hyes) (by decide)
      rw [if_neg Bool.false_ne_true]
      cases hheight : s.tag.attrs.lookup rule.heightKey with
      | none =>
          refine hown s habsent fun height h => ?_
          rw [hheight] at h
          contradiction
      | some height =>
          cases hempty : height.isEmpty with
          | true =>
              simp only [hempty, if_true]
              refine hown s habsent fun found h hfull => ?_
              obtain rfl := Option.some.inj (hheight.symm.trans h)
              exact absurd (hempty.symm.trans hfull) (by decide)
          | false =>
              simp only [hempty, Bool.false_eq_true, if_false]
              refine hown _ habsent fun found h _ => ?_
              obtain rfl := Option.some.inj (hheight.symm.trans h)
              exact Entries.lookup_put_self _ _ _

/-- A page stays settled when its tag stays and no band comes to it. -/
theorem Settled.of_tag_eq (h : rule.Settled s) (htag : t.tag = s.tag)
    (hbands : ∀ node ∈ t.children, node.isTagged rule.isBand →
      ∃ source ∈ s.children, source.isTagged rule.isBand) : rule.Settled t := by
  constructor
  · intro habsent node hnode hband
    obtain ⟨source, hsource, hsourceBand⟩ := hbands node hnode hband
    exact h.bare (htag ▸ habsent) source hsource hsourceBand
  · rw [htag]
    exact h.flat
  · rw [htag]
    exact h.own

theorem Settled.restyle (h : rule.Settled s) {name value : Chars} (hname : rule.property ≠ name) :
    rule.Settled ⟨s.tag.withStyle name value, s.children⟩ := by
  have hlookup : (s.tag.withStyle name value).style.lookup rule.property =
      s.tag.style.lookup rule.property := Entries.lookup_put_of_ne hname _ _
  constructor
  · exact h.bare
  · intro habsent
    rw [hlookup]
    exact h.flat habsent
  · intro hpresent height hheight hfull
    rw [hlookup]
    exact h.own hpresent height hheight hfull

/-- What is settled for the one band stays so when the other one is seen to. -/
theorem Settled.apply_other (h : rule.Settled s) (hproperty : rule.property ≠ other.property) :
    rule.Settled (other.apply s) := by
  unfold apply
  split
  · refine (h.restyle hproperty).of_tag_eq rfl fun node hnode hband => ?_
    exact ⟨node, mem_of_mem_removeFirst hnode, hband⟩
  · split
    · exact h
    · split
      · exact h
      · exact h.restyle hproperty

theorem countP_apply_le (p : Tag → Bool) :
    (rule.apply s).children.countP (Node.isTagged p) ≤ s.children.countP (Node.isTagged p) := by
  rcases rule.apply_children s with h | h
  · rw [h]
  · rw [h]
    exact countP_removeFirst_le _

end BandRule

theorem not_isHeader_of_isBody {tag : Tag} (h : tag.isBody) : tag.isHeader = false := by
  by_contra hheader
  rw [isBody_of_isHeader (Bool.not_eq_false _ ▸ hheader)] at h
  contradiction

theorem not_isFooter_of_isBody {tag : Tag} (h : tag.isBody) : tag.isFooter = false := by
  by_contra hfooter
  rw [isBody_of_isFooter (Bool.not_eq_false _ ▸ hfooter)] at h
  contradiction

/-- A section is regular if it has a body, its bodies are no footers, and it has no more than one
header and one footer. -/
structure Section.Regular (s : Section) : Prop where
  body : ∃ node ∈ s.children, node.isTagged Tag.isBody
  plain : ∀ node ∈ s.children, node.isTagged Tag.isBody →
    ¬ node.isTagged fun tag => tag.hasClass "footer".runes
  header : s.children.countP (Node.isTagged Tag.isHeader) ≤ 1
  footer : s.children.countP (Node.isTagged Tag.isFooter) ≤ 1

theorem Section.regular_iff {s : Section} :
    s.Regular ↔ (∃ node ∈ s.children, node.isTagged Tag.isBody) ∧
      (∀ node ∈ s.children, node.isTagged Tag.isBody →
        ¬ node.isTagged fun tag => tag.hasClass "footer".runes) ∧
      s.children.countP (Node.isTagged Tag.isHeader) ≤ 1 ∧
      s.children.countP (Node.isTagged Tag.isFooter) ≤ 1 :=
  ⟨fun h => ⟨h.body, h.plain, h.header, h.footer⟩, fun h => ⟨h.1, h.2.1, h.2.2.1, h.2.2.2⟩⟩

instance (s : Section) : Decidable s.Regular := decidable_of_iff _ Section.regular_iff.symm

theorem settled_bands {s : Section} (h : s.Regular) :
    headerRule.Settled (footerRule.apply (headerRule.apply s)) ∧
      footerRule.Settled (footerRule.apply (headerRule.apply s)) := by
  constructor
  · exact (BandRule.settled_apply h.header).apply_other (by decide)
  · exact BandRule.settled_apply ((BandRule.countP_apply_le _).trans h.footer)

/-- The body leaves the room that the bands of the page take. -/
structure Frame.Roomy (vars : Properties) (f : Frame) : Prop where
  top : f.body.style.lookup headerRule.side = some (headerRule.height vars f.tag)
  bottom : f.body.style.lookup footerRule.side = some (footerRule.height vars f.tag)

theorem Frame.Roomy.rooms_eq {vars : Properties} {f : Frame} (h : f.Roomy vars) :
    footerRule.room vars f.tag (headerRule.room vars f.tag f.body) = f.body := by
  have htop : headerRule.room vars f.tag f.body = f.body := Tag.withStyle_eq_self h.top
  rw [htop]
  exact Tag.withStyle_eq_self h.bottom

/-- A section with a body in order: its frame is what the bands have left, around a body with room
for them. -/
theorem Section.prepare_of_split? {s : Section} (vars : Properties) {b : Split}
    (hbands : split? Tag.isBody (footerRule.apply (headerRule.apply s)).children = some b) :
    (s.prepare vars).1.tag = (footerRule.apply (headerRule.apply s)).tag ∧
      (s.prepare vars).1.before = b.before ∧ (s.prepare vars).1.after = b.after ∧
      (s.prepare vars).1.body =
        footerRule.room vars (s.prepare vars).1.tag
          (headerRule.room vars (s.prepare vars).1.tag b.tag) := by
  obtain ⟨hbody, hbefore⟩ := split?_sound hbands
  have hroom := BandRule.rooms_restyled vars (footerRule.apply (headerRule.apply s)).tag b.tag
  rw [← hroom.apply_eq (p := Tag.isBody) fun _ _ => rfl] at hbody
  have hsplit := split?_append_element hbefore hbody b.children b.after
  simp only [prepare, withBands, hbands, Split.row, aroundBody_of_some hsplit]
  exact ⟨trivial, trivial, trivial, trivial⟩

/-- The frame of a regular section is in order, whatever its flow holds. -/
theorem Section.Regular.prepare {s : Section} (h : s.Regular) (vars : Properties) :
    (s.prepare vars).1.Roomy vars ∧ ∀ items, headerRule.Settled ((s.prepare vars).1.page items) ∧
      footerRule.Settled ((s.prepare vars).1.page items) := by
  rcases split?_isBody_bands s with ⟨hnone, -⟩ | ⟨b, before, after, -, hbands⟩
  · obtain ⟨node, hnode, hbody⟩ := h.body
    exact absurd hbody (split?_eq_none_iff.1 hnone node hnode)
  · obtain ⟨htag, hbefore, hafter, hroom⟩ := s.prepare_of_split? vars hbands
    have hmade := s.prepare_madeFrom vars
    generalize (s.prepare vars).1 = f at htag hbefore hafter hroom hmade ⊢
    have hsettled := settled_bands h
    have hrow := row_of_split? hbands
    generalize footerRule.apply (headerRule.apply s) = bands at htag hsettled hrow
    have hsource : ∀ items (p : Tag → Bool), p f.body = false →
        ∀ node ∈ (f.page items).children, node.isTagged p →
          ∃ source ∈ bands.children, source.isTagged p := by
      intro items p hbody node hnode hband
      refine ⟨node, ?_, hband⟩
      rw [← hrow, Split.row, List.mem_append, List.mem_cons]
      rcases List.mem_append.1 hnode with hnode | hnode
      · exact Or.inl (hbefore ▸ hnode)
      · rcases List.mem_cons.1 hnode with rfl | hnode
        · rw [isTagged_element, hbody] at hband
          contradiction
        · exact Or.inr (Or.inr (hafter ▸ hnode))
    refine ⟨⟨?_, ?_⟩, fun items => ⟨?_, ?_⟩⟩
    · rw [hroom]
      exact (Entries.lookup_put_of_ne (by decide) _ _).trans (Entries.lookup_put_self _ _ _)
    · rw [hroom]
      exact Entries.lookup_put_self _ _ _
    · exact hsettled.1.of_tag_eq htag (hsource items _ (not_isHeader_of_isBody hmade.isBody))
    · exact hsettled.2.of_tag_eq htag (hsource items _ (not_isFooter_of_isBody hmade.isBody))

/-- The frame of a page with its numbers shown. -/
def Frame.shown (n : Numbers) (f : Frame) : Frame :=
  { f with before := f.before.map n.showInBand, after := f.after.map n.showInBand }

theorem Frame.page_shown {n : Numbers} {f : Frame} (hbody : f.body.showsNumbers = false)
    (items : List Node) : (f.shown n).page items = n.showOnPage (f.page items) := by
  have hband : n.showInBand
      (.element f.body (f.bodyBefore ++ .element f.flow items :: f.bodyAfter)) =
        .element f.body (f.bodyBefore ++ .element f.flow items :: f.bodyAfter) := by
    simp [Numbers.showInBand, hbody]
  rw [page, page, Numbers.showOnPage, List.map_append, List.map_cons, hband]
  rfl

/-- A page that shows its numbers is as settled as it was without them. -/
theorem BandRule.Settled.showOnPage {rule : BandRule} {s : Section} (h : rule.Settled s)
    (n : Numbers) : rule.Settled (n.showOnPage s) := by
  refine h.of_tag_eq rfl fun node hnode hband => ?_
  obtain ⟨source, hsource, rfl⟩ := List.mem_map.1 hnode
  rw [Node.isTagged, n.tag?_showInBand] at hband
  exact ⟨source, hsource, hband⟩

/-- A page with its numbers, made from a regular section, is in order: it has the frame it was made
with, and its flow holds the items it was given. -/
theorem Section.Regular.prepare_showOnPage {s : Section} (h : s.Regular) (vars : Properties)
    (n : Numbers) (items : List Node) :
    (n.showOnPage ((s.prepare vars).1.page items)).prepare vars =
      ((s.prepare vars).1.shown n, items) := by
  obtain ⟨hroomy, hsettled⟩ := h.prepare vars
  have hplain := showsNumbers_bodyTag h.plain
  have hmade := s.prepare_madeFrom vars
  generalize (s.prepare vars).1 = f at hroomy hsettled hmade ⊢
  have hheader := ((hsettled items).1.showOnPage n).apply_eq
  have hfooter := ((hsettled items).2.showOnPage n).apply_eq
  have hsplit := hmade.split?_showOn hplain n items
  have hbands : (n.showOnPage (f.page items)).withBands vars = n.showOnPage (f.page items) := by
    have hrow := row_of_split? hsplit
    have hrooms : footerRule.room vars (n.showOnPage (f.page items)).tag
        (headerRule.room vars (n.showOnPage (f.page items)).tag f.body) = f.body := hroomy.rooms_eq
    rw [withBands, hheader, hfooter, hsplit]
    dsimp only
    rw [hrooms, hrow]
  rw [Section.prepare, hbands, aroundBody_of_some hsplit]
  simp only [aroundFlow, hmade.split?_body items]
  rfl

end Folio.Paginate
