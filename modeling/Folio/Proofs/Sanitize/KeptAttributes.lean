import Folio.Proofs.Sanitize.KeptValues
import Folio.Proofs.Sanitize.ListedNames
import Folio.Proofs.Sanitize.WrittenInOrder

/-!
What a sanitized fragment keeps. Every element of an allowed tag is shown, in its order, and carries
the attributes that the policy lists for it with the values they had, as long as no other attribute
of its tag comes first under the same name and the references of the value outlast its writing.
-/
namespace Folio.Sanitize

open List (Forall₂)
open Html (Shape Tag)
open Markup (QuotedAttribute)

/-- The start tags of a fragment for which elements are opened. -/
def sourceTags (html : Chars) : List Tag :=
  Html.readTags accept ((Html.normalizeLines html).length + 1) false (Html.normalizeLines html) .empty

/-- The element has no attributes, or it was opened for a start tag of the fragment. -/
def IsOpened (html : Chars) (shape : Shape) : Prop :=
  shape.attrs = [] ∨ ∃ source ∈ sourceTags html, shape = source.shape shape.drawing

/-- The references of a value outlast its writing among the attributes that are kept of its tag:
each stands for something, the value comes between double quotes, and no value ends the tag to the
rest of the writer. -/
structure Lasts (kept : List (Chars × Chars)) (value : Chars) : Prop where
  references : WellReferenced value
  quotes : .of '"' ∈ value → .of '\'' ∈ value
  ends : ∀ attr ∈ kept, attr.2 ≠ [.of '>']

/-- The tag carries the attributes of the element that the policy lists, each with the value it had
in its tag. Of those that the policy is asked for under one name it carries the first, and a value
with references may change where they do not last. -/
def Carries (html : Chars) (shape : Shape) (tag : Tag) : Prop :=
  tag.name = shape.name ∧ (shape.attrs = [] ∨ ∃ source ∈ sourceTags html, ∃ kept,
    shape = source.shape shape.drawing ∧ cleanAttributes shape.name shape.attrs = .ok kept ∧
    ∀ before attr after, source.attrs = before ++ attr :: after → IsListed shape.name attr →
      (∀ other ∈ before, askedName shape.drawing other.1 ≠ attr.1) →
      ∃ value, (attr.1, value) ∈ tag.attrs ∧
        ((.of '&' ∈ attr.2 → Lasts kept attr.2) →
          Markup.decodeValue value = Markup.decodeValue attr.2))

section Relations

variable {α β : Type} {R : α → β → Prop} {xs : List α} {ys : List β}

theorem exists_of_forall₂_of_mem {y : β} (h : Forall₂ R xs ys) (hy : y ∈ ys) : ∃ x ∈ xs, R x y := by
  induction h with
  | nil => exact absurd hy List.not_mem_nil
  | @cons x _ xs _ hfirst _ ih =>
      rcases List.mem_cons.1 hy with rfl | hlater
      · exact ⟨x, List.mem_cons_self, hfirst⟩
      · obtain ⟨z, hz, hrel⟩ := ih hlater
        exact ⟨z, List.mem_cons_of_mem x hz, hrel⟩

theorem exists_of_forall₂_append_cons {x : α} {after : List α}
    (h : Forall₂ R (xs ++ x :: after) ys) :
    ∃ before y later, ys = before ++ y :: later ∧ Forall₂ R xs before ∧ R x y := by
  induction xs generalizing ys with
  | nil =>
      cases h with
      | @cons _ y _ later hfirst _ => exact ⟨[], y, later, rfl, .nil, hfirst⟩
  | cons z xs ih =>
      cases h with
      | @cons _ y _ ys hfirst hlater =>
          obtain ⟨before, w, later, rfl, hbefore, hw⟩ := ih hlater
          exact ⟨y :: before, w, later, rfl, .cons hfirst hbefore, hw⟩

end Relations

section Values

variable {value : Chars} {attr : Chars × Chars} {q : QuotedAttribute}
  {kept : List (Chars × Chars)}

/-- A value is shown as it was if its references last, or if it has none. -/
theorem decodeValue_of_writtenFrom (h : WrittenFrom attr q)
    (hrestored : (∀ other ∈ kept, other.2 ≠ [.of '>']) → Restored attr q)
    (hlasts : .of '&' ∈ attr.2 → Lasts kept attr.2) :
    Markup.decodeValue q.value = Markup.decodeValue attr.2 := by
  by_cases hamp : .of '&' ∈ attr.2
  · obtain ⟨hreferences, hquotes, hends⟩ := hlasts hamp
    refine hreferences.decodeValue_of_restore (hrestored hends ?_)
    rw [h.quote, quoteValue_fst_of_mem hquotes]
  · rcases h.value with heq | hrestore
    · rw [heq, decodeValue_quoteValue, Markup.decodeValue_of_not_mem hamp]
    · exact (WellReferenced.of_not_mem hamp).decodeValue_of_restore hrestore

theorem map_visible_of_writtenFrom (h : WrittenFrom attr q) (hzero : .of '\x00' ∉ attr.2) :
    q.value.map Html.visible = q.value := by
  have hwritten := h.value.not_mem (not_mem_quoteValue hzero (by decide)) (by decide)
  refine (List.map_congr_left fun c hc => Html.visible_of_ne ?_).trans (List.map_id _)
  rintro rfl
  exact hwritten hc

end Values

section Elements

variable {html : Chars} {content : List Html.Content} {shape : Shape}
  {start : Chars × List (Chars × Chars)} {tag : Tag}

theorem eq_start_of_accept (seen : Bool) (t : Html.Token) (tag : Tag)
    (h : accept seen t = .start tag) : t = .start tag := by
  cases t with
  | start other =>
      dsimp only [accept] at h
      split at h
      · exact h
      · contradiction
  | close name =>
      dsimp only [accept] at h
      split at h <;> contradiction
  | strayEnd source content =>
      dsimp only [accept] at h
      split at h <;> contradiction
  | _ => contradiction

theorem sound_of_mem_sourceTags (h : tag ∈ sourceTags html) : tag.Sound :=
  Html.sound_of_mem_readTags eq_start_of_accept h

theorem isOpened_of_read (hread : Html.read accept html = some content) :
    ∀ shape ∈ Html.shapesOf content, IsOpened html shape :=
  Html.holds_of_read hread (fun _ => Or.inl rfl) fun tag htag _ => Or.inr ⟨tag, htag, rfl⟩

theorem lowerAscii_of_isAllowedTag {name : Chars} (h : isAllowedTag name) :
    Text.lowerAscii name = name := by
  have hall : ∀ tag ∈ allowedTags, Text.lowerAscii tag = tag := by decide +kernel
  exact hall name (List.contains_iff_mem.1 h)

/-- The names of what is kept of an element can be written. -/
theorem isPlainName_of_isStartOf (hopened : IsOpened html shape) (hstart : IsStartOf shape start) :
    ∀ attr ∈ start.2, Html.IsPlainName attr.1 := by
  intro attr hattr
  obtain ⟨a, ha, hclean⟩ := exists_of_mem_cleanAttributes hstart.2 hattr
  obtain ⟨hname, hallowed⟩ := of_cleanAttribute_eq_some hclean
  rcases hopened with hnone | ⟨source, hsource, heq⟩
  · rw [hnone] at ha
    exact absurd ha List.not_mem_nil
  · rw [heq] at ha
    rw [hname]
    exact isPlainName_of_isAllowedAttribute
      (Html.isReported_of_mem_reportedAttributes (sound_of_mem_sourceTags hsource) ha) hallowed

/-- The tag of an element as it is read carries what the policy lists. -/
theorem carries_of_isReadAs (hopened : IsOpened html shape) (hstart : IsStartOf shape start)
    (htag : IsReadAs start tag) : Carries html shape tag := by
  obtain ⟨written, hwritten, rfl⟩ := htag
  refine ⟨hstart.1, hopened.imp_right fun ⟨source, hsource, heq⟩ =>
    ⟨source, hsource, start.2, heq, hstart.2, fun before attr after hsplit hlisted hfirst => ?_⟩⟩
  have hsound := sound_of_mem_sourceTags hsource
  have hattrs : shape.attrs = (before.map fun a => (Html.reportedName shape.drawing a.1, a.2)) ++
      (Html.reportedName shape.drawing attr.1, attr.2) ::
        after.map fun a => (Html.reportedName shape.drawing a.1, a.2) := by
    have hreported : (source.shape shape.drawing).attrs = _ :=
      Html.reportedAttributes_eq hsound shape.drawing
    rw [hsplit, List.map_append, List.map_cons] at hreported
    exact (congrArg Shape.attrs heq).trans hreported
  have hclean := hstart.2
  rw [hattrs] at hclean
  obtain ⟨keptBefore, keptAfter, hkept, hbefore⟩ :=
    exists_of_cleanAttributes (hlisted.cleanAttribute_eq shape.drawing) hclean
  have hinOrder := hwritten
  rw [hkept] at hinOrder
  obtain ⟨writtenBefore, q, writtenAfter, rfl, hwrittenBefore, hq⟩ :=
    exists_of_forall₂_append_cons hinOrder
  have hzero : .of '\x00' ∉ attr.2 :=
    hsound.values attr (hsplit ▸ List.mem_append_right before List.mem_cons_self)
  refine ⟨q.value, ?_, fun hlasts => decodeValue_of_writtenFrom hq.1 (hkept ▸ hq.2) hlasts⟩
  have hpair : Html.readPair q = (attr.1, q.value) := by
    rw [Html.readPair, hq.1.name, map_visible_of_writtenFrom hq.1 hzero]
  rw [List.map_append, List.map_cons, hpair]
  refine Html.mem_firstValues fun b hb => ?_
  obtain ⟨w, hw, rfl⟩ := List.mem_map.1 hb
  obtain ⟨k, hk, hfrom⟩ := exists_of_forall₂_of_mem hwrittenBefore hw
  obtain ⟨a, ha, hcleaned⟩ := exists_of_mem_cleanAttributes hbefore hk
  obtain ⟨other, hother, rfl⟩ := List.mem_map.1 ha
  rw [Html.readPair, hfrom.1.name, (of_cleanAttribute_eq_some hcleaned).1]
  exact hfirst other hother

theorem forall₂_carries {shapes : List Shape} {starts : List (Chars × List (Chars × Chars))}
    {tags : List Tag} (hopened : ∀ shape ∈ shapes, IsOpened html shape)
    (hstarts : Forall₂ IsStartOf shapes starts) (htags : Forall₂ IsReadAs starts tags) :
    Forall₂ (Carries html) shapes tags := by
  induction hstarts generalizing tags with
  | nil =>
      cases htags
      exact .nil
  | cons hstart _ ih =>
      obtain ⟨hfirst, hlater⟩ := List.forall_mem_cons.1 hopened
      cases htags with
      | cons htag hmore => exact .cons (carries_of_isReadAs hfirst hstart htag) (ih hlater hmore)

end Elements

/-- A fragment that is sanitized without a record is the one that was written. -/
theorem clean_eq_of_sanitize {html : Chars} (hquiet : (sanitize .ready html).records = []) :
    clean html = .ok (sanitize .ready html).value := by
  unfold sanitize at hquiet ⊢
  split
  · rename_i hempty
    rw [List.isEmpty_iff.1 hempty]
    decide +kernel
  · rename_i hempty
    rw [if_neg hempty] at hquiet
    dsimp only at hquiet ⊢
    split
    · assumption
    · rename_i hfail
      rw [hfail] at hquiet
      contradiction

/-- What is shown of a sanitized fragment are its elements of allowed tags, in their order, and each
carries what the policy lists. -/
theorem forall₂_carries_of_sanitize {html : Chars}
    (hquiet : (sanitize .ready html).records = []) :
    ∃ content, Html.read accept html = some content ∧
      Forall₂ (Carries html) (keptShapesOf content)
        (Html.standardTags (sanitize .ready html).value) := by
  obtain ⟨content, pieces, hread, hpieces, hwrite⟩ :=
    exists_pieces_of_clean (clean_eq_of_sanitize hquiet)
  have hstarts := forall₂_starts_piecesOf hpieces
  have hkept : ∀ shape ∈ keptShapesOf content, isAllowedTag shape.name ∧ IsOpened html shape :=
    fun shape hshape => (mem_of_mem_keptShapesOf hshape).imp_right (isOpened_of_read hread shape)
  have hnames : ∀ start ∈ starts (joinTexts pieces), Text.lowerAscii start.1 = start.1 ∧
      ∀ attr ∈ start.2, Html.IsPlainName attr.1 := by
    intro start hstart
    rw [starts_joinTexts] at hstart
    obtain ⟨shape, hshape, hof⟩ := exists_of_forall₂_of_mem hstarts hstart
    obtain ⟨hallowed, hopened⟩ := hkept shape hshape
    rw [← hof.1] at hallowed
    exact ⟨lowerAscii_of_isAllowedTag hallowed, isPlainName_of_isStartOf hopened hof⟩
  obtain ⟨tags, hshows, htags⟩ :=
    exists_shows_of_restoreReferences (sound_joinTexts hpieces) hnames hwrite
  rw [starts_joinTexts] at htags
  refine ⟨content, hread, ?_⟩
  rw [hshows.eq]
  exact forall₂_carries (fun shape hshape => (hkept shape hshape).2) hstarts htags

/-- Two elements, one with a reference in a value, one with an attribute in capitals and one that
is not listed. -/
def noteFragment : Chars :=
  ("<p class=\"note\" data-page=\"1 &lt; 2\">" ++
    "<span TITLE='say \"hi\"' onclick=\"f()\">a</span></p>").runes

theorem forall₂_carries_of_sanitize_note :
    (sanitize .ready noteFragment).records = [] ∧
      Html.standardTags (sanitize .ready noteFragment).value =
        [⟨"p".runes, [("class".runes, "note".runes), ("data-page".runes, "1 &lt; 2".runes)],
          false⟩,
        ⟨"span".runes, [("title".runes, "say \"hi\"".runes)], false⟩] ∧
      ∃ content, Html.read accept noteFragment = some content ∧
        Forall₂ (Carries noteFragment) (keptShapesOf content)
          (Html.standardTags (sanitize .ready noteFragment).value) :=
  have hquiet : (sanitize .ready noteFragment).records = [] := by decide +kernel
  ⟨hquiet, by decide +kernel, forall₂_carries_of_sanitize hquiet⟩

/-- The tag carries every attribute that the policy allows the element, but for styles and
addresses. -/
def CarriesAll (html : Chars) (shape : Shape) (tag : Tag) : Prop :=
  tag.name = shape.name ∧ (shape.attrs = [] ∨ ∃ source ∈ sourceTags html,
    shape = source.shape shape.drawing ∧
    ∀ attr ∈ source.attrs, isAllowedAttribute shape.name attr.1 → attr.1 ≠ "style".runes →
      isAddress none attr.1 = false → ∃ value, (attr.1, value) ∈ tag.attrs ∧
        Markup.decodeValue value = Markup.decodeValue attr.2)

/-- A drawing that tells which part of it is shown. -/
def boxedDrawing : Chars := "<svg viewBox=\"0 0 10 10\"></svg>".runes

/-- The policy lists the view box, and it is dropped: it is not asked for under the listed name. -/
theorem not_carriesAll_boxedDrawing : ¬ ∀ html content, (sanitize .ready html).records = [] →
    Html.read accept html = some content →
    Forall₂ (CarriesAll html) (keptShapesOf content)
      (Html.standardTags (sanitize .ready html).value) := by
  intro hall
  have hshapes : (Html.read accept boxedDrawing).map keptShapesOf =
      some [⟨"svg".runes, true, [("viewBox".runes, "0 0 10 10".runes)]⟩] := by
    decide +kernel
  have htags : Html.standardTags (sanitize .ready boxedDrawing).value =
      [⟨"svg".runes, [], false⟩] := by
    decide +kernel
  have hsources : sourceTags boxedDrawing =
      [⟨"svg".runes, [("viewbox".runes, "0 0 10 10".runes)], false⟩] := by
    decide +kernel
  obtain ⟨content, hread, hkept⟩ := Option.map_eq_some_iff.1 hshapes
  have hcarries := hall boxedDrawing content (by decide +kernel) hread
  rw [hkept, htags] at hcarries
  cases hcarries with
  | cons hfirst _ =>
      obtain ⟨-, hnone | ⟨source, hsource, -, hattrs⟩⟩ := hfirst
      · exact absurd hnone (List.cons_ne_nil _ _)
      · rw [hsources] at hsource
        obtain rfl := List.mem_singleton.1 hsource
        obtain ⟨value, hvalue, -⟩ := hattrs _ List.mem_cons_self (by decide) (by decide) (by decide)
        exact absurd hvalue List.not_mem_nil

end Folio.Sanitize
