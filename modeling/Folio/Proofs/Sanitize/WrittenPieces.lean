import Folio.Proofs.Markup.TaggedText
import Folio.Proofs.Sanitize.WrittenValues

/-!
Sanitized fragments read again. Every start tag that is read in the text is one that was kept, and
every value in it is shown as it was kept or as its references read.
-/
namespace Folio.Sanitize

open Html (Content)
open Markup (QuotedAttribute Tagged isTagName isAttributeName readAttributes)

/-- A piece in which no tag begins but its own. -/
def Piece.Sound : Piece → Prop
  | .space s => .of '<' ∉ s
  | .text _ => True
  | .reference name => .of '<' ∉ name
  | .start name _ => isTagName name
  | .close name => isTagName name

theorem isTagName_of_isAllowedTag {name : Chars} (h : isAllowedTag name) : isTagName name := by
  have hall : ∀ tag ∈ allowedTags, isTagName tag := by decide
  exact hall name (List.contains_iff_mem.1 h)

theorem of_mem_drop_dropEnd {p : Rune → Bool} {s : Chars} {c : Rune}
    (hc : c ∈ s.drop (Text.dropEnd p s).length) : p c := by
  have hsplit : s = Text.dropEnd p s ++ (s.reverse.takeWhile p).reverse := by
    rw [Text.dropEnd, ← List.reverse_append, List.takeWhile_append_dropWhile, List.reverse_reverse]
  have hdropped : s.drop (Text.dropEnd p s).length = (s.reverse.takeWhile p).reverse :=
    (congrArg (List.drop _) hsplit).trans List.drop_left
  rw [hdropped, List.mem_reverse] at hc
  exact List.mem_takeWhile_imp hc

section Pieces

open Markup.Skips (not_mem_takeWhile)

theorem not_mem_referenceName? {s name : Chars} (h : referenceName? s = some name) :
    .of '<' ∉ name := by
  cases s with
  | nil => contradiction
  | cons c rest =>
      dsimp only [referenceName?] at h
      split at h
      · rw [Option.ite_none_right_eq_some] at h
        obtain rfl := Option.some.inj h.2
        intro hmem
        rcases List.mem_append.1 hmem with hmark | hdigit
        · rcases List.mem_cons.1 hmark with heq | hmark
          · exact absurd heq (by decide)
          · exact not_mem_takeWhile (by decide) _ (List.mem_of_mem_take hmark)
        · refine not_mem_takeWhile ?_ _ hdigit
          split <;> decide
      · rw [Option.ite_none_right_eq_some] at h
        obtain rfl := Option.some.inj h.2
        exact not_mem_takeWhile (by decide) _

theorem sound_referencePieces {s : Chars} {piece : Piece} (h : piece ∈ referencePieces s) :
    piece.Sound := by
  unfold referencePieces at h
  split at h
  · obtain rfl := List.mem_singleton.1 h
    trivial
  · rename_i name after hsplit
    rcases List.mem_cons.1 h with rfl | hafter
    · split
      · trivial
      · rw [splitReference?, Option.map_eq_some_iff] at hsplit
        obtain ⟨found, hfound, heq⟩ := hsplit
        obtain ⟨rfl, -⟩ := Prod.mk.inj heq
        exact not_mem_referenceName? hfound
    · split at hafter
      · exact absurd hafter List.not_mem_nil
      · obtain rfl := List.mem_singleton.1 hafter
        trivial

theorem sound_textPieces {s : Chars} {piece : Piece} (h : piece ∈ textPieces s) : piece.Sound := by
  have hspaces : ∀ {run : Chars}, (∀ c ∈ run, Text.isSpace c) →
      piece ∈ (if run.isEmpty then [] else [Piece.space run]) → piece.Sound := by
    intro run hrun hpiece
    split at hpiece
    · exact absurd hpiece List.not_mem_nil
    · obtain rfl := List.mem_singleton.1 hpiece
      exact fun hmem => absurd (hrun '<' hmem) (by decide)
  dsimp only [textPieces] at h
  rw [List.mem_append, List.mem_append, List.mem_append] at h
  rcases h with ((hleft | hhead) | hmiddle) | hright
  · exact hspaces (fun c hc => List.mem_takeWhile_imp hc) hleft
  · split at hhead
    · exact absurd hhead List.not_mem_nil
    · obtain rfl := List.mem_singleton.1 hhead
      trivial
  · obtain ⟨after, -, hpiece⟩ := List.mem_flatMap.1 hmiddle
    exact sound_referencePieces hpiece
  · exact hspaces (fun c hc => of_mem_drop_dropEnd hc) hright

/-- A piece of an element is one of its two tags, if the element is kept, or a piece of its
content. -/
theorem mem_nodePieces_element {name : Chars} {drawing : Bool} {attrs : List (Chars × Chars)}
    {children : List Content} {pieces : List Piece}
    (h : nodePieces (.element name drawing attrs children) = .ok pieces) {piece : Piece}
    (hpiece : piece ∈ pieces) :
    (isAllowedTag name ∧ (piece = .close name ∨
      ∃ kept, cleanAttributes name attrs = .ok kept ∧ piece = .start name kept)) ∨
    ∃ inner, piecesOf children = .ok inner ∧ piece ∈ inner := by
  have hrest : ∀ {opening : List Piece},
      (if !drawing && voidNames.contains name then pure opening
        else do
          let inner ← piecesOf children
          return opening ++ inner ++ if isAllowedTag name then [.close name] else []) =
        Except.ok pieces →
      piece ∈ opening ∨ (isAllowedTag name ∧ piece = .close name) ∨
        ∃ inner, piecesOf children = .ok inner ∧ piece ∈ inner := by
    intro opening hrest
    split at hrest
    · obtain rfl := Except.ok.inj hrest
      exact Or.inl hpiece
    · obtain ⟨inner, hinner, hrest⟩ := exists_of_bind_eq_ok hrest
      obtain rfl := Except.ok.inj hrest
      rw [List.mem_append, List.mem_append] at hpiece
      rcases hpiece with (hpiece | hpiece) | hpiece
      · exact Or.inl hpiece
      · exact Or.inr (Or.inr ⟨inner, hinner, hpiece⟩)
      · split at hpiece
        · rename_i hallowed
          exact Or.inr (Or.inl ⟨hallowed, List.mem_singleton.1 hpiece⟩)
        · exact absurd hpiece List.not_mem_nil
  rw [nodePieces] at h
  dsimp only at h
  by_cases hallowed : isAllowedTag name
  · rw [if_pos hallowed] at h
    obtain ⟨opening, hopening, h⟩ := exists_of_bind_eq_ok h
    obtain ⟨kept, hkept, rfl⟩ := exists_of_map_eq_ok hopening
    rcases hrest h with hstart | hclose | hinner
    · exact Or.inl ⟨hallowed, Or.inr ⟨kept, hkept, List.mem_singleton.1 hstart⟩⟩
    · exact Or.inl ⟨hallowed, Or.inl hclose.2⟩
    · exact Or.inr hinner
  · rw [if_neg hallowed] at h
    rcases hrest h with hstart | hclose | hinner
    · exact absurd hstart List.not_mem_nil
    · exact absurd hclose.1 hallowed
    · exact Or.inr hinner

mutual

/-- The pieces of one node are sound. -/
theorem sound_nodePieces {node : Content} {pieces : List Piece} (h : nodePieces node = .ok pieces)
    {piece : Piece} (hpiece : piece ∈ pieces) : piece.Sound := by
  cases node with
  | text s =>
      obtain rfl := Except.ok.inj h
      exact sound_textPieces hpiece
  | comment =>
      obtain rfl := Except.ok.inj h
      exact absurd hpiece List.not_mem_nil
  | element name drawing attrs children =>
      rcases mem_nodePieces_element h hpiece with ⟨hallowed, htag⟩ | ⟨inner, hinner, hmem⟩
      · rcases htag with rfl | ⟨kept, -, rfl⟩
        · exact isTagName_of_isAllowedTag hallowed
        · exact isTagName_of_isAllowedTag hallowed
      · exact sound_piecesOf hinner hmem

/-- The pieces of some nodes are sound. -/
theorem sound_piecesOf {nodes : List Content} {pieces : List Piece}
    (h : piecesOf nodes = .ok pieces) {piece : Piece} (hpiece : piece ∈ pieces) :
    piece.Sound := by
  cases nodes with
  | nil =>
      obtain rfl := Except.ok.inj h
      exact absurd hpiece List.not_mem_nil
  | cons node rest =>
      rw [piecesOf] at h
      obtain ⟨first, hfirst, h⟩ := exists_of_bind_eq_ok h
      obtain ⟨later, hlater, h⟩ := exists_of_bind_eq_ok h
      obtain rfl := Except.ok.inj h
      rcases List.mem_append.1 hpiece with hmem | hmem
      · exact sound_nodePieces hfirst hmem
      · exact sound_piecesOf hlater hmem

end

/-- Joining makes new texts only. -/
theorem mem_of_mem_joinTexts {pieces : List Piece} {piece : Piece} (h : piece ∈ joinTexts pieces) :
    piece ∈ pieces ∨ ∃ s, piece = .text s := by
  induction pieces with
  | nil => exact absurd h List.not_mem_nil
  | cons first rest ih =>
      have hlater : piece ∈ joinTexts rest → piece ∈ first :: rest ∨ ∃ s, piece = .text s :=
        fun hmem => (ih hmem).imp_left (List.mem_cons_of_mem first)
      unfold joinTexts at h
      split at h
      · contradiction
      · rename_i s rest' heq
        obtain ⟨rfl, rfl⟩ := List.cons.inj heq
        split at h
        · rename_i t joined hjoined
          rcases List.mem_cons.1 h with rfl | hmem
          · exact Or.inr ⟨_, rfl⟩
          · exact hlater (hjoined ▸ List.mem_cons_of_mem _ hmem)
        · rcases List.mem_cons.1 h with rfl | hmem
          · exact Or.inr ⟨_, rfl⟩
          · exact hlater hmem
      · rename_i piece' rest' _ heq
        obtain ⟨rfl, rfl⟩ := List.cons.inj heq
        rcases List.mem_cons.1 h with rfl | hmem
        · exact Or.inl List.mem_cons_self
        · exact hlater hmem

end Pieces

/-- A quoted attribute that was written from a kept one. -/
structure WrittenFrom (attr : Chars × Chars) (written : QuotedAttribute) : Prop where
  name : written.name = attr.1
  quote : written.quote = (quoteValue attr.2).1
  value : WrittenAs (quoteValue attr.2).2 written.value

theorem WrittenFrom.sound {attr : Chars × Chars} {written : QuotedAttribute}
    (h : WrittenFrom attr written) (hname : isAttributeName attr.1) : written.Sound where
  name := h.name ▸ hname
  quote := h.quote ▸ quoteValue_fst attr.2
  value := by
    rw [h.quote]
    exact h.value.not_mem (quoteValue_not_mem attr.2) (quoteValue_fst_not_mem attr.2)

theorem not_mem_escapeText (s : Chars) : .of '<' ∉ Markup.escapeText s := by
  rw [Markup.escapeText, List.mem_flatMap]
  rintro ⟨c, -, hc⟩
  split at hc
  · exact absurd hc (by decide)
  · split at hc
    · exact absurd hc (by decide)
    · rename_i hangle
      split at hc
      · exact absurd hc (by decide)
      · rw [List.mem_singleton.1 hc] at hangle
        exact hangle (beq_self_eq_true _)

theorem amp_not_mem_of_isTagName {name : Chars} (hname : isTagName name) : .of '&' ∉ name :=
  fun hmem => absurd (Markup.isPlainNameChar_of_isTagName hname '&' hmem) (by decide)

section Write

variable {inTag atValue : Bool} {out : Chars} {rest : List Chars}

theorem exists_writtenFrom {attr : Chars × Chars}
    (h : restoreReferences inTag atValue (attributeParts attr ++ rest) = .ok out) :
    ∃ inTag' atValue' written after, WrittenFrom attr written ∧
      restoreReferences inTag' atValue' rest = .ok after ∧ out = written.text ++ after := by
  have hquote : .of '&' ∉ [(quoteValue attr.2).1] := by
    intro hmem
    rw [List.mem_singleton] at hmem
    exact quoteValue_fst_not_mem attr.2 (hmem ▸ List.mem_cons_self)
  change restoreReferences inTag atValue ([' '] :: attr.1 :: ['='] :: [(quoteValue attr.2).1] ::
    (quoteValue attr.2).2 :: [(quoteValue attr.2).1] :: rest) = .ok out at h
  obtain ⟨_, _, _, hstate, hname, rfl⟩ := exists_rest_of_space h
  obtain ⟨_, _, _, hequals, rfl⟩ := exists_rest_of_not_atValue hstate hname
  obtain ⟨_, _, _, hopen, rfl⟩ := exists_rest_of_not_mem (by decide) hequals
  obtain ⟨_, _, _, hvalue, rfl⟩ := exists_rest_of_not_mem hquote hopen
  obtain ⟨_, _, value, _, hwritten, hclose, rfl⟩ := exists_written hvalue
  obtain ⟨inTag', atValue', after, hrest, rfl⟩ := exists_rest_of_not_mem hquote hclose
  refine ⟨inTag', atValue', ⟨attr.1, (quoteValue attr.2).1, value⟩, after, ⟨rfl, rfl, hwritten⟩,
    hrest, ?_⟩
  simp [QuotedAttribute.text]

/-- All attributes of a tag. -/
theorem exists_writtenFrom_of_flatMap {attrs : List (Chars × Chars)}
    (h : restoreReferences inTag atValue (attrs.flatMap attributeParts ++ rest) = .ok out) :
    ∃ (inTag' atValue' : Bool) (written : List QuotedAttribute) (after : Chars),
      (∀ q ∈ written, ∃ attr ∈ attrs, WrittenFrom attr q) ∧
      restoreReferences inTag' atValue' rest = .ok after ∧
      out = written.flatMap QuotedAttribute.text ++ after := by
  induction attrs generalizing inTag atValue out with
  | nil => exact ⟨inTag, atValue, [], out, fun q hq => absurd hq List.not_mem_nil, h, rfl⟩
  | cons attr attrs ih =>
      rw [List.flatMap_cons, List.append_assoc] at h
      obtain ⟨_, _, first, _, hfirst, hlater, rfl⟩ := exists_writtenFrom h
      obtain ⟨inTag', atValue', more, after, hmore, hrest, rfl⟩ := ih hlater
      refine ⟨inTag', atValue', first :: more, after, fun q hq => ?_, hrest, ?_⟩
      · rcases List.mem_cons.1 hq with rfl | hlater
        · exact ⟨attr, List.mem_cons_self, hfirst⟩
        · obtain ⟨other, hother, hfrom⟩ := hmore q hlater
          exact ⟨other, List.mem_cons_of_mem attr hother, hfrom⟩
      · rw [List.flatMap_cons, List.append_assoc]

/-- A start tag with its attributes. -/
theorem exists_written_start {name : Chars} {attrs : List (Chars × Chars)} (hname : isTagName name)
    (h : restoreReferences inTag atValue ((Piece.start name attrs).parts ++ rest) = .ok out) :
    ∃ (inTag' atValue' : Bool) (written : List QuotedAttribute) (after : Chars),
      (∀ q ∈ written, ∃ attr ∈ attrs, WrittenFrom attr q) ∧
      restoreReferences inTag' atValue' rest = .ok after ∧
      out = .of '<' :: (name ++ (written.flatMap QuotedAttribute.text ++ .of '>' :: after)) := by
  have hopen : .of '&' ∉ .of '<' :: name := by
    rw [List.mem_cons]
    exact fun hmem => hmem.elim (by decide) (amp_not_mem_of_isTagName hname)
  rw [Piece.parts, List.cons_append, List.cons_append, List.append_assoc] at h
  obtain ⟨_, _, _, hattrs, rfl⟩ := exists_rest_of_not_mem hopen h
  obtain ⟨_, _, written, _, hwritten, hclose, rfl⟩ := exists_writtenFrom_of_flatMap hattrs
  obtain ⟨inTag', atValue', after, hrest, rfl⟩ := exists_rest_of_not_mem (by decide) hclose
  exact ⟨inTag', atValue', written, after, hwritten, hrest, rfl⟩

theorem exists_written_close {name : Chars} (hname : isTagName name)
    (h : restoreReferences inTag atValue ((Piece.close name).parts ++ rest) = .ok out) :
    ∃ inTag' atValue' after, restoreReferences inTag' atValue' rest = .ok after ∧
      out = .of '<' :: .of '/' :: (name ++ .of '>' :: after) := by
  have hpart : .of '&' ∉ .of '<' :: .of '/' :: name ++ [.of '>'] := by
    rw [List.mem_append, List.mem_cons, List.mem_cons]
    rintro ((heq | heq | hmem) | hmem)
    · exact absurd heq (by decide)
    · exact absurd heq (by decide)
    · exact amp_not_mem_of_isTagName hname hmem
    · exact absurd hmem (by decide)
  obtain ⟨inTag', atValue', after, hrest, rfl⟩ := exists_rest_of_not_mem hpart h
  refine ⟨inTag', atValue', after, hrest, ?_⟩
  rw [List.append_assoc]
  rfl

/-- A written tag comes from a start tag of which `kept` holds. -/
def WrittenStart (kept : Chars → List (Chars × Chars) → Prop) (name : Chars)
    (written : List QuotedAttribute) : Prop :=
  ∃ attrs, kept name attrs ∧ ∀ q ∈ written, ∃ attr ∈ attrs, WrittenFrom attr q

/-- Some pieces that are written, whatever came before. -/
theorem tagged_of_restoreReferences {kept : Chars → List (Chars × Chars) → Prop}
    {pieces : List Piece} (hsound : ∀ piece ∈ pieces, piece.Sound)
    (hstarts : ∀ name attrs, Piece.start name attrs ∈ pieces →
      kept name attrs ∧ ∀ attr ∈ attrs, isAttributeName attr.1)
    (h : restoreReferences inTag atValue (pieces.flatMap Piece.parts) = .ok out) :
    Tagged (WrittenStart kept) out := by
  induction pieces generalizing inTag atValue out with
  | nil =>
      obtain rfl := Except.ok.inj h
      exact .nil
  | cons piece pieces ih =>
      have hpiece := hsound piece List.mem_cons_self
      have hlater : ∀ {inTag atValue : Bool} {out : Chars},
          restoreReferences inTag atValue (pieces.flatMap Piece.parts) = .ok out →
          Tagged (WrittenStart kept) out :=
        ih (fun other hother => hsound other (List.mem_cons_of_mem piece hother))
          (fun name attrs hmem => hstarts name attrs (List.mem_cons_of_mem piece hmem))
      have hplain : ∀ {part : Chars}, .of '<' ∉ part →
          restoreReferences inTag atValue (part :: pieces.flatMap Piece.parts) = .ok out →
          Tagged (WrittenStart kept) out := by
        intro part hpart hout
        obtain ⟨_, _, written, _, hwritten, hrest, rfl⟩ := exists_written hout
        exact (hlater hrest).append (hwritten.not_mem hpart (by decide))
      cases piece with
      | space s => exact hplain hpiece h
      | text s => exact hplain (not_mem_escapeText s) h
      | reference name =>
          refine hplain ?_ h
          rw [List.mem_append, List.mem_cons]
          rintro ((heq | hmem) | hmem)
          · exact absurd heq (by decide)
          · exact hpiece hmem
          · exact absurd hmem (by decide)
      | start name attrs =>
          obtain ⟨hmem, hnames⟩ := hstarts name attrs List.mem_cons_self
          obtain ⟨_, _, written, _, hwritten, hrest, rfl⟩ := exists_written_start hpiece h
          have hquoted : ∀ q ∈ written, q.Sound := by
            intro q hq
            obtain ⟨attr, hattr, hfrom⟩ := hwritten q hq
            exact hfrom.sound (hnames attr hattr)
          exact .start hpiece hquoted ⟨attrs, hmem, hwritten⟩ (hlater hrest)
      | close name =>
          obtain ⟨_, _, _, hrest, rfl⟩ := exists_written_close hpiece h
          exact .close hpiece (hlater hrest)

end Write

/-- As what a value may be read once it is written: as it was, or as its references read. -/
def ShownAs (value shown : Chars) : Prop :=
  shown = value ∨
    ∃ written, restore (quoteValue value).2 = .ok written ∧ Markup.decodeValue written = .ok shown

theorem WrittenFrom.shownAs {attr : Chars × Chars} {written : QuotedAttribute} {shown : Chars}
    (h : WrittenFrom attr written) (hread : Markup.decodeValue written.value = .ok shown) :
    ShownAs attr.2 shown := by
  rcases h.value with heq | hrestore
  · rw [heq, decodeValue_quoteValue] at hread
    exact Or.inl (Except.ok.inj hread).symm
  · exact Or.inr ⟨written.value, hrestore, hread⟩

/-- An attribute that is read was written with its value. -/
theorem exists_of_readAttributes {written : List QuotedAttribute}
    {attrs : List (Chars × Option Chars)} {name shown : Chars}
    (h : readAttributes written = .ok attrs) (hattr : (name, some shown) ∈ attrs) :
    ∃ q ∈ written, name = Text.lower q.name ∧ Markup.decodeValue q.value = .ok shown := by
  obtain ⟨raw, hraw, hread⟩ := exists_of_mem_mapM h hattr
  obtain ⟨q, hq, rfl⟩ := List.mem_map.1 hraw
  obtain ⟨decoded, hdecoded, heq⟩ := exists_of_map_eq_ok hread
  obtain ⟨rfl, hvalue⟩ := Prod.mk.inj heq
  exact ⟨q, hq, rfl, Option.some.inj hvalue ▸ hdecoded⟩

/-- A start tag that is kept of a fragment, with the attributes that are kept. -/
def Keeps (html name : Chars) (attrs : List (Chars × Chars)) : Prop :=
  ∃ content pieces, Html.read accept html = some content ∧ piecesOf content = .ok pieces ∧
    Piece.start name attrs ∈ pieces

/-- A sanitized fragment is what is written of the pieces of its content. -/
theorem exists_pieces_of_clean {html out : Chars} (h : clean html = .ok out) :
    ∃ content pieces, Html.read accept html = some content ∧ piecesOf content = .ok pieces ∧
      write pieces = .ok out := by
  unfold clean at h
  cases hcontent : Html.read accept html with
  | none =>
      rw [hcontent] at h
      contradiction
  | some content =>
      rw [hcontent] at h
      dsimp only at h
      split at h
      · rename_i text hout
        obtain rfl := Except.ok.inj h
        obtain ⟨pieces, hpieces, hwrite⟩ := exists_of_bind_eq_ok hout
        exact ⟨content, pieces, rfl, hpieces, hwrite⟩
      · contradiction

theorem sound_joinTexts {content : List Content} {pieces : List Piece}
    (h : piecesOf content = .ok pieces) : ∀ piece ∈ joinTexts pieces, piece.Sound := by
  intro piece hpiece
  rcases mem_of_mem_joinTexts hpiece with hmem | ⟨s, rfl⟩
  · exact sound_piecesOf h hmem
  · trivial

/-- A sanitized fragment is a text of the start tags that are kept. -/
theorem tagged_of_clean {html out : Chars} (h : clean html = .ok out)
    (hnames : ∀ name attrs, Keeps html name attrs → ∀ attr ∈ attrs, isAttributeName attr.1) :
    Tagged (WrittenStart (Keeps html)) out := by
  obtain ⟨content, pieces, hcontent, hpieces, hwrite⟩ := exists_pieces_of_clean h
  refine tagged_of_restoreReferences (sound_joinTexts hpieces) (fun name attrs hstart => ?_) hwrite
  have hkeeps : Keeps html name attrs := by
    rcases mem_of_mem_joinTexts hstart with hmem | ⟨s, heq⟩
    · exact ⟨content, pieces, hcontent, hpieces, hmem⟩
    · contradiction
  exact ⟨hkeeps, hnames name attrs hkeeps⟩

/-- Every start tag that is read in a sanitized fragment is kept of it, and so is every attribute
with a value. -/
theorem exists_keeps_of_clean {html out : Chars} (h : clean html = .ok out)
    (hnames : ∀ name attrs, Keeps html name attrs → ∀ attr ∈ attrs, isAttributeName attr.1)
    {events : List Markup.Event} (hread : Markup.readEvents out = .ok events)
    {tag : Markup.StartTag} (htag : tag ∈ Markup.startTags events) :
    ∃ name attrs, Keeps html name attrs ∧ tag.name = Text.lower name ∧
      ∀ shownName shown, (shownName, some shown) ∈ tag.attrs →
        ∃ attr ∈ attrs, shownName = Text.lower attr.1 ∧ ShownAs attr.2 shown := by
  obtain ⟨name, written, ⟨attrs, hkeeps, hfrom⟩, hname, hattrs⟩ :=
    (tagged_of_clean h hnames).startTags_readEvents hread tag htag
  refine ⟨name, attrs, hkeeps, hname, fun shownName shown hattr => ?_⟩
  obtain ⟨q, hq, rfl, hdecoded⟩ := exists_of_readAttributes hattrs hattr
  obtain ⟨attr, hmem, hwritten⟩ := hfrom q hq
  exact ⟨attr, hmem, by rw [hwritten.name], hwritten.shownAs hdecoded⟩

end Folio.Sanitize
