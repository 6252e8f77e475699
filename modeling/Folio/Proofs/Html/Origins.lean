import Folio.Html.Reader

/-!
Where the elements of a tree come from. An element is opened for a tag, for a tag that nobody wrote,
or as another element split in two; the name and the attributes of an element never change.
-/
namespace Folio.Html

/-- What stays the same of an element while the tree is built: its name, whether it belongs to a
drawing, and its attributes. -/
structure Shape where
  name : Chars
  drawing : Bool
  attrs : List (Chars × Chars)
deriving DecidableEq, Repr

def Item.shape (it : Item) : Shape := ⟨it.name, it.drawing, it.attrs⟩

/-- The attributes of a tag as they are reported for its element. -/
def reportedAttributes : Bool → List (Chars × Chars) → List (Chars × Chars)
  | false, attrs => attrs
  | true, attrs => attrs.foldl (fun done a => Entries.put (Build.drawingName a.1) a.2 done) []

/-- The shape of an element that is opened for a tag. -/
def Tag.shape (tag : Tag) (drawing : Bool) : Shape :=
  ⟨tag.name, drawing, reportedAttributes drawing tag.attrs⟩

/-- The shapes of elements that no tag stands for are among those of which `p` holds. -/
def HoldsImplied (p : Shape → Prop) : Prop := ∀ name, p ⟨name, false, []⟩

/-- The shapes for a tag are among those of which `p` holds. -/
def HoldsTag (p : Shape → Prop) (tag : Tag) : Prop := ∀ drawing, p (tag.shape drawing)

namespace Build

/-- Every element of a tree has a shape of which `p` holds, and so do those that no tag stands
for. -/
structure From (p : Shape → Prop) (b : Build) : Prop where
  implied : HoldsImplied p
  items : ∀ i, p (b.item i).shape

section Items

variable {p : Shape → Prop} {b : Build}

/-- Only the items count. -/
theorem From.keep (h : b.From p) (opened : List Nat) (active : List (Option Nat)) (phase : Phase)
    (fostering : Bool) (held : Option Chars) (dropBreak stuck : Bool) :
    (⟨b.items, opened, active, phase, fostering, held, dropBreak, stuck⟩ : Build).From p :=
  ⟨h.implied, h.items⟩

theorem From.pop (h : b.From p) : b.pop.From p := h.keep ..

theorem From.popWhile (h : b.From p) (q : Nat → Bool) : (b.popWhile q).From p := h.keep ..

theorem From.popThrough (h : b.From p) (names : List Chars) : (b.popThrough names).From p :=
  (h.popWhile _).pop

theorem From.popTo (h : b.From p) (names : List Chars) : (b.popTo names).From p := h.popWhile _

theorem From.popImplied (h : b.From p) (except : Chars) : (b.popImplied except).From p :=
  h.popWhile _

theorem From.ite {c : Prop} [Decidable c] {b' : Build} (h : b.From p) (h' : b'.From p) :
    (if c then b else b').From p := by
  split
  · exact h
  · exact h'

theorem item_modify (b : Build) (i j : Nat) (f : Item → Item) :
    (b.modify i f).item j = b.item j ∨ (b.modify i f).item j = f (b.item j) := by
  unfold modify item
  dsimp only
  by_cases hj : j < b.items.size
  · rw [Array.getD_eq_getD_getElem?, Array.getD_eq_getD_getElem?, Array.getElem?_modify]
    split
    · rw [Array.getElem?_eq_getElem hj]
      exact Or.inr rfl
    · exact Or.inl rfl
  · refine Or.inl ?_
    have hsize : ¬ j < (b.items.modify i f).size := by rwa [Array.size_modify]
    rw [Array.getD_eq_getD_getElem?, Array.getD_eq_getD_getElem?,
      Array.getElem?_eq_none (Nat.le_of_not_lt hj), Array.getElem?_eq_none (Nat.le_of_not_lt hsize)]

/-- A change that keeps the shape of an item. -/
theorem From.modify (i : Nat) (f : Item → Item) (hf : ∀ it, (f it).shape = it.shape)
    (h : b.From p) : (b.modify i f).From p := by
  refine ⟨h.implied, fun j => ?_⟩
  rcases item_modify b i j f with heq | heq
  · rw [heq]
    exact h.items j
  · rw [heq, hf]
    exact h.items j

theorem item_add (b : Build) (it : Item) (j : Nat) :
    (b.add it).item j = b.item j ∨ (b.add it).item j = it := by
  unfold add item
  dsimp only
  rw [Array.getD_eq_getD_getElem?, Array.getD_eq_getD_getElem?, Array.getElem?_push]
  split
  · exact Or.inr rfl
  · exact Or.inl rfl

theorem From.add (h : b.From p) (it : Item) (hit : p it.shape) : (b.add it).From p := by
  refine ⟨h.implied, fun j => ?_⟩
  rcases item_add b it j with heq | heq
  · rw [heq]
    exact h.items j
  · rw [heq]
    exact hit

theorem From.append (h : b.From p) (parent child : Nat) : (b.append parent child).From p :=
  .modify _ _ (fun _ => rfl) (.modify _ _ (fun _ => rfl) h)

theorem From.putBefore (h : b.From p) (parent child before : Nat) :
    (b.putBefore parent child before).From p := by
  unfold Build.putBefore
  split
  · exact h.keep ..
  · exact .modify _ _ (fun _ => rfl) (.modify _ _ (fun _ => rfl) h)

theorem From.detach (h : b.From p) (child : Nat) : (b.detach child).From p := by
  unfold Build.detach
  split
  · exact h
  · split
    · exact .modify _ _ (fun _ => rfl) (.modify _ _ (fun _ => rfl) h)
    · exact h.keep ..

/-- A new element like another has its shape. -/
theorem From.clone (h : b.From p) (i : Nat) : (b.clone i).From p := h.add _ (h.items i)

theorem From.moveContent (h : b.From p) (source target : Nat) :
    (b.moveContent source target).From p := by
  unfold Build.moveContent
  dsimp only
  refine Array.foldl_induction (fun _ (b : Build) => b.From p) ?_ fun _ _ hb => hb.append target _
  exact .modify _ _ (fun _ => rfl) (.modify _ _ (fun _ => rfl) h)

theorem From.addText (h : b.From p) (parent : Nat) (before : Option Nat) (s : Chars) :
    (b.addText parent before s).From p := by
  unfold Build.addText
  dsimp only
  split
  · exact .modify _ _ (fun _ => rfl) h
  · split
    · exact .modify _ _ (fun _ => rfl) h
    · split
      · exact h.keep ..
      · exact .modify _ _ (fun _ => rfl) h
      · exact .modify _ _ (fun _ => rfl) h

theorem From.insertText (h : b.From p) (s : Chars) : (b.insertText s).From p := by
  unfold Build.insertText
  split <;> exact h.addText _ _ s

theorem From.place (h : b.From p) (child : Nat) : (b.place child).From p := by
  unfold Build.place
  split
  · split
    · exact h.append _ child
    · exact h.putBefore _ child _
  · exact h.append _ child

theorem From.insert {name : Chars} {drawing : Bool} {attrs : List (Chars × Chars)} (h : b.From p)
    (hshape : p ⟨name, drawing, attrs⟩) : (b.insert name drawing attrs).From p :=
  ((h.add (.element name drawing attrs) hshape).place _).keep ..

theorem From.insertTag (h : b.From p) {tag : Tag} (htag : HoldsTag p tag) :
    (b.insertTag tag).From p := h.insert (htag false)

theorem From.insertImplied (h : b.From p) (name : Chars) : (b.insertImplied name).From p :=
  h.insert (h.implied name)

theorem From.insertComment (h : b.From p) : b.insertComment.From p :=
  (h.add .comment (h.implied [])).append _ _

end Items

section Formatting

variable {p : Shape → Prop} {b : Build}

theorem From.reopen (h : b.From p) (is : List Nat) : (b.reopen is).1.From p := by
  induction is generalizing b with
  | nil => exact h
  | cons i later ih => exact ih (h.insert (h.items i))

theorem From.reconstruct (h : b.From p) : b.reconstruct.From p := (h.reopen _).keep ..

theorem From.activate (h : b.From p) (i : Nat) : (b.activate i).From p := h.keep ..

theorem From.addMark (h : b.From p) : b.addMark.From p := h.keep ..

theorem From.dropMark (h : b.From p) : b.dropMark.From p := h.keep ..

theorem From.insertFormatting (h : b.From p) {tag : Tag} (htag : HoldsTag p tag) :
    (b.insertFormatting tag).From p := (h.insertTag htag).activate _

theorem From.closeOther (h : b.From p) (name : Chars) : (b.closeOther name).From p := by
  unfold Build.closeOther
  split
  · exact h
  · exact .ite ((h.popImplied name).popWhile _).pop h

theorem From.splitUp (formatting block : Nat) (n : Nat) (above : List Nat) {s : Split}
    (h : s.build.From p) : (splitUp formatting block n above s).build.From p := by
  induction n generalizing above s with
  | zero => exact h
  | succ n ih =>
      cases above with
      | nil => exact h
      | cons i above =>
          rw [Build.splitUp]
          split
          · exact ih above h
          · split
            · exact h
            · exact ih above (From.append (From.detach ((h.clone i).keep ..) _) _ _)

theorem From.splitAt (h : b.From p) (formatting block : Nat) (inner outer : List Nat) :
    (b.splitAt formatting block inner outer).From p := by
  have hup : (Build.splitUp formatting block 3 outer
      ⟨b, [], block, b.activePlace formatting⟩).build.From p := From.splitUp _ _ _ _ h
  unfold Build.splitAt
  dsimp only
  refine From.keep ?_ ..
  refine From.append (From.moveContent (From.clone (From.ite ?_ ?_) _) _ _) _ _
  · split
    · exact (hup.detach _).keep ..
    · exact (hup.detach _).putBefore _ _ _
  · exact (hup.detach _).append _ _

theorem From.closeFormattingOnce (h : b.From p) (name : Chars) :
    (b.closeFormattingOnce name).1.From p := by
  unfold Build.closeFormattingOnce
  split
  · exact h.closeOther name
  · split
    · exact h.keep ..
    · split
      · exact h.closeOther name
      · dsimp only
        split
        · exact h.keep ..
        · exact h.splitAt _ _ _ _

theorem From.closeFormatting (n : Nat) (name : Chars) (h : b.From p) :
    (closeFormatting n name b).From p := by
  induction n generalizing b with
  | zero => exact h
  | succ n ih =>
      have honce := h.closeFormattingOnce name
      rw [Build.closeFormatting]
      generalize b.closeFormattingOnce name = once at honce
      obtain ⟨b', last⟩ := once
      cases last with
      | true => exact honce
      | false => exact ih honce

end Formatting

section Body

variable {p : Shape → Prop} {b : Build}

theorem From.popParagraph (h : b.From p) : b.popParagraph.From p :=
  (h.popImplied _).popThrough _

theorem From.endParagraph (h : b.From p) : b.endParagraph.From p := .ite h.popParagraph h

theorem From.closeParagraph (h : b.From p) : b.closeParagraph.From p :=
  .ite h.popParagraph (h.insertImplied "p").popParagraph

theorem From.closeContainer (h : b.From p) (name : Chars) : (b.closeContainer name).From p :=
  .ite ((h.popImplied _).popThrough _) h

theorem From.closeListItem (h : b.From p) (name : Chars) : (b.closeListItem name).From p :=
  .ite ((h.popImplied _).popThrough _) h

theorem From.closeHeading (h : b.From p) : b.closeHeading.From p :=
  .ite ((h.popImplied _).popThrough _) h

theorem From.closeBreak (h : b.From p) : b.closeBreak.From p :=
  (h.reconstruct.insertImplied "br").pop

/-- An end tag in the body. -/
theorem From.bodyEnd (h : b.From p) (name : Chars) : (b.bodyEnd name).From p := by
  have hbreak : { b with dropBreak := false }.From p := h.keep ..
  unfold Build.bodyEnd
  refine .ite h.closeParagraph (.ite (hbreak.closeContainer name) ?_)
  refine .ite (h.closeContainer name) (.ite (h.closeListItem name) (.ite h.closeHeading ?_))
  exact .ite (h.closeFormatting 8 name) (.ite h.closeBreak (h.closeOther name))

/-- An end tag that comes from a start tag adds nothing of another shape. -/
def Closes (p : Shape → Prop) (endTag : Build → Chars → Build) : Prop :=
  ∀ {b : Build} (name : Chars), b.From p → (endTag b name).From p

variable {tag : Tag} {endTag : Build → Chars → Build}

theorem From.startListItem (h : b.From p) (hend : Closes p endTag) (htag : HoldsTag p tag) :
    (b.startListItem endTag tag).From p := by
  unfold Build.startListItem
  dsimp only
  refine From.insertTag (.ite (hend _ ?_) ?_) htag
  · split
    · exact hend _ h
    · exact h
  · split
    · exact hend _ h
    · exact h

theorem From.startHeading (h : b.From p) (htag : HoldsTag p tag) : (b.startHeading tag).From p :=
  From.insertTag (.ite h.endParagraph.pop h.endParagraph) htag

theorem From.startLink (h : b.From p) (htag : HoldsTag p tag) : (b.startLink tag).From p := by
  unfold Build.startLink
  refine From.insertFormatting (From.reconstruct ?_) htag
  split
  · exact h
  · exact (h.closeFormatting 8 ['a']).keep ..

theorem From.insertDrawing (h : b.From p) (htag : HoldsTag p tag) :
    (b.insertDrawing tag).From p :=
  .ite (From.pop (h.insert (htag true))) (h.insert (htag true))

/-- A start tag in the body. -/
theorem From.bodyStart (h : b.From p) (hend : Closes p endTag) (htag : HoldsTag p tag) :
    (b.bodyStart endTag tag).From p := by
  have hparagraph := h.endParagraph.insertTag htag
  have hreopened := h.reconstruct.insertTag htag
  unfold Build.bodyStart
  refine .ite hparagraph (.ite (h.startHeading htag) (.ite (hparagraph.keep ..) ?_))
  refine .ite (h.startListItem hend htag) (.ite (h.startLink htag) ?_)
  refine .ite (h.reconstruct.insertFormatting htag) (.ite (hparagraph.keep ..) ?_)
  refine .ite hreopened.pop (.ite (h.insertTag htag).pop ?_)
  refine .ite hparagraph.pop (.ite (h.reconstruct.insertDrawing htag) ?_)
  exact .ite h hreopened

theorem From.bodyText (h : b.From p) (s : Chars) : (b.bodyText s).From p :=
  .ite h (h.reconstruct.insertText s)

theorem From.bodySpace (h : b.From p) (s : Chars) : (b.bodySpace s).From p := by
  have hbreak : { b with dropBreak := false }.From p := h.keep ..
  exact .ite hbreak (hbreak.reconstruct.insertText _)

end Body

section Table

variable {p : Shape → Prop} {b : Build} {tag : Tag}

theorem From.closeTable (h : b.From p) : b.closeTable.From p :=
  .ite (From.keep ((h.popImplied []).popThrough ["table"]) ..) h

theorem From.tableEnd (h : b.From p) (name : Chars) : (b.tableEnd name).From p := by
  have hfostering : { b with fostering := true }.From p := h.keep ..
  exact .ite h.closeTable (.ite h ((hfostering.bodyEnd name).keep ..))

theorem From.closeCaption (h : b.From p) : b.closeCaption.From p :=
  From.keep ((h.popImplied []).popThrough ["caption"]).dropMark ..

theorem From.closeColumns (h : b.From p) : b.closeColumns.From p := h.pop.keep ..

theorem From.closeRowGroup (h : b.From p) : b.closeRowGroup.From p := (h.popTo _).pop.keep ..

theorem From.closeRow (h : b.From p) : b.closeRow.From p := (h.popTo _).pop.keep ..

theorem From.closeCell (h : b.From p) (name : Chars) : (b.closeCell name).From p :=
  From.keep ((h.popImplied name).popThrough [name]).dropMark ..

theorem From.closeAnyCell (h : b.From p) : b.closeAnyCell.From p :=
  .ite (h.closeCell "td") (.ite (h.closeCell "th") h)

/-- A step for a token, which may say that the token is taken again. -/
theorem From.fst_ite {c : Prop} [Decidable c] {x y : Build × Bool} (hx : x.1.From p)
    (hy : y.1.From p) : (if c then x else y).1.From p := by
  split
  · exact hx
  · exact hy

/-- An end tag by the rules of the phase. -/
theorem From.phaseEnd (h : b.From p) (name : Chars) : (b.phaseEnd name).1.From p := by
  unfold Build.phaseEnd
  dsimp only
  cases b.phase with
  | body => exact h.bodyEnd name
  | table => exact h.tableEnd name
  | caption => exact .fst_ite (.fst_ite h.closeCaption h) (.fst_ite h (h.bodyEnd name))
  | columnGroup => exact .fst_ite h h.closeColumns
  | tableBody =>
      exact .fst_ite (.ite h.closeRowGroup h) (.fst_ite (.fst_ite h.closeRowGroup h) (h.tableEnd name))
  | row =>
      exact .fst_ite (.fst_ite h.closeRow h)
        (.fst_ite (.fst_ite (.ite h.closeRow h) h) (h.tableEnd name))
  | cell =>
      exact .fst_ite (.ite (h.closeCell _) h)
        (.fst_ite (.fst_ite h.closeAnyCell h) (.fst_ite h (h.bodyEnd name)))

theorem closes_endTag (p : Shape → Prop) : Closes p endTag := fun name h => h.phaseEnd name

theorem From.openPart (h : b.From p) (upTo : List Chars) (htag : p (tag.shape false))
    (phase : Phase) : (b.openPart upTo tag phase).From p :=
  From.keep (From.insert (h.popTo upTo) htag) ..

theorem From.tableStart (h : b.From p) (htag : HoldsTag p tag) : (b.tableStart tag).1.From p := by
  have hfostering : { b with fostering := true }.From p := h.keep ..
  refine .fst_ite (h.addMark.openPart _ (htag false) _) ?_
  refine .fst_ite (h.openPart _ (htag false) _) (.fst_ite (h.openPart _ (h.implied _) _) ?_)
  refine .fst_ite (h.openPart _ (htag false) _) (.fst_ite (h.openPart _ (h.implied _) _) ?_)
  refine .fst_ite (h.phaseEnd _) ?_
  exact (hfostering.bodyStart (closes_endTag p) htag).keep ..

/-- A start tag by the rules of the phase. -/
theorem From.phaseStart (h : b.From p) (htag : HoldsTag p tag) : (b.phaseStart tag).1.From p := by
  have hbody := h.bodyStart (closes_endTag p) htag
  unfold Build.phaseStart
  dsimp only
  cases b.phase with
  | body => exact hbody
  | table => exact h.tableStart htag
  | caption => exact .fst_ite (.fst_ite h.closeCaption h) hbody
  | columnGroup => exact .fst_ite (h.insertTag htag).pop (.fst_ite h h.closeColumns)
  | tableBody =>
      refine .fst_ite (h.openPart _ (htag false) _) (.fst_ite (h.openPart _ (h.implied _) _) ?_)
      exact .fst_ite (.fst_ite h.closeRowGroup h) (h.tableStart htag)
  | row =>
      refine .fst_ite (h.openPart _ (htag false) _).addMark ?_
      exact .fst_ite (.fst_ite h.closeRow h) (h.tableStart htag)
  | cell => exact .fst_ite (.fst_ite h.closeAnyCell h) hbody

end Table

section Tokens

variable {p : Shape → Prop} {b : Build} {t : Token}

/-- The shapes for the tag of a token are among those of which `p` holds. -/
def HoldsToken (p : Shape → Prop) (t : Token) : Prop := ∀ tag, t = .start tag → HoldsTag p tag

theorem From.drawingEnd (h : b.From p) (name : Chars) : (b.drawingEnd name).1.From p := by
  unfold Build.drawingEnd
  split
  · exact h
  · exact .fst_ite (h.popWhile _).pop (h.phaseEnd name)

theorem From.drawingToken (h : b.From p) (ht : HoldsToken p t) : (b.drawingToken t).1.From p := by
  cases t with
  | text s => exact h.insertText _
  | space s => exact h.insertText s
  | start tag => exact .fst_ite (h.popWhile _) (h.insertDrawing (ht tag rfl))
  | close name => exact h.drawingEnd name
  | comment => exact h.insertComment
  | strayEnd source content => exact h.insertComment
  | nothing => exact h

theorem From.flush (h : b.From p) : b.flush.From p := by
  unfold Build.flush
  split
  · exact h
  · have hplaced : { b with held := none }.From p := h.keep ..
    have hfostering : { b with held := none, fostering := true }.From p := h.keep ..
    exact .ite (.ite hplaced (hplaced.insertText _)) ((hfostering.bodyText _).keep ..)

theorem From.phaseText (h : b.From p) (isText : Bool) (s : Chars) :
    (b.phaseText isText s).1.From p := by
  unfold Build.phaseText
  cases b.phase with
  | body => exact .ite (h.bodyText s) (h.bodySpace s)
  | caption => exact .ite (h.bodyText s) (h.insertText s)
  | cell => exact .ite (h.bodyText s) (h.insertText s)
  | columnGroup => exact .fst_ite (h.insertText s) (.fst_ite h h.closeColumns)
  | table => exact h.keep ..
  | tableBody => exact h.keep ..
  | row => exact h.keep ..

theorem From.phaseToken (h : b.From p) (ht : HoldsToken p t) : (b.phaseToken t).1.From p := by
  cases t with
  | text s => exact h.phaseText true s
  | space s => exact h.phaseText false s
  | start tag => exact h.phaseStart (ht tag rfl)
  | close name => exact h.phaseEnd name
  | comment => exact h.insertComment
  | strayEnd source content => exact h.insertComment
  | nothing => exact h

/-- One step for a token. -/
theorem From.takeOnce (h : b.From p) (ht : HoldsToken p t) : (b.takeOnce t).1.From p := by
  unfold Build.takeOnce
  refine .fst_ite (h.drawingToken ht) ?_
  split
  · exact h.phaseToken ht
  · exact .ite h (h.keep ..)
  · exact h.keep ..
  · exact h
  · exact h.flush

theorem From.takeWithin (n : Nat) (h : b.From p) (ht : HoldsToken p t) :
    (takeWithin n b t).From p := by
  induction n generalizing b with
  | zero => exact h
  | succ n ih =>
      have honce := h.takeOnce ht
      rw [Build.takeWithin]
      generalize b.takeOnce t = once at honce
      obtain ⟨b', again⟩ := once
      cases again with
      | true => exact ih honce
      | false => exact honce

/-- A token that is taken adds elements for its tag, and elements like those there are. -/
theorem From.take (h : b.From p) (ht : HoldsToken p t) : (b.take t).From p := h.takeWithin 16 ht

end Tokens

end Build

/-- The tag of a start tag. -/
def Token.tag? : Token → Option Tag
  | .start tag => some tag
  | _ => none

/-- The tags for which elements are opened as a text is read, in order. -/
def readTags (accept : Bool → Token → Token) : Nat → Bool → Chars → Build → List Tag
  | 0, _, _, _ => []
  | _ + 1, _, [], _ => []
  | n + 1, seen, c :: rest, b =>
      let (token, rest) := readToken b.inDrawing c rest
      let seen' := match token with
        | .start _ | .close _ => true
        | _ => seen
      (accept seen token).tag?.toList ++
        readTags accept n seen' rest (b.take (accept seen token))

section Read

variable {accept : Bool → Token → Token} {p : Shape → Prop}

/-- Every element that is built as a text is read comes from one of its tags. -/
theorem from_readBuild {n : Nat} {seen : Bool} {s : Chars} {b : Build} (h : b.From p)
    (htags : ∀ tag ∈ readTags accept n seen s b, HoldsTag p tag) :
    (readBuild accept n seen s b).From p := by
  induction n generalizing seen s b with
  | zero => exact h.flush
  | succ n ih =>
      cases s with
      | nil => exact h.flush
      | cons c s =>
          rw [readTags] at htags
          rw [readBuild]
          refine ih (h.take fun tag htag => htags tag ?_) fun tag htag => htags tag ?_
          · refine List.mem_append_left _ ?_
            rw [htag]
            exact List.mem_singleton_self tag
          · exact List.mem_append_right _ htag

end Read

mutual

/-- The shapes of the elements of a content, each before those inside it. -/
def Content.shapes : Content → List Shape
  | .text _ => []
  | .comment => []
  | .element name drawing attrs children => ⟨name, drawing, attrs⟩ :: shapesOf children

/-- The shapes of the elements of some contents. -/
def shapesOf : List Content → List Shape
  | [] => []
  | node :: rest => node.shapes ++ shapesOf rest

end

theorem shapesOf_append (xs ys : List Content) : shapesOf (xs ++ ys) = shapesOf xs ++ shapesOf ys := by
  induction xs with
  | nil => rfl
  | cons x xs ih => rw [List.cons_append, shapesOf, ih, shapesOf, List.append_assoc]

theorem shapesOf_ofText (s : Chars) : shapesOf (Content.ofText s) = [] := by
  unfold Content.ofText
  split <;> rfl

theorem mem_shapesOf_flatMap {α : Type} {f : α → List Content} {xs : List α} {shape : Shape}
    (h : shape ∈ shapesOf (xs.flatMap f)) : ∃ x ∈ xs, shape ∈ shapesOf (f x) := by
  induction xs with
  | nil => exact absurd h List.not_mem_nil
  | cons x xs ih =>
      rw [List.flatMap_cons, shapesOf_append] at h
      rcases List.mem_append.1 h with hhere | hlater
      · exact ⟨x, List.mem_cons_self, hhere⟩
      · obtain ⟨y, hy, hshape⟩ := ih hlater
        exact ⟨y, List.mem_cons_of_mem x hy, hshape⟩

/-- The elements of a content have the shapes of the items. -/
theorem Build.From.contentOf {p : Shape → Prop} {b : Build} (h : b.From p) (depth : Nat)
    (children : List Nat) : ∀ shape ∈ shapesOf (b.contentOf depth children), p shape := by
  induction depth generalizing children with
  | zero => exact fun shape hshape => absurd hshape List.not_mem_nil
  | succ depth ih =>
      intro shape hshape
      obtain ⟨c, -, hmem⟩ := mem_shapesOf_flatMap hshape
      rw [shapesOf, shapesOf_ofText, List.append_nil] at hmem
      split at hmem
      · exact absurd hmem List.not_mem_nil
      · rw [Content.shapes, shapesOf_append, shapesOf_ofText, List.nil_append] at hmem
        rcases List.mem_cons.1 hmem with rfl | hinside
        · exact h.items c
        · exact ih _ shape hinside

/-- Every element of what is read comes from one of the tags, or no tag stands for it. -/
theorem holds_of_read {accept : Bool → Token → Token} {p : Shape → Prop} {s : Chars}
    {content : List Content} (h : read accept s = some content) (himplied : HoldsImplied p)
    (htags : ∀ tag ∈ readTags accept ((normalizeLines s).length + 1) false (normalizeLines s) .empty,
      HoldsTag p tag) : ∀ shape ∈ shapesOf content, p shape := by
  have hempty : Build.empty.From p := by
    refine ⟨himplied, fun i => ?_⟩
    cases i with
    | zero => exact himplied _
    | succ i => exact himplied _
  have hbuild := from_readBuild hempty htags
  rw [read] at h
  split at h
  · contradiction
  · obtain rfl := Option.some.inj h
    rw [Build.content, shapesOf_append, shapesOf_ofText]
    exact hbuild.contentOf _ _

end Folio.Html
