import Folio.Proofs.Document.NormalForm
import Folio.Proofs.Document.Refusals

/-!
Which values are bundles, and what is kept of one. Four things are checked in order, and if a
number does not exceed the range in which lengths are kept, nothing else is in the way of a bundle.
Of a bundle the pages are the entries that have a body, the style sheets and scripts those that can
be used, all in their order, and the lengths have nothing left to trim.
-/
namespace Folio.Document

/-- A text is the body of the entry, and it is not blank. -/
def HasBody (entry : Json) : Prop :=
  ∃ body, entry.get "body" = .str body ∧ Text.isBlankText body = false

theorem hasBody_iff {entry : Json} : hasBody entry ↔ HasBody entry := by
  unfold hasBody HasBody
  cases entry.get "body" with
  | str body => simp [text?, Json.str?]
  | _ => simp [text?, Json.str?]

instance : DecidablePred HasBody := fun _ => decidable_of_iff _ hasBody_iff

/-- The value is in order in the respect that the error is about. -/
def StructureError.Passes (data : Json) : StructureError → Prop
  | .notAnObject => data.isObj
  | .missingTitle =>
      let title := (data.get "head").get "title"
      ¬ title.isNull ∧ ¬ Text.isBlankText title.display
  | .pagesNotAList => ((data.get "body").get "pages").arr?.isSome
  | .noPages => ∃ entry ∈ pageEntries data, HasBody entry
  | .nothingToPrint => True

instance (data : Json) : DecidablePred (StructureError.Passes data) := fun e =>
  match e with
  | .notAnObject | .pagesNotAList => inferInstanceAs (Decidable (_ = true))
  | .missingTitle => inferInstanceAs (Decidable (_ ∧ _))
  | .noPages => inferInstanceAs (Decidable (∃ entry ∈ pageEntries data, HasBody entry))
  | .nothingToPrint => isTrue trivial

/-- What is checked of a value, in order. -/
def structureChecks : List StructureError := [.notAnObject, .missingTitle, .pagesNotAList, .noPages]

/-- The first check that the value does not pass. -/
def failedCheck? (data : Json) : Option StructureError :=
  structureChecks.find? fun e => ¬ e.Passes data

section Checks

variable {data : Json}

theorem isEmpty_filter_hasBody (entries : List Json) :
    (entries.filter hasBody).isEmpty ↔ ¬ ∃ entry ∈ entries, HasBody entry := by
  simp [List.isEmpty_iff, List.filter_eq_nil_iff, ← hasBody_iff]

/-- What is wrong with the structure of a value is the first check that it does not pass. -/
theorem structureError?_eq_failedCheck? (data : Json) :
    structureError? data = failedCheck? data := by
  unfold structureError? failedCheck? structureChecks
  dsimp only
  cases hobj : data.isObj with
  | false => simp [StructureError.Passes, hobj]
  | true =>
      by_cases htitle : ((data.get "head").get "title").isNull ||
          Text.isBlankText ((data.get "head").get "title").display
      · simp [StructureError.Passes, hobj, htitle]
      · cases hpages : ((data.get "body").get "pages").arr? with
        | none => simp [StructureError.Passes, hobj, htitle, hpages]
        | some entries =>
            have hentries : pageEntries data = entries := by
              rw [pageEntries, hpages]
              rfl
            simp [StructureError.Passes, hobj, htitle, hpages, hentries,
              isEmpty_filter_hasBody entries]

end Checks

/-- The word by which an entry declares what it is: its type, or its kind if that says nothing. -/
def declaredWord (raw : Json) : Chars :=
  Text.lower (Text.trim (said (if (raw.get "type").holds then raw.get "type" else raw.get "kind")))

/-- An object that declares what it is, or has a text or an address. -/
def isUsable (raw : Json) : Bool :=
  raw.isObj && (declaredWord raw == "inline".runes || referenceWords.contains (declaredWord raw) ||
    (text? (raw.get "content")).isSome || (text? (raw.get "url")).isSome)

/-- What is used of an entry. -/
def usedRef (raw : Json) : ResourceRef where
  kind :=
    if declaredWord raw == "inline".runes then .inline
    else if referenceWords.contains (declaredWord raw) then .reference
    else if (text? (raw.get "content")).isSome then .inline
    else .reference
  content := text? (raw.get "content")
  url := text? (raw.get "url")

theorem ResourceRef.read_eq (raw : Json) :
    ResourceRef.read raw = if isUsable raw then some (usedRef raw) else none := by
  unfold ResourceRef.read isUsable usedRef declaredWord
  dsimp only
  generalize Document.text? (raw.get "content") = content
  generalize Document.text? (raw.get "url") = url
  generalize Text.lower _ = declared
  cases raw.isObj with
  | false => rfl
  | true =>
    cases declared == "inline".runes <;> cases referenceWords.contains declared <;>
      cases content <;> cases url <;> rfl

theorem readRefs_eq (raw : Json) :
    readRefs raw = ((raw.arr?.getD []).filter isUsable).map usedRef := by
  rw [readRefs, ← List.filterMap_eq_map, List.filterMap_filter, funext ResourceRef.read_eq]
  rfl

section Kept

variable {data : Json} {b : Bundle}

/-- The lengths of a page's size, if it is given by its sides. -/
def PageSize.lengths : PageSize → List (Option Chars)
  | .named _ => []
  | .sides width height => [width, height]

/-- The lengths of a layout. -/
def Layout.lengths (l : Layout) : List (Option Chars) :=
  l.size.lengths ++ [l.headerHeight, l.footerHeight] ++
    [l.frame.stroke, l.frame.top, l.frame.bottom, l.frame.left, l.frame.right].map some

/-- All lengths that a bundle has. -/
def Bundle.lengths (b : Bundle) : List (Option Chars) :=
  b.pages.flatMap (fun p => [p.headerHeight, p.footerHeight]) ++ b.layout.lengths

theorem PageSize.Normal.kept_lengths {size : PageSize} (h : size.Normal) :
    ∀ length ∈ size.lengths, ∀ s ∈ length, Kept s := by
  cases h with
  | named _ => exact fun _ hlength => absurd hlength List.not_mem_nil
  | sides hwidth hheight =>
      exact List.forall_mem_cons.2 ⟨hwidth, List.forall_mem_singleton.2 hheight⟩

theorem Layout.Normal.kept_lengths {l : Layout} (h : l.Normal) :
    ∀ length ∈ l.lengths, ∀ s ∈ length, Kept s := by
  have hframe : ∀ s ∈ [l.frame.stroke, l.frame.top, l.frame.bottom, l.frame.left, l.frame.right],
      Kept s := by
    simp [h.frame.stroke, h.frame.top, h.frame.bottom, h.frame.left, h.frame.right]
  intro length hlength
  rcases List.mem_append.1 hlength with hlength | hlength
  · rcases List.mem_append.1 hlength with hlength | hlength
    · exact h.size.kept_lengths length hlength
    · rcases List.mem_pair.1 hlength with rfl | rfl
      · exact h.header
      · exact h.footer
  · obtain ⟨s, hs, rfl⟩ := List.mem_map.1 hlength
    exact fun t ht => Option.some.inj ht ▸ hframe s hs

theorem Bundle.Normal.kept_lengths (h : b.Normal) :
    ∀ length ∈ b.lengths, ∀ s ∈ length, Kept s := by
  intro length hlength
  rcases List.mem_append.1 hlength with hlength | hlength
  · obtain ⟨p, hp, hlength⟩ := List.mem_flatMap.1 hlength
    rcases List.mem_pair.1 hlength with rfl | rfl
    · exact (h.pages p hp).header
    · exact (h.pages p hp).footer
  · exact h.layout.kept_lengths length hlength

/-- The page has the text of the entry as its body. -/
def SameBody (entry : Json) (p : Page) : Prop :=
  entry.get "body" = .str p.body

theorem sameBody_of_read {entry : Json} {p : Page} (hbody : HasBody entry)
    (h : Page.read entry = .ok p) : SameBody entry p := by
  obtain ⟨body, htext, -⟩ := hbody
  have hsame : p.body = body := by
    rw [(Page.readFrom_of_read h).body, htext]
    rfl
  rw [SameBody, htext, hsame]

/-- What is kept of a value in a bundle: the pages are the entries with a body, the style sheets
and scripts the entries that can be used, and no length is empty or can be trimmed. -/
structure Bundle.Keeps (b : Bundle) (data : Json) : Prop where
  pages : List.Forall₂ SameBody ((pageEntries data).filter fun entry => HasBody entry) b.pages
  lengths : ∀ length ∈ b.lengths, ∀ s ∈ length, s ≠ [] ∧ Text.trim s = s
  styles : b.styles =
    ((((data.get "head").get "styles").arr?.getD []).filter isUsable).map usedRef
  scripts : b.scripts = (((data.get "scripts").arr?.getD []).filter isUsable).map usedRef

theorem Bundle.keeps_of_read (h : Bundle.read data = .ok b) : b.Keeps data := by
  have hparts := readFrom_of_read h
  have hnormal := normal_of_read h
  have hbodies : (pageEntries data).filter hasBody =
      (pageEntries data).filter fun entry => HasBody entry :=
    List.filter_congr fun entry _ => by simp [← hasBody_iff]
  refine {
    pages := ?_
    lengths := ?_
    styles := hparts.styles.trans (readRefs_eq _)
    scripts := hparts.scripts.trans (readRefs_eq _) }
  · have hread := hparts.pages
    rw [hbodies] at hread
    have hentries : ∀ entry ∈ (pageEntries data).filter (fun entry => HasBody entry),
        HasBody entry := fun entry hentry => by simpa using (List.mem_filter.1 hentry).2
    have hpages := (List.forall₂_and_left _ _).2 ⟨hentries, forall₂_of_mapM hread⟩
    refine hpages.imp ?_
    rintro entry p ⟨hbody, hpage⟩
    exact sameBody_of_read hbody hpage
  · intro length hlength s hs
    have hkept := hnormal.kept_lengths length hlength s hs
    exact ⟨hkept.ne_nil, hkept.trim_eq⟩

end Kept

/-- If no number exceeds the range in which lengths are kept, a value is a bundle exactly if it
passes every check, and if it does not, it is refused for the first check that it fails. -/
theorem read_iff_passes (data : Json) (hlengths : ∀ value ∈ lengthValues data, Fits value) :
    ((∃ b, Bundle.read data = .ok b) ↔ ∀ e ∈ structureChecks, e.Passes data) ∧
    (∀ e, Bundle.read data = .error e ↔ ∃ check, failedCheck? data = some check ∧
      e = .structural check) ∧
    ∀ b, Bundle.read data = .ok b → b.Keeps data := by
  have hnone : failedCheck? data = none ↔ ∀ e ∈ structureChecks, e.Passes data := by
    simp [failedCheck?, List.find?_eq_none]
  rw [← hnone]
  cases hfailed : failedCheck? data with
  | none =>
      rw [← structureError?_eq_failedCheck?] at hfailed
      obtain ⟨b, hread⟩ := (readIf_bundle hfailed).ok hlengths
      rw [hread]
      refine ⟨⟨fun _ => rfl, fun _ => ⟨b, rfl⟩⟩, ?_, ?_⟩
      · simp
      · rintro b' hb'
        obtain rfl := Except.ok.inj hb'
        exact Bundle.keeps_of_read hread
  | some check =>
      rw [← structureError?_eq_failedCheck?] at hfailed
      rw [read_of_structureError hfailed]
      refine ⟨by simp, fun e => ?_, by simp⟩
      constructor
      · rintro h
        exact ⟨check, rfl, (Except.error.inj h).symm⟩
      · rintro ⟨first, hfirst, rfl⟩
        rw [Option.some.inj hfirst]

/-- A value with entries of many kinds. -/
def mixed : Json := .obj [
  ("head", .obj [("title", .int 7), ("styles", .arr [
    .null, .obj [("content", .str "p {}")], .obj [("kind", .int 1)], .obj [("type", .str " HREF")]])]),
  ("body", .obj [("pages", .arr [
    .str "x", .obj [("body", .str " ")], .obj [("body", .int 3)],
    .obj [("body", .str "<p>"), ("headerHeight", .str " 2cm "), ("footerHeight", .int (-5))]])]),
  ("layout", .obj [("page", .obj [("size", .obj [("width", .int 210), ("height", .bool true)])])])]

theorem read_iff_passes_mixed : (∀ value ∈ lengthValues mixed, Fits value) ∧
    ∃ b, Bundle.read mixed = .ok b ∧ b.Keeps mixed := by
  have hlengths : ∀ value ∈ lengthValues mixed, Fits value := by decide +kernel
  obtain ⟨b, hb⟩ := (read_iff_passes mixed hlengths).1.2 (by decide)
  exact ⟨hlengths, b, hb, (read_iff_passes mixed hlengths).2.2 b hb⟩

end Folio.Document
