import Folio.Document.Compile
import Folio.Proofs.Decimal.Range
import Folio.Proofs.Markup.Acceptance
import Folio.Proofs.Outcomes

/-!
What keeps a value that was sent from becoming a document. Its structure may be wrong; if it is
not, there are two things left: a length that is a whole number out of range, and a fragment that
the reader of markup refuses.
-/
namespace Folio.Document

open Decimal (Binary64 NumeralError)
open Markup (MarkupError Node)

/-- What is wrong with the structure of a value, if anything is. -/
def structureError? (data : Json) : Option StructureError :=
  let title := (data.get "head").get "title"
  if !data.isObj then some .notAnObject
  else if title.isNull || Text.isBlankText title.display then some .missingTitle
  else match ((data.get "body").get "pages").arr? with
    | none => some .pagesNotAList
    | some raw => if (raw.filter hasBody).isEmpty then some .noPages else none

/-- The values that are read as the lengths of a page. -/
def Page.lengthValues (raw : Json) : List Json := [raw.get "headerHeight", raw.get "footerHeight"]

/-- The values that are read as the sides of a page. -/
def PageSize.lengthValues (raw : Json) : List Json :=
  if raw.isObj then [raw.get "width", raw.get "height"] else []

/-- The values that are read as the lengths of a frame. -/
def SafeFrame.lengthValues (raw : Json) : List Json :=
  ["stroke", "topOffset", "bottomOffset", "leftOffset", "rightOffset"].map raw.get

/-- The values that are read as the lengths of a layout. -/
def Layout.lengthValues (raw : Json) : List Json :=
  let page := raw.get "page"
  PageSize.lengthValues (page.get "size") ++ [page.get "headerHeight", page.get "footerHeight"] ++
    SafeFrame.lengthValues (raw.get "safeFrame")

/-- The values that are read as lengths. -/
def lengthValues (data : Json) : List Json :=
  let pages := (((data.get "body").get "pages").arr?.getD []).filter hasBody
  pages.flatMap Page.lengthValues ++ Layout.lengthValues (data.get "layout")

/-- The value can be read as a length: if it is a whole number, it is within the range. -/
def Fits (value : Json) : Prop := ∀ n, value = .int n → n.natAbs < Binary64.overflowBound

instance (value : Json) : Decidable (Fits value) :=
  match value with
  | .int n => decidable_of_iff (n.natAbs < Binary64.overflowBound)
      ⟨fun h m hm => Json.int.inj hm ▸ h, fun h => h n rfl⟩
  | .null | .bool _ | .real _ | .str _ | .arr _ | .obj _ => isTrue (fun n hn => by contradiction)

/-- The texts of a part that are read as markup: its content, and the content in its element where
nothing from outside is allowed and the content may hold something. -/
def Security.readings (s : Security) (content : Chars) (part : Except MarkupError Chars) :
    List Chars :=
  content :: match part with
    | .ok wrapped =>
        if !s.allowsExternal && Resource.mayLeave wrapped then [wrapped] else []
    | .error _ => []

/-- The texts of a band that are read as markup. A band without content has none. -/
def Bundle.bandReadings (b : Bundle) (band : Band) (own : Option Chars) (shared : Chars) :
    List Chars :=
  match bandContent own shared with
  | some content => b.security.readings content (wrapBand band content)
  | none => []

/-- The texts of a page that are read as markup. -/
def Page.readings (b : Bundle) (p : Page) : List Chars :=
  (if p.showsHeader then b.bandReadings .header p.header b.header else []) ++
    b.security.readings p.body (wrapBody p.body) ++
    (if p.showsFooter then b.bandReadings .footer p.footer b.footer else [])

/-- The fragments that the author of a bundle gives. -/
def Bundle.fragments (b : Bundle) : List Chars :=
  (b.pages.flatMap fun p => p.body :: (p.header.toList ++ p.footer.toList)) ++ [b.header, b.footer]

/-- All that is read of a value can be read: its lengths, and the markup of its pages. -/
structure Readable (data : Json) : Prop where
  lengths : ∀ value ∈ lengthValues data, Fits value
  markup : ∀ b, Bundle.read data = .ok b →
    ∀ p ∈ b.pages, ∀ text ∈ p.readings b, (Node.read text).isOk

/-- The reading succeeds under the condition, and meets a length out of range without it. -/
structure ReadIf {α : Type} (c : Prop) (x : Except NormalizeError α) : Prop where
  ok : c → ∃ a, x = .ok a
  error : ¬c → x = .error (.numeral .tooLarge)

namespace ReadIf

variable {α β : Type} {c d : Prop} {x : Except NormalizeError α} {f : α → Except NormalizeError β}

theorem congr (h : ReadIf c x) (hiff : c ↔ d) : ReadIf d x :=
  ⟨fun hd => h.ok (hiff.2 hd), fun hd => h.error (mt hiff.1 hd)⟩

theorem pure (a : α) : ReadIf True (Pure.pure a : Except NormalizeError α) :=
  ⟨fun _ => ⟨a, rfl⟩, fun h => absurd trivial h⟩

/-- Readings one after the other. -/
theorem bind (h : ReadIf c x) (hf : ∀ a, x = .ok a → ReadIf d (f a)) :
    ReadIf (c ∧ d) (x >>= f) := by
  constructor
  · rintro ⟨hc, hd⟩
    obtain ⟨a, ha⟩ := h.ok hc
    obtain ⟨y, hy⟩ := (hf a ha).ok hd
    exact ⟨y, by rw [ha]; exact hy⟩
  · intro hboth
    by_cases hc : c
    · obtain ⟨a, ha⟩ := h.ok hc
      rw [ha]
      exact (hf a ha).error fun hd => hboth ⟨hc, hd⟩
    · rw [h.error hc]
      rfl

theorem map (h : ReadIf c x) (f : α → β) : ReadIf c (x.map f) := by
  constructor
  · intro hc
    obtain ⟨a, ha⟩ := h.ok hc
    exact ⟨f a, by rw [ha]; rfl⟩
  · intro hc
    rw [h.error hc]
    rfl

theorem mapM {γ : Type} {p : γ → Prop} {f : γ → Except NormalizeError α}
    (h : ∀ j, ReadIf (p j) (f j)) (js : List γ) : ReadIf (∀ j ∈ js, p j) (js.mapM f) := by
  induction js with
  | nil => exact (pure []).congr (by simp)
  | cons j js ih =>
      rw [List.mapM_cons]
      refine ((h j).bind fun first _ => ih.bind fun later _ => pure (first :: later)).congr ?_
      simp

end ReadIf

section Reading

/-- A length is read unless it is out of range. -/
theorem readIf_readLength (value : Json) : ReadIf (Fits value) (readLength value) := by
  cases value with
  | int n =>
      have hfits : Fits (.int n) ↔ (Binary64.ofInt n).isFinite := by
        rw [Binary64.isFinite_ofInt_iff]
        exact ⟨fun h => h n rfl, fun h m hm => Json.int.inj hm ▸ h⟩
      constructor
      · intro h
        refine ⟨some (Binary64.ofInt n).brief, ?_⟩
        rw [readLength, Length.stored, Length.briefWhole, if_pos (hfits.1 h)]
        rfl
      · intro h
        rw [readLength, Length.stored, Length.briefWhole, if_neg (mt hfits.2 h)]
        rfl
  | _ =>
      refine ⟨fun _ => ⟨_, rfl⟩, fun h => absurd ?_ h⟩
      intro n hn
      contradiction

theorem readIf_readLengthOr (default : Chars) (value : Json) :
    ReadIf (Fits value) (readLengthOr default value) :=
  (readIf_readLength value).map _

theorem readIf_pageSize (raw : Json) :
    ReadIf (∀ value ∈ PageSize.lengthValues raw, Fits value) (PageSize.read raw) := by
  rw [PageSize.read, PageSize.lengthValues]
  split
  · refine ((readIf_readLength _).bind fun width _ => (readIf_readLength _).bind fun height _ =>
      ReadIf.pure _).congr ?_
    simp
  · split
    · exact (ReadIf.pure _).congr (by simp)
    · exact (ReadIf.pure _).congr (by simp)

theorem readIf_safeFrame (raw : Json) :
    ReadIf (∀ value ∈ SafeFrame.lengthValues raw, Fits value) (SafeFrame.read raw) := by
  rw [SafeFrame.read, SafeFrame.lengthValues]
  refine ((readIf_readLengthOr _ _).bind fun stroke _ => (readIf_readLengthOr _ _).bind
    fun top _ => (readIf_readLengthOr _ _).bind fun bottom _ => (readIf_readLengthOr _ _).bind
    fun left _ => (readIf_readLengthOr _ _).bind fun right _ => ReadIf.pure _).congr ?_
  simp

theorem readIf_layout (raw : Json) :
    ReadIf (∀ value ∈ Layout.lengthValues raw, Fits value) (Layout.read raw) := by
  rw [Layout.read, Layout.lengthValues]
  refine ((readIf_pageSize _).bind fun size _ => (readIf_readLength _).bind fun header _ =>
    (readIf_readLength _).bind fun footer _ => (readIf_safeFrame _).bind fun frame _ =>
    ReadIf.pure _).congr ?_
  simp [List.forall_mem_append, -List.mem_append]

theorem readIf_page (raw : Json) :
    ReadIf (∀ value ∈ Page.lengthValues raw, Fits value) (Page.read raw) := by
  rw [Page.read, Page.lengthValues]
  refine ((readIf_readLength _).bind fun header _ => (readIf_readLength _).bind fun footer _ =>
    ReadIf.pure _).congr ?_
  simp

/-- A value of the wrong structure is no bundle, whatever its lengths are. -/
theorem read_of_structureError {data : Json} {e : StructureError}
    (h : structureError? data = some e) : Bundle.read data = .error (.structural e) := by
  unfold structureError? at h
  unfold Bundle.read
  dsimp only at h ⊢
  cases hobj : data.isObj with
  | false =>
      rw [hobj] at h
      obtain rfl := Option.some.inj h
      rfl
  | true =>
      rw [hobj] at h
      simp only [Bool.not_true, Bool.false_eq_true, if_false] at h ⊢
      split at h
      · obtain rfl := Option.some.inj h
        rename_i htitle
        rw [if_pos htitle]
        rfl
      · rename_i htitle
        rw [if_neg htitle]
        cases hpages : ((data.get "body").get "pages").arr? with
        | none =>
            rw [hpages] at h
            obtain rfl := Option.some.inj h
            rfl
        | some raw =>
            rw [hpages] at h
            dsimp only at h
            rw [Option.ite_none_right_eq_some] at h
            obtain ⟨hempty, h⟩ := h
            obtain rfl := Option.some.inj h
            dsimp only
            rw [List.isEmpty_iff.1 hempty]
            rfl

/-- A value of the right structure is a bundle unless a length is out of range. -/
theorem readIf_bundle {data : Json} (h : structureError? data = none) :
    ReadIf (∀ value ∈ lengthValues data, Fits value) (Bundle.read data) := by
  unfold structureError? at h
  unfold Bundle.read lengthValues
  dsimp only at h ⊢
  split at h
  · contradiction
  · split at h
    · contradiction
    · rename_i hobj htitle
      rw [if_neg hobj, if_neg htitle]
      cases hpages : ((data.get "body").get "pages").arr? with
      | none =>
          rw [hpages] at h
          contradiction
      | some raw =>
          rw [hpages] at h
          dsimp only at h
          have hraw : raw.filter hasBody ≠ [] := by
            intro hempty
            rw [hempty] at h
            contradiction
          let fits := ∀ value ∈ Layout.lengthValues (data.get "layout"), Fits value
          refine (ReadIf.bind (d := fits) (.mapM readIf_page _) fun pages hread => ?_).congr ?_
          · have hpages : ¬ pages.isEmpty = true := by
              rw [List.isEmpty_iff]
              exact ne_nil_of_mapM hraw hread
            rw [if_neg hpages]
            exact ((readIf_layout _).bind fun layout _ => ReadIf.pure _).congr (and_iff_left trivial)
          · rw [List.forall_mem_append, List.forall_mem_flatMap]
            rfl

end Reading

section Parts

variable {s : Security}

theorem isOk_joinParts (parts : List (Recorded MarkupError Chars)) :
    (joinParts parts).value.isOk = parts.all fun part => part.value.isOk := by
  induction parts with
  | nil => rfl
  | cons part parts ih =>
      rw [joinParts, Logged.andThen, List.all_cons, ← ih]
      cases part.value with
      | error e => rfl
      | ok text => exact isOk_map _ _

theorem isOk_stripFragment (text : Chars) : (Resource.stripFragment text).isOk =
    (!Resource.mayLeave text || (Node.read text).isOk) := by
  rw [Resource.stripFragment]
  cases Resource.mayLeave text with
  | false => rfl
  | true => exact isOk_map _ _

theorem isOk_cleanPart_ok (s : Security) (text : Chars) : (cleanPart s (.ok text)).value.isOk =
    (!(!s.allowsExternal && Resource.mayLeave text) || (Node.read text).isOk) := by
  have hclean : (cleanPart s (.ok text)).value.isOk = (s.clean text).isOk := by
    rw [cleanPart, Except.bind]
    cases s.clean text <;> rfl
  rw [hclean, Security.clean, isOk_map]
  cases s.allowsExternal with
  | false => exact isOk_stripFragment text
  | true => rfl

/-- A part can be cleaned if its content, or its element if need be, can be read. -/
theorem isOk_cleanPart {content : Chars} {part : Except MarkupError Chars}
    (hpart : part.isOk = (Node.read content).isOk) :
    (cleanPart s part).value.isOk =
      (s.readings content part).all fun text => (Node.read text).isOk := by
  unfold Security.readings
  rw [List.all_cons, ← hpart]
  cases part with
  | error e => rfl
  | ok wrapped =>
      rw [isOk_cleanPart_ok]
      dsimp only
      cases !s.allowsExternal && Resource.mayLeave wrapped with
      | false => rfl
      | true => exact (Bool.and_true _).symm

theorem isOk_wrapBand (band : Band) (content : Chars) :
    (wrapBand band content).isOk = (Node.read content).isOk := by
  rw [wrapBand, isOk_map, hasTopLevel, isOk_map]

theorem isOk_wrapBody (content : Chars) : (wrapBody content).isOk = (Node.read content).isOk := by
  rw [wrapBody, isOk_map, hasTopLevel, isOk_map]

/-- An empty band is not read at all. -/
theorem isOk_bandPart (b : Bundle) (band : Band) (own : Option Chars) (shared : Chars) :
    (cleanPart b.security (bandPart band own shared)).value.isOk =
      (b.bandReadings band own shared).all fun text => (Node.read text).isOk := by
  unfold bandPart Bundle.bandReadings
  cases bandContent own shared with
  | some content => exact isOk_cleanPart (isOk_wrapBand band content)
  | none =>
      have hempty : Resource.mayLeave (enclose band.name [] []) = false := by
        cases band <;> decide
      rw [isOk_cleanPart_ok, hempty, Bool.and_false]
      rfl

theorem isOk_assemblePage (b : Bundle) (p : Page) : (assemblePage b p).value.isOk =
    (p.readings b).all fun text => (Node.read text).isOk := by
  have hband : ∀ (shows : Bool) (band : Band) (own : Option Chars) (shared : Chars),
      (if shows then [cleanPart b.security (bandPart band own shared)] else []).all
        (fun part => part.value.isOk) =
      (if shows then b.bandReadings band own shared else []).all
        fun text => (Node.read text).isOk := by
    intro shows band own shared
    cases shows with
    | false => rfl
    | true => exact (Bool.and_true _).trans (isOk_bandPart b band own shared)
  have hbody : [cleanPart b.security (wrapBody p.body)].all (fun part => part.value.isOk) =
      (b.security.readings p.body (wrapBody p.body)).all fun text => (Node.read text).isOk :=
    (Bool.and_true _).trans (isOk_cleanPart (isOk_wrapBody p.body))
  have hparts : (pageParts b p).all (fun part => part.value.isOk) =
      (p.readings b).all fun text => (Node.read text).isOk := by
    rw [pageParts, Page.readings, List.all_append, List.all_append, List.all_append,
      List.all_append, hband, hband, hbody]
  rw [← hparts, ← isOk_joinParts]
  exact isOk_map _ _

/-- A bundle is made a document if all that is read of its pages as markup can be read. -/
theorem isOk_compile (b : Bundle) : b.compile.value.isOk =
    b.pages.all fun p => (p.readings b).all fun text => (Node.read text).isOk := by
  have hpages : (assemblePages b).value.isOk =
      b.pages.all fun p => (p.readings b).all fun text => (Node.read text).isOk := by
    have hassembled : (assemblePages b).value.isOk =
        (b.pages.map (assemblePage b)).all fun part => part.value.isOk :=
      isOk_joinParts _
    rw [hassembled, List.all_map]
    congr 1
    funext p
    exact isOk_assemblePage b p
  rw [← hpages]
  exact isOk_map _ _

theorem isOk_compile_iff (b : Bundle) : b.compile.value.isOk ↔
    ∀ p ∈ b.pages, ∀ text ∈ p.readings b, (Node.read text).isOk := by
  rw [isOk_compile, List.all_eq_true]
  simp only [List.all_eq_true]

end Parts

section Acceptance

variable {b : Bundle} {content fragment : Chars}

theorem mem_readings {s : Security} {part : Except MarkupError Chars} {text : Chars}
    (h : text ∈ s.readings content part) : text = content ∨ part = .ok text := by
  unfold Security.readings at h
  rcases List.mem_cons.1 h with heq | hpart
  · exact Or.inl heq
  · split at hpart
    · rw [List.mem_ite_nil_right, List.mem_singleton] at hpart
      exact Or.inr (by rw [hpart.2])
    · contradiction

/-- A fragment in an element of a plain tag is acceptable if the fragment is. -/
theorem isAcceptable_enclose {name attrs : Chars} (hmark : name.head? ≠ some (.of '!'))
    (hne : name ≠ []) (hname : .of '<' ∉ name ∧ .of '&' ∉ name)
    (hattrs : .of '<' ∉ attrs ∧ .of '&' ∉ attrs)
    (h : Markup.isAcceptable content) : Markup.isAcceptable (enclose name attrs content) := by
  obtain ⟨c, rest, rfl⟩ := List.exists_cons_of_ne_nil hne
  have hend : Rune.of '<' ∉ [Rune.of '>'] ∧ Rune.of '&' ∉ [Rune.of '>'] := by decide
  have hslash : Rune.of '<' ∉ [Rune.of '/'] ∧ Rune.of '&' ∉ [Rune.of '/'] := by decide
  have hnil : Markup.isAcceptable [] := rfl
  have hlast := Markup.isAcceptable_append hname (Markup.isAcceptable_append hend hnil)
  have hclose := Markup.isAcceptable_angle (by decide) (Markup.isAcceptable_append hslash hlast)
  have hinside := Markup.isAcceptable_append_endTag h hclose
  have hopen := Markup.isAcceptable_append hname (Markup.isAcceptable_append hattrs
    (Markup.isAcceptable_append hend hinside))
  have hwhole := Markup.isAcceptable_angle (mt (congrArg some) hmark) hopen
  simpa [enclose] using hwhole

theorem isAcceptable_of_wrapBand {band : Band} {text : Chars} (h : Markup.isAcceptable content)
    (htext : wrapBand band content = .ok text) : Markup.isAcceptable text := by
  obtain ⟨has, -, rfl⟩ := exists_of_map_eq_ok htext
  cases has with
  | true => exact h
  | false =>
      cases band <;>
        exact isAcceptable_enclose (by decide) (by decide) (by decide) (by decide) h

theorem isAcceptable_of_wrapBody {text : Chars} (h : Markup.isAcceptable content)
    (htext : wrapBody content = .ok text) : Markup.isAcceptable text := by
  obtain ⟨has, -, rfl⟩ := exists_of_map_eq_ok htext
  cases has with
  | true => exact h
  | false => exact isAcceptable_enclose (by decide) (by decide) (by decide) (by decide) h

/-- What is read of a band is acceptable if its contents are. -/
theorem isAcceptable_of_mem_bandReadings {band : Band} {own : Option Chars} {shared text : Chars}
    (hown : ∀ fragment ∈ own, Markup.isAcceptable fragment) (hshared : Markup.isAcceptable shared)
    (htext : text ∈ b.bandReadings band own shared) : Markup.isAcceptable text := by
  unfold Bundle.bandReadings at htext
  split at htext
  · rename_i content hcontent
    have h : Markup.isAcceptable content := by
      unfold bandContent at hcontent
      split at hcontent
      · rename_i fragment hfragment
        obtain rfl := Option.some.inj hcontent
        exact hown _ (Option.mem_filter_iff.1 hfragment).1
      · rw [Option.ite_none_left_eq_some] at hcontent
        exact Option.some.inj hcontent.2 ▸ hshared
    rcases mem_readings htext with rfl | hwrapped
    · exact h
    · exact isAcceptable_of_wrapBand h hwrapped
  · contradiction

/-- What is read of a page is acceptable if the fragments of its bundle are. -/
theorem isAcceptable_of_mem_readings {p : Page} {text : Chars} (hp : p ∈ b.pages)
    (h : ∀ fragment ∈ b.fragments, Markup.isAcceptable fragment) (htext : text ∈ p.readings b) :
    Markup.isAcceptable text := by
  have hpage : ∀ fragment ∈ p.body :: (p.header.toList ++ p.footer.toList),
      Markup.isAcceptable fragment := fun fragment hfragment =>
    h fragment (List.mem_append_left _ (List.mem_flatMap.2 ⟨p, hp, hfragment⟩))
  have hheader : ∀ fragment ∈ p.header, Markup.isAcceptable fragment := fun fragment hfragment =>
    hpage fragment (by simp [Option.mem_def.1 hfragment])
  have hfooter : ∀ fragment ∈ p.footer, Markup.isAcceptable fragment := fun fragment hfragment =>
    hpage fragment (by simp [Option.mem_def.1 hfragment])
  have hshared : ∀ fragment ∈ [b.header, b.footer], Markup.isAcceptable fragment :=
    fun fragment hfragment => h fragment (List.mem_append_right _ hfragment)
  rw [Page.readings, List.mem_append, List.mem_append] at htext
  rcases htext with (htext | htext) | htext
  · rw [List.mem_ite_nil_right] at htext
    exact isAcceptable_of_mem_bandReadings hheader (hshared _ (by simp)) htext.2
  · rcases mem_readings htext with rfl | hwrapped
    · exact hpage _ List.mem_cons_self
    · exact isAcceptable_of_wrapBody (hpage _ List.mem_cons_self) hwrapped
  · rw [List.mem_ite_nil_right] at htext
    exact isAcceptable_of_mem_bandReadings hfooter (hshared _ (by simp)) htext.2

/-- A value is readable if its lengths are within the range, and no fragment has a marked section or
a reference by a number of too many digits. -/
theorem readable_of_isAcceptable {data : Json}
    (hlengths : ∀ value ∈ lengthValues data, Fits value)
    (hmarkup : ∀ b, Bundle.read data = .ok b →
      ∀ fragment ∈ b.fragments, Markup.isAcceptable fragment) : Readable data where
  lengths := hlengths
  markup b hb _ hp _ htext :=
    Markup.isOk_read_of_isAcceptable (isAcceptable_of_mem_readings hp (hmarkup b hb) htext)

end Acceptance

section Outcomes

variable {data : Json}

theorem compile_of_structureError {e : StructureError} (h : structureError? data = some e) :
    (compile data).value = .error (.normalize (.structural e)) := by
  rw [compile, read_of_structureError h]
  rfl

theorem compile_of_read {b : Bundle} (h : Bundle.read data = .ok b) :
    (∃ html, b.compile.value = .ok html ∧ (compile data).value = .ok html) ∨
    ∃ e, b.compile.value = .error e ∧ (compile data).value = .error (.markup e) := by
  rw [compile, h]
  dsimp only [Logged.andThen]
  cases b.compile.value with
  | ok html => exact Or.inl ⟨html, rfl, rfl⟩
  | error e => exact Or.inr ⟨e, rfl, rfl⟩

/-- A value of the right structure is made a document if it is readable; if it is not, an error
other than one about the structure is left. -/
theorem compile_of_structure (h : structureError? data = none) :
    (Readable data → ∃ html, (compile data).value = .ok html) ∧
    (¬Readable data → ∃ e, (compile data).value = .error e ∧
      ∀ structural, e ≠ .normalize (.structural structural)) := by
  have hbundle := readIf_bundle h
  by_cases hlengths : ∀ value ∈ lengthValues data, Fits value
  · obtain ⟨b, hb⟩ := hbundle.ok hlengths
    have hmarkup : Readable data ↔ b.compile.value.isOk := by
      rw [isOk_compile_iff]
      constructor
      · exact fun hreadable => hreadable.markup b hb
      · intro hall
        refine ⟨hlengths, fun b' hb' => ?_⟩
        obtain rfl := Except.ok.inj (hb.symm.trans hb')
        exact hall
    rw [hmarkup]
    rcases compile_of_read hb with ⟨html, hvalue, hcompile⟩ | ⟨e, hvalue, hcompile⟩
    · rw [hvalue]
      exact ⟨fun _ => ⟨html, hcompile⟩, fun hnot => absurd rfl hnot⟩
    · rw [hvalue]
      exact ⟨fun hok => absurd hok Bool.false_ne_true, fun _ => ⟨_, hcompile, by simp⟩⟩
  · have hvalue : (compile data).value = .error (.normalize (.numeral .tooLarge)) := by
      rw [compile, hbundle.error hlengths]
      rfl
    exact ⟨fun hreadable => absurd hreadable.lengths hlengths, fun _ => ⟨_, hvalue, by simp⟩⟩

end Outcomes

end Folio.Document
