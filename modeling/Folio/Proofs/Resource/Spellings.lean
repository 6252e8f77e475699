import Folio.Document.Head
import Folio.Proofs.Resource.Candidates
import Folio.Proofs.Resource.LeftAddresses

/-!
The other spellings of an external address. A browser takes away controls and line ends before it
reads an address, and asks neither for slashes after a scheme nor for one kind of them: it is told
which addresses that lead away are taken for external ones, and which of them stay.
-/
namespace Folio.Resource

open Markup (Node elements)

section Browser

/-- A character that is taken away at the two ends of an address: a control, or a space. -/
def isEdge (c : Rune) : Bool := c.toNat ≤ 32

/-- A character that is taken away anywhere in an address: a tab, or the end of a line. -/
def isGap (c : Rune) : Bool := c == '\t' || c == '\n' || c == '\r'

/-- The address as a browser reads it. -/
def bareUrl (url : Chars) : Chars :=
  (Text.dropEnd isEdge (url.dropWhile isEdge)).filter fun c => !isGap c

/-- Either slash stands before a host. -/
def isSlash (c : Rune) : Bool := c == '/' || c == '\\'

/-- Two slashes begin the text. -/
def beginsWithSlashes : Chars → Bool
  | c :: d :: _ => isSlash c && isSlash d
  | _ => false

/-- A browser leaves the document: for the scheme of a web address, or for a host. -/
def leadsAway (url : Chars) : Bool :=
  let u := Text.lowerAscii (bareUrl url)
  "http:".runes.isPrefixOf u || "https:".runes.isPrefixOf u || beginsWithSlashes u

/-- The address is spelled out: only blanks are taken away before it, its two slashes follow at
once, and nothing is taken away between its first characters. -/
structure IsSpelledOut (url : Chars) : Prop where
  blanks : ∀ c ∈ url.takeWhile isEdge, Text.isBlank c
  word : ∃ word ∈ outsideWords, word <+: Text.lowerAscii (bareUrl url) ∧
    ∀ c ∈ (url.dropWhile isEdge).take word.length, isGap c = false

instance (url : Chars) : Decidable (IsSpelledOut url) :=
  decidable_of_iff ((url.takeWhile isEdge).all Text.isBlank ∧
      ∃ word ∈ outsideWords, word <+: Text.lowerAscii (bareUrl url) ∧
        ((url.dropWhile isEdge).take word.length).all fun c => !isGap c)
    (by
      simp only [List.all_eq_true, Bool.not_eq_true']
      exact ⟨fun ⟨hblanks, hword⟩ => ⟨hblanks, hword⟩, fun h => ⟨h.blanks, h.word⟩⟩)

end Browser

section Letters

variable {c d : Rune} {s word : Chars}

/-- Beyond ASCII only two characters are lowered to a letter of it. -/
theorem ascii_of_mem_lowerAlone (hc : 128 ≤ c.toNat) (hd : d ∈ Text.lowerAlone c)
    (hascii : d.toNat < 128) : d = 'i' ∨ d = 'k' := by
  obtain ⟨e, he, rfl⟩ := List.mem_map.1 hd
  have hsettle : Text.settleSigma e = e := by
    refine Text.settleSigma_eq_self fun hsigma => ?_
    rw [hsigma] at hascii
    exact absurd hascii (by decide)
  rw [hsettle] at hascii ⊢
  split at he
  · rw [List.mem_singleton.1 he] at hascii
    exact absurd hascii (by decide)
  · rw [Text.lowerChar, if_neg (by omega)] at he
    split at he
    · have hall : ∀ e ∈ [Rune.of 'i', .of '\u0307'], e.toNat < 128 → e = 'i' :=
        List.forall_mem_cons.2 ⟨fun _ => rfl, List.forall_mem_singleton.2 (by decide)⟩
      exact Or.inl (hall e he hascii)
    · split at he
      · rename_i n happly
        obtain ⟨r, hr, hlow, hhigh, -⟩ := Text.exists_run_of_apply? happly
        have hsound := Text.sound_lowerRuns r hr
        rw [List.mem_singleton.1 he] at hascii ⊢
        rw [Text.CaseRun.toNat_image hsound hlow hhigh] at hascii
        simp only [Text.CaseRun.sound, Bool.and_eq_true, Bool.or_eq_true, decide_eq_true_eq,
          beq_iff_eq] at hsound
        obtain rfl : n = 107 := by omega
        exact Or.inr rfl
      · rw [List.mem_singleton.1 he] at hascii
        omega

theorem lowerAlone_of_ascii (hc : c.toNat < 128) : Text.lowerAlone c = [c.toLower] :=
  Text.ascii_forall (P := fun c => Text.lowerAlone c = [c.toLower]) (by decide +kernel) hc

/-- The characters that the beginnings of external addresses are made of: in ASCII, and none that
a character beyond it is lowered to. -/
theorem letters_outsideWords : ∀ word ∈ outsideWords, ∀ d ∈ word,
    d.toNat < 128 ∧ 32 < d.toNat ∧ d ≠ 'i' ∧ d ≠ 'k' := by
  have hall : ∀ word ∈ outsideWords, word.all fun d =>
      decide (d.toNat < 128 ∧ 32 < d.toNat ∧ d ≠ 'i' ∧ d ≠ 'k') := by
    decide
  exact fun word hword d hd => of_decide_eq_true (List.all_eq_true.1 (hall word hword) d hd)

/-- The beginning of an external address is told letter by letter. -/
theorem prefix_flatMap_lowerAlone_iff (hword : ∀ d ∈ word, d.toNat < 128 ∧ d ≠ 'i' ∧ d ≠ 'k') :
    word <+: s.flatMap Text.lowerAlone ↔ word <+: Text.lowerAscii s := by
  induction word generalizing s with
  | nil => simp
  | cons d word ih =>
      obtain ⟨⟨hascii, hi, hk⟩, hlater⟩ := List.forall_mem_cons.1 hword
      cases s with
      | nil => rfl
      | cons c s =>
          rw [List.flatMap_cons, Text.lowerAscii, List.map_cons, List.cons_prefix_cons]
          by_cases hc : c.toNat < 128
          · rw [lowerAlone_of_ascii hc, List.singleton_append, List.cons_prefix_cons, ih hlater]
            rfl
          · have hbeyond := Nat.not_lt.1 hc
            constructor
            · intro h
              obtain ⟨e, image, himage⟩ := List.exists_cons_of_ne_nil (Text.lowerAlone_ne_nil c)
              rw [himage, List.cons_append, List.cons_prefix_cons] at h
              have hmem : d ∈ Text.lowerAlone c := by simp [himage, h.1]
              exact absurd (ascii_of_mem_lowerAlone hbeyond hmem hascii) (not_or.2 ⟨hi, hk⟩)
            · rintro ⟨rfl, -⟩
              rw [Text.toLower_of_not_ascii (Nat.not_lt.2 hbeyond)] at hascii
              exact absurd hascii hc

theorem isExternal_iff_exists_word :
    isExternal s ↔ ∃ word ∈ outsideWords, word <+: Text.lowerAscii (Text.trimLeft s) := by
  rw [isExternal_iff, BeginsOutside]
  refine exists_congr fun word => and_congr_right fun hword => ?_
  refine prefix_flatMap_lowerAlone_iff fun d hd => ?_
  obtain ⟨hascii, -, hletters⟩ := letters_outsideWords word hword d hd
  exact ⟨hascii, hletters⟩

/-- What a browser takes away is part of no word. -/
theorem not_isEdge_of_toLower (hword : word ∈ outsideWords) (h : c.toLower ∈ word) :
    isEdge c = false := by
  have hsame : ∀ n ∈ List.range 33, (Rune.ofNat n).toLower.toNat ≤ 32 := by decide
  have hbound := (letters_outsideWords word hword _ h).2.1
  rw [isEdge, decide_eq_false_iff_not]
  intro hedge
  have hlow := Text.below_forall (P := fun c => c.toLower.toNat ≤ 32) hsame (by omega : c.toNat < 33)
  omega

theorem isEdge_of_isGap (h : isGap c) : isEdge c := by
  simp only [isGap, Bool.or_eq_true, beq_iff_eq] at h
  rcases h with (rfl | rfl) | rfl <;> decide

end Letters

section Spellings

variable {url word : Chars}

/-- Only what stands after a character that stays is taken away at the end. -/
theorem dropEnd_append_cons {p : Rune → Bool} {c : Rune} (hc : p c = false) (s t : Chars) :
    Text.dropEnd p (s ++ c :: t) = s ++ c :: Text.dropEnd p t := by
  rw [Text.dropEnd, Text.dropEnd, List.reverse_append, List.reverse_cons, List.append_assoc,
    List.singleton_append, Text.dropWhile_append_of_neg hc, List.reverse_append,
    List.reverse_cons, List.reverse_reverse, List.append_assoc, List.singleton_append]

theorem filter_gaps_eq_self {s : Chars} (h : ∀ c ∈ s, isGap c = false) :
    s.filter (fun c => !isGap c) = s :=
  List.filter_eq_self.2 fun c hc => by rw [h c hc]; rfl

/-- Where nothing is taken away between the first characters, they are the first of what is left. -/
theorem prefix_of_prefix_kept {body : Chars}
    (hbegins : word <+: Text.lowerAscii ((Text.dropEnd isEdge body).filter fun c => !isGap c))
    (hgaps : ∀ c ∈ body.take word.length, isGap c = false) : word <+: Text.lowerAscii body := by
  obtain ⟨tail, htail⟩ := Text.prefix_dropEnd isEdge body
  have hmid : (Text.dropEnd isEdge body).take word.length <+: body.take word.length := by
    nth_rewrite 2 [← htail]
    rw [List.take_append]
    exact List.prefix_append _ _
  have hkept := filter_gaps_eq_self fun c hc => hgaps c (hmid.subset hc)
  rw [← List.take_append_drop word.length (Text.dropEnd isEdge body), List.filter_append,
    hkept, Text.lowerAscii, List.map_append] at hbegins
  have hfirst : word <+: ((Text.dropEnd isEdge body).take word.length).map Rune.toLower := by
    rcases Nat.le_total word.length (Text.dropEnd isEdge body).length with hlong | hshort
    · refine List.prefix_of_prefix_length_le hbegins (List.prefix_append _ _) ?_
      rw [List.length_map, List.length_take, Nat.min_eq_left hlong]
    · rwa [List.drop_eq_nil_of_le hshort, List.filter_nil, List.map_nil, List.append_nil] at hbegins
  exact hfirst.trans ((hmid.trans (List.take_prefix _ _)).map Rune.toLower)

/-- The first characters of an external address are none that is taken away. -/
theorem not_isEdge_of_prefix {first : Chars} (hword : word ∈ outsideWords)
    (hfirst : first.map Rune.toLower = word) : ∀ c ∈ first, isEdge c = false ∧ isGap c = false := by
  intro c hc
  have hedge := not_isEdge_of_toLower hword (hfirst ▸ List.mem_map_of_mem hc)
  refine ⟨hedge, Bool.eq_false_iff.2 fun hgap => ?_⟩
  rw [isEdge_of_isGap hgap] at hedge
  contradiction

theorem prefix_kept_of_prefix {body : Chars} (hword : word ∈ outsideWords)
    (h : word <+: Text.lowerAscii body) :
    word <+: Text.lowerAscii ((Text.dropEnd isEdge body).filter fun c => !isGap c) ∧
      ∀ c ∈ body.take word.length, isGap c = false := by
  obtain ⟨more, heq⟩ := h
  obtain ⟨first, rest, rfl, hfirst, -⟩ := List.map_eq_append_iff.1 heq.symm
  have hnone := not_isEdge_of_prefix hword hfirst
  have hlength : first.length = word.length := by rw [← hfirst, List.length_map]
  have hne : first ≠ [] := by
    rintro rfl
    rw [List.map_nil] at hfirst
    rw [← hfirst] at hword
    exact absurd hword (by decide)
  have hends : Text.dropEnd isEdge (first ++ rest) = first ++ Text.dropEnd isEdge rest := by
    obtain ⟨front, c, rfl⟩ := (List.eq_nil_or_concat first).resolve_left hne
    rw [List.concat_eq_append, List.append_assoc, List.append_assoc]
    exact dropEnd_append_cons (hnone c (by simp)).1 front rest
  refine ⟨?_, ?_⟩
  · rw [hends, List.filter_append, filter_gaps_eq_self fun c hc => (hnone c hc).2, Text.lowerAscii,
      List.map_append, hfirst]
    exact List.prefix_append _ _
  · rw [← hlength, List.take_left]
    exact fun c hc => (hnone c hc).2

/-- Where nothing is taken away between the first characters, they are the first of what is left,
and the other way round. -/
theorem prefix_bareUrl_iff (hword : word ∈ outsideWords) :
    (word <+: Text.lowerAscii (bareUrl url) ∧
        ∀ c ∈ (url.dropWhile isEdge).take word.length, isGap c = false) ↔
      word <+: Text.lowerAscii (url.dropWhile isEdge) :=
  ⟨fun ⟨hbegins, hgaps⟩ => prefix_of_prefix_kept hbegins hgaps, prefix_kept_of_prefix hword⟩

theorem isSpelledOut_iff : IsSpelledOut url ↔ (∀ c ∈ url.takeWhile isEdge, Text.isBlank c) ∧
    ∃ word ∈ outsideWords, word <+: Text.lowerAscii (url.dropWhile isEdge) := by
  constructor
  · rintro ⟨hblanks, word, hword, hspelled⟩
    exact ⟨hblanks, word, hword, (prefix_bareUrl_iff hword).1 hspelled⟩
  · rintro ⟨hblanks, word, hword, hbegins⟩
    exact ⟨hblanks, word, hword, (prefix_bareUrl_iff hword).2 hbegins⟩

/-- An address that leads away begins, after what is taken away, with no blank. -/
theorem trimLeft_of_leadsAway (h : leadsAway url) :
    Text.trimLeft (url.dropWhile isEdge) = url.dropWhile isEdge := by
  refine Text.dropWhile_eq_self fun c hc => ?_
  have hedge := Text.not_head_dropWhile isEdge url c hc
  obtain ⟨rest, hbody⟩ := List.head?_eq_some_iff.1 hc
  have hgap : isGap c = false := by
    rw [Bool.eq_false_iff]
    intro hgap
    rw [isEdge_of_isGap hgap] at hedge
    contradiction
  obtain ⟨more, hmore⟩ : ∃ more, bareUrl url = c :: more := by
    have hends := dropEnd_append_cons hedge [] rest
    rw [List.nil_append, List.nil_append] at hends
    rw [bareUrl, hbody, hends, List.filter_cons_of_pos (by rw [hgap]; rfl)]
    exact ⟨_, rfl⟩
  have hfirst : c.toLower = 'h' ∨ isSlash c.toLower := by
    rw [leadsAway, hmore, Text.lowerAscii, List.map_cons] at h
    simp only [Bool.or_eq_true, List.isPrefixOf_iff_prefix] at h
    rcases h with (hhttp | hhttps) | hslashes
    · exact Or.inl (List.cons_prefix_cons.1 hhttp).1.symm
    · exact Or.inl (List.cons_prefix_cons.1 hhttps).1.symm
    · cases hmap : more.map Rune.toLower with
      | nil =>
          rw [hmap] at hslashes
          exact absurd hslashes Bool.false_ne_true
      | cons d more =>
          rw [hmap, beginsWithSlashes, Bool.and_eq_true] at hslashes
          exact Or.inr hslashes.1
  rw [Bool.eq_false_iff]
  intro hblank
  have hother : c.toLower ≠ 'h' ∧ ¬ isSlash c.toLower :=
    Text.blank_forall (P := fun c => c.toLower ≠ .of 'h' ∧ ¬ isSlash c.toLower) (by decide) hblank
  exact hfirst.elim hother.1 hother.2

/-- Before an external address only blanks are taken away. -/
theorem blanks_of_isExternal (h : isExternal url) :
    ∀ c ∈ url.takeWhile isEdge, Text.isBlank c := by
  obtain ⟨word, hword, hbegins⟩ := isExternal_iff_exists_word.1 h
  rw [← List.takeWhile_append_dropWhile (p := isEdge) (l := url), Text.trimLeft,
    List.dropWhile_append] at hbegins
  split at hbegins
  · rename_i hempty
    exact List.dropWhile_eq_nil_iff.1 (List.isEmpty_iff.1 hempty)
  · rename_i hne
    exfalso
    cases hlead : (url.takeWhile isEdge).dropWhile Text.isBlank with
    | nil =>
        rw [hlead] at hne
        exact hne rfl
    | cons c lead =>
        have hedge : isEdge c :=
          List.mem_takeWhile_imp ((List.dropWhile_suffix _).subset (hlead ▸ List.mem_cons_self))
        rw [hlead, List.cons_append, Text.lowerAscii, List.map_cons] at hbegins
        cases word with
        | nil => exact absurd hword (by decide)
        | cons d word =>
            have hletter : c.toLower ∈ d :: word :=
              (List.cons_prefix_cons.1 hbegins).1 ▸ List.mem_cons_self
            rw [not_isEdge_of_toLower hword hletter] at hedge
            contradiction

/-- Of the addresses that lead away, the ones that are spelled out are told. -/
theorem isExternal_iff_isSpelledOut (h : leadsAway url) : isExternal url ↔ IsSpelledOut url := by
  have htrim (hblanks : ∀ c ∈ url.takeWhile isEdge, Text.isBlank c) :
      Text.trimLeft url = url.dropWhile isEdge := by
    rw [← trimLeft_of_leadsAway h, ← List.takeWhile_append_dropWhile (p := isEdge) (l := url),
      Text.trimLeft, List.dropWhile_append_of_pos hblanks,
      List.takeWhile_append_dropWhile]
    rfl
  rw [isSpelledOut_iff]
  constructor
  · intro hexternal
    have hblanks := blanks_of_isExternal hexternal
    rw [isExternal_iff_exists_word, htrim hblanks] at hexternal
    exact ⟨hblanks, hexternal⟩
  · rintro ⟨hblanks, hword⟩
    rwa [isExternal_iff_exists_word, htrim hblanks]

end Spellings

section Uses

variable {name value html : Chars} {e : Markup.Element} {nodes : List Node}

/-- An attribute that holds an address and stays holds none that is told. -/
theorem not_isExternal_of_stays (hname : name ∈ urlAttributes)
    (h : isExternalAttribute name value = false) : isExternal value = false := by
  rw [isExternalAttribute, List.contains_iff_mem.2 hname, Bool.true_and] at h
  split at h
  · rw [Bool.eq_false_iff] at h ⊢
    exact fun hexternal => h (hasExternalCandidate_of_isExternal hexternal)
  · exact h

/-- The tree of a stripped fragment. -/
def leftNodes (nodes : List Node) : List Node :=
  if anyTainted nodes then stripNodes nodes else nodes

theorem not_external_of_mem_leftNodes (he : e ∈ elements (leftNodes nodes))
    (hmem : (name, value) ∈ e.attrs) : isExternalAttribute name value = false := by
  rw [leftNodes] at he
  split at he
  · obtain ⟨e', -, -, hattrs⟩ := exists_of_mem_stripNodes nodes e he
    exact not_external_of_mem_stripAttributes (hattrs ▸ hmem)
  · rename_i hclean
    rw [anyTainted_eq, List.any_eq_true] at hclean
    rw [Bool.eq_false_iff]
    exact fun hexternal => hclean ⟨e, he, taints_iff.2 (Or.inl ⟨_, hmem, Or.inl hexternal⟩)⟩

/-- A fragment is stripped by way of its tree, where the guard sees what there is to strip. -/
theorem stripFragment_of_read (hread : Node.read html = .ok nodes)
    (hseen : mayLeave html ∨ .of '&' ∉ html) : stripFragment html =
      .ok (if anyTainted nodes then Node.writeAll (leftNodes nodes) else html) := by
  rw [leftNodes]
  cases htainted : anyTainted nodes with
  | false => exact stripFragment_of_not_tainted hread htainted
  | true =>
      refine stripFragment_of_tainted hread ?_ htainted
      by_contra hnot
      obtain ⟨events, -, hevents, -⟩ := Markup.exists_events_of_read hread
      obtain ⟨tag, htag, hreveals⟩ := (anyTainted_iff_reveals hread hevents hnot).1 htainted
      exact not_reveals_of_not_mem hevents (hseen.resolve_left hnot) tag htag hreveals

end Uses

end Folio.Resource

namespace Folio.Document

open Resource (leadsAway IsSpelledOut)

variable {r : ResourceRef} {refs : List ResourceRef}

theorem mem_localRefs_iff (hkind : r.kind = .reference) (areStyles : Bool) :
    r ∈ (localRefs areStyles refs).value ↔ r ∈ refs ∧ r.isExternal = false := by
  have hsame (a : ResourceRef) (hne : a.kind ≠ .inline) : a.stripped = a :=
    if_neg fun hinline => hne (eq_of_beq hinline)
  have hstays : (if areStyles then r.stripped else r) = r := by
    rw [hsame r (by rw [hkind]; decide), ite_self]
  rw [localRefs, List.mem_map]
  constructor
  · rintro ⟨a, ha, rfl⟩
    have hplain : (if areStyles then a.stripped else a) = a := by
      split
      · rename_i hstyles
        rw [if_pos hstyles] at hkind
        refine hsame a fun hinline => ?_
        rw [ResourceRef.stripped, hinline] at hkind
        exact absurd hkind (by simp)
      · rfl
    rw [hplain]
    simpa using ha
  · rintro ⟨hr, hinside⟩
    exact ⟨r, List.mem_filter.2 ⟨hr, by rw [hinside]; rfl⟩, hstays⟩

/-- An address by which a browser leaves the document is told if and only if it is spelled out. So a
reference to it stays if and only if it is spelled in another way, and where it is left in the tree
of a stripped fragment it is not spelled out. -/
theorem leadsAway_of_left {url : Chars} (haway : leadsAway url) :
    (Resource.isExternal url ↔ IsSpelledOut url) ∧
    (∀ areStyles refs, ∀ r ∈ refs, r.kind = .reference → r.url = some url →
      (r ∈ (localRefs areStyles refs).value ↔ ¬ IsSpelledOut url)) ∧
    ∀ html nodes, Markup.Node.read html = .ok nodes →
      Resource.mayLeave html ∨ .of '&' ∉ html →
      Resource.stripFragment html = .ok (if Resource.anyTainted nodes then
        Markup.Node.writeAll (Resource.leftNodes nodes) else html) ∧
      ∀ e ∈ Markup.elements (Resource.leftNodes nodes), ∀ name ∈ Resource.urlAttributes,
        (name, url) ∈ e.attrs → ¬ IsSpelledOut url := by
  have htold := Resource.isExternal_iff_isSpelledOut haway
  refine ⟨htold, ?_, ?_⟩
  · intro areStyles refs r hr hkind hurl
    rw [mem_localRefs_iff hkind, ← htold, ResourceRef.isExternal, hkind, hurl]
    simp [hr]
  · intro html nodes hread hseen
    refine ⟨Resource.stripFragment_of_read hread hseen, ?_⟩
    intro e he name hname hmem hspelled
    have hstays := Resource.not_external_of_mem_leftNodes he hmem
    have htaken := htold.2 hspelled
    rw [Resource.not_isExternal_of_stays hname hstays] at htaken
    contradiction

/-- A script by an address with one slash. -/
def oneSlashScript : ResourceRef := ⟨.reference, none, some "https:/evil.example/x.js".runes⟩

/-- A link with one slash around an image from outside. -/
def oneSlashFragment : Chars :=
  "<a href=\"https:/evil.example/\"><img src=\"//evil.example/x.png\"></a>".runes

def oneSlashTree : List Markup.Node := [
  .element "a".runes [("href".runes, "https:/evil.example/".runes)]
    [.element "img".runes [("src".runes, "//evil.example/x.png".runes)] []]]

/-- An address that is spelled out is told after a line end; one with one slash stays. -/
theorem leadsAway_of_left_oneSlash :
    Resource.isExternal "\n HTTPS://evil.example/".runes ∧
      oneSlashScript ∈ (localRefs false [oneSlashScript]).value ∧
      Resource.stripFragment oneSlashFragment = .ok (Markup.Node.writeAll
        [.element "a".runes [("href".runes, "https:/evil.example/".runes)]
          [.element "img".runes [] []]]) := by
  obtain ⟨htold, -, -⟩ : (Resource.isExternal "\n HTTPS://evil.example/".runes ↔ _) ∧ _ :=
    leadsAway_of_left (by decide +kernel)
  obtain ⟨-, hrefs, hfragments⟩ : (Resource.isExternal "https:/evil.example/x.js".runes ↔ _) ∧ _ :=
    leadsAway_of_left (by decide +kernel)
  refine ⟨htold.2 (by decide +kernel), ?_, ?_⟩
  · exact (hrefs false [oneSlashScript] oneSlashScript (by decide) rfl rfl).2 (by decide +kernel)
  · exact (hfragments oneSlashFragment oneSlashTree (by rfl) (Or.inl (by decide +kernel))).1

/-- A browser goes to the host after a scheme with one slash, too. -/
theorem not_isExternal_of_every_leadsAway :
    ¬ ∀ url, leadsAway url → Resource.isExternal url := by
  intro hall
  have htold := hall "https:/evil.example/x.png".runes (by decide +kernel)
  exact absurd htold (by decide +kernel)

end Folio.Document
