import Folio.Print.Options
import Folio.Proofs.Entries

/-!
What becomes of the options of a request. Every key sets a field, is handed on to the browser under
its own name for it, or is warned about. What is handed on comes after what the fields make, under
other names, so that neither takes the place of the other.
-/
namespace Folio.Print

section Keys

variable {key other name : Chars}

theorem fieldKeys_disjoint : ∀ e ∈ passedKeys, e.1 ∉ fieldKeys := by decide +kernel

theorem nodup_passedKeys : (passedKeys.map Prod.fst).Nodup := by decide +kernel

/-- No two keys are handed on under one name. -/
theorem passedKeys_inj : ∀ e ∈ passedKeys, ∀ e' ∈ passedKeys, e.2 = e'.2 → e.1 = e'.1 := by
  decide +kernel

theorem ofKey_eq_field_iff : KeyKind.ofKey key = .field ↔ key ∈ fieldKeys := by
  unfold KeyKind.ofKey
  by_cases hfield : key ∈ fieldKeys
  · simp [hfield]
  · simp only [List.contains_iff_mem, hfield, if_false, iff_false]
    split <;> simp

theorem ofKey_eq_passed_iff : KeyKind.ofKey key = .passed name ↔ (key, name) ∈ passedKeys := by
  unfold KeyKind.ofKey
  rw [← Entries.lookup_eq_some_iff nodup_passedKeys]
  by_cases hfield : key ∈ fieldKeys
  · have hnone : passedKeys.lookup key ≠ some name := fun hmem =>
      fieldKeys_disjoint _ ((Entries.lookup_eq_some_iff nodup_passedKeys).1 hmem) hfield
    simp [hfield, hnone]
  · simp only [List.contains_iff_mem, hfield, if_false]
    split <;> simp [*]

theorem ofKey_eq_unsupported_iff : KeyKind.ofKey key = .unsupported ↔
    key ∉ fieldKeys ∧ key ∉ passedKeys.map Prod.fst := by
  rw [← ofKey_eq_field_iff, List.mem_map]
  constructor
  · intro h
    refine ⟨by simp [h], ?_⟩
    rintro ⟨e, he, rfl⟩
    have hpassed := ofKey_eq_passed_iff.2 he
    rw [h] at hpassed
    contradiction
  · rintro ⟨hfield, hpassed⟩
    cases h : KeyKind.ofKey key with
    | field => exact absurd h hfield
    | passed name => exact absurd ⟨_, ofKey_eq_passed_iff.1 h, rfl⟩ hpassed
    | unsupported => rfl

end Keys

/-- The fields of some options are set by the entries under their keys, and by nothing else. -/
structure Options.SetBy (o : Options) (raw : List (Chars × Json)) : Prop where
  format (value : Json) : o.format = some value ↔ ("format".runes, value) ∈ raw ∧ value.holds
  landscape : o.landscape ↔ ∃ value, ("landscape".runes, value) ∈ raw ∧ value.holds
  scale (value : Json) : ("scale".runes, value) ∈ raw → value.holds → readScale value = .ok o.scale
  scaleOne : (∀ value, ("scale".runes, value) ∈ raw → ¬ value.holds) → o.scale = .ofInt 1
  margin (sides : List (Chars × Json)) : o.margin = some sides ↔ ("margin".runes, .obj sides) ∈ raw
  printsBackground : o.printsBackground = false ↔ ("printBackground".runes, .bool false) ∈ raw
  prefersSheetSize (value : Json) :
    o.prefersSheetSize = some value ↔ ("preferCSSPageSize".runes, value) ∈ raw ∧ value ≠ .null
  compresses : o.compresses ↔ ∃ value, ("compress".runes, value) ∈ raw ∧ value.holds

section Values

variable {raw : List (Chars × Json)} {key : Chars} {value : Json}

theorem isNull_iff : value.isNull ↔ value = .null := by
  cases value <;> simp [Json.isNull]

theorem isFalse_iff : value.isFalse ↔ value = .bool false := by
  cases value with
  | bool b => cases b <;> simp [Json.isFalse]
  | _ => simp [Json.isFalse]

theorem holding?_eq_some_iff {j : Json} : holding? j = some value ↔ j.holds ∧ j = value := by
  unfold holding?
  split <;> simp [*]

theorem present?_eq_some_iff {j : Json} : present? j = some value ↔ j ≠ .null ∧ j = value := by
  unfold present?
  rw [ne_eq, ← isNull_iff]
  split <;> simp [*]

theorem ne_null_of_holds (h : value.holds) : value ≠ .null := by
  rintro rfl
  contradiction

theorem readScale_of_not_holds (h : ¬ value.holds) : readScale value = .ok (.ofInt 1) := by
  unfold readScale
  rw [if_pos (by simp [h])]

/-- What holds of the value of a key, and not of `null`, holds of the value of an entry. -/
theorem get_iff (hkeys : (raw.map Prod.fst).Nodup) {P : Json → Prop} (hnull : ¬ P .null) :
    P ((Json.obj raw).get key) ↔ ∃ value, (key, value) ∈ raw ∧ P value := by
  have hget : (Json.obj raw).get key = (raw.lookup key).getD .null := rfl
  cases hlookup : raw.lookup key with
  | none =>
      rw [hget, hlookup]
      refine ⟨fun h => absurd h hnull, ?_⟩
      rintro ⟨value, hmem, -⟩
      rw [(Entries.lookup_eq_some_iff hkeys).2 hmem] at hlookup
      contradiction
  | some found =>
      rw [hget, hlookup]
      refine ⟨fun h => ⟨found, (Entries.lookup_eq_some_iff hkeys).1 hlookup, h⟩, ?_⟩
      rintro ⟨value, hmem, hvalue⟩
      rw [(Entries.lookup_eq_some_iff hkeys).2 hmem] at hlookup
      exact Option.some.inj hlookup ▸ hvalue

theorem get_eq_iff (hkeys : (raw.map Prod.fst).Nodup) (hvalue : value ≠ .null) :
    (Json.obj raw).get key = value ↔ (key, value) ∈ raw := by
  rw [get_iff hkeys (P := (· = value)) hvalue.symm]
  exact exists_eq_right

theorem get_holds_iff (hkeys : (raw.map Prod.fst).Nodup) :
    ((Json.obj raw).get key).holds ↔ ∃ value, (key, value) ∈ raw ∧ value.holds :=
  get_iff hkeys (P := fun j => j.holds = true) nofun

/-- The options that are read, if the scale is one. -/
theorem exists_of_read {o : Options} {records : List Record}
    (h : Options.read raw = ⟨.ok o, records⟩) :
    ∃ scale, readScale ((Json.obj raw).get "scale") = .ok scale ∧
      o = { format := holding? ((Json.obj raw).get "format")
            landscape := ((Json.obj raw).get "landscape").holds
            scale
            margin := if ((Json.obj raw).get "margin").isObj then
              some ((Json.obj raw).get "margin").entries else none
            printsBackground := !((Json.obj raw).get "printBackground").isFalse
            prefersSheetSize := present? ((Json.obj raw).get "preferCSSPageSize")
            compresses := ((Json.obj raw).get "compress").holds
            extra := Options.passed raw } ∧
      records = if (Options.ignored raw).isEmpty then []
        else [Options.warning (Options.ignored raw)] := by
  unfold Options.read at h
  dsimp only at h
  split at h
  · simp [Logged.quiet] at h
  · rename_i scale hscale
    obtain ⟨hvalue, rfl⟩ := Logged.mk.inj h
    exact ⟨scale, hscale, (Except.ok.inj hvalue).symm, rfl⟩

theorem setBy_of_read {o : Options} {records : List Record} (hkeys : (raw.map Prod.fst).Nodup)
    (h : Options.read raw = ⟨.ok o, records⟩) : o.SetBy raw := by
  obtain ⟨scale, hscale, rfl, -⟩ := exists_of_read h
  exact {
    format := fun value => by
      rw [holding?_eq_some_iff]
      constructor
      · rintro ⟨hholds, rfl⟩
        exact ⟨(get_eq_iff hkeys (ne_null_of_holds hholds)).1 rfl, hholds⟩
      · rintro ⟨hmem, hholds⟩
        rw [(get_eq_iff hkeys (ne_null_of_holds hholds)).2 hmem]
        exact ⟨hholds, rfl⟩
    landscape := get_holds_iff hkeys
    scale := fun value hmem hholds => by
      rw [← hscale, (get_eq_iff hkeys (ne_null_of_holds hholds)).2 hmem]
    scaleOne := fun hnone => by
      have hempty : ¬ ((Json.obj raw).get "scale").holds := fun hholds => by
        obtain ⟨value, hmem, hvalue⟩ := (get_holds_iff hkeys).1 hholds
        exact hnone value hmem hvalue
      exact (Except.ok.inj ((readScale_of_not_holds hempty).symm.trans hscale)).symm
    margin := fun sides => by
      rw [← get_eq_iff hkeys (by simp)]
      cases (Json.obj raw).get "margin" <;> simp [Json.isObj, Json.entries]
    printsBackground := by
      rw [Bool.not_eq_false', isFalse_iff, get_eq_iff hkeys (by simp)]
    prefersSheetSize := fun value => by
      rw [present?_eq_some_iff]
      constructor
      · rintro ⟨hne, rfl⟩
        exact ⟨(get_eq_iff hkeys hne).1 rfl, hne⟩
      · rintro ⟨hmem, hne⟩
        rw [(get_eq_iff hkeys hne).2 hmem]
        exact ⟨hne, rfl⟩
    compresses := get_holds_iff hkeys }

theorem mem_passed {name : Chars} : (name, value) ∈ Options.passed raw ↔
    ∃ key, (key, name) ∈ passedKeys ∧ (key, value) ∈ raw ∧ value ≠ .null := by
  simp only [Options.passed, List.mem_filterMap, Prod.exists]
  constructor
  · rintro ⟨key, found, hmem, hentry⟩
    split at hentry
    · rename_i hkind
      simp only [Option.map_eq_some_iff, Prod.mk.injEq, present?_eq_some_iff] at hentry
      obtain ⟨_, ⟨hne, rfl⟩, rfl, rfl⟩ := hentry
      exact ⟨key, ofKey_eq_passed_iff.1 hkind, hmem, hne⟩
    · contradiction
  · rintro ⟨key, hpassed, hmem, hne⟩
    refine ⟨key, value, hmem, ?_⟩
    rw [ofKey_eq_passed_iff.2 hpassed]
    simp [present?_eq_some_iff.2 ⟨hne, rfl⟩]

/-- Different keys are handed on under different names. -/
theorem nodup_passed (hkeys : (raw.map Prod.fst).Nodup) :
    ((Options.passed raw).map Prod.fst).Nodup := by
  refine List.pairwise_map.2 (List.Pairwise.filterMap _ ?_ (List.pairwise_map.1 hkeys))
  rintro ⟨key, found⟩ ⟨key', found'⟩ hne e hentry e' hentry' heq
  dsimp only at hentry hentry'
  split at hentry
  · rename_i name hkind
    split at hentry'
    · rename_i name' hkind'
      obtain ⟨_, -, rfl⟩ := Option.map_eq_some_iff.1 hentry
      obtain ⟨_, -, rfl⟩ := Option.map_eq_some_iff.1 hentry'
      have hkey := ofKey_eq_passed_iff.1 hkind
      have hkey' := ofKey_eq_passed_iff.1 hkind'
      exact hne (passedKeys_inj _ hkey _ hkey' heq)
    · contradiction
  · contradiction

end Values

namespace Options

/-- The browser's names for what comes from the fields. -/
def fieldNames : List Chars :=
  ["print_background", "landscape", "scale", "prefer_css_page_size", "margin", "format"]

theorem passedKeys_not_mem_fieldNames : ∀ e ∈ passedKeys, e.2 ∉ fieldNames := by decide +kernel

section Arguments

variable {o : Options} {fromBundle : Bool} {raw : List (Chars × Json)}

theorem fieldArguments_sublist (o : Options) (fromBundle : Bool) :
    ((o.fieldArguments fromBundle).map Prod.fst).Sublist fieldNames := by
  unfold fieldArguments
  cases o.formatFor fromBundle with
  | none => exact List.sublist_append_left _ ["format".runes]
  | some format => exact List.Sublist.refl _

theorem format_mem_fieldArguments {value : Json} :
    ("format".runes, value) ∈ o.fieldArguments fromBundle ↔ o.formatFor fromBundle = some value := by
  unfold fieldArguments
  cases o.formatFor fromBundle with
  | none => simp
  | some format => simp [eq_comm]

theorem formatFor_eq_some_iff {value : Json} : o.formatFor fromBundle = some value ↔
    (o.format.bind holding? = some value) ∨
      (o.format.bind holding? = none ∧ fromBundle = false ∧ o.extra.lookup "width".runes = none ∧
        o.extra.lookup "height".runes = none ∧ value = .str "A4") := by
  unfold formatFor
  cases o.format.bind holding? with
  | some format => simp
  | none =>
      simp only [reduceCtorEq, false_or, true_and]
      rw [Option.ite_none_right_eq_some]
      simp only [Bool.and_eq_true, Bool.not_eq_true', Option.isNone_iff_eq_none, and_assoc,
        Option.some.injEq, eq_comm (b := value)]

/-- What is handed on comes after what the fields make. -/
theorem arguments_eq (fromBundle : Bool) (hkeys : (raw.map Prod.fst).Nodup) (hextra : o.extra = passed raw) :
    ((o.arguments fromBundle).map Prod.fst).Nodup ∧
      o.arguments fromBundle = o.fieldArguments fromBundle ++ passed raw := by
  have hnodup : ((o.fieldArguments fromBundle ++ passed raw).map Prod.fst).Nodup := by
    have hsub := fieldArguments_sublist o fromBundle
    rw [List.map_append]
    refine List.nodup_append.2 ⟨hsub.nodup (by decide +kernel), nodup_passed hkeys, ?_⟩
    rintro name hname other hother rfl
    obtain ⟨⟨_, value⟩, hvalue, rfl⟩ := List.mem_map.1 hother
    obtain ⟨key, hkey, -⟩ := mem_passed.1 hvalue
    exact passedKeys_not_mem_fieldNames _ hkey (hsub.subset hname)
  have heq : o.arguments fromBundle = o.fieldArguments fromBundle ++ passed raw := by
    rw [arguments, hextra, Entries.foldl_put_of_nodup hnodup]
  exact ⟨heq ▸ hnodup, heq⟩

theorem lookup_extra_eq_none_iff {key name : Chars} (hextra : o.extra = passed raw)
    (hkey : (key, name) ∈ passedKeys) :
    o.extra.lookup name = none ↔ ∀ value, (key, value) ∈ raw → value = .null := by
  rw [hextra, List.lookup_eq_none_iff]
  constructor
  · intro hnone value hmem
    by_contra hne
    have hpassed : (name, value) ∈ passed raw := mem_passed.2 ⟨key, hkey, hmem, hne⟩
    exact bne_iff_ne.1 (hnone _ hpassed) rfl
  · rintro hnull ⟨other, value⟩ hmem
    obtain ⟨key', hkey', hraw, hne⟩ := mem_passed.1 hmem
    refine bne_iff_ne.2 fun heq => hne (hnull value ?_)
    obtain rfl : key = key' := passedKeys_inj _ hkey _ hkey' heq
    exact hraw

end Arguments

/-- The keys that are ignored, in order. -/
def sortedIgnored (raw : List (Chars × Json)) : List Chars :=
  (ignored raw).mergeSort fun a b => decide (a ≤ b)

theorem mem_sortedIgnored {raw : List (Chars × Json)} {key : Chars} : key ∈ sortedIgnored raw ↔
    key ∈ raw.map Prod.fst ∧ key ∉ fieldKeys ∧ key ∉ passedKeys.map Prod.fst := by
  rw [sortedIgnored, List.mem_mergeSort, mem_ignored, ofKey_eq_unsupported_iff]

theorem sortedIgnored_eq_nil_iff {raw : List (Chars × Json)} :
    sortedIgnored raw = [] ↔ (ignored raw).isEmpty := by
  rw [sortedIgnored, ← List.length_eq_zero_iff, List.length_mergeSort, List.length_eq_zero_iff,
    List.isEmpty_iff]

theorem pairwise_sortedIgnored {raw : List (Chars × Json)} (hkeys : (raw.map Prod.fst).Nodup) :
    (sortedIgnored raw).Pairwise (· < ·) := by
  have hle : (sortedIgnored raw).Pairwise fun a b => decide (a ≤ b) := by
    refine List.pairwise_mergeSort (fun a b c hab hbc => ?_) (fun a b => ?_) (ignored raw)
    · exact decide_eq_true (List.le_trans (of_decide_eq_true hab) (of_decide_eq_true hbc))
    · simpa [-List.not_le] using List.le_total a b
  have hne : (sortedIgnored raw).Pairwise (· ≠ ·) :=
    (List.mergeSort_perm (ignored raw) _).nodup_iff.2 (hkeys.filter _)
  exact hle.imp₂ (fun _ _ hab hne => Std.lt_of_le_of_ne (of_decide_eq_true hab) hne) hne

/-- How the options that are read from a request, and the browser's arguments that they make,
account for every key of the request, when some keys are warned about. -/
structure Accounts (o : Options) (raw : List (Chars × Json)) (fromBundle : Bool)
    (warned : List Chars) : Prop where
  /-- Every key is of one kind. -/
  kinds (key : Chars) : key ∈ raw.map Prod.fst →
    (key ∈ fieldKeys ∧ key ∉ passedKeys.map Prod.fst ∧ key ∉ warned) ∨
      (key ∉ fieldKeys ∧ key ∈ passedKeys.map Prod.fst ∧ key ∉ warned) ∨
      (key ∉ fieldKeys ∧ key ∉ passedKeys.map Prod.fst ∧ key ∈ warned)
  warned_subset : warned ⊆ raw.map Prod.fst
  /-- In order, and each key once. -/
  ordered : warned.Pairwise (· < ·)
  fields : o.SetBy raw
  passed (key name : Chars) (value : Json) : (key, name) ∈ passedKeys → (key, value) ∈ raw →
    value ≠ .null → (o.arguments fromBundle).lookup name = some value
  /-- Nothing that is handed on takes the place of what a field makes. -/
  kept (name : Chars) (value : Json) : (name, value) ∈ o.fieldArguments fromBundle →
    (o.arguments fromBundle).lookup name = some value
  /-- There are no other arguments. -/
  origin (name : Chars) (value : Json) : (o.arguments fromBundle).lookup name = some value →
    (name, value) ∈ o.fieldArguments fromBundle ∨
      ∃ key, (key, name) ∈ passedKeys ∧ (key, value) ∈ raw ∧ value ≠ .null
  /-- A format is the one that is named, or A4 for markup of its own without any size. -/
  format (value : Json) : (o.arguments fromBundle).lookup "format".runes = some value ↔
    (("format".runes, value) ∈ raw ∧ value.holds) ∨
      ((∀ named, ("format".runes, named) ∈ raw → ¬ named.holds) ∧ fromBundle = false ∧
        (∀ width, ("width".runes, width) ∈ raw → width = .null) ∧
        (∀ height, ("height".runes, height) ∈ raw → height = .null) ∧ value = .str "A4")

section Accounts

variable {raw : List (Chars × Json)} {o : Options} {records : List Record}

/-- The default format stands where there is no other and no size. -/
theorem formatFor_eq_some_iff_of_setBy {fromBundle : Bool} {value : Json} (hset : o.SetBy raw)
    (hextra : o.extra = Options.passed raw) : o.formatFor fromBundle = some value ↔
      (("format".runes, value) ∈ raw ∧ value.holds) ∨
        ((∀ named, ("format".runes, named) ∈ raw → ¬ named.holds) ∧ fromBundle = false ∧
          (∀ width, ("width".runes, width) ∈ raw → width = .null) ∧
          (∀ height, ("height".runes, height) ∈ raw → height = .null) ∧ value = .str "A4") := by
  have hnamed (value : Json) : o.format.bind holding? = some value ↔
      ("format".runes, value) ∈ raw ∧ value.holds := by
    rw [← hset.format, Option.bind_eq_some_iff]
    constructor
    · rintro ⟨found, hfound, hvalue⟩
      rwa [(holding?_eq_some_iff.1 hvalue).2] at hfound
    · intro hfound
      exact ⟨value, hfound, holding?_eq_some_iff.2 ⟨((hset.format value).1 hfound).2, rfl⟩⟩
  have hnone : o.format.bind holding? = none ↔
      ∀ named, ("format".runes, named) ∈ raw → ¬ named.holds := by
    simp only [Option.eq_none_iff_forall_ne_some, ne_eq, hnamed, not_and]
  rw [formatFor_eq_some_iff, hnamed, hnone,
    lookup_extra_eq_none_iff hextra
      (show ("width".runes, "width".runes) ∈ passedKeys by decide +kernel),
    lookup_extra_eq_none_iff hextra
      (show ("height".runes, "height".runes) ∈ passedKeys by decide +kernel)]

/-- Whatever is asked for is kept, handed on or warned about. -/
theorem accounts_of_read (hkeys : (raw.map Prod.fst).Nodup)
    (h : Options.read raw = ⟨.ok o, records⟩) (fromBundle : Bool) :
    ∃ warned : List Chars, o.Accounts raw fromBundle warned ∧
      records = if warned = [] then [] else
        [⟨.warning, "Ignoring unsupported pdfOptions: ".runes ++
          List.intercalate [.of ',', .of ' '] warned⟩] := by
  have hset := setBy_of_read hkeys h
  obtain ⟨scale, -, ho, hrecords⟩ := exists_of_read h
  have hextra : o.extra = Options.passed raw := by rw [ho]
  obtain ⟨hnodup, harguments⟩ := arguments_eq fromBundle hkeys hextra
  have hlookup (name : Chars) (value : Json) :
      (o.arguments fromBundle).lookup name = some value ↔
        (name, value) ∈ o.fieldArguments fromBundle ∨ (name, value) ∈ Options.passed raw := by
    rw [Entries.lookup_eq_some_iff hnodup, harguments, List.mem_append]
  refine ⟨sortedIgnored raw, ?_, ?_⟩
  · exact {
      kinds := fun key hkey => by
        rw [mem_sortedIgnored]
        by_cases hfield : key ∈ fieldKeys
        · have hpassed : key ∉ passedKeys.map Prod.fst := fun hmem => by
            obtain ⟨e, he, rfl⟩ := List.mem_map.1 hmem
            exact fieldKeys_disjoint e he hfield
          exact Or.inl ⟨hfield, hpassed, fun hignored => hignored.2.1 hfield⟩
        · by_cases hpassed : key ∈ passedKeys.map Prod.fst
          · exact Or.inr (Or.inl ⟨hfield, hpassed, fun hignored => hignored.2.2 hpassed⟩)
          · exact Or.inr (Or.inr ⟨hfield, hpassed, hkey, hfield, hpassed⟩)
      warned_subset := fun key hkey => (mem_sortedIgnored.1 hkey).1
      ordered := pairwise_sortedIgnored hkeys
      fields := hset
      passed := fun key name value hname hraw hne =>
        (hlookup name value).2 (Or.inr (mem_passed.2 ⟨key, hname, hraw, hne⟩))
      kept := fun name value hmem => (hlookup name value).2 (Or.inl hmem)
      origin := fun name value hvalue => ((hlookup name value).1 hvalue).imp_right mem_passed.1
      format := fun value => by
        have hformat : ("format".runes, value) ∉ Options.passed raw := fun hmem => by
          obtain ⟨key, hkey, -⟩ := mem_passed.1 hmem
          exact passedKeys_not_mem_fieldNames _ hkey
            (show "format".runes ∈ fieldNames by decide +kernel)
        rw [hlookup, or_iff_left hformat, format_mem_fieldArguments,
          formatFor_eq_some_iff_of_setBy hset hextra] }
  · rw [hrecords]
    simp only [sortedIgnored_eq_nil_iff]
    rfl

/-- Some options with a key of each kind, and one that nobody knows. -/
def mixedOptions : List (Chars × Json) :=
  [("zoom", .int 2), ("pageRanges", .str "1-3"), ("width", .null), ("landscape", .bool true),
    ("dpi", .int 96)]

/-- The sides are turned, the pages are handed on, A4 is put in, and two keys are warned about. -/
theorem accounts_of_read_mixedOptions : (mixedOptions.map Prod.fst).Nodup ∧
    ∃ o records, Options.read mixedOptions = ⟨.ok o, records⟩ ∧ o.landscape ∧
      (o.arguments false).lookup "page_ranges".runes = some (.str "1-3") ∧
      (o.arguments false).lookup "format".runes = some (.str "A4") ∧
      ∃ warned : List Chars, warned.Pairwise (· < ·) ∧
        "dpi".runes ∈ warned ∧ "zoom".runes ∈ warned := by
  have hkeys : (mixedOptions.map Prod.fst).Nodup := by decide +kernel
  refine ⟨hkeys, _, _, rfl, ?_⟩
  obtain ⟨warned, haccounts, -⟩ := accounts_of_read hkeys rfl false
  have hunknown (key : Chars) (hkey : key ∈ mixedOptions.map Prod.fst) (hfield : key ∉ fieldKeys)
      (hpassed : key ∉ passedKeys.map Prod.fst) : key ∈ warned := by
    have hkind := haccounts.kinds key hkey
    tauto
  have hturned := haccounts.fields.landscape.2 ⟨.bool true, by simp [mixedOptions], rfl⟩
  have hpages := haccounts.passed "pageRanges" "page_ranges" (.str "1-3") (by decide +kernel)
    (by simp [mixedOptions]) (by simp)
  have hsheet := (haccounts.format (.str "A4")).2 (Or.inr (by simp [mixedOptions]))
  exact ⟨hturned, hpages, hsheet, warned, haccounts.ordered,
    hunknown "dpi" (by decide +kernel) (by decide +kernel) (by decide +kernel),
    hunknown "zoom" (by decide +kernel) (by decide +kernel) (by decide +kernel)⟩

end Accounts

end Options

end Folio.Print
