import Folio.Proofs.Markup.ReadTrees

/-!
Events with the text that follows each of them. A pass is a run of steps up to its end; what is
written in pieces, text character by character, is read completely in the first pass, with the same
start tags in the same places and the same tree.
-/
namespace Folio.Markup

/-- The events of a pass, each with the text that follows it. -/
def placesFrom (final : Bool) : Nat → Option Chars → Chars → List (Event × Chars)
  | 0, _, _ => []
  | _ + 1, _, [] => []
  | fuel + 1, raw, c :: s =>
      match step final raw (c :: s) with
      | .error _ => []
      | .ok (.stop events rest) => events.map fun e => (e, rest)
      | .ok (.go events raw' rest) =>
          (events.map fun e => (e, rest)) ++ placesFrom final fuel raw' rest

/-- The events of a text up to where the final pass ends, each with what follows it. -/
def eventPlaces (s : Chars) : List (Event × Chars) :=
  match pass false (s.length + 1) none s with
  | .error _ => []
  | .ok first => placesFrom false (s.length + 1) none s ++
      placesFrom true (first.rest.length + 1) first.raw first.rest

/-- The start tags among some events, each with what follows it. -/
def startsOf (places : List (Event × Chars)) : List (StartTag × Chars) :=
  places.filterMap fun
    | (.start tag, rest) => some (tag, rest)
    | _ => none

/-- The start tags of a text, each with what follows it. -/
def startPlaces (s : Chars) : List (StartTag × Chars) := startsOf (eventPlaces s)

/-- The steps of a pass up to its end, with the events of each. -/
inductive Run (final : Bool) :
    Option Chars → Chars → List (Event × Chars) → Option Chars → Chars → Prop
  | nil (raw : Option Chars) : Run final raw [] [] raw []
  | stop {raw : Option Chars} {c : Rune} {s rest : Chars} {events : List Event}
      (h : step final raw (c :: s) = .ok (.stop events rest)) :
      Run final raw (c :: s) (events.map fun e => (e, rest)) raw rest
  | go {raw raw' raw'' : Option Chars} {c : Rune} {s rest last : Chars} {events : List Event}
      {places : List (Event × Chars)} (h : step final raw (c :: s) = .ok (.go events raw' rest))
      (hlater : Run final raw' rest places raw'' last) :
      Run final raw (c :: s) ((events.map fun e => (e, rest)) ++ places) raw'' last

section Run

variable {final : Bool} {raw raw' raw'' : Option Chars} {c : Rune} {s rest last : Chars}
  {events : List Event} {places more : List (Event × Chars)} {tag : StartTag}

theorem startsOf_append (first second : List (Event × Chars)) :
    startsOf (first ++ second) = startsOf first ++ startsOf second :=
  List.filterMap_append

theorem map_fst_startsOf (places : List (Event × Chars)) :
    (startsOf places).map Prod.fst = startTags (places.map Prod.fst) := by
  induction places with
  | nil => rfl
  | cons place places ih =>
      obtain ⟨e, rest⟩ := place
      cases e with
      | start tag => exact congrArg (tag :: ·) ih
      | _ => exact ih

theorem mem_startsOf : (tag, rest) ∈ startsOf places ↔ (Event.start tag, rest) ∈ places := by
  rw [startsOf, List.mem_filterMap]
  constructor
  · rintro ⟨⟨e, after⟩, hplace, heq⟩
    cases e with
    | start other =>
        obtain ⟨rfl, rfl⟩ := Prod.mk.inj (Option.some.inj heq)
        exact hplace
    | _ => contradiction
  · exact fun h => ⟨_, h, rfl⟩

theorem map_fst_at (events : List Event) (rest : Chars) :
    (events.map fun e => (e, rest)).map Prod.fst = events := by
  rw [List.map_map]
  exact List.map_id' events

/-- A step takes at least the first character. -/
theorem suffix_of_go (hraw : ∀ name ∈ raw, isRawText name)
    (h : step final raw (c :: s) = .ok (.go events raw' rest)) :
    rest <:+ s ∧ ∀ name ∈ raw', isRawText name := by
  generalize hdone : Step.go events raw' rest = done at h
  cases raw with
  | none =>
      cases plainStep_step h with
      | read he hrest =>
          obtain ⟨rfl, rfl, rfl⟩ := Step.go.inj hdone
          exact ⟨hrest, fun name hname => isRawText_of_raw? hname⟩
      | skip hrest =>
          obtain ⟨rfl, rfl, rfl⟩ := Step.go.inj hdone
          exact ⟨hrest, rawText_none⟩
      | stop => contradiction
  | some name =>
      have hname := hraw name rfl
      cases rawStep_step hname h with
      | stop => contradiction
      | close hclose =>
          obtain ⟨rfl, rfl, rfl⟩ := Step.go.inj hdone
          refine ⟨?_, rawText_none⟩
          rcases List.suffix_cons_iff.1 ((endsAtAngle_rawClose? hname).suffix hclose) with heq | hlater
          · exact (List.cons.inj heq).2 ▸ List.suffix_refl _
          · exact (List.suffix_cons _ rest).trans hlater
      | text heq hrun =>
          obtain ⟨rfl, rfl, rfl⟩ := Step.go.inj hdone
          obtain ⟨d, run, rfl⟩ := List.exists_cons_of_ne_nil hrun
          obtain ⟨rfl, rfl⟩ := List.cons.inj heq
          exact ⟨List.suffix_append run rest, hraw⟩

/-- The last step reports texts only. -/
theorem texts_of_stop (hraw : ∀ name ∈ raw, isRawText name)
    (h : step final raw (c :: s) = .ok (.stop events rest)) :
    (∀ e ∈ events, ∃ content, e = .text content) ∧ rest <:+ c :: s := by
  generalize hdone : Step.stop events rest = done at h
  cases raw with
  | none =>
      cases plainStep_step h with
      | read => contradiction
      | skip => contradiction
      | stop htexts hrest =>
          obtain ⟨rfl, rfl⟩ := Step.stop.inj hdone
          exact ⟨htexts, hrest⟩
  | some name =>
      cases rawStep_step (hraw name rfl) h with
      | stop =>
          obtain ⟨rfl, rfl⟩ := Step.stop.inj hdone
          exact ⟨fun _ he => absurd he List.not_mem_nil, List.suffix_refl _⟩
      | close => contradiction
      | text => contradiction

/-- A start tag is all that its step reports, and raw text follows if it opens some. -/
theorem eq_of_start_mem (hraw : ∀ name ∈ raw, isRawText name)
    (h : step final raw (c :: s) = .ok (.go events raw' rest)) (htag : Event.start tag ∈ events) :
    events = [.start tag] ∧ raw' = (Event.start tag).raw? := by
  generalize hdone : Step.go events raw' rest = done at h
  cases raw with
  | none =>
      cases plainStep_step h with
      | read =>
          obtain ⟨rfl, rfl, rfl⟩ := Step.go.inj hdone
          exact List.mem_singleton.1 htag ▸ ⟨rfl, rfl⟩
      | skip =>
          obtain ⟨rfl, rfl, rfl⟩ := Step.go.inj hdone
          exact absurd htag List.not_mem_nil
      | stop => contradiction
  | some name =>
      cases rawStep_step (hraw name rfl) h with
      | stop => contradiction
      | close =>
          obtain ⟨rfl, rfl, rfl⟩ := Step.go.inj hdone
          exact absurd (List.mem_singleton.1 htag) (by nofun)
      | text =>
          obtain ⟨rfl, rfl, rfl⟩ := Step.go.inj hdone
          exact absurd (List.mem_singleton.1 htag) (by nofun)

/-- A run is what a pass with enough steps does. -/
theorem Run.pass (h : Run final raw s places raw' last) (hraw : ∀ name ∈ raw, isRawText name)
    {fuel : Nat} (hfuel : s.length < fuel) :
    Markup.pass final fuel raw s = .ok ⟨places.map Prod.fst, raw', last⟩ ∧
      placesFrom final fuel raw s = places := by
  induction h generalizing fuel with
  | nil raw =>
      obtain ⟨fuel, rfl⟩ : ∃ less, fuel = less + 1 := ⟨fuel - 1, by omega⟩
      exact ⟨rfl, rfl⟩
  | stop h =>
      obtain ⟨fuel, rfl⟩ : ∃ less, fuel = less + 1 := ⟨fuel - 1, by omega⟩
      rw [Markup.pass, placesFrom, h, map_fst_at]
      exact ⟨rfl, rfl⟩
  | go h _ ih =>
      obtain ⟨fuel, rfl⟩ : ∃ less, fuel = less + 1 := ⟨fuel - 1, by omega⟩
      obtain ⟨hrest, hraw'⟩ := suffix_of_go hraw h
      have hlength := hrest.length_le
      rw [List.length_cons] at hfuel
      obtain ⟨hpass, hplaces⟩ := @ih hraw' fuel (by omega)
      rw [Markup.pass, placesFrom, h, List.map_append, map_fst_at]
      dsimp only
      rw [hpass, hplaces]
      exact ⟨rfl, rfl⟩

/-- A pass with enough steps is a run. -/
theorem Run.of_pass {fuel : Nat} {scan : Scan} (hraw : ∀ name ∈ raw, isRawText name)
    (hfuel : s.length < fuel) (h : Markup.pass final fuel raw s = .ok scan) :
    Run final raw s (placesFrom final fuel raw s) scan.raw scan.rest ∧
      scan.events = (placesFrom final fuel raw s).map Prod.fst ∧
      ∀ name ∈ scan.raw, isRawText name := by
  induction fuel generalizing raw s scan with
  | zero => exact absurd hfuel (Nat.not_lt_zero _)
  | succ fuel ih =>
      cases s with
      | nil =>
          rw [← Except.ok.inj h]
          exact ⟨.nil raw, rfl, hraw⟩
      | cons c s =>
          obtain ⟨events, rest, hstep, rfl⟩ | ⟨events, raw', rest, later, hstep, hlater, rfl⟩ :=
            pass_cons_cases h
          · rw [placesFrom, hstep]
            exact ⟨.stop hstep, (map_fst_at events rest).symm, hraw⟩
          · obtain ⟨hrest, hraw'⟩ := suffix_of_go hraw hstep
            have hlength := hrest.length_le
            rw [List.length_cons] at hfuel
            obtain ⟨hrun, hevents, hlast⟩ := ih hraw' (by omega) hlater
            rw [placesFrom, hstep]
            refine ⟨.go hstep hrun, ?_, hlast⟩
            rw [List.map_append, map_fst_at, hevents]

/-- Raw text up to its end tag is read as texts, and then the tag. -/
theorem Run.rawText {name block after : Chars} (h : Run final (some name) s places raw' last)
    (hname : isRawText name) (hblock : upTo? (rawClose? name) s = some (block, after)) :
    ∃ (texts : List Chars) (later : List Event),
      places.map Prod.fst = texts.map Event.text ++ .close name :: later ∧
        texts.flatten = block := by
  generalize hraw : some name = raw at h
  induction h generalizing block with
  | nil => contradiction
  | stop hstep =>
      subst hraw
      generalize hdone : Step.stop _ _ = done at hstep
      cases rawStep_step hname hstep with
      | stop hnone =>
          rw [upTo?_eq_none_iff.2 hnone] at hblock
          contradiction
      | close => contradiction
      | text => contradiction
  | go hstep hlater ih =>
      subst hraw
      generalize hdone : Step.go _ _ _ = done at hstep
      cases rawStep_step hname hstep with
      | stop => contradiction
      | close hclose =>
          obtain ⟨rfl, rfl, rfl⟩ := Step.go.inj hdone
          rw [upTo?, hclose] at hblock
          obtain ⟨rfl, -⟩ := Prod.mk.inj (Option.some.inj hblock)
          exact ⟨[], _, rfl, rfl⟩
      | text heq hrun hnone =>
          obtain ⟨rfl, rfl, rfl⟩ := Step.go.inj hdone
          rw [heq, upTo?_append_of_noEnd hnone] at hblock
          obtain ⟨⟨content, rest⟩, hcontent, hpair⟩ := Option.map_eq_some_iff.1 hblock
          obtain ⟨rfl, rfl⟩ := Prod.mk.inj hpair
          obtain ⟨texts, later, hplaces, rfl⟩ := ih hcontent rfl
          refine ⟨_ :: texts, later, ?_, rfl⟩
          rw [List.map_append, hplaces]
          rfl

/-- What follows an event ends the text. -/
theorem Run.suffix (h : Run final raw s places raw' last) (hraw : ∀ name ∈ raw, isRawText name) :
    last <:+ s ∧ ∀ place ∈ places, place.2 <:+ s := by
  induction h with
  | nil => exact ⟨List.suffix_refl _, fun _ hplace => absurd hplace List.not_mem_nil⟩
  | stop hstep =>
      have hrest := (texts_of_stop hraw hstep).2
      exact ⟨hrest, List.forall_mem_map.2 fun _ _ => hrest⟩
  | @go raw raw' raw'' c s rest last events places hstep _ ih =>
      obtain ⟨hrest, hraw'⟩ := suffix_of_go hraw hstep
      have hwhole := hrest.trans (List.suffix_cons c s)
      obtain ⟨hlast, hplaces⟩ := ih hraw'
      refine ⟨hlast.trans hwhole, List.forall_mem_append.2 ⟨?_, ?_⟩⟩
      · exact List.forall_mem_map.2 fun _ _ => hwhole
      · exact fun place hplace => (hplaces place hplace).trans hwhole

/-- Among the events are the start tag of a raw text element, the whole block of its text, and its
end tag. -/
def ReportsRaw (tag : StartTag) (name block : Chars) (events : List Event) : Prop :=
  ∃ (before : List Event) (texts : List Chars) (later : List Event),
    events = before ++ .start tag :: (texts.map Event.text ++ .close name :: later) ∧
      texts.flatten = block

theorem ReportsRaw.append_left {name block : Chars} (h : ReportsRaw tag name block events)
    (before : List Event) : ReportsRaw tag name block (before ++ events) := by
  obtain ⟨first, texts, later, rfl, hblock⟩ := h
  exact ⟨before ++ first, texts, later, (List.append_assoc _ _ _).symm, hblock⟩

theorem ReportsRaw.append_right {name block : Chars} (h : ReportsRaw tag name block events)
    (later : List Event) : ReportsRaw tag name block (events ++ later) := by
  obtain ⟨before, texts, last, rfl, hblock⟩ := h
  exact ⟨before, texts, last ++ later, by simp, hblock⟩

/-- The start tag of a raw text element, where its end tag follows. -/
theorem Run.reportsRaw {name block after : Chars} (h : Run final raw s places raw' last)
    (hraw : ∀ name ∈ raw, isRawText name) (htag : (Event.start tag, rest) ∈ places)
    (hopen : (Event.start tag).raw? = some name)
    (hblock : upTo? (rawClose? name) rest = some (block, after)) :
    ReportsRaw tag name block (places.map Prod.fst) := by
  induction h with
  | nil => exact absurd htag List.not_mem_nil
  | stop hstep =>
      obtain ⟨e, he, heq⟩ := List.mem_map.1 htag
      obtain ⟨rfl, -⟩ := Prod.mk.inj heq
      obtain ⟨content, hcontent⟩ := (texts_of_stop hraw hstep).1 _ he
      contradiction
  | @go raw raw' raw'' c s rest' last events places hstep hlater ih =>
      rw [List.map_append, map_fst_at]
      rcases List.mem_append.1 htag with hhere | hthere
      · obtain ⟨e, he, heq⟩ := List.mem_map.1 hhere
        obtain ⟨rfl, rfl⟩ := Prod.mk.inj heq
        obtain ⟨rfl, rfl⟩ := eq_of_start_mem hraw hstep he
        rw [hopen] at hlater
        obtain ⟨texts, later, hplaces, htexts⟩ := hlater.rawText (isRawText_of_raw? hopen) hblock
        exact ⟨[], texts, later, by rw [hplaces]; rfl, htexts⟩
      · exact (ih (suffix_of_go hraw hstep).2 hthere).append_left events

/-- The events of a text are those of two runs, and what the second one leaves is text. -/
theorem exists_runs (h : readEvents s = .ok events) :
    ∃ (first last : List (Event × Chars)) (tail : List Event) (raw raw' : Option Chars)
      (rest rest' : Chars), Run false none s first raw rest ∧ (∀ name ∈ raw, isRawText name) ∧
        Run true raw rest last raw' rest' ∧ eventPlaces s = first ++ last ∧
        events = first.map Prod.fst ++ last.map Prod.fst ++ tail ∧
        ∀ e ∈ tail, ∃ content, e = .text content := by
  obtain ⟨first, last, hfirst, hlast, hall⟩ := exists_passes_of_readEvents h
  obtain ⟨hrun, hevents, hraw⟩ := Run.of_pass rawText_none (Nat.lt_succ_self _) hfirst
  obtain ⟨hrun', hevents', -⟩ := Run.of_pass hraw (Nat.lt_succ_self _) hlast
  refine ⟨_, _, if last.raw.isSome || last.rest.isEmpty then [] else [Event.text last.rest],
    _, _, _, _, hrun, hraw, hrun', ?_, ?_, fun e he => ?_⟩
  · rw [eventPlaces, hfirst]
  · rw [hall, hevents, hevents']
  · split at he
    · exact absurd he List.not_mem_nil
    · exact ⟨_, List.mem_singleton.1 he⟩

theorem startTags_texts (h : ∀ e ∈ events, ∃ content, e = .text content) :
    startTags events = [] := by
  rw [startTags, List.filterMap_eq_nil_iff]
  intro e he
  obtain ⟨content, rfl⟩ := h e he
  rfl

/-- The start tags of a text stand in their places. -/
theorem map_fst_startPlaces (h : readEvents s = .ok events) :
    (startPlaces s).map Prod.fst = startTags events := by
  obtain ⟨first, last, tail, -, -, -, -, -, -, -, hplaces, rfl, htail⟩ := exists_runs h
  rw [startPlaces, map_fst_startsOf, hplaces, startTags_append, startTags_texts htail,
    List.append_nil, List.map_append]

/-- What follows a start tag ends the text. -/
theorem suffix_of_mem_startPlaces (h : readEvents s = .ok events)
    (htag : (tag, rest) ∈ startPlaces s) : rest <:+ s := by
  obtain ⟨first, last, tail, raw, raw', left, left', hrun, hraw, hrun', hplaces, -, -⟩ :=
    exists_runs h
  rw [startPlaces, mem_startsOf, hplaces] at htag
  obtain ⟨hleft, hfirst⟩ := hrun.suffix rawText_none
  rcases List.mem_append.1 htag with hmem | hmem
  · exact hfirst _ hmem
  · exact ((hrun'.suffix hraw).2 _ hmem).trans hleft

/-- A raw text element whose end tag follows is reported as such. -/
theorem reportsRaw_of_mem_startPlaces {name block after : Chars} (h : readEvents s = .ok events)
    (htag : (tag, rest) ∈ startPlaces s) (hopen : (Event.start tag).raw? = some name)
    (hblock : upTo? (rawClose? name) rest = some (block, after)) :
    ReportsRaw tag name block events := by
  obtain ⟨first, last, tail, raw, raw', left, left', hrun, hraw, hrun', hplaces, rfl, -⟩ :=
    exists_runs h
  rw [startPlaces, mem_startsOf, hplaces] at htag
  rw [List.append_assoc]
  rcases List.mem_append.1 htag with hfirst | hlast
  · exact (hrun.reportsRaw rawText_none hfirst hopen hblock).append_right _
  · exact ((hrun'.reportsRaw hraw hlast hopen hblock).append_right _).append_left _

end Run

/-- A text in pieces, each with what follows it: outside raw text every character of text by
itself, and every other construct as a whole. -/
inductive Laid : Option Chars → Chars → List (Event × Chars) → Prop
  | nil : Laid none [] []
  | char {c : Rune} {s : Chars} {places : List (Event × Chars)} (hc : isTextChar c)
      (hlater : Laid none s places) : Laid none (c :: s) ((.text [c], s) :: places)
  | step {raw raw' : Option Chars} {c : Rune} {s rest : Chars} {e : Event}
      {places : List (Event × Chars)} (h : step false raw (c :: s) = .ok (.go [e] raw' rest))
      (hlater : Laid raw' rest places) : Laid raw (c :: s) ((e, rest) :: places)

/-- The same start tags in the same places, and events that build the same tree. -/
structure Alike (first second : List (Event × Chars)) : Prop where
  starts : startsOf first = startsOf second
  builds : ∀ b, (first.map Prod.fst).foldlM Builder.event b =
    (second.map Prod.fst).foldlM Builder.event b

section Laid

variable {final : Bool} {raw : Option Chars} {c : Rune} {s rest : Chars} {e : Event}
  {first second places : List (Event × Chars)}

theorem Alike.refl (places : List (Event × Chars)) : Alike places places := ⟨rfl, fun _ => rfl⟩

theorem Alike.cons (h : Alike first second) (e : Event) (rest : Chars) :
    Alike ((e, rest) :: first) ((e, rest) :: second) where
  starts := by
    cases e with
    | start tag => exact congrArg ((tag, rest) :: ·) h.starts
    | _ => exact h.starts
  builds b := by
    rw [List.map_cons, List.map_cons, List.foldlM_cons, List.foldlM_cons]
    exact bind_congr fun b' => h.builds b'

/-- Text one after the other is text that is read at once. -/
theorem Alike.text {content : Chars} {after : Chars} (h : Alike first ((.text content, rest) :: second)) :
    Alike ((.text [c], after) :: first) ((.text (c :: content), rest) :: second) where
  starts := h.starts
  builds b := by
    have hwrite : (b.write [c]).write content = b.write (c :: content) :=
      congrArg (fun text => { b with pending := some text }) (List.append_assoc _ [c] content)
    have hlater := h.builds (b.write [c])
    rw [List.map_cons, List.foldlM_cons] at hlater ⊢
    rw [List.map_cons, List.foldlM_cons]
    change (first.map Prod.fst).foldlM Builder.event (b.write [c]) =
      (second.map Prod.fst).foldlM Builder.event (b.write (c :: content))
    rw [hlater, ← hwrite]
    rfl

theorem step_text (hc : isTextChar c) : step final none (c :: s) =
    .ok (.go [.text ((c :: s).takeWhile isTextChar)] none ((c :: s).dropWhile isTextChar)) := by
  simp only [isTextChar, Bool.and_eq_true, bne_iff_ne] at hc
  dsimp only [step]
  rw [beq_false_of_ne hc.1, beq_false_of_ne hc.2]
  rfl

/-- A text in pieces is read completely by the first pass. -/
theorem Laid.run (h : Laid raw s places) :
    ∃ read, Run false raw s read none [] ∧ Alike places read := by
  induction h with
  | nil => exact ⟨[], .nil none, .refl []⟩
  | @char c s places hc hlater ih =>
      obtain ⟨read, hrun, halike⟩ := ih
      have htext : Markup.step false none (c :: s) = _ := step_text hc
      rw [List.takeWhile_cons, List.dropWhile_cons, if_pos hc, if_pos hc] at htext
      cases hrun with
      | nil => exact ⟨[(.text [c], [])], .go htext (.nil none), halike.cons _ _⟩
      | stop hstep => exact absurd rfl (ne_nil_of_stop (List.cons_ne_nil _ _) hstep)
      | @go _ _ _ d s rest _ events later hstep hlast =>
          by_cases hd : isTextChar d
          · rw [step_text hd] at hstep
            obtain ⟨rfl, rfl, rfl⟩ := Step.go.inj (Except.ok.inj hstep)
            exact ⟨_, .go htext hlast, halike.text⟩
          · rw [List.takeWhile_cons, List.dropWhile_cons, if_neg hd, if_neg hd] at htext
            exact ⟨_, .go htext (.go hstep hlast), halike.cons _ _⟩
  | step h _ ih =>
      obtain ⟨read, hrun, halike⟩ := ih
      exact ⟨_, .go h hrun, halike.cons _ _⟩

/-- What is read of a text in pieces. -/
theorem Laid.read (h : Laid none s places) : startPlaces s = startsOf places ∧
    ∃ events, readEvents s = .ok events ∧
      ∀ b, events.foldlM Builder.event b = (places.map Prod.fst).foldlM Builder.event b := by
  obtain ⟨read, hrun, halike⟩ := h.run
  obtain ⟨hpass, hplaces⟩ := hrun.pass rawText_none (Nat.lt_succ_self _)
  have hevents : readEvents s = .ok (read.map Prod.fst) := by
    rw [readEvents, hpass]
    exact congrArg Except.ok ((List.append_nil _).trans (List.append_nil _))
  have hsame : eventPlaces s = read := by
    rw [eventPlaces, hpass]
    exact (List.append_nil _).trans hplaces
  refine ⟨?_, read.map Prod.fst, hevents, fun b => (halike.builds b).symm⟩
  rw [startPlaces, hsame, halike.starts]

end Laid

end Folio.Markup
