import Folio.Proofs.Decimal.WholeNumbers
import Folio.Service.App

/-!
The limit on the size of requests. A size that is written in few enough common digits is compared
with the limit, and every other text lets the request pass, with one exception: the check for digits
lets through small raised digits and runs of any length, which are read as no number.
-/
namespace Folio.Service

open Decimal (Numeral DigitOrForeign maxDigits readWhole)

/-- What a request says about its size. -/
def Request.size? (r : Request) : Option Chars := r.headers.value? "content-length"

/-- A text of the characters that a header may hold, one byte each. -/
def IsLatin (s : Chars) : Prop := ∀ c ∈ s, c.toNat < 256

/-- The characters that count as digits of a size and are none. -/
def raisedDigits : List Rune := [.of '\xb2', .of '\xb3', .of '\xb9']

/-- The size is written in digits and denotes more than the limit. -/
def Exceeds (limit : Int) (size : Chars) : Prop := ∃ n : Nat, Numeral size n ∧ limit < n

/-- The size counts as written in digits, but with raised ones or too many it is no number. -/
structure Misread (size : Chars) : Prop where
  digits : ∀ c ∈ size, c.isDigit ∨ c ∈ raisedDigits
  cause : (∃ c ∈ size, c ∈ raisedDigits) ∨ maxDigits < size.length

section Size

variable {settings : Settings} {r : Request} {size : Chars} {c : Rune} {n : Nat}

theorem isSizeDigit_iff (hc : c.toNat < 256) :
    isSizeDigit c ↔ c.isDigit ∨ c ∈ raisedDigits :=
  Text.below_forall (P := fun c => isSizeDigit c ↔ c.isDigit ∨ c ∈ raisedDigits)
    (by decide +kernel) hc

theorem raised_forall : ∀ c ∈ raisedDigits, c.isDigit = false ∧ Decimal.toAscii c = '?' := by
  simp only [raisedDigits, List.forall_mem_cons]
  exact ⟨by decide +kernel, by decide +kernel, by decide +kernel, List.forall_mem_nil _⟩

theorem isLatin_of_digits (h : ∀ c ∈ size, c.isDigit) : IsLatin size := fun c hc =>
  Nat.lt_of_le_of_lt (Decimal.toNat_of_isDigit (h c hc)).2 (by decide)

theorem digitOrForeign_of_isSizeDigit (h : c.isDigit ∨ c ∈ raisedDigits) : DigitOrForeign c :=
  h.imp_right fun hraised => (raised_forall c hraised).2

theorem all_isSizeDigit_iff (hlatin : IsLatin size) :
    size.all isSizeDigit ↔ ∀ c ∈ size, c.isDigit ∨ c ∈ raisedDigits := by
  rw [List.all_eq_true]
  exact forall₂_congr fun c hc => isSizeDigit_iff (hlatin c hc)

theorem isTooLarge_of_none (hsize : r.size? = none) : isTooLarge settings r = .ok false := by
  rw [Request.size?] at hsize
  rw [isTooLarge, hsize]

theorem isTooLarge_of_some (hsize : r.size? = some size) : isTooLarge settings r =
    if size.isEmpty || !size.all isSizeDigit then .ok false
    else (readWhole size).map fun n => decide (settings.maxBytes < n) := by
  rw [Request.size?] at hsize
  rw [isTooLarge, hsize]

/-- A size that is not written in digits says nothing. -/
theorem isTooLarge_of_other (hsize : r.size? = some size)
    (hother : size.isEmpty || !size.all isSizeDigit) : isTooLarge settings r = .ok false := by
  rw [isTooLarge_of_some hsize, if_pos hother]

theorem isTooLarge_of_digits (hsize : r.size? = some size) (hlatin : IsLatin size)
    (hne : size ≠ []) (hdigits : ∀ c ∈ size, c.isDigit ∨ c ∈ raisedDigits) :
    isTooLarge settings r = (readWhole size).map fun n => decide (settings.maxBytes < n) := by
  rw [isTooLarge_of_some hsize, if_neg]
  rw [(all_isSizeDigit_iff hlatin).2 hdigits, List.isEmpty_eq_false_iff.2 hne]
  exact Bool.false_ne_true

/-- A size that is written in few enough digits is compared with the limit. -/
theorem isTooLarge_of_numeral (hsize : r.size? = some size) (hlatin : IsLatin size)
    (h : Numeral size n) (hlength : size.length ≤ maxDigits) :
    isTooLarge settings r = .ok (decide (settings.maxBytes < n)) := by
  rw [isTooLarge_of_digits hsize hlatin h.ne_nil fun c hc => Or.inl (h.isDigit c hc),
    h.readWhole_eq, if_neg (Nat.not_lt.2 hlength)]
  rfl

/-- No number is read from a size that is misread. -/
theorem Misread.exists_error (h : Misread size) : ∃ e, readWhole size = .error e := by
  have hforeign : ∀ c ∈ size, DigitOrForeign c :=
    fun c hc => digitOrForeign_of_isSizeDigit (h.digits c hc)
  by_cases hraised : ∃ c ∈ size, c ∈ raisedDigits
  · obtain ⟨c, hc, hmem⟩ := hraised
    exact Decimal.exists_error_of_foreign hforeign hc (raised_forall c hmem).1
  · have hlong := h.cause.resolve_left hraised
    have hdigits : ∀ c ∈ size, c.isDigit :=
      fun c hc => (h.digits c hc).resolve_right fun hmem => hraised ⟨c, hc, hmem⟩
    have hne := List.ne_nil_of_length_pos (Nat.lt_of_le_of_lt (Nat.zero_le _) hlong)
    rw [(Decimal.numeral_valueOf hne hdigits).readWhole_eq, if_pos hlong]
    exact ⟨_, rfl⟩

theorem Misread.ne_nil (h : Misread size) : size ≠ [] := by
  rintro rfl
  rcases h.cause with ⟨c, hc, -⟩ | hlong
  · exact absurd hc List.not_mem_nil
  · exact absurd hlong (Nat.not_lt_zero _)

/-- A size that is misread makes the check fail. -/
theorem isTooLarge_of_misread (settings : Settings) (hsize : r.size? = some size) (hlatin : IsLatin size)
    (h : Misread size) : ∃ e, isTooLarge settings r = .error e := by
  obtain ⟨e, he⟩ := h.exists_error
  rw [isTooLarge_of_digits hsize hlatin h.ne_nil h.digits, he]
  exact ⟨e, rfl⟩

/-- A size is not written in digits, is a number that is read, or is misread. -/
theorem size_cases (hlatin : IsLatin size) : (size.isEmpty || !size.all isSizeDigit) ∨
    (∃ n, Numeral size n ∧ size.length ≤ maxDigits) ∨ Misread size := by
  by_cases hother : size.isEmpty || !size.all isSizeDigit
  · exact Or.inl hother
  simp only [Bool.or_eq_true, List.isEmpty_iff, Bool.not_eq_true', not_or, Bool.not_eq_false]
    at hother
  have hdigits := (all_isSizeDigit_iff hlatin).1 hother.2
  by_cases hmisread : Misread size
  · exact Or.inr (Or.inr hmisread)
  have hplain : ∀ c ∈ size, c.isDigit := fun c hc =>
    (hdigits c hc).resolve_right fun hmem => hmisread ⟨hdigits, Or.inl ⟨c, hc, hmem⟩⟩
  have hshort : size.length ≤ maxDigits :=
    Nat.not_lt.1 fun hlong => hmisread ⟨hdigits, Or.inr hlong⟩
  exact Or.inr (Or.inl ⟨_, Decimal.numeral_valueOf hother.1 hplain, hshort⟩)

end Size

section Serve

variable {settings : Settings} {stamp : Stamp} {browsers : List Print.Browser} {r : Request}

/-- What is answered to a request that names a size beyond the limit. -/
def tooLargeResponse : Response := .detail 413 "Payload too large".runes

/-- What becomes of a request by its size, whatever else it asks for. A size that is misread ends it
with an error; any other size beyond the limit is told to be too large, and no route is called; and
with any other text for its size, or with none, the request is passed on as it is. -/
theorem serve_by_size (hlatin : ∀ size ∈ r.size?, IsLatin size) :
    ((∃ size ∈ r.size?, Misread size) → ∃ e,
      serve settings stamp browsers r = ⟨.error (.size e), [], [], browsers⟩) ∧
    ((∃ size ∈ r.size?, Exceeds settings.maxBytes size ∧ ¬ Misread size) →
      serve settings stamp browsers r = ⟨.ok tooLargeResponse, [], [], browsers⟩) ∧
    ((∀ size ∈ r.size?, ¬ Exceeds settings.maxBytes size ∧ ¬ Misread size) →
      serve settings stamp browsers r = serveOrigins settings stamp browsers r) := by
  refine ⟨?_, ?_, fun hother => ?_⟩
  · rintro ⟨size, hsize, hmisread⟩
    obtain ⟨e, he⟩ := isTooLarge_of_misread settings hsize (hlatin size hsize) hmisread
    refine ⟨e, ?_⟩
    rw [serve, he]
  · rintro ⟨size, hsize, ⟨n, hn, hlimit⟩, hread⟩
    have hlength : size.length ≤ maxDigits := Nat.not_lt.1 fun hlong =>
      hread ⟨fun c hc => Or.inl (hn.isDigit c hc), Or.inr hlong⟩
    rw [serve, isTooLarge_of_numeral hsize (hlatin size hsize) hn hlength, decide_eq_true hlimit]
    rfl
  · have hpasses : isTooLarge settings r = .ok false := by
      cases hsize : r.size? with
      | none => exact isTooLarge_of_none hsize
      | some size =>
          obtain ⟨hexceeds, hread⟩ := hother size hsize
          rcases size_cases (hlatin size hsize) with hdigits | ⟨n, hn, hlength⟩ | hmisread
          · exact isTooLarge_of_other hsize hdigits
          · rw [isTooLarge_of_numeral hsize (hlatin size hsize) hn hlength,
              decide_eq_false fun hlimit => hexceeds ⟨n, hn, hlimit⟩]
          · exact absurd hmisread hread
    rw [serve, hpasses]

/-- A question whether the service is there, which names its size. -/
def sizedRequest (size : Chars) : Request where
  method := "GET".runes
  path := "/api/health".runes
  headers := [("content-length".runes, size)]
  body := []

/-- One byte more than the limit, with zeros before the number. -/
theorem serve_by_size_aboveLimit : (∀ size ∈ (sizedRequest "0020971521").size?, IsLatin size) ∧
    (∃ size ∈ (sizedRequest "0020971521").size?,
      Exceeds Settings.standard.maxBytes size ∧ ¬ Misread size) ∧
    serve .standard ⟨[], []⟩ [] (sizedRequest "0020971521") =
      ⟨.ok tooLargeResponse, [], [], []⟩ := by
  have hdigits : ∀ c ∈ "0020971521".runes, c.isDigit := List.all_eq_true.1 (by decide)
  have hlatin : ∀ size ∈ (sizedRequest "0020971521").size?, IsLatin size := by
    intro size hsize
    obtain rfl := Option.some.inj hsize
    exact isLatin_of_digits hdigits
  have hnumeral : Numeral "0020971521".runes 20971521 :=
    Decimal.numeral_iff.2 ⟨by decide, hdigits, by decide⟩
  have hread : ¬ Misread "0020971521".runes := by
    rintro ⟨-, ⟨c, hc, hraised⟩ | hlong⟩
    · have hdigit := hdigits c hc
      rw [(raised_forall c hraised).1] at hdigit
      exact Bool.false_ne_true hdigit
    · exact absurd hlong (by decide)
  have hexceeds : ∃ size ∈ (sizedRequest "0020971521").size?,
      Exceeds Settings.standard.maxBytes size ∧ ¬ Misread size :=
    ⟨_, rfl, ⟨20971521, hnumeral, by decide⟩, hread⟩
  exact ⟨hlatin, hexceeds, (serve_by_size hlatin).2.1 hexceeds⟩

example : (isTooLarge .standard (sizedRequest "\xb2".runes)).toOption = none := by decide +kernel

/-- One digit more than are read as a number. -/
def longSize : Chars := List.replicate 4301 (.of '9')

/-- A size of too many digits is beyond the limit, but that is not what the request is told. -/
theorem not_serve_always_by_size : ¬ ∀ settings stamp browsers r,
    (∀ size ∈ r.size?, IsLatin size) →
      (∀ e, (serve settings stamp browsers r).value ≠ .error (.size e)) ∧
      ((∃ size ∈ r.size?, Exceeds settings.maxBytes size) →
        serve settings stamp browsers r = ⟨.ok tooLargeResponse, [], [], browsers⟩) ∧
      ((∀ size ∈ r.size?, ¬ Exceeds settings.maxBytes size) →
        serve settings stamp browsers r = serveOrigins settings stamp browsers r) := by
  intro hall
  have hsize : (sizedRequest longSize).size? = some longSize := rfl
  have hdigits : ∀ c ∈ longSize, c.isDigit := fun c hc => by
    rw [List.eq_of_mem_replicate hc]
    decide
  have hlatin := isLatin_of_digits hdigits
  have hmisread : Misread longSize := by
    refine ⟨fun c hc => Or.inl (hdigits c hc), Or.inr ?_⟩
    rw [longSize, List.length_replicate]
    decide
  obtain ⟨e, he⟩ := isTooLarge_of_misread .standard hsize hlatin hmisread
  refine (hall .standard ⟨[], []⟩ [] (sizedRequest longSize) fun size hsome => ?_).1 e ?_
  · rw [hsize] at hsome
    exact Option.some.inj hsome ▸ hlatin
  · rw [serve, he]

end Serve

end Folio.Service
