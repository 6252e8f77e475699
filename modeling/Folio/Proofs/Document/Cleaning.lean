import Folio.Document.Assembly
import Folio.Proofs.Sanitize.WrittenPieces

/-!
Fragments that are stripped of resources from outside and then sanitized. The two steps read the
fragment by rules of their own, and what is raw text to the first may be markup to the second. So
an external address may be left, but only as that of a start tag which the second step keeps.
-/
namespace Folio.Document

open Resource (stripFragment isExternalAttribute)
open Sanitize (Keeps ShownAs)

/-- An attribute that is read in the text leaves the document. -/
def ShowsExternal (text : Chars) : Prop :=
  ∃ events, Markup.readEvents text = .ok events ∧ ∃ tag ∈ Markup.startTags events,
    ∃ name value, (name, some value) ∈ tag.attrs ∧ isExternalAttribute name value

/-- No attribute that is kept of a text leaves the document, neither as it stands nor as its
references read, and its name can be written. -/
def KeepsInside (text : Chars) : Prop :=
  ∀ name attrs, Keeps text name attrs → ∀ attr ∈ attrs, Markup.isAttributeName attr.1 ∧
    ∀ shown, ShownAs attr.2 shown → isExternalAttribute (Text.lower attr.1) shown = false

theorem not_showsExternal_nil : ¬ShowsExternal [] := by
  rintro ⟨events, hread, tag, htag, -⟩
  obtain rfl := Except.ok.inj hread
  exact absurd htag List.not_mem_nil

/-- A sanitized text shows no external address if none is kept of what is sanitized. -/
theorem not_showsExternal_of_sanitize {text : Chars} {sanitized : Logged Chars}
    (hkeeps : KeepsInside text) (h : Sanitize.sanitize .ready text = sanitized)
    (hquiet : sanitized.records = []) : ¬ShowsExternal sanitized.value := by
  unfold Sanitize.sanitize at h
  split at h
  · rename_i hempty
    rw [List.isEmpty_iff.1 hempty] at h
    rw [← h]
    exact not_showsExternal_nil
  · dsimp only at h
    split at h
    · rename_i out hout
      rw [← h]
      rintro ⟨events, hread, tag, htag, name, value, hattr, hexternal⟩
      obtain ⟨keptName, attrs, hkept, -, hattrs⟩ := Sanitize.exists_keeps_of_clean hout
        (fun name attrs hkept attr hmem => (hkeeps name attrs hkept attr hmem).1) hread htag
      obtain ⟨attr, hmem, rfl, hshown⟩ := hattrs name value hattr
      rw [(hkeeps keptName attrs hkept attr hmem).2 value hshown] at hexternal
      contradiction
    · rw [← h] at hquiet
      contradiction

/-- With both switches on, a fragment is sanitized once it is stripped. -/
theorem Security.clean_eq {security : Security} {fragment stripped : Chars}
    (hsanitizes : security.sanitizes) (hexternal : security.allowsExternal = false)
    (hstripped : stripFragment fragment = .ok stripped) :
    security.clean fragment = .ok (Sanitize.sanitize .ready stripped) := by
  rw [clean, hexternal, if_neg Bool.false_ne_true, hstripped, hsanitizes]
  rfl

/-- With both switches on, a fragment shows no external address if none is kept of it once it is
stripped. -/
theorem Security.not_showsExternal_of_clean {security : Security} {fragment stripped : Chars}
    {cleaned : Logged Chars} (hsanitizes : security.sanitizes)
    (hexternal : security.allowsExternal = false)
    (hstripped : stripFragment fragment = .ok stripped) (hkeeps : KeepsInside stripped)
    (h : security.clean fragment = .ok cleaned) (hquiet : cleaned.records = []) :
    ¬ShowsExternal cleaned.value := by
  rw [clean_eq hsanitizes hexternal hstripped] at h
  exact not_showsExternal_of_sanitize hkeeps (Except.ok.inj h) hquiet

/-- A link to the outside around an image of the document. -/
def linkedImage : Chars := "<a href=\"//x\"><img src=\"b.png\"></a>".runes

def strippedImage : Chars := "<a><img src=\"b.png\"/></a>".runes

theorem stripFragment_linkedImage : stripFragment linkedImage = .ok strippedImage :=
  eq_ok_of_toOption (by decide +kernel)

theorem keepsInside_strippedImage : KeepsInside strippedImage := by
  rintro name attrs ⟨content, pieces, hcontent, hpieces, hstart⟩ attr hattr
  have hread : (Html.read Sanitize.accept strippedImage).bind
      (fun content => (Sanitize.piecesOf content).toOption) =
        some [.start "a".runes [], .start "img".runes [("src".runes, "b.png".runes)],
          .close "a".runes] := by
    decide +kernel
  rw [hcontent, Option.bind_some, hpieces] at hread
  obtain rfl := Option.some.inj hread
  obtain rfl : attr = ("src".runes, "b.png".runes) := by
    rcases List.mem_cons.1 hstart with hlink | hlater
    · obtain ⟨rfl, rfl⟩ := Sanitize.Piece.start.inj hlink
      exact absurd hattr List.not_mem_nil
    · rcases List.mem_cons.1 hlater with himage | hclose
      · obtain ⟨rfl, rfl⟩ := Sanitize.Piece.start.inj himage
        exact List.mem_singleton.1 hattr
      · cases List.mem_singleton.1 hclose
  refine ⟨by decide, fun shown hshown => ?_⟩
  have hplain : shown = "b.png".runes := by
    rcases hshown with heq | ⟨written, hrestore, hdecoded⟩
    · exact heq
    · rw [show (Sanitize.quoteValue "b.png".runes).2 = "b.png".runes by decide,
        Sanitize.restore_of_not_mem (by decide)] at hrestore
      obtain rfl := Except.ok.inj hrestore
      exact (Except.ok.inj hdecoded).symm
  rw [hplain]
  decide +kernel

theorem clean_linkedImage : (⟨true, false⟩ : Security).clean linkedImage =
    .ok (.quiet "<a><img src=\"b.png\"></a>".runes) := by
  have hsanitized : Sanitize.sanitize .ready strippedImage =
      .quiet "<a><img src=\"b.png\"></a>".runes := by
    decide +kernel
  rw [Security.clean_eq rfl rfl stripFragment_linkedImage, hsanitized]

theorem Security.not_showsExternal_of_clean_linkedImage :
    ¬ShowsExternal "<a><img src=\"b.png\"></a>".runes :=
  have hsanitizes : (⟨true, false⟩ : Security).sanitizes := rfl
  Security.not_showsExternal_of_clean hsanitizes rfl stripFragment_linkedImage
    keepsInside_strippedImage clean_linkedImage rfl

/-- An image inside a script, which is text to the first step. -/
def hiddenImage : Chars := "<script><img src=\"//x\"></script>".runes

def bareImage : Chars := "<img src=\"//x\">".runes

theorem showsExternal_bareImage : ShowsExternal bareImage := by
  have hread : Markup.readEvents bareImage =
      .ok [.start ⟨"img".runes, [("src".runes, some "//x".runes)], false⟩] :=
    eq_ok_of_toOption (by decide +kernel)
  exact ⟨_, hread, _, List.mem_cons_self, "src".runes, "//x".runes, List.mem_cons_self,
    by decide +kernel⟩

/-- The switches alone do not keep external addresses out: of an image inside a script nothing is
stripped, and what is left of it when it is sanitized is the image. -/
theorem Security.not_clean_never_showsExternal :
    ¬∀ (fragment : Chars) (cleaned : Logged Chars),
      (⟨true, false⟩ : Security).clean fragment = .ok cleaned → cleaned.records = [] →
        ¬ShowsExternal cleaned.value := by
  intro hnever
  have hstripped : stripFragment hiddenImage = .ok hiddenImage :=
    eq_ok_of_toOption (by decide +kernel)
  have hsanitized : Sanitize.sanitize .ready hiddenImage = .quiet bareImage := by decide +kernel
  have hclean : (⟨true, false⟩ : Security).clean hiddenImage = .ok (.quiet bareImage) := by
    rw [clean_eq rfl rfl hstripped, hsanitized]
  exact hnever hiddenImage (.quiet bareImage) hclean rfl showsExternal_bareImage

end Folio.Document
