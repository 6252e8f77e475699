/-!
Texts, code point by code point. A code point is a character, or half of a surrogate pair that
stands without the other half. An escape may bring such a half into a text, where it is carried
along as any character is; only as bytes it cannot be written.
-/
namespace Folio

/-- A code point of a text. -/
inductive Rune where
  | of (c : Char)
  /-- Half of a surrogate pair, counted from the first of all halves. -/
  | half (k : Fin 0x800)
deriving DecidableEq, Repr

instance : Coe Char Rune := ⟨.of⟩

instance : Inhabited Rune := ⟨.of default⟩

/-- A text taken code point by code point. -/
abbrev Chars := List Rune

namespace Rune

/-- The digit of a number below ten. -/
def digit (n : Nat) : Rune := .of (Nat.digitChar n)

/-- The number of a code point. -/
def toNat : Rune → Nat
  | .of c => c.toNat
  | .half k => 0xD800 + k

instance : Hashable Rune := ⟨fun a => hash a.toNat⟩

/-- The code point with a number; the first one for a number that is none. -/
def ofNat (n : Nat) : Rune :=
  if h : 0xD800 ≤ n ∧ n < 0xE000 then .half ⟨n - 0xD800, by omega⟩ else .of (Char.ofNat n)

/-- Code points are ordered by their numbers. -/
instance : LE Rune := ⟨fun a b => a.toNat ≤ b.toNat⟩

instance : LT Rune := ⟨fun a b => a.toNat < b.toNat⟩

instance : DecidableLE Rune := fun a b => Nat.decLe a.toNat b.toNat

instance : DecidableLT Rune := fun a b => Nat.decLt a.toNat b.toNat

/-- A code point is no character. -/
def isHalf : Rune → Bool
  | .of _ => false
  | .half _ => true

def isDigit (c : Rune) : Bool := 48 ≤ c.toNat && c.toNat ≤ 57

/-- A capital letter of the Latin alphabet. -/
def isUpper (c : Rune) : Bool := 65 ≤ c.toNat && c.toNat ≤ 90

/-- A small letter of the Latin alphabet. -/
def isLower (c : Rune) : Bool := 97 ≤ c.toNat && c.toNat ≤ 122

def isAlpha (c : Rune) : Bool := c.isUpper || c.isLower

def isAlphanum (c : Rune) : Bool := c.isAlpha || c.isDigit

/-- The number of bytes in the common encoding, which a half has no place in. -/
def utf8Size : Rune → Nat
  | .of c => c.utf8Size
  | .half _ => 3

/-- The small letter of a capital one of the Latin alphabet. -/
def toLower (c : Rune) : Rune := if c.isUpper then ofNat (c.toNat + 32) else c

/-- The capital letter of a small one of the Latin alphabet. -/
def toUpper (c : Rune) : Rune := if c.isLower then ofNat (c.toNat - 32) else c

@[simp] theorem toNat_of (c : Char) : (of c).toNat = c.toNat := rfl

theorem toNat_half_bounds (k : Fin 0x800) : 0xD800 ≤ (half k).toNat ∧ (half k).toNat < 0xE000 := by
  have hk := k.isLt
  simp only [toNat]
  omega

theorem not_surrogate (c : Char) : c.toNat < 0xD800 ∨ 0xE000 ≤ c.toNat := by
  rcases c.valid with h | ⟨h, -⟩
  · exact Or.inl h
  · exact Or.inr h

theorem toNat_inj {a b : Rune} : a.toNat = b.toNat ↔ a = b := by
  constructor
  · intro h
    cases a with
    | of c =>
        cases b with
        | of d => exact congrArg of (Char.toNat_inj.1 h)
        | half k =>
            have hk := toNat_half_bounds k
            have hc := not_surrogate c
            rw [toNat_of] at h
            omega
    | half j =>
        have hj := toNat_half_bounds j
        cases b with
        | of d =>
            have hd := not_surrogate d
            rw [toNat_of] at h
            omega
        | half k =>
            simp only [toNat] at h
            exact congrArg half (Fin.ext (by omega))
  · rintro rfl
    rfl

theorem ofNat_toNat (a : Rune) : ofNat a.toNat = a := by
  cases a with
  | of c =>
      have hc := not_surrogate c
      rw [toNat_of, ofNat, dif_neg (by omega), Char.ofNat_toNat]
  | half k =>
      rw [ofNat, dif_pos (toNat_half_bounds k)]
      exact congrArg half (Fin.ext (by simp [toNat]))

theorem toNat_ofNat {n : Nat} (hn : n ≤ 0x10FFFF) : (ofNat n).toNat = n := by
  by_cases hhalf : 0xD800 ≤ n ∧ n < 0xE000
  · rw [ofNat, dif_pos hhalf]
    simp only [toNat]
    omega
  · rw [ofNat, dif_neg hhalf]
    have hvalid : n.isValidChar := by
      rw [Nat.isValidChar]
      omega
    rw [toNat_of, Char.ofNat, dif_pos hvalid]
    rfl

instance : Std.IsLinearOrder Rune where
  le_refl a := Nat.le_refl a.toNat
  le_trans _ _ _ := Nat.le_trans
  le_antisymm _ _ hab hba := toNat_inj.1 (Nat.le_antisymm hab hba)
  le_total a b := Nat.le_total a.toNat b.toNat

instance : Std.LawfulOrderLT Rune where
  lt_iff _ _ := Nat.lt_iff_le_and_not_ge

end Rune

namespace Text

/-- A number in decimal digits. -/
def decimal (n : Nat) : Chars := (Nat.toDigits 10 n).map .of

theorem decimal_ne_nil (n : Nat) : decimal n ≠ [] := by
  rw [decimal, ne_eq, List.map_eq_nil_iff]
  exact Nat.toDigits_ne_nil

theorem isDigit_of_mem_decimal {n : Nat} {c : Rune} (h : c ∈ decimal n) : c.isDigit := by
  obtain ⟨d, hd, rfl⟩ := List.mem_map.1 h
  have hdigit := Nat.isDigit_of_mem_toDigits (by decide) (by decide) hd
  rw [Rune.isDigit, Bool.and_eq_true, decide_eq_true_eq, decide_eq_true_eq]
  simpa [Char.isDigit, UInt32.le_iff_toNat_le] using hdigit

end Text

end Folio

/-- The code points of a string. -/
def String.runes (s : String) : Folio.Chars := s.toList.map .of

@[simp] theorem String.runes_inj {s t : String} : s.runes = t.runes ↔ s = t := by
  rw [runes, runes, List.map_inj_right fun a b h => Folio.Rune.of.inj h, String.toList_inj]

@[simp] theorem String.runes_eq_nil {s : String} : s.runes = [] ↔ s = "" :=
  runes_inj (t := "")

instance : Coe String Folio.Chars := ⟨String.runes⟩
