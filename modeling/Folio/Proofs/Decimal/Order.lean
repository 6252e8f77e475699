import Mathlib.Order.WithBot
import Folio.Proofs.Decimal.Rounding

/-!
The order of 64-bit numbers and their arithmetic. A number is placed among the fractions and the
two infinities; one that is no number stands where it is neither less than another nor greater. A
sum grows with what is added up, although it is rounded, and nothing is lost by adding what is not
negative.
-/
namespace Folio.Decimal.Binary64

/-- The fractions with an infinity at each end. -/
abbrev Extended := WithBot (WithTop ℚ)

/-- The place of a number that another is compared with. -/
def upper : Binary64 → Extended
  | .nan => ⊥
  | .infinite negative => if negative then ⊥ else ⊤
  | x@(.finite ..) => ((x.toRat : WithTop ℚ) : Extended)

/-- The place of a number that is compared with another. -/
def lower : Binary64 → Extended
  | .nan => ⊤
  | .infinite negative => if negative then ⊥ else ⊤
  | x@(.finite ..) => ((x.toRat : WithTop ℚ) : Extended)

theorem lt_iff (x y : Binary64) : x < y ↔ lower x < upper y := by
  change lt x y = true ↔ _
  cases x with
  | nan => simp [lt, lower]
  | infinite a =>
      cases y with
      | nan => simp [lt, upper]
      | infinite b => cases a <;> cases b <;> simp [lt, lower, upper]
      | finite b n f =>
          cases a <;> simp [lt, lower, upper, WithBot.bot_lt_coe]
  | finite a m e =>
      cases y with
      | nan => simp [lt, upper]
      | infinite b => cases b <;> simp [lt, lower, upper, WithBot.coe_lt_coe, ← WithBot.coe_top]
      | finite b n f => simp [lt, lower, upper]

theorem upper_eq_lower {x : Binary64} (h : x ≠ .nan) : upper x = lower x := by
  cases x with
  | nan => contradiction
  | infinite negative => rfl
  | finite negative mantissa exponent => rfl

theorem le_iff (x y : Binary64) : x ≤ y ↔ x ≠ .nan ∧ y ≠ .nan ∧ upper x ≤ upper y := by
  change (x != .nan && y != .nan && !lt y x) = true ↔ _
  have hlt : lt y x = true ↔ lower y < upper x := lt_iff y x
  simp only [Bool.and_eq_true, bne_iff_ne, Bool.not_eq_true', Bool.eq_false_iff, ne_eq, hlt, not_lt,
    and_assoc]
  refine and_congr_right fun _ => and_congr_right fun hy => ?_
  rw [upper_eq_lower hy]

section Nearest

theorem toRat_finite (negative : Bool) (mantissa : Nat) (exponent : Int) :
    toRat (.finite negative mantissa exponent) =
      if negative then -magnitude mantissa exponent else magnitude mantissa exponent := by
  obtain ⟨hden, hratio⟩ := ratio_eq mantissa exponent
  rw [toRat, ← hratio]
  dsimp only
  rw [Rat.mkRat_eq_div]
  cases negative with
  | true =>
      rw [if_pos rfl, if_pos rfl, Int.cast_neg, Int.cast_natCast, neg_div]
  | false => rw [if_neg Bool.false_ne_true, if_neg Bool.false_ne_true, Int.cast_natCast]

/-- A fraction rounded to 53 bits, without a bound for the result. -/
def nearest (q : ℚ) : ℚ :=
  if q = 0 then 0
  else if q < 0 then -rounded q.num.natAbs q.den
  else rounded q.num.natAbs q.den

/-- The least power of two that is not a finite number. -/
@[irreducible] def range : ℚ := 2 ^ 1024

theorem range_pos : 0 < range := by
  unfold range
  positivity

/-- The place of a rounded fraction, beyond the range with the infinities. -/
def bounded (q : ℚ) : Extended :=
  if range ≤ q then ⊤ else if q ≤ -range then ⊥ else ((q : WithTop ℚ) : Extended)

theorem bounded_of_lt {q : ℚ} (hlow : -range < q) (hhigh : q < range) :
    bounded q = ((q : WithTop ℚ) : Extended) := by
  rw [bounded, if_neg (not_le.2 hhigh), if_neg (not_le.2 hlow)]

/-- The number is where rounding leaves it. -/
def IsRounded (x : Binary64) : Prop := x.isFinite → upper (ofRat x.toRat) = upper x

/-- A fraction is rounded to a number of its magnitude if that is within the range, and to an
infinity if it is not. -/
theorem ofRatio_cases (negative : Bool) {num den : Nat} (hnum : 0 < num) (hden : 0 < den) :
    (rounded num den < range ∧ ∃ m e, ofRatio negative num den = .finite negative m e ∧
        magnitude m e = rounded num den ∧ m ≤ 2 ^ 53 ∧ minExponent ≤ e) ∨
      range ≤ rounded num den ∧ ofRatio negative num den = .infinite negative := by
  obtain ⟨hmin, -, -⟩ := unitExponent_bounds hnum hden
  obtain ⟨hhigh, hlow⟩ := scaled_bounds hnum hden
  have hplace : ∀ (m : Nat) (e : Int), m < 2 ^ 53 → (e = minExponent ∨ 2 ^ 52 ≤ m) →
      magnitude m e = rounded num den →
      (e ≤ maxExponent → rounded num den < range) ∧
        (maxExponent < e → range ≤ rounded num den) := by
    intro m e hm hbits hvalue
    rw [← hvalue, magnitude, range]
    constructor
    · intro he
      calc (m : ℚ) * 2 ^ e < 2 ^ 53 * 2 ^ e := by
            gcongr
            exact_mod_cast hm
        _ ≤ 2 ^ 53 * 2 ^ maxExponent := by
            gcongr
            exact one_le_two
        _ = 2 ^ 1024 := by
            rw [show maxExponent = (971 : Nat) from rfl, zpow_natCast, ← pow_add]
    · intro he
      have hmore : 2 ^ 52 ≤ m := hbits.resolve_left fun hleast => by
        rw [hleast] at he
        exact absurd he (by decide)
      calc (2 : ℚ) ^ 1024 = 2 ^ 52 * 2 ^ (972 : Nat) := by rw [← pow_add]
        _ = 2 ^ 52 * 2 ^ ((972 : Nat) : Int) := by rw [zpow_natCast]
        _ ≤ 2 ^ 52 * 2 ^ e := by
            gcongr
            · exact one_le_two
            · exact Int.add_one_le_of_lt he
        _ ≤ m * 2 ^ e := by
            gcongr
            exact_mod_cast hmore
  have hrounded : magnitude (scaled num den (unitExponent num den)) (unitExponent num den) =
      rounded num den := rfl
  have hzero : (num == 0) = false := by simpa using Nat.ne_of_gt hnum
  have hpower : Nat.pow 2 53 = 2 ^ 53 := rfl
  rw [ofRatio, hzero, if_neg Bool.false_ne_true, hpower]
  simp only [beq_iff_eq]
  generalize unitExponent num den = e at *
  generalize scaled num den e = m at *
  by_cases hfull : m = 2 ^ 53
  · have hvalue : magnitude (2 ^ 52) (e + 1) = rounded num den := by
      rw [← hrounded, hfull, magnitude, magnitude, zpow_add_one₀ two_ne_zero]
      push_cast
      ring
    obtain ⟨hin, hout⟩ := hplace (2 ^ 52) (e + 1) (by decide) (Or.inr (le_refl _)) hvalue
    rw [if_pos hfull]
    by_cases hrange : maxExponent < e + 1
    · exact Or.inr ⟨hout hrange, if_pos hrange⟩
    · refine Or.inl ⟨hin (not_lt.1 hrange), 2 ^ 52, e + 1, if_neg hrange, hvalue, by decide, ?_⟩
      omega
  · obtain ⟨hin, hout⟩ := hplace m e (by omega) hlow hrounded
    rw [if_neg hfull]
    by_cases hrange : maxExponent < e
    · exact Or.inr ⟨hout hrange, if_pos hrange⟩
    · exact Or.inl ⟨hin (not_lt.1 hrange), _, _, if_neg hrange, hrounded, hhigh, hmin⟩

theorem nearest_neg (q : ℚ) : nearest (-q) = -nearest q := by
  unfold nearest
  rcases lt_trichotomy q 0 with hneg | rfl | hpos
  · simp [hneg.ne, hneg, not_lt.2 hneg.le]
  · simp
  · simp [hpos.ne', hpos, not_lt.2 hpos.le]

theorem natAbs_num_pos {q : ℚ} (h : q ≠ 0) : 0 < q.num.natAbs :=
  Int.natAbs_pos.2 (Rat.num_ne_zero.2 h)

theorem natAbs_num_div_den {q : ℚ} (h : 0 ≤ q) : (q.num.natAbs : ℚ) / q.den = q := by
  have hnum : ((q.num.natAbs : Int) : ℚ) = q.num :=
    congrArg Int.cast (Int.natAbs_of_nonneg (Rat.num_nonneg.2 h))
  rw [← Int.cast_natCast, hnum, Rat.num_div_den]

theorem nearest_of_pos {q : ℚ} (h : 0 < q) : nearest q = rounded q.num.natAbs q.den := by
  rw [nearest, if_neg h.ne', if_neg (not_lt.2 h.le)]

theorem nearest_nonneg {q : ℚ} (h : 0 ≤ q) : 0 ≤ nearest q := by
  rcases h.eq_or_lt with rfl | hpos
  · rw [nearest, if_pos rfl]
  · rw [nearest_of_pos hpos, rounded]
    positivity

theorem nearest_mono {q r : ℚ} (h : q ≤ r) : nearest q ≤ nearest r := by
  have hpositive : ∀ {q r : ℚ}, 0 < q → q ≤ r → nearest q ≤ nearest r := by
    intro q r hq hle
    have hr := hq.trans_le hle
    rw [nearest_of_pos hq, nearest_of_pos hr]
    refine rounded_mono (natAbs_num_pos hq.ne') q.den_pos (natAbs_num_pos hr.ne') r.den_pos ?_
    rwa [natAbs_num_div_den hq.le, natAbs_num_div_den hr.le]
  rcases lt_trichotomy q 0 with hneg | rfl | hpos
  · rcases lt_or_ge r 0 with hr | hr
    · have hopposite := hpositive (neg_pos.2 hr) (neg_le_neg h)
      rw [nearest_neg, nearest_neg] at hopposite
      exact neg_le_neg_iff.1 hopposite
    · refine le_trans ?_ (nearest_nonneg hr)
      have hopposite := nearest_nonneg (neg_nonneg.2 hneg.le)
      rw [nearest_neg] at hopposite
      exact neg_nonneg.1 hopposite
  · rw [nearest, if_pos rfl]
    exact nearest_nonneg h
  · exact hpositive hpos h

/-- A number that has 53 bits is not changed by rounding. -/
theorem nearest_magnitude {m : Nat} {e : Int} (hm : m ≤ 2 ^ 53) (he : minExponent ≤ e) :
    nearest (magnitude m e) = magnitude m e := by
  rcases Nat.eq_zero_or_pos m with rfl | hpos
  · rw [magnitude, Nat.cast_zero, zero_mul, nearest, if_pos rfl]
  · have hvalue : 0 < magnitude m e := by
      rw [magnitude]
      positivity
    have hfraction := natAbs_num_div_den hvalue.le
    rw [nearest_of_pos hvalue, rounded_eq_self (natAbs_num_pos hvalue.ne') (Rat.den_pos _) hm he
      hfraction, hfraction]

theorem bounded_mono {q r : ℚ} (h : q ≤ r) : bounded q ≤ bounded r := by
  unfold bounded
  by_cases hhigh : range ≤ r
  · rw [if_pos hhigh]
    exact le_top
  · by_cases hlow : q ≤ -range
    · rw [if_neg fun hq => hhigh (hq.trans h), if_pos hlow]
      exact bot_le
    · rw [if_neg fun hq => hhigh (hq.trans h), if_neg hlow, if_neg hhigh,
        if_neg fun hr => hlow (h.trans hr)]
      exact_mod_cast h

theorem upper_finite (negative : Bool) (mantissa : Nat) (exponent : Int) :
    upper (.finite negative mantissa exponent) =
      ((toRat (.finite negative mantissa exponent) : WithTop ℚ) : Extended) := rfl

theorem toRat_zero (negative : Bool) (exponent : Int) :
    toRat (.finite negative 0 exponent) = 0 := by
  rw [toRat_finite, magnitude, Nat.cast_zero, zero_mul, neg_zero, ite_self]

theorem upper_zero (negative : Bool) (exponent : Int) :
    upper (.finite negative 0 exponent) = ((0 : WithTop ℚ) : Extended) := by
  rw [upper_finite, toRat_zero]
  rfl

theorem ofRat_zero : ofRat 0 = .finite false 0 minExponent := by decide

theorem isRounded_zero (negative : Bool) (exponent : Int) :
    IsRounded (.finite negative 0 exponent) := by
  intro _
  rw [toRat_zero, ofRat_zero, upper_zero, upper_zero]

/-- Where a rounded fraction is placed. -/
theorem upper_ofRat (q : ℚ) : upper (ofRat q) = bounded (nearest q) := by
  have hrange := range_pos
  rcases eq_or_ne q 0 with rfl | hq
  · rw [ofRat_zero, upper_zero, nearest, if_pos rfl, bounded_of_lt (by linarith) hrange]
    rfl
  · have hnonneg : 0 ≤ rounded q.num.natAbs q.den := by
      rw [rounded]
      positivity
    rcases ofRatio_cases (q < 0) (natAbs_num_pos hq) q.den_pos with
      ⟨hin, m, e, hfinite, hvalue, -, -⟩ | ⟨hout, hinfinite⟩
    · rw [ofRat, hfinite, upper_finite, toRat_finite, hvalue, nearest, if_neg hq]
      by_cases hneg : q < 0
      · rw [if_pos hneg, decide_eq_true hneg, if_pos rfl,
          bounded_of_lt (neg_lt_neg hin) (by linarith)]
      · rw [if_neg hneg, decide_eq_false hneg, if_neg Bool.false_ne_true,
          bounded_of_lt (by linarith) hin]
    · rw [ofRat, hinfinite, nearest, if_neg hq, upper]
      by_cases hneg : q < 0
      · rw [if_pos hneg, decide_eq_true hneg, if_pos rfl, bounded, if_neg (by linarith),
          if_pos (neg_le_neg hout)]
      · rw [if_neg hneg, decide_eq_false hneg, if_neg Bool.false_ne_true, bounded, if_pos hout]

theorem upper_ofRat_mono {q r : ℚ} (h : q ≤ r) : upper (ofRat q) ≤ upper (ofRat r) := by
  rw [upper_ofRat, upper_ofRat]
  exact bounded_mono (nearest_mono h)

theorem lower_finite (negative : Bool) (mantissa : Nat) (exponent : Int) :
    lower (.finite negative mantissa exponent) =
      ((toRat (.finite negative mantissa exponent) : WithTop ℚ) : Extended) := rfl

/-- A fraction is rounded to a number, and that is not rounded to another one. -/
theorem isRounded_ofRat (q : ℚ) : ofRat q ≠ .nan ∧ IsRounded (ofRat q) := by
  rcases eq_or_ne q 0 with rfl | hq
  · rw [ofRat_zero]
    exact ⟨by simp, isRounded_zero _ _⟩
  · rcases ofRatio_cases (q < 0) (natAbs_num_pos hq) q.den_pos with
      ⟨hin, m, e, hfinite, hvalue, hm, he⟩ | ⟨-, hinfinite⟩
    · have hnonneg : 0 ≤ magnitude m e := by
        rw [magnitude]
        positivity
      have hrange := range_pos
      rw [← hvalue] at hin
      rw [ofRat, hfinite]
      refine ⟨by simp, fun _ => ?_⟩
      rw [upper_ofRat, upper_finite, toRat_finite]
      split
      · rw [nearest_neg, nearest_magnitude hm he, bounded_of_lt (neg_lt_neg hin) (by linarith)]
      · rw [nearest_magnitude hm he, bounded_of_lt (by linarith) hin]
    · rw [ofRat, hinfinite]
      exact ⟨by simp, fun hfinite => by contradiction⟩

end Nearest

section Sums

variable {x y c s : Binary64}

theorem add_finite (hx : x.isFinite) (hy : y.isFinite) :
    upper (x + y) = upper (ofRat (x.toRat + y.toRat)) ∧ x + y ≠ .nan ∧ IsRounded (x + y) := by
  cases x with
  | nan => contradiction
  | infinite a => contradiction
  | finite a m e =>
      cases y with
      | nan => contradiction
      | infinite b => contradiction
      | finite b n f =>
          change upper (add _ _) = _ ∧ add _ _ ≠ _ ∧ IsRounded (add _ _)
          simp only [add, beq_iff_eq]
          split
          · rename_i hzero
            rw [hzero, ofRat_zero, upper_zero, upper_zero]
            exact ⟨rfl, by simp, isRounded_zero _ _⟩
          · exact ⟨rfl, isRounded_ofRat _⟩

theorem isRounded_add (x y : Binary64) : IsRounded (x + y) := by
  by_cases hfinite : x.isFinite ∧ y.isFinite
  · exact (add_finite hfinite.1 hfinite.2).2.2
  · intro hsum
    cases x with
    | nan => contradiction
    | infinite a =>
        cases y with
        | nan => contradiction
        | infinite b => cases a <;> cases b <;> contradiction
        | finite b n f => contradiction
    | finite a m e =>
        cases y with
        | nan => contradiction
        | infinite b => contradiction
        | finite b n f => exact absurd ⟨rfl, rfl⟩ hfinite

/-- What is not negative is a fraction or the infinity above all. -/
theorem nonneg_cases (h : 0 ≤ c) : c = .infinite false ∨ c.isFinite ∧ 0 ≤ c.toRat := by
  obtain ⟨-, hnan, hle⟩ := (le_iff 0 c).1 h
  cases c with
  | nan => contradiction
  | infinite negative =>
      cases negative with
      | true => exact absurd hle (by decide)
      | false => exact Or.inl rfl
  | finite negative mantissa exponent =>
      have hzero : upper 0 = ((0 : WithTop ℚ) : Extended) := upper_zero _ _
      rw [hzero, upper_finite] at hle
      exact Or.inr ⟨rfl, by exact_mod_cast hle⟩

theorem upper_add_of_bot (hx : upper x = ⊥) (hc : 0 ≤ c) : upper (x + c) = ⊥ := by
  cases x with
  | nan => rfl
  | infinite negative =>
      cases negative with
      | false => exact absurd hx (by decide)
      | true =>
          rcases nonneg_cases hc with rfl | ⟨hfinite, -⟩
          · rfl
          · cases c with
            | nan => contradiction
            | infinite negative => contradiction
            | finite negative mantissa exponent => rfl
  | finite negative mantissa exponent =>
      rw [upper_finite] at hx
      exact absurd hx (WithBot.coe_ne_bot)

/-- A sum grows with what is added up. -/
theorem upper_add_le_add (hc : 0 ≤ c) (h : upper x ≤ upper y) : upper (x + c) ≤ upper (y + c) := by
  by_cases hbot : upper x = ⊥
  · rw [upper_add_of_bot hbot hc]
    exact bot_le
  · cases y with
    | nan => exact absurd (le_bot_iff.1 h) hbot
    | infinite b =>
        cases b with
        | true => exact absurd (le_bot_iff.1 h) hbot
        | false =>
            have htop : upper (infinite false + c) = ⊤ := by
              rcases nonneg_cases hc with rfl | ⟨hfinite, -⟩
              · rfl
              · cases c with
                | nan => contradiction
                | infinite negative => contradiction
                | finite negative mantissa exponent => rfl
            rw [htop]
            exact le_top
    | finite b n f =>
        cases x with
        | nan => exact absurd rfl hbot
        | infinite a =>
            cases a with
            | true => exact absurd rfl hbot
            | false =>
                rw [upper_finite] at h
                exact absurd (top_le_iff.1 h) (by simp [← WithBot.coe_top])
        | finite a m e =>
            rcases nonneg_cases hc with rfl | ⟨hfinite, -⟩
            · exact le_refl _
            · rw [(add_finite rfl hfinite).1, (add_finite rfl hfinite).1]
              rw [upper_finite, upper_finite] at h
              have hle : toRat (finite a m e) ≤ toRat (finite b n f) := by exact_mod_cast h
              exact upper_ofRat_mono (by linarith)

/-- What is not negative adds to a number that is one. -/
theorem upper_le_add (hx : x.IsRounded) (hc : 0 ≤ c) : upper x ≤ upper (x + c) := by
  by_cases hbot : upper x = ⊥
  · rw [hbot]
    exact bot_le
  · cases x with
    | nan => exact absurd rfl hbot
    | infinite a =>
        cases a with
        | true => exact absurd rfl hbot
        | false =>
            rcases nonneg_cases hc with rfl | ⟨hfinite, -⟩
            · exact le_refl _
            · cases c with
              | nan => contradiction
              | infinite negative => contradiction
              | finite negative mantissa exponent => exact le_refl _
    | finite a m e =>
        rcases nonneg_cases hc with rfl | ⟨hfinite, hnonneg⟩
        · exact le_top
        · rw [(add_finite rfl hfinite).1, ← hx rfl]
          exact upper_ofRat_mono (by linarith)

theorem nonneg_zero : (0 : Binary64) ≤ 0 :=
  (le_iff 0 0).2 ⟨by decide, by decide, le_refl _⟩

theorem nonneg_add (hx : 0 ≤ x) (hc : 0 ≤ c) : 0 ≤ x + c := by
  have hinfinite : 0 ≤ infinite false := by decide
  rcases nonneg_cases hx with rfl | ⟨hfinite, hnonneg⟩
  · rcases nonneg_cases hc with rfl | ⟨hfinite, -⟩
    · decide
    · cases c with
      | nan => contradiction
      | infinite negative => contradiction
      | finite negative mantissa exponent => exact hinfinite
  · rcases nonneg_cases hc with rfl | ⟨hfinite', hnonneg'⟩
    · cases x with
      | nan => contradiction
      | infinite negative => contradiction
      | finite negative mantissa exponent => exact hinfinite
    · obtain ⟨hsum, hnan, -⟩ := add_finite hfinite hfinite'
      refine (le_iff _ _).2 ⟨by decide, hnan, ?_⟩
      have hzero : upper 0 = upper (ofRat 0) := by rw [ofRat_zero]; rfl
      rw [hsum, hzero]
      exact upper_ofRat_mono (by linarith)

theorem toRat_nonneg (h : 0 ≤ x) : 0 ≤ x.toRat := by
  rcases nonneg_cases h with rfl | ⟨-, hnonneg⟩
  · exact le_refl _
  · exact hnonneg

theorem toRat_le_toRat (hx : x.isFinite) (hy : y.isFinite) (h : x ≤ y) : x.toRat ≤ y.toRat := by
  cases x with
  | nan => contradiction
  | infinite negative => contradiction
  | finite a m e =>
      cases y with
      | nan => contradiction
      | infinite negative => contradiction
      | finite b n f =>
          have hle := ((le_iff _ _).1 h).2.2
          rw [upper_finite, upper_finite] at hle
          exact_mod_cast hle

theorem eq_infinite_of_bot (hx : x ≠ .nan) (h : upper x = ⊥) : x = .infinite true := by
  cases x with
  | nan => exact absurd rfl hx
  | infinite negative =>
      cases negative with
      | true => rfl
      | false => exact absurd h (by decide)
  | finite negative mantissa exponent => exact absurd h WithBot.coe_ne_bot

theorem eq_infinite_of_top (h : upper x = ⊤) : x = .infinite false := by
  cases x with
  | nan => exact absurd h (by decide)
  | infinite negative =>
      cases negative with
      | true => exact absurd h (by decide)
      | false => rfl
  | finite negative mantissa exponent =>
      rw [upper_finite, ← WithBot.coe_top] at h
      exact absurd (WithBot.coe_injective h) (WithTop.coe_ne_top)

theorem lower_add_finite (hx : x.isFinite) (hy : y.isFinite) :
    lower (x + y) = upper (ofRat (x.toRat + y.toRat)) := by
  obtain ⟨hsum, hnan, -⟩ := add_finite hx hy
  exact (upper_eq_lower hnan).symm.trans hsum

/-- A sum that is compared with another number grows with what is added. -/
theorem lower_add_le_add_left (h : x ≤ y) (c : Binary64) : lower (c + x) ≤ lower (c + y) := by
  obtain ⟨hx, hy, hle⟩ := (le_iff x y).1 h
  cases c with
  | nan => exact le_refl _
  | infinite negative =>
      cases negative with
      | false =>
          cases y with
          | nan => contradiction
          | infinite b =>
              cases b with
              | true => rw [eq_infinite_of_bot hx (le_bot_iff.1 hle)]
              | false => exact le_top
          | finite b n f => exact le_top
      | true =>
          cases x with
          | nan => contradiction
          | infinite a =>
              cases a with
              | true => exact bot_le
              | false => rw [eq_infinite_of_top (top_le_iff.1 hle)]
          | finite a m e => exact bot_le
  | finite negative mantissa exponent =>
      cases y with
      | nan => contradiction
      | infinite b =>
          cases b with
          | true => rw [eq_infinite_of_bot hx (le_bot_iff.1 hle)]
          | false => exact le_top
      | finite b n f =>
          cases x with
          | nan => contradiction
          | infinite a =>
              cases a with
              | true => exact bot_le
              | false => exact absurd (eq_infinite_of_top (top_le_iff.1 hle)) (by simp)
          | finite a m e =>
              rw [lower_add_finite rfl rfl, lower_add_finite rfl rfl]
              rw [upper_finite, upper_finite] at hle
              have hrat : toRat (finite a m e) ≤ toRat (finite b n f) := by exact_mod_cast hle
              exact upper_ofRat_mono (by linarith)

/-- A sum that is compared with another number grows with what a finite number is added to. -/
theorem lower_add_le_add_right (hc : c.isFinite) (h : lower x ≤ lower y) :
    lower (x + c) ≤ lower (y + c) := by
  cases c with
  | nan => contradiction
  | infinite negative => contradiction
  | finite negative mantissa exponent =>
      cases y with
      | nan => exact le_top
      | infinite b =>
          cases b with
          | false => exact le_top
          | true =>
              cases x with
              | nan => exact absurd (le_bot_iff.1 h) (by decide)
              | infinite a =>
                  cases a with
                  | false => exact absurd (le_bot_iff.1 h) (by decide)
                  | true => exact le_refl _
              | finite a m e => exact absurd (le_bot_iff.1 h) WithBot.coe_ne_bot
      | finite b n f =>
          cases x with
          | nan => exact absurd (eq_infinite_of_top (x := finite b n f) (top_le_iff.1 h)) (by simp)
          | infinite a =>
              cases a with
              | true => exact bot_le
              | false =>
                  exact absurd (eq_infinite_of_top (x := finite b n f) (top_le_iff.1 h)) (by simp)
          | finite a m e =>
              rw [lower_add_finite rfl rfl, lower_add_finite rfl rfl]
              rw [lower_finite, lower_finite] at h
              have hrat : toRat (finite a m e) ≤ toRat (finite b n f) := by exact_mod_cast h
              exact upper_ofRat_mono (by linarith)

theorem toRat_neg (x : Binary64) : (-x).toRat = -x.toRat := by
  change (neg x).toRat = _
  cases x with
  | nan => simp [neg, toRat]
  | infinite negative => simp [neg, toRat]
  | finite negative mantissa exponent =>
      rw [neg, toRat_finite, toRat_finite]
      cases negative <;> simp

theorem neg_le_neg_of_le (h : x ≤ y) : -y ≤ -x := by
  obtain ⟨hx, hy, hle⟩ := (le_iff x y).1 h
  rw [le_iff]
  cases x with
  | nan => contradiction
  | infinite a =>
      cases a with
      | true =>
          refine ⟨?_, by simp [Neg.neg, neg], le_top⟩
          cases y <;> first | contradiction | simp [Neg.neg, neg]
      | false =>
          obtain rfl := eq_infinite_of_top (top_le_iff.1 hle)
          exact ⟨by simp [Neg.neg, neg], by simp [Neg.neg, neg], le_refl _⟩
  | finite a m e =>
      cases y with
      | nan => contradiction
      | infinite b =>
          cases b with
          | true => exact absurd (le_bot_iff.1 hle) WithBot.coe_ne_bot
          | false => exact ⟨by simp [Neg.neg, neg], by simp [Neg.neg, neg], bot_le⟩
      | finite b n f =>
          refine ⟨by simp [Neg.neg, neg], by simp [Neg.neg, neg], ?_⟩
          rw [upper_finite, upper_finite] at hle
          have hrat : toRat (finite a m e) ≤ toRat (finite b n f) := by exact_mod_cast hle
          have hopposite : toRat (-finite b n f) ≤ toRat (-finite a m e) := by
            rw [toRat_neg, toRat_neg]
            exact neg_le_neg hrat
          change ((toRat (-finite b n f) : WithTop ℚ) : Extended) ≤
            ((toRat (-finite a m e) : WithTop ℚ) : Extended)
          exact_mod_cast hopposite

/-- The more is taken away, the less is left to be compared with. -/
theorem lower_sub_le_sub_left (h : x ≤ y) (c : Binary64) : lower (c - y) ≤ lower (c - x) :=
  lower_add_le_add_left (neg_le_neg_of_le h) c

theorem lower_sub_le_sub_right (hc : c.isFinite) (h : lower x ≤ lower y) :
    lower (x - c) ≤ lower (y - c) := by
  refine lower_add_le_add_right ?_ h
  cases c with
  | nan => contradiction
  | infinite negative => contradiction
  | finite negative mantissa exponent => rfl

end Sums

end Folio.Decimal.Binary64
