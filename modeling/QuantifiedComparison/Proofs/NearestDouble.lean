import QuantifiedComparison.Proofs.DoubleNumber
import QuantifiedComparison.Proofs.WholeDouble

/-!
# The double nearest to an integer

An integer of at most 53 bits is a double. A longer one is cut off after 53 bits, and goes up to the
next mantissa if what is cut off is more than a half, or just a half and the mantissa is odd
(`round_cut`). No double lies between two such neighbours (`gap`), so the result is nearest to the
integer, and of two the one with an even mantissa (`nearest_ofInteger`).

From being nearest alone it follows that rounding keeps the order of the integers (`Nearest.le`),
and that a double which is not the nearest one is on the same side of it as of the integer
(`Nearest.compares`).
-/

namespace QuantifiedComparison.Double

open Float.Model Float.Model.UnpackedFloat

/-- The mantissa of a finite double, or zero. -/
def mantissa (f : Float) : Nat :=
  match f.toModel.unpack with
  | .finite _ m _ _ => m
  | _ => 0

/-- No double is nearer to the integer than this one, and of two nearest ones this has the even
mantissa. -/
structure Nearest (n : Int) (f : Float) (x : ℚ) : Prop where
  number : number? f = some (.ofRat x)
  least : ∀ {g y}, number? g = some (.ofRat y) → |n - x| ≤ |n - y|
  even : ∀ {g y}, number? g = some (.ofRat y) → |n - x| = |n - y| → x ≠ y →
    Even (mantissa f) ∧ ¬Even (mantissa g)

namespace Nearest

variable {n k : Int} {f g : Float} {x z : ℚ}

/-- An integer that is a double is nearest to itself. -/
theorem of_exact (h : number? f = some (.ofRat n)) : Nearest n f n where
  number := h
  least _ := by
    rw [sub_self, abs_zero]
    exact abs_nonneg _
  even _ hd hne := by
    rw [sub_self, abs_zero] at hd
    exact absurd (sub_eq_zero.mp (abs_eq_zero.mp hd.symm)) hne

theorem eq_of_exact (h : Nearest n f x) (hg : number? g = some (.ofRat n)) : x = n := by
  have hd := h.least hg
  rw [sub_self, abs_zero] at hd
  exact (sub_eq_zero.mp (abs_nonpos_iff.mp hd)).symm

theorem unique (hf : Nearest n f x) (hg : Nearest n g z) : x = z := by
  by_contra hne
  have hd : |n - x| = |n - z| := le_antisymm (hf.least hg.number) (hg.least hf.number)
  exact (hg.even hf.number hd.symm (Ne.symm hne)).2 (hf.even hg.number hd hne).1

/-- Being nearest depends on the number of the double alone. -/
theorem congr (hf : Nearest n f x) (hg : number? g = some (.ofRat x)) : Nearest n g x := by
  obtain ⟨o, hfg, ho⟩ := compare?_compares hf.number hg
  obtain rfl : o = .eq := ho.eq_eq.mpr rfl
  rcases beq_iff.mp (beq_iff_compare.mpr hfg) with ⟨rfl, -⟩ | ⟨⟨s, hs⟩, ⟨t, ht⟩⟩
  · exact hf
  · have hmantissa : mantissa g = mantissa f := by rw [mantissa, mantissa, hs, ht]
    exact ⟨hg, hf.least, hmantissa ▸ hf.even⟩

/-- Rounding keeps the order: were the nearest doubles the other way round, both integers would be
half way between them. -/
theorem le (hf : Nearest n f x) (hg : Nearest k g z) (h : n ≤ k) : x ≤ z := by
  by_contra! hlt
  have hn := hf.least hg.number
  have hk := hg.least hf.number
  have hcast : (n : ℚ) ≤ k := Int.cast_le.mpr h
  rw [← sq_le_sq] at hn hk
  have hmid : x + z ≤ 2 * n := by nlinarith only [hn, hlt]
  have hmid' : 2 * k ≤ x + z := by nlinarith only [hk, hlt]
  obtain rfl : n = k := by
    have : (n : ℚ) = k := by linarith only [hmid, hmid', hcast]
    exact_mod_cast this
  exact hlt.ne' (hf.unique hg)

theorem lt_of_lt (hf : Nearest n f x) (hg : number? g = some (.ofRat z)) (h : x < z) : n < z := by
  by_contra! hle
  have hd := hf.least hg
  rw [abs_of_nonneg (by linarith), abs_of_nonneg (by linarith)] at hd
  linarith

theorem gt_of_gt (hf : Nearest n f x) (hg : number? g = some (.ofRat z)) (h : z < x) : z < n := by
  by_contra! hle
  have hd := hf.least hg
  rw [abs_of_nonpos (by linarith), abs_of_nonpos (by linarith)] at hd
  linarith

/-- A double that is not the nearest one is on the same side of it and of the integer. -/
theorem compares (hf : Nearest n f x) {y : Number} (hg : number? g = some y) {o : Ordering}
    (ho : o.Compares (.ofRat x) y) (hne : o ≠ .eq) : o.Compares (.ofRat n) y := by
  rcases y.eq_bot_or_top_or_ofRat with rfl | rfl | ⟨z, rfl⟩
  · cases o with
    | lt => exact absurd ho not_lt_bot
    | eq => exact absurd rfl hne
    | gt => exact Number.bot_lt_ofRat _
  · cases o with
    | lt => exact Number.ofRat_lt_top _
    | eq => exact absurd rfl hne
    | gt => exact absurd ho not_top_lt
  · cases o with
    | lt => exact Number.ofRat_lt_iff.mpr (hf.lt_of_lt hg (Number.ofRat_lt_iff.mp ho))
    | eq => exact absurd rfl hne
    | gt => exact Number.ofRat_lt_iff.mpr (hf.gt_of_gt hg (Number.ofRat_lt_iff.mp ho))

/-- Comparing the nearest double with another one is comparing the integer with it, unless the other
one is as near. -/
theorem order (hf : Nearest n f x) {y : Number} (hg : number? g = some y) {o : Ordering}
    (ho : o.Compares (.ofRat x) y) :
    ((∃ z, Nearest n g z) → o = .eq) ∧ (¬(∃ z, Nearest n g z) → o.Compares (.ofRat n) y) := by
  constructor
  · rintro ⟨z, hz⟩
    have hy : Number.ofRat z = y := Option.some.inj (hz.number.symm.trans hg)
    rw [ho.eq_eq, ← hy, hf.unique hz]
  · intro hne
    refine hf.compares hg ho fun heq => hne ⟨x, hf.congr ?_⟩
    rw [hg, ho.eq_eq.mp heq]

end Nearest

section Cut

/-- The quotient rounded to the nearer integer, from half way to the even one. -/
def Rounded (n k r : Nat) : Prop :=
  (r = n / 2 ^ k ∧ 2 * (n % 2 ^ k) ≤ 2 ^ k ∨ r = n / 2 ^ k + 1 ∧ 2 ^ k ≤ 2 * (n % 2 ^ k)) ∧
    (2 * (n % 2 ^ k) = 2 ^ k → Even r)

/-- Of the bits shifted out, the first one is kept, and whether any of the others was set. -/
theorem repeat_shiftRightOne_succ (n k : Nat) :
    Nat.repeat ExtendedMantissa.shiftRightOne (k + 1) ⟨n, false, false⟩
      = ⟨n / 2 ^ (k + 1), n / 2 ^ k % 2 != 0, n % 2 ^ k != 0⟩ := by
  induction k with
  | zero => simp [Nat.repeat, ExtendedMantissa.shiftRightOne, Nat.mod_one]
  | succ k ih =>
    have hsticky : (n / 2 ^ k % 2 != 0 || n % 2 ^ k != 0) = (n % 2 ^ (k + 1) != 0) := by
      rw [Nat.mod_pow_succ, Bool.eq_iff_iff]
      simp only [Bool.or_eq_true, bne_iff_ne, ne_eq, Nat.add_eq_zero_iff, mul_eq_zero,
        Nat.pow_eq_zero, OfNat.ofNat_ne_zero, false_and, false_or]
      tauto
    rw [Nat.repeat, ih, ExtendedMantissa.shiftRightOne, hsticky, Nat.div_div_eq_div_mul,
      ← Nat.pow_succ]

theorem roundedMantissa_eq (q : Nat) (half rest : Bool) :
    ExtendedMantissa.roundedMantissa ⟨q, half, rest⟩
      = if half then if rest then q + 1 else q + q % 2 else q := by
  cases half <;> cases rest <;> rfl

theorem rounded_roundedMantissa (n k : Nat) :
    Rounded n (k + 1)
      (Nat.repeat ExtendedMantissa.shiftRightOne (k + 1) ⟨n, false, false⟩).roundedMantissa := by
  have hmod : n % 2 ^ (k + 1) = n % 2 ^ k + 2 ^ k * (n / 2 ^ k % 2) := Nat.mod_pow_succ
  have hlt : n % 2 ^ k < 2 ^ k := Nat.mod_lt _ (Nat.two_pow_pos k)
  rw [repeat_shiftRightOne_succ, roundedMantissa_eq, Rounded, hmod, Nat.pow_succ, Nat.even_iff]
  rcases Nat.mod_two_eq_zero_or_one (n / 2 ^ k) with h | h <;> rw [h]
  · -- less than a half is cut off
    rw [if_neg (by decide)]
    omega
  · -- a half is cut off, and perhaps more
    rw [if_pos (by decide)]
    split_ifs with hlow
    · have := bne_iff_ne.mp hlow
      omega
    · have : n % 2 ^ k = 0 := by simpa using hlow
      omega

/-- No number of 53 bits lies between two neighbouring ones. -/
theorem gap {q p k : Nat} {d : Int} {y : ℚ} (hq : 2 ^ 52 ≤ q) (hp : p < 2 ^ 53)
    (hy : |y| = scaled p d) : y ≤ scaled q k ∨ scaled (q + 1) k ≤ y := by
  by_cases hd : d < k
  · exact .inl ((le_abs_self y).trans (hy ▸ scaled_lt_of_exponent_lt hp hq hd).le)
  · obtain ⟨j, rfl⟩ : ∃ j : Nat, d = k + j := ⟨(d - k).toNat, by omega⟩
    rw [← scaled_mul_two_pow] at hy
    by_cases hle : p * 2 ^ j ≤ q
    · exact .inl ((le_abs_self y).trans (hy ▸ scaled_le_iff.mpr hle))
    · rcases le_total 0 y with h0 | h0
      · rw [abs_of_nonneg h0] at hy
        exact .inr (hy ▸ scaled_le_iff.mpr (by omega))
      · exact .inl (h0.trans scaled_nonneg)

/-- The rounded mantissa is nearest, and even if there is another nearest one, which is odd. -/
theorem Rounded.nearest {n k r p : Nat} {d : Int} {y : ℚ} (h : Rounded n k r)
    (hq : 2 ^ 52 ≤ n / 2 ^ k) (hp : p < 2 ^ 53) (hy : |y| = scaled p d) :
    |n - scaled r k| ≤ |n - y| ∧ (|n - scaled r k| = |n - y| → scaled r k ≠ y →
      Even r ∧ ∃ c, (c = n / 2 ^ k ∨ c = n / 2 ^ k + 1) ∧ ¬Even c ∧ y = scaled c k) := by
  have hn : (n : ℚ) = scaled (n / 2 ^ k) k + (n % 2 ^ k : Nat) := by
    rw [scaled_natCast, ← Nat.cast_add, Nat.div_add_mod']
  have hunit : scaled (n / 2 ^ k + 1) k = scaled (n / 2 ^ k) k + (2 ^ k : Nat) := by
    rw [scaled_natCast, scaled_natCast, add_mul, one_mul, Nat.cast_add]
  have hlt := Nat.mod_lt n (Nat.two_pow_pos k)
  have hgap := gap (k := k) hq hp hy
  obtain ⟨hr, heven⟩ := h
  rw [hn]
  generalize n / 2 ^ k = q at *
  generalize n % 2 ^ k = t at *
  generalize 2 ^ k = u at *
  have hlt' : (t : ℚ) < u := Nat.cast_lt.mpr hlt
  have ht : (0 : ℚ) ≤ t := Nat.cast_nonneg t
  rcases hr with ⟨rfl, hle⟩ | ⟨rfl, hle⟩
  · have hle' : 2 * (t : ℚ) ≤ u := by exact_mod_cast hle
    rw [add_sub_cancel_left, abs_of_nonneg ht]
    rcases hgap with hy | hy
    · rw [abs_of_nonneg (by linarith)]
      exact ⟨by linarith, fun hd hne => absurd (by linarith) hne⟩
    · rw [hunit] at hy
      rw [abs_of_nonpos (by linarith)]
      refine ⟨by linarith, fun hd _ => ?_⟩
      have hhalf : 2 * (t : ℚ) = u := by linarith
      have hr := heven (by exact_mod_cast hhalf)
      exact ⟨hr, _, .inr rfl, fun h => Nat.even_add_one.mp h hr, by linarith⟩
  · have hle' : (u : ℚ) ≤ 2 * t := by exact_mod_cast hle
    rw [hunit, add_sub_add_left_eq_sub, abs_of_neg (by linarith)]
    rcases hgap with hy | hy
    · rw [abs_of_nonneg (by linarith)]
      refine ⟨by linarith, fun hd _ => ?_⟩
      have hhalf : 2 * (t : ℚ) = u := by linarith
      have hr := heven (by exact_mod_cast hhalf)
      exact ⟨hr, _, .inl rfl, Nat.even_add_one.mp hr, by linarith⟩
    · rw [hunit] at hy
      rw [abs_of_nonpos (by linarith)]
      exact ⟨by linarith, fun hd hne => absurd (by linarith) hne⟩

/-- A mantissa that rounding made one bit longer ends in a zero, and is normal without it. -/
theorem exists_normal_of_rounded {r : Nat} {e : Int} (hlo : 2 ^ 52 ≤ r) (hhi : r ≤ 2 ^ 53) (he : -1074 ≤ e)
    (he' : e ≤ 970) : ∃ m, ∃ j : Nat, r = m * 2 ^ j ∧ Normal m (e + j) ∧ (Even r → Even m) := by
  rcases hhi.lt_or_eq with h | rfl
  · exact ⟨r, 0, by simp, ⟨hlo, h, by omega, by omega⟩, id⟩
  · exact ⟨2 ^ 52, 1, by norm_num, ⟨le_rfl, by norm_num, by omega, by omega⟩, fun _ => by decide⟩

section

variable {n k : Nat} (hk : n.log2 = 53 + k)

include hk

theorem quotient_bounds : 2 ^ 52 ≤ n / 2 ^ (k + 1) ∧ n / 2 ^ (k + 1) < 2 ^ 53 := by
  have hn : n ≠ 0 := by
    rintro rfl
    rw [Nat.log2_zero] at hk
    omega
  obtain ⟨hlo, hhi⟩ := (Nat.log2_eq_iff hn).mp hk
  rw [Nat.le_div_iff_mul_le (Nat.two_pow_pos _), Nat.div_lt_iff_lt_mul (Nat.two_pow_pos _),
    ← Nat.pow_add, ← Nat.pow_add, show 52 + (k + 1) = 53 + k by omega, ← Nat.add_assoc]
  exact ⟨hlo, hhi⟩

theorem targetExponent_cut :
    Format.binary64.targetExponent (totalExponent n 0) = (k + 1 : Nat) := by
  have hmin : Format.binary64.minExponent = -1074 := rfl
  have hbits : (Format.binary64.mantissaBits : Int) = 53 := rfl
  rw [Format.targetExponent, totalExponent, hk, hmin, hbits]
  omega

theorem shift_cut : shiftToTargetExponent .binary64 n 0 .exact
    = (Nat.repeat ExtendedMantissa.shiftRightOne (k + 1) ⟨n, false, false⟩,
      ((k + 1 : Nat) : Int)) := by
  unfold shiftToTargetExponent shiftToExponent
  rw [targetExponent_cut hk]
  dsimp only
  rw [Int.sub_zero, Int.toNat_natCast, Int.zero_add]
  rfl

/-- A longer integer is cut off after 53 bits and rounded. -/
theorem round_cut (s : Sign) (hb : k ≤ 969) :
    ∃ r m e, ∃ hm : 0 < m, UnpackedFloat.round .binary64 s n 0 = .finite s m e hm ∧ Normal m e ∧
      Rounded n (k + 1) r ∧ scaled m e = scaled r (k + 1 : Nat) ∧ (Even r → Even m) := by
  have hround := rounded_roundedMantissa n k
  have hq := quotient_bounds hk
  have hshift := shift_cut hk
  generalize Nat.repeat ExtendedMantissa.shiftRightOne (k + 1) ⟨n, false, false⟩ = cut at *
  obtain ⟨m, j, hr, hm, heven⟩ := exists_normal_of_rounded (r := cut.roundedMantissa)
    (e := (k + 1 : Nat)) (by have := hround.1; omega) (by have := hround.1; omega) (by omega)
    (by omega)
  have hlast := shift_normal hm j
  rw [Int.add_sub_cancel, ← hr] at hlast
  refine ⟨_, m, _, Nat.pos_of_ne_zero hm.ne_zero, ?_, hm, hround, ?_, heven⟩
  · unfold UnpackedFloat.round decreaseExponent
    rw [targetExponent_cut hk]
    dsimp only
    rw [Int.toNat_eq_zero.mpr (by omega), Nat.shiftLeft_zero, Int.natCast_zero, Int.sub_zero]
    unfold roundWithAccuracy
    rw [hshift]
    dsimp only
    rw [hlast]
    exact dif_neg hm.ne_zero
  · rw [hr, scaled_mul_two_pow]

end

end Cut

section Integer

/-- What a finite double has for its number, whatever its sign. -/
def Parts (y : ℚ) (p : Nat) (d : Int) : Prop :=
  |y| = scaled p d ∧ (p = 0 ∨ Finite p d)

theorem Parts.neg {y : ℚ} {p : Nat} {d : Int} (h : Parts y p d) : Parts (-y) p d := by
  rwa [Parts, abs_neg]

theorem exists_parts {g : Float} {y : ℚ} (h : number? g = some (.ofRat y)) :
    ∃ d, Parts y (mantissa g) d := by
  have hcanonical := canonical_unpack g
  rw [number?] at h
  rw [mantissa]
  generalize g.toModel.unpack = u at *
  rcases u with (_ | _) | _ | s | ⟨(_ | _), p, d, hp⟩ <;>
    simp only [unpackedNumber?, Option.some.injEq, reduceCtorEq, Number.ofRat_inj] at h
  · exact absurd h (Number.bot_lt_ofRat y).ne
  · exact absurd h (Number.ofRat_lt_top y).ne'
  · subst h
    exact ⟨0, by rw [scaled_zero, abs_zero], .inl rfl⟩
  · subst h
    exact ⟨d, by rw [abs_neg, abs_of_nonneg scaled_nonneg], .inr hcanonical⟩
  · subst h
    exact ⟨d, abs_of_nonneg scaled_nonneg, .inr hcanonical⟩

/-- As `Nearest`, for a number without its sign. -/
def NearestParts (n m : Nat) (e : Int) : Prop :=
  ∀ y p d, Parts y p d → |n - scaled m e| ≤ |n - y| ∧
    (|n - scaled m e| = |n - y| → scaled m e ≠ y → Even m ∧ ¬Even p)

theorem NearestParts.nearest {n m : Nat} {e : Int} (h : NearestParts n m e) {s : Sign} {f : Float}
    (hm : 0 < m) (hf : f.toModel.unpack = .finite s m e hm) : ∃ x, Nearest (signed s n) f x := by
  have hmantissa : mantissa f = m := by rw [mantissa, hf]
  cases s with
  | positive =>
    refine ⟨scaled m e, by rw [number?, hf]; rfl, fun hg => ?_, fun hg hd hne => ?_⟩
    · obtain ⟨d, hy⟩ := exists_parts hg
      exact (h _ _ _ hy).1
    · obtain ⟨d, hy⟩ := exists_parts hg
      rw [hmantissa]
      exact (h _ _ _ hy).2 hd hne
  | negative =>
    have hflip : ∀ z : ℚ, |((signed .negative n : Int) : ℚ) - z| = |n - -z| := fun z => by
      rw [← abs_neg, signed]
      push_cast
      congr 1
      ring
    refine ⟨-scaled m e, by rw [number?, hf]; rfl, fun hg => ?_, fun hg hd hne => ?_⟩
    · obtain ⟨d, hy⟩ := exists_parts hg
      rw [hflip, hflip, neg_neg]
      exact (h _ _ _ hy.neg).1
    · obtain ⟨d, hy⟩ := exists_parts hg
      rw [hflip, hflip, neg_neg] at hd
      rw [hmantissa]
      exact (h _ _ _ hy.neg).2 hd fun heq => hne (neg_eq_iff_eq_neg.mpr heq)

theorem Rounded.nearestParts {n k r m : Nat} {e : Int} (hq : 2 ^ 52 ≤ n / 2 ^ k)
    (hq' : n / 2 ^ k < 2 ^ 53) (hk : k ≤ 971) (h : Rounded n k r) (hm : scaled m e = scaled r k)
    (heven : Even r → Even m) : NearestParts n m e := by
  intro y p d hy
  have hp : p < 2 ^ 53 := hy.2.elim (fun h => by omega) Finite.lt
  obtain ⟨hle, htie⟩ := h.nearest hq hp hy.1
  rw [hm]
  refine ⟨hle, fun hd hne => ?_⟩
  obtain ⟨hr, c, hc, hodd, rfl⟩ := htie hd hne
  have hc' : c ≠ 2 ^ 53 := by
    rintro rfl
    exact hodd (by decide)
  have hnormal : Normal c k := ⟨by omega, by omega, by omega, by omega⟩
  obtain rfl : c = p := by
    have hcp : scaled c k = scaled p d := by rw [← hy.1, abs_of_nonneg scaled_nonneg]
    rcases hy.2 with rfl | hfinite
    · exact absurd hcp (by rw [scaled_zero]; exact (scaled_pos (by omega)).ne')
    · exact scaled_inj (.inl hnormal) hfinite hcp
  exact ⟨heven hr, hodd⟩

/-- An integer of at most 53 bits has the form of a double. -/
theorem exists_normal_of_le {n : Nat} (h : 0 < n) (hb : n ≤ 2 ^ 53) :
    ∃ m e, Normal m e ∧ n * 2 ^ (-e).toNat = m * 2 ^ e.toNat := by
  rcases hb.lt_or_eq with hlt | rfl
  · obtain ⟨hlo, hhi⟩ := (Nat.log2_eq_iff h.ne').mp rfl
    obtain ⟨j, hj⟩ : ∃ j, 52 = n.log2 + j :=
      ⟨52 - n.log2, by have := (Nat.log2_lt h.ne').mpr hlt; omega⟩
    refine ⟨n * 2 ^ j, -j, ⟨?_, ?_, by omega, by omega⟩, by simp⟩
    · rw [hj, Nat.pow_add]
      exact Nat.mul_le_mul_right _ hlo
    · rw [show 53 = n.log2 + 1 + j by omega, Nat.pow_add]
      exact Nat.mul_lt_mul_of_pos_right hhi (Nat.two_pow_pos j)
  · exact ⟨2 ^ 52, 1, ⟨le_rfl, by norm_num, by norm_num, by norm_num⟩, by norm_num⟩

theorem scaled_eq_natCast_iff {n m : Nat} {e : Int} :
    scaled m e = n ↔ n * 2 ^ (-e).toNat = m * 2 ^ e.toNat := by
  have hm : scaled m e = scaled (m * 2 ^ e.toNat) (-(-e).toNat) := by
    rw [scaled_mul_two_pow, show -((-e).toNat : Int) + e.toNat = e by omega]
  have hn : (n : ℚ) = scaled (n * 2 ^ (-e).toNat) (-(-e).toNat) := by
    rw [scaled_mul_two_pow, neg_add_cancel, ← Nat.cast_zero, scaled_natCast, Nat.pow_zero,
      Nat.mul_one]
  rw [hm, hn, le_antisymm_iff, scaled_le_iff, scaled_le_iff, ← le_antisymm_iff, eq_comm]

/-- A whole double stands for its scaled mantissa, with its sign. -/
theorem number?_of_unpack {f : Float} {s : Sign} {n m : Nat} {e : Int} {hm : 0 < m}
    (hf : f.toModel.unpack = .finite s m e hm) (h : n * 2 ^ (-e).toNat = m * 2 ^ e.toNat) :
    number? f = some (.ofRat (signed s n)) := by
  rw [number?, hf]
  cases s with
  | positive => rw [unpackedNumber?, scaled_eq_natCast_iff.mpr h, signed, Int.cast_natCast]
  | negative =>
    rw [unpackedNumber?, scaled_eq_natCast_iff.mpr h, signed, Int.cast_neg, Int.cast_natCast]

theorem eq_zero_or_signed (i : Int) : i = 0 ∨ ∃ s n, 0 < n ∧ i = signed s n := by
  rcases lt_trichotomy i 0 with h | h | h
  · exact .inr ⟨.negative, i.natAbs, by omega, by rw [signed]; omega⟩
  · exact .inl h
  · exact .inr ⟨.positive, i.natAbs, by omega, by rw [signed]; omega⟩

theorem natAbs_signed (s : Sign) (n : Nat) : (signed s n).natAbs = n := by
  cases s with
  | positive => rfl
  | negative => rw [signed, Int.natAbs_neg, Int.natAbs_natCast]

/-- An integer of at most 53 bits is a double. -/
theorem number?_ofInteger {i : Int64} (h : i.toInt.natAbs ≤ 2 ^ 53) :
    number? (ofInteger i) = some (.ofRat i.toInt) := by
  show number? (.ofModel (.ofInt i.toInt)) = _
  rcases eq_zero_or_signed i.toInt with h0 | ⟨s, n, hn, hs⟩
  · rw [h0, Int.cast_zero]
    rfl
  · rw [hs] at h ⊢
    rw [natAbs_signed] at h
    obtain ⟨m, e, hnormal, hme⟩ := exists_normal_of_le hn h
    exact number?_of_unpack (unpack_ofInt hnormal (Nat.pos_of_ne_zero hnormal.ne_zero) hme) hme

/-- An integer is rounded to the nearest double, and from half way to the one with an even
mantissa. -/
theorem nearest_ofInteger (i : Int64) : ∃ x, Nearest i.toInt (ofInteger i) x := by
  have hrange := i.le_toInt
  have hrange' := i.toInt_lt
  rcases Nat.lt_or_ge (2 ^ 53) i.toInt.natAbs with h | h
  · show ∃ x, Nearest i.toInt (.ofModel (.ofInt i.toInt)) x
    obtain ⟨s, n, hn, hs⟩ := (eq_zero_or_signed i.toInt).resolve_left (by omega)
    have hb : n < 2 ^ 64 := by rw [← natAbs_signed s n, ← hs]; omega
    rw [hs, natAbs_signed] at h
    obtain ⟨k, hk⟩ := Nat.exists_eq_add_of_le ((Nat.le_log2 hn.ne').mpr h.le)
    have hlog := (Nat.log2_lt hn.ne').mpr hb
    obtain ⟨r, m, e, hm, hround, hnormal, hr, hme, heven⟩ := round_cut hk s (by omega)
    obtain ⟨hq, hq'⟩ := quotient_bounds hk
    rw [hs]
    refine (hr.nearestParts hq hq' (by omega) hme heven).nearest hm ?_
    show (Float.Model.ofInt (signed s n)).unpack = _
    rw [Float.Model.ofInt, ofInt_signed s hn, hround, unpack_pack_normal s hnormal]
  · exact ⟨_, .of_exact (number?_ofInteger h)⟩

end Integer

end QuantifiedComparison.Double
