import QuantifiedComparison.Proofs.DoubleOrder

/-!
# The number of a double

A finite double stands for its mantissa scaled by its exponent, and the infinities stand around all
such numbers. Doubles compare as their numbers do (`compare?_compares`): a greater exponent makes
for a greater number, since only a mantissa of 53 bits has an exponent above the least.
-/

namespace QuantifiedComparison

/-- A rational number or one of the two infinities. -/
abbrev Number := WithBot (WithTop ℚ)

namespace Number

def ofRat (x : ℚ) : Number :=
  ((x : WithTop ℚ) : WithBot (WithTop ℚ))

variable {x y : ℚ}

@[simp] theorem ofRat_lt_iff : ofRat x < ofRat y ↔ x < y := by
  rw [ofRat, ofRat, WithBot.coe_lt_coe, WithTop.coe_lt_coe]

@[simp] theorem ofRat_inj : ofRat x = ofRat y ↔ x = y := by
  rw [ofRat, ofRat, WithBot.coe_inj, WithTop.coe_inj]

theorem ofRat_strictMono : StrictMono ofRat :=
  fun _ _ => ofRat_lt_iff.mpr

theorem ofRat_le_iff : ofRat x ≤ ofRat y ↔ x ≤ y :=
  ofRat_strictMono.le_iff_le

@[simp] theorem bot_lt_ofRat (x : ℚ) : ⊥ < ofRat x :=
  WithBot.bot_lt_coe _

@[simp] theorem ofRat_lt_top (x : ℚ) : ofRat x < ⊤ :=
  WithBot.coe_lt_coe.mpr (WithTop.coe_lt_top x)

theorem eq_bot_or_top_or_ofRat (y : Number) : y = ⊥ ∨ y = ⊤ ∨ ∃ z, y = ofRat z := by
  induction y using WithBot.recBotCoe with
  | bot => exact .inl rfl
  | coe y =>
    induction y using WithTop.recTopCoe with
    | top => exact .inr (.inl rfl)
    | coe z => exact .inr (.inr ⟨z, rfl⟩)

end Number

namespace Double

open Float.Model Float.Model.UnpackedFloat

/-- A mantissa scaled by an exponent. -/
def scaled (m : Nat) (e : Int) : ℚ :=
  m * 2 ^ e

def unpackedNumber? : UnpackedFloat → Option Number
  | .notANumber => none
  | .infinity .positive => some ⊤
  | .infinity .negative => some ⊥
  | .zero _ => some (.ofRat 0)
  | .finite .positive m e _ => some (.ofRat (scaled m e))
  | .finite .negative m e _ => some (.ofRat (-scaled m e))

/-- The number that a double stands for, unless it is not a number. -/
def number? (f : Float) : Option Number :=
  unpackedNumber? f.toModel.unpack

section Scaled

variable {m n : Nat} {e d : Int}

theorem scaled_zero : scaled 0 e = 0 := by
  rw [scaled, Nat.cast_zero, zero_mul]

theorem scaled_pos (hm : 0 < m) : 0 < scaled m e := by
  unfold scaled
  positivity

theorem neg_scaled_neg (hm : 0 < m) : -scaled m e < 0 :=
  neg_neg_of_pos (scaled_pos hm)

theorem scaled_nonneg : 0 ≤ scaled m e := by
  unfold scaled
  positivity

theorem scaled_lt_iff : scaled m e < scaled n e ↔ m < n := by
  rw [scaled, scaled, mul_lt_mul_iff_left₀ (by positivity), Nat.cast_lt]

theorem scaled_le_iff : scaled m e ≤ scaled n e ↔ m ≤ n := by
  rw [scaled, scaled, mul_le_mul_iff_left₀ (by positivity), Nat.cast_le]

/-- Shifting the mantissa and lowering the exponent by as much leaves the number. -/
theorem scaled_mul_two_pow (m k : Nat) (e : Int) : scaled (m * 2 ^ k) e = scaled m (e + k) := by
  rw [scaled, scaled, zpow_add₀ two_ne_zero, zpow_natCast]
  push_cast
  ring

theorem scaled_natCast (m k : Nat) : scaled m k = (m * 2 ^ k : Nat) := by
  rw [scaled, zpow_natCast]
  push_cast
  rfl

/-- A full mantissa with a greater exponent stands for a greater number. -/
theorem scaled_lt_of_exponent_lt (hm : m < 2 ^ 53) (hn : 2 ^ 52 ≤ n) (h : e < d) :
    scaled m e < scaled n d := by
  calc scaled m e < scaled (2 ^ 53) e := scaled_lt_iff.mpr hm
    _ = scaled (2 ^ 52) (e + 1) := scaled_mul_two_pow (2 ^ 52) 1 e
    _ ≤ scaled (2 ^ 52) d := by
      unfold scaled
      gcongr
      · norm_num
      · omega
    _ ≤ scaled n d := by
      unfold scaled
      gcongr

/-- The mantissa and the exponent of a finite double. -/
def Finite (m : Nat) (e : Int) : Prop :=
  Normal m e ∨ Subnormal m e

theorem Finite.lt (h : Finite m e) : m < 2 ^ 53 := by
  rcases h with h | h
  · exact h.2.1
  · exact h.2.1.trans (by norm_num)

theorem Finite.least_le (h : Finite m e) : -1074 ≤ e := by
  rcases h with h | h
  · exact h.2.2.1
  · exact h.2.2.ge

/-- Only the least exponent goes with a mantissa that is not full. -/
theorem Finite.full (h : Finite m e) (he : -1074 < e) : 2 ^ 52 ≤ m := by
  rcases h with h | h
  · exact h.1
  · exact absurd h.2.2 he.ne'

theorem compares_scaled (hm : Finite m e) (hn : Finite n d) :
    ((compare e d).then (compare m n)).Compares (scaled m e) (scaled n d) := by
  rcases lt_trichotomy e d with h | rfl | h
  · rw [compare_lt_iff_lt.mpr h]
    exact scaled_lt_of_exponent_lt hm.lt (hn.full (hm.least_le.trans_lt h)) h
  · rw [compare_eq_iff_eq.mpr rfl]
    rcases lt_trichotomy m n with h | rfl | h
    · rw [compare_lt_iff_lt.mpr h]
      exact scaled_lt_iff.mpr h
    · rw [compare_eq_iff_eq.mpr rfl]
      exact rfl
    · rw [compare_gt_iff_gt.mpr h]
      exact scaled_lt_iff.mpr h
  · rw [compare_gt_iff_gt.mpr h]
    exact scaled_lt_of_exponent_lt hn.lt (hm.full (hn.least_le.trans_lt h)) h

/-- A number has one mantissa only. -/
theorem scaled_inj (hm : Finite m e) (hn : Finite n d) (h : scaled m e = scaled n d) : m = n := by
  have hcompares := compares_scaled hm hn
  exact compare_eq_iff_eq.mp (Ordering.then_eq_eq.mp (hcompares.eq_eq.mpr h)).2

end Scaled

section Compare

theorem compares_neg {x y : ℚ} {o : Ordering} (h : o.Compares x y) : o.swap.Compares (-x) (-y) := by
  have hanti : StrictAnti (Neg.neg : ℚ → ℚ) := fun _ _ => neg_lt_neg
  exact Ordering.compares_swap.mpr (hanti.compares.mpr h)

theorem compares_ofRat {x y : ℚ} {o : Ordering} (h : o.Compares x y) :
    o.Compares (Number.ofRat x) (.ofRat y) :=
  Number.ofRat_strictMono.compares.mpr h

/-- The form of the unpacked doubles. -/
def Canonical : UnpackedFloat → Prop
  | .finite _ m e _ => Finite m e
  | _ => True

theorem canonical_unpack (f : Float) : Canonical f.toModel.unpack := by
  cases h : f.toModel.unpack with
  | finite s m e hm => exact form_of_unpack h
  | _ => trivial

theorem compare_unpacked {u v : UnpackedFloat} (hu : Canonical u) (hv : Canonical v) {x y : Number}
    (hx : unpackedNumber? u = some x) (hy : unpackedNumber? v = some y) :
    ∃ o, u.compare v = some o ∧ o.Compares x y := by
  have hsign : compare Sign.negative Sign.negative = .eq ∧
      compare Sign.negative Sign.positive = .lt ∧
      compare Sign.positive Sign.negative = .gt ∧
      compare Sign.positive Sign.positive = .eq := by decide
  rcases u with (_ | _) | _ | s | ⟨(_ | _), m, e, hm⟩ <;>
    rcases v with (_ | _) | _ | t | ⟨(_ | _), n, d, hn⟩ <;>
    simp only [unpackedNumber?, Option.some.injEq, reduceCtorEq] at hx hy <;>
    subst hx hy <;>
    refine ⟨_, rfl, ?_⟩ <;>
    try simp only [hsign, Ordering.compares_lt, Ordering.compares_gt, Ordering.compares_eq,
      gt_iff_lt, Number.bot_lt_ofRat, Number.ofRat_lt_top, Number.ofRat_lt_iff, bot_lt_top]
  -- What is left are finite doubles, to be compared with zero or with one another.
  · exact neg_scaled_neg hn
  · exact scaled_pos hn
  · exact neg_scaled_neg hm
  · exact compares_ofRat (compares_neg (compares_scaled hu hv))
  · exact (neg_scaled_neg hm).trans (scaled_pos hn)
  · exact scaled_pos hm
  · exact (neg_scaled_neg hn).trans (scaled_pos hm)
  · exact compares_ofRat (compares_scaled hu hv)

/-- Doubles compare as their numbers do. -/
theorem compare?_compares {a b : Float} {x y : Number} (ha : number? a = some x)
    (hb : number? b = some y) : ∃ o, compare? a b = some o ∧ o.Compares x y :=
  compare_unpacked (canonical_unpack a) (canonical_unpack b) ha hb

theorem number?_eq_none_iff {f : Float} : number? f = none ↔ f.isNaN = true := by
  rw [isNaN_iff, number?]
  rcases f.toModel.unpack with (_ | _) | _ | s | ⟨(_ | _), m, e, hm⟩ <;> simp [unpackedNumber?]

end Compare

end Double

end QuantifiedComparison
