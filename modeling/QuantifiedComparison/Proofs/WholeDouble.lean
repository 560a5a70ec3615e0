import QuantifiedComparison.Proofs.DoubleOrder
import QuantifiedComparison.Value.Conversion

/-!
# Whole doubles

An integer that a double stands for exactly is rounded to that very double
(`compare?_ofInt_of_whole`), since rounding only cuts off bits that are not there. So a double that
converts to an integer equals the double nearest to that integer (`compare?_ofInteger`); the
converse fails, as several integers share one nearest double.
-/

namespace QuantifiedComparison.Double

open Float.Model Float.Model.UnpackedFloat

theorem repeat_shiftRightOne (m k : Nat) :
    Nat.repeat ExtendedMantissa.shiftRightOne k ⟨m * 2 ^ k, false, false⟩
      = ⟨m, false, false⟩ := by
  induction k generalizing m with
  | zero => simp [Nat.repeat]
  | succ k ih =>
    rw [Nat.repeat, show m * 2 ^ (k + 1) = (m * 2) * 2 ^ k by rw [Nat.pow_succ]; grind, ih]
    simp [ExtendedMantissa.shiftRightOne]

theorem log2_mul_two_pow {n : Nat} (h : n ≠ 0) (k : Nat) : (n * 2 ^ k).log2 = n.log2 + k := by
  induction k with
  | zero => simp
  | succ k ih =>
    have hk : n * 2 ^ k ≠ 0 := Nat.mul_ne_zero h (Nat.ne_of_gt (Nat.two_pow_pos k))
    rw [Nat.pow_succ, ← Nat.mul_assoc, Nat.mul_comm _ 2, Nat.log2_two_mul hk, ih, Nat.add_assoc]

/-- Shifting the mantissa and lowering the exponent by as much leaves the leading bit in place. -/
theorem totalExponent_shift {n : Nat} (h : n ≠ 0) (e : Int) (k : Nat) :
    totalExponent (n * 2 ^ k) (e - k) = totalExponent n e := by
  rw [totalExponent, totalExponent, log2_mul_two_pow h]
  omega

theorem Normal.ne_zero {m : Nat} {e : Int} (h : Normal m e) : m ≠ 0 := by
  have := h.1
  omega

theorem Normal.targetExponent {m : Nat} {e : Int} (h : Normal m e) :
    Format.binary64.targetExponent (totalExponent m e) = e := by
  have hmin : Format.binary64.minExponent = -1074 := rfl
  have hbits : (Format.binary64.mantissaBits : Int) = 53 := rfl
  have := h.2.2.1
  rw [Format.targetExponent, totalExponent, h.log2, hmin, hbits]
  omega

theorem shift_normal {m : Nat} {e : Int} (h : Normal m e) (k : Nat) :
    shiftToTargetExponent .binary64 (m * 2 ^ k) (e - k) .exact = (⟨m, false, false⟩, e) := by
  unfold shiftToTargetExponent shiftToExponent
  rw [totalExponent_shift h.ne_zero, h.targetExponent]
  have hk : (e - (e - k)).toNat = k := by omega
  simp only [hk]
  refine Prod.ext (repeat_shiftRightOne m k) ?_
  show e - k + k = e
  omega

theorem roundWithAccuracy_normal (s : Sign) {m : Nat} {e : Int} (h : Normal m e) (hm : 0 < m)
    (k : Nat) : roundWithAccuracy .binary64 s (m * 2 ^ k) (e - k) .exact = .finite s m e hm := by
  have h₂ := shift_normal h 0
  simp only [Nat.pow_zero, Nat.mul_one, Int.natCast_zero, Int.sub_zero] at h₂
  unfold roundWithAccuracy
  rw [shift_normal h k]
  simp only [ExtendedMantissa.roundedMantissa, ExtendedMantissa.accuracy,
    Accuracy.roundToNearestEven, h₂]
  rw [dif_neg h.ne_zero]

/-- Rounding does not change a number with at most 53 bits between its leading and its last one. -/
theorem round_normal (s : Sign) {n m : Nat} {e : Int} (h : Normal m e) (hm : 0 < m)
    (hn : n * 2 ^ (-e).toNat = m * 2 ^ e.toNat) :
    UnpackedFloat.round .binary64 s n 0 = .finite s m e hm := by
  have hn₀ : n ≠ 0 := by
    rintro rfl
    rw [Nat.zero_mul] at hn
    exact Nat.mul_ne_zero h.ne_zero (Nat.ne_of_gt (Nat.two_pow_pos _)) hn.symm
  have he : (0 : Int) - (-e).toNat = e - e.toNat := by omega
  have ht : Format.binary64.targetExponent (totalExponent n 0) = e := by
    rw [← totalExponent_shift hn₀ 0 (-e).toNat, hn, he, totalExponent_shift h.ne_zero,
      h.targetExponent]
  simp only [UnpackedFloat.round, ht, decreaseExponent, Nat.shiftLeft_eq, Int.zero_sub]
  rw [hn, show -((-e).toNat : Int) = e - e.toNat by omega]
  exact roundWithAccuracy_normal s h hm e.toNat

/-- An integer is rounded without its sign. -/
theorem ofInt_signed (s : Sign) {n : Nat} (hn : 0 < n) :
    UnpackedFloat.ofInt .binary64 (signed s n) = UnpackedFloat.round .binary64 s n 0 := by
  unfold UnpackedFloat.ofInt UnpackedFloat.normalize
  cases s with
  | positive =>
    rw [signed, show compare (n : Int) 0 = .gt from Int.compare_eq_gt.mpr (by omega)]
    rfl
  | negative =>
    rw [signed, show compare (-n : Int) 0 = .lt from Int.compare_eq_lt.mpr (by omega)]
    simp only [Int.neg_neg, Int.toNat_natCast]

/-- The double nearest to an integer that a double stands for is that double. -/
theorem unpack_ofInt {s : Sign} {n m : Nat} {e : Int} (h : Normal m e) (hm : 0 < m)
    (hn : n * 2 ^ (-e).toNat = m * 2 ^ e.toNat) :
    (Float.Model.ofInt (signed s n)).unpack = .finite s m e hm := by
  have hn₀ : 0 < n := by
    refine Nat.pos_of_ne_zero ?_
    rintro rfl
    rw [Nat.zero_mul] at hn
    exact Nat.mul_ne_zero h.ne_zero (Nat.ne_of_gt (Nat.two_pow_pos _)) hn.symm
  rw [Float.Model.ofInt, ofInt_signed s hn₀, round_normal s h hm hn, unpack_pack_normal s h]

/-- A whole double is zero, or its mantissa scaled by its exponent is the integer. -/
theorem exists_of_whole {f : Float} {n : Int} (h : whole? f = some n) :
    (IsZero f ∧ n = 0) ∨ ∃ s m e hm k, f.toModel.unpack = .finite s m e hm ∧ n = signed s k ∧
      k * 2 ^ (-e).toNat = m * 2 ^ e.toNat := by
  unfold whole? at h
  split at h
  · rename_i s hf
    exact .inl ⟨⟨s, hf⟩, (Option.some.inj h).symm⟩
  · rename_i s m e hm hf
    dsimp only at h
    split_ifs at h with he hdvd
    · have he' : (-e).toNat = 0 := by omega
      exact .inr ⟨s, m, e, hm, _, hf, (Option.some.inj h).symm, by rw [he']; simp⟩
    · have he' : e.toNat = 0 := by omega
      refine .inr ⟨s, m, e, hm, _, hf, (Option.some.inj h).symm, ?_⟩
      rw [he', Nat.pow_zero, Nat.mul_one]
      exact Nat.div_mul_cancel (Nat.dvd_of_mod_eq_zero hdvd)
  · cases h

theorem Subnormal.not_whole {m k : Nat} {e : Int} (h : Subnormal m e) :
    k * 2 ^ (-e).toNat ≠ m * 2 ^ e.toNat := by
  obtain ⟨hm, hm', rfl⟩ := h
  have hj : 52 ≤ (- -1074 : Int).toNat := by decide
  rw [show (-1074 : Int).toNat = 0 from rfl, Nat.pow_zero, Nat.mul_one]
  generalize (- -1074 : Int).toNat = j at hj
  have hpow : 2 ^ 52 ≤ 2 ^ j := Nat.pow_le_pow_right (by decide) hj
  rcases Nat.eq_zero_or_pos k with rfl | hk
  · omega
  · have := Nat.le_mul_of_pos_left (2 ^ j) hk
    omega

theorem compare?_ofInt_of_whole {f : Float} {n : Int} (h : whole? f = some n) :
    compare? (.ofModel (.ofInt n)) f = some .eq := by
  refine compare_unpacked_eq_iff.mpr ?_
  rcases exists_of_whole h with ⟨⟨s, hf⟩, rfl⟩ | ⟨s, m, e, hm, k, hf, rfl, hk⟩
  · exact .inr ⟨.positive, s, rfl, hf⟩
  · have hform : Normal m e := (form_of_unpack hf).resolve_right fun h => h.not_whole hk
    refine .inl ⟨?_, ?_⟩
    · rw [hf]
      exact unpack_ofInt hform hm hk
    · rw [unpack_ofInt hform hm hk]
      exact UnpackedFloat.noConfusion

/-- The double nearest to the integer that a double converts to equals that double, also at the
upper bound, where the greatest integer is rounded up to it. -/
theorem compare?_ofInteger {f : Float} {i : Int64} (h : Value.integerOfFloat? f = some i) :
    compare? (ofInteger i) f = some .eq := by
  obtain ⟨n, hn, hi⟩ := Option.bind_eq_some_iff.mp h
  have hf := compare?_ofInt_of_whole hn
  split_ifs at hi with hb
  · obtain rfl := Option.some.inj hi
    subst hb
    exact hf
  · rw [ofInteger, Float.Model.ofInt64, UnpackedFloat.ofInt64, Integer.ofInt?_eq_some_iff.mp hi]
    exact hf

theorem integerOfFloat?_of_isNaN {f : Float} (h : f.isNaN = true) :
    Value.integerOfFloat? f = none := by
  rw [Value.integerOfFloat?, whole?, isNaN_iff.mp h]
  rfl

theorem round_ne_notANumber (s : Sign) (m : Nat) (e : Int) :
    UnpackedFloat.round .binary64 s m e ≠ .notANumber := by
  unfold UnpackedFloat.round roundWithAccuracy
  dsimp only
  split_ifs <;> exact UnpackedFloat.noConfusion

/-- The double nearest to an integer is a number. -/
theorem isNaN_ofInteger (i : Int64) : (ofInteger i).isNaN = false := by
  rw [← Bool.not_eq_true, isNaN_iff]
  refine unpack_pack_ne_notANumber ?_
  unfold UnpackedFloat.ofInt64 UnpackedFloat.ofInt UnpackedFloat.normalize
  split
  · exact round_ne_notANumber _ _ _
  · exact UnpackedFloat.noConfusion
  · exact round_ne_notANumber _ _ _

end QuantifiedComparison.Double
