import QuantifiedComparison.Double
import Mathlib

/-!
# The form of doubles

A finite double that is not zero has a mantissa of 53 bits, or a shorter one and the least exponent
(`form_of_unpack`). In that form two doubles with the same sign, mantissa and exponent are the same
(`eq_of_unpack_eq`), so nothing is lost by working on unpacked doubles.
-/

namespace QuantifiedComparison.Double

open Float.Model Float.Model.UnpackedFloat

def Normal (m : Nat) (e : Int) : Prop :=
  2 ^ 52 ≤ m ∧ m < 2 ^ 53 ∧ -1074 ≤ e ∧ e ≤ 971

def Subnormal (m : Nat) (e : Int) : Prop :=
  0 < m ∧ m < 2 ^ 52 ∧ e = -1074

theorem Normal.log2 {m : Nat} {e : Int} (h : Normal m e) : m.log2 = 52 := by
  obtain ⟨hlo, hhi, -⟩ := h
  exact (Nat.log2_eq_iff (by omega)).mpr ⟨hlo, hhi⟩

theorem Subnormal.log2_lt {m : Nat} {e : Int} (h : Subnormal m e) : m.log2 < 52 :=
  (Nat.log2_lt (by have := h.1; omega)).mpr h.2.1

section Fields

variable (s : Sign) (x : BitVec Format.binary64.exponentBits)
  (f : BitVec Format.binary64.mantissaBitsWithoutImplicit)

theorem toBitVec_ofBitVec (v : BitVec 1) : (Sign.ofBitVec v).toBitVec = v := by
  revert v
  decide

theorem unpackSign_packComponents :
    Sign.ofBitVec (unpackSign (packComponents .binary64 s x f)) = s := by
  have h : unpackSign (packComponents .binary64 s x f) = s.toBitVec := by
    apply BitVec.eq_of_getLsbD_eq
    intro i hi
    obtain rfl : i = 0 := by omega
    simp only [unpackSign, packComponents, BitVec.getLsbD_cast, BitVec.getLsbD_extractLsb]
    rw [BitVec.getLsbD_append, BitVec.getLsbD_append]
    simp
  rw [h]
  cases s <;> rfl

/-- Every word has a sign, an exponent and a mantissa. -/
theorem exists_fields (b : BitVec Format.binary64.numBits) :
    ∃ s x f, b = packComponents .binary64 s x f := by
  refine ⟨.ofBitVec (unpackSign b), unpackExponent b, unpackMantissa b, ?_⟩
  apply BitVec.eq_of_getLsbD_eq
  intro i hi
  simp only [packComponents, toBitVec_ofBitVec, unpackSign, unpackExponent, unpackMantissa,
    BitVec.getLsbD_append, BitVec.getLsbD_cast, BitVec.getLsbD_extractLsb]
  by_cases h : i < 52
  · simp [h]
  · by_cases h' : i < 63
    · have : i - 52 < 11 := by omega
      simp [h, this]
      grind
    · have hi' : i < 64 := hi
      obtain rfl : i = 63 := by omega
      simp

/-- A mantissa with its leading bit, which the word leaves out. -/
theorem toNat_one_append : (1#1 ++ f).toNat = 2 ^ 52 + f.toNat := by
  rw [BitVec.toNat_append, ← Nat.shiftLeft_add_eq_or_of_lt f.isLt, Nat.shiftLeft_eq]
  rfl

theorem normal_of_fields (h₀ : x ≠ 0#_) (h₁ : x ≠ -1#_) :
    Normal (2 ^ 52 + f.toNat) (x.toNat - 1075) := by
  have hf := f.isLt
  have hx := x.isLt
  have : x.toNat ≠ 0 := fun h => h₀ (BitVec.eq_of_toNat_eq h)
  have : x.toNat ≠ 2047 := fun h => h₁ (BitVec.eq_of_toNat_eq h)
  unfold Normal
  simp only [Format.binary64] at *
  omega

theorem subnormal_of_fields (h : f ≠ 0#_) : Subnormal f.toNat (-1074) := by
  have : f.toNat ≠ 0 := fun h' => h (BitVec.eq_of_toNat_eq h')
  exact ⟨by omega, f.isLt, rfl⟩

theorem unpack_normal (h₀ : x ≠ 0#_) (h₁ : x ≠ -1#_) :
    UnpackedFloat.unpack .binary64 (packComponents .binary64 s x f)
      = .finite s (2 ^ 52 + f.toNat) (x.toNat - 1075) (by omega) := by
  simp only [UnpackedFloat.unpack, unpackExponent_packComponents, unpackMantissa_packComponents,
    unpackSign_packComponents, h₀, h₁, if_false, finite.injEq]
  exact ⟨trivial, toNat_one_append f, rfl⟩

theorem unpack_subnormal (h : f ≠ 0#_) :
    UnpackedFloat.unpack .binary64 (packComponents .binary64 s 0#_ f)
      = .finite s f.toNat (-1074) (subnormal_of_fields f h).1 := by
  simp only [UnpackedFloat.unpack, unpackExponent_packComponents, unpackMantissa_packComponents,
    unpackSign_packComponents, h, dite_false]
  rfl

theorem unpack_zero :
    UnpackedFloat.unpack .binary64 (packComponents .binary64 s 0#_ 0#_) = .zero s := by
  cases s <;> rfl

theorem unpack_top :
    UnpackedFloat.unpack .binary64 (packComponents .binary64 s (-1#_) f)
      = if f = 0#_ then .infinity s else .notANumber := by
  simp only [UnpackedFloat.unpack, unpackExponent_packComponents, unpackMantissa_packComponents,
    unpackSign_packComponents, if_true]

theorem unpack_ne_notANumber (h₁ : x ≠ -1#_) :
    UnpackedFloat.unpack .binary64 (packComponents .binary64 s x f) ≠ .notANumber := by
  by_cases h₀ : x = 0#_
  · subst h₀
    by_cases hf : f = 0#_
    · subst hf
      rw [unpack_zero]
      exact UnpackedFloat.noConfusion
    · rw [unpack_subnormal s f hf]
      exact UnpackedFloat.noConfusion
  · rw [unpack_normal s x f h₀ h₁]
    exact UnpackedFloat.noConfusion

theorem pack_normal {m : Nat} {e : Int} (h : Normal m e) (hm : 0 < m) :
    UnpackedFloat.pack .binary64 (.finite s m e hm)
      = packComponents .binary64 s (BitVec.ofNat _ (e + 1075).toNat) (BitVec.ofNat _ m) := by
  have hx : e + Format.binary64.exponentBias + Format.binary64.mantissaBitsWithoutImplicit
      = e + 1075 := by
    show e + (1023 : Int) + (52 : Int) = e + 1075
    omega
  obtain ⟨-, -, hlo, hhi⟩ := id h
  simp only [UnpackedFloat.pack, hx, h.log2]
  rw [if_neg (by omega), if_pos (by decide)]

theorem pack_subnormal {m : Nat} (h : Subnormal m (-1074)) (hm : 0 < m) :
    UnpackedFloat.pack .binary64 (.finite s m (-1074) hm)
      = packComponents .binary64 s 0#_ (BitVec.ofNat _ m) := by
  have hl := h.log2_lt
  have hp : Format.binary64.mantissaBits = 53 := rfl
  unfold UnpackedFloat.pack
  rw [if_neg (by decide), if_neg (by omega)]

theorem ofNat_exponent :
    BitVec.ofNat Format.binary64.exponentBits ((x.toNat - 1075 : Int) + 1075).toNat = x := by
  apply BitVec.eq_of_toNat_eq
  have hx := x.isLt
  rw [BitVec.toNat_ofNat, show ((x.toNat - 1075 : Int) + 1075).toNat = x.toNat by omega]
  exact Nat.mod_eq_of_lt hx

theorem ofNat_mantissa :
    BitVec.ofNat Format.binary64.mantissaBitsWithoutImplicit (2 ^ 52 + f.toNat) = f := by
  apply BitVec.eq_of_toNat_eq
  have hf := f.isLt
  rw [BitVec.toNat_ofNat]
  show (2 ^ 52 + f.toNat) % 2 ^ 52 = f.toNat
  simp only [Format.binary64] at *
  omega

end Fields

/-- Packing undoes unpacking; of the words for not-a-number only one is a double. -/
theorem pack_unpack (f : Float.Model) : Float.Model.pack f.unpack = f := by
  obtain ⟨w, hw⟩ := f
  have hb : UnpackedFloat.pack .binary64 (UnpackedFloat.unpack .binary64 w.toBitVec)
      = w.toBitVec := by
    obtain ⟨s, x, f, hword⟩ := exists_fields w.toBitVec
    rw [hword] at hw ⊢
    by_cases h₁ : x = -1#_
    · subst h₁
      rw [unpack_top]
      split_ifs with hf
      · subst hf
        rfl
      · exact (hw.eq_packedNaN (by simp) (by simpa using hf)).symm
    by_cases h₀ : x = 0#_
    · subst h₀
      by_cases hf : f = 0#_
      · subst hf
        rw [unpack_zero]
        rfl
      · rw [unpack_subnormal s f hf, pack_subnormal s (subnormal_of_fields f hf),
          BitVec.ofNat_toNat, BitVec.setWidth_eq]
    · rw [unpack_normal s x f h₀ h₁, pack_normal s (normal_of_fields x f h₀ h₁),
        ofNat_exponent, ofNat_mantissa]
  simp only [Float.Model.pack, Float.Model.unpack, hb]

/-- Two doubles of one sign, mantissa and exponent are the same double. -/
theorem eq_of_unpack_eq {f g : Float.Model} (h : f.unpack = g.unpack) : f = g := by
  rw [← pack_unpack f, h, pack_unpack]

theorem form_of_unpack {f : Float.Model} {s : Sign} {m : Nat} {e : Int} {hm : 0 < m}
    (h : f.unpack = .finite s m e hm) : Normal m e ∨ Subnormal m e := by
  obtain ⟨t, x, g, hword⟩ := exists_fields f.toBits.toBitVec
  rw [Float.Model.unpack, hword] at h
  by_cases h₁ : x = -1#_
  · rw [h₁, unpack_top] at h
    split_ifs at h
  by_cases h₀ : x = 0#_
  · rw [h₀] at h
    by_cases hg : g = 0#_
    · rw [hg, unpack_zero] at h
      cases h
    · rw [unpack_subnormal t g hg] at h
      cases h
      exact .inr (subnormal_of_fields g hg)
  · rw [unpack_normal t x g h₀ h₁] at h
    cases h
    exact .inl (normal_of_fields x g h₀ h₁)

/-- Unpacking undoes packing in the normal form. -/
theorem unpack_pack_normal (s : Sign) {m : Nat} {e : Int} (h : Normal m e) (hm : 0 < m) :
    (Float.Model.pack (.finite s m e hm)).unpack = .finite s m e hm := by
  have hx : (BitVec.ofNat Format.binary64.exponentBits (e + 1075).toNat).toNat
      = (e + 1075).toNat := by
    obtain ⟨-, -, hlo, hhi⟩ := h
    rw [BitVec.toNat_ofNat]
    show (e + 1075).toNat % 2 ^ 11 = (e + 1075).toNat
    omega
  have hf : 2 ^ 52 + (BitVec.ofNat Format.binary64.mantissaBitsWithoutImplicit m).toNat = m := by
    obtain ⟨hlo, hhi, -⟩ := h
    rw [BitVec.toNat_ofNat]
    show 2 ^ 52 + m % 2 ^ 52 = m
    omega
  have h₀ : BitVec.ofNat Format.binary64.exponentBits (e + 1075).toNat ≠ 0#_ := by
    intro h0
    rw [h0] at hx
    have : 0 = (e + 1075).toNat := hx
    have := h.2.2.1
    omega
  have h₁ : BitVec.ofNat Format.binary64.exponentBits (e + 1075).toNat ≠ -1#_ := by
    intro h1
    rw [h1] at hx
    have : 2047 = (e + 1075).toNat := hx
    have := h.2.2.2
    omega
  have he : ((e + 1075).toNat : Int) - 1075 = e := by
    have := h.2.2.1
    omega
  show UnpackedFloat.unpack .binary64 (UnpackedFloat.pack .binary64 (.finite s m e hm)) = _
  rw [pack_normal s h, unpack_normal s _ _ h₀ h₁]
  simp only [hx, he, hf]

/-- Only not-a-number is packed as such. -/
theorem unpack_pack_ne_notANumber {u : UnpackedFloat} (h : u ≠ .notANumber) :
    (Float.Model.pack u).unpack ≠ .notANumber := by
  show UnpackedFloat.unpack .binary64 (UnpackedFloat.pack .binary64 u) ≠ _
  cases u with
  | notANumber => exact absurd rfl h
  | infinity s =>
    rw [UnpackedFloat.pack, packedInfinity, unpack_top]
    exact UnpackedFloat.noConfusion
  | zero s => exact unpack_ne_notANumber s _ _ (by decide)
  | finite s m e hm =>
    unfold UnpackedFloat.pack
    dsimp only
    split_ifs with hx
    · rw [packedInfinity, unpack_top]
      exact UnpackedFloat.noConfusion
    · refine unpack_ne_notANumber s _ _ fun h1 => hx ?_
      have h2 := congrArg BitVec.toNat h1
      rw [BitVec.toNat_ofNat] at h2
      have h3 : _ % 2048 = 2047 := h2
      show 2048 ≤ _
      omega
    · exact unpack_ne_notANumber s _ _ (by decide)

end QuantifiedComparison.Double
