import QuantifiedComparison.Comparison.Outcome
import QuantifiedComparison.Proofs.DoubleOrder
import QuantifiedComparison.Value.Equality

/-!
# The equality of values

On values of one type, equality, the order and the comparisons for equality say the same
(`equals_iff_compare?`,
`outcome_of_same_type`). Equal values have one canonical form, so a set of
values has `v` among them exactly when one of them equals `v` (`isAmong_iff`), and a set of rows of
width one is a set of values (`isAmong_single`).
-/

namespace QuantifiedComparison

namespace Value

theorem type_eq_of_equals {a b : Value} (h : a.equals b = true) : a.type = b.type := by
  cases a <;> cases b <;> first | rfl | cases h

theorem type_eq_null_iff {v : Value} : v.type = .null ↔ v = .null := by
  cases v <;> simp [type]

theorem isNull_iff {v : Value} : v.isNull = true ↔ v = .null := by
  cases v <;> simp [isNull]

theorem isNull_eq_false_iff {v : Value} : v.isNull = false ↔ v ≠ .null := by
  rw [← Bool.not_eq_true, isNull_iff, ne_eq]

theorem equals_iff_compare? {a b : Value} (h : a.type = b.type) :
    a.equals b = true ↔ a.compare? b = some .eq := by
  cases a with
  | float f =>
    cases b with
    | float g => exact Double.beq_iff_compare
    | _ => cases h
  | integer i =>
    cases b with
    | integer j =>
      simp only [equals, compare?, beq_iff_eq, Option.some.injEq, Int.compare_eq_eq]
      exact Int64.toInt_inj.symm
    | _ => cases h
  | _ => cases b <;> first | (simp [equals, compare?]; done) | cases h

theorem equals_symm {a b : Value} (h : a.equals b = true) : b.equals a = true := by
  cases a with
  | float f =>
    cases b with
    | float g => exact Double.beq_symm h
    | _ => cases h
  | _ => cases b <;> first | rfl | cases h | (simp only [equals, beq_iff_eq] at h ⊢; exact h.symm)

theorem equals_comm (a b : Value) : a.equals b = b.equals a := by
  rw [Bool.eq_iff_iff]
  exact ⟨equals_symm, equals_symm⟩

theorem canonical_eq_of_equals {a b : Value} (h : a.equals b = true) :
    a.canonical = b.canonical := by
  cases a with
  | float f =>
    cases b with
    | float g => exact congrArg float (Double.canonical_eq_of_beq h)
    | _ => cases h
  | _ => cases b <;> first | rfl | cases h | simpa [equals, canonical] using h

theorem isAmong_iff {v : Value} {ws : List Value} :
    v.isAmong ws = true ↔ ∃ w ∈ ws, w.equals v = true := by
  simp only [isAmong, List.any_eq_true, List.mem_filter, decide_eq_true_eq]
  constructor
  · rintro ⟨w, ⟨hw, -⟩, he⟩
    exact ⟨w, hw, he⟩
  · rintro ⟨w, hw, he⟩
    exact ⟨w, ⟨hw, canonical_eq_of_equals he⟩, he⟩

theorem any_equals (v : Value) (ws : List Value) :
    (ws.any fun w => w.equals v) = v.isAmong ws := by
  rw [Bool.eq_iff_iff, List.any_eq_true, isAmong_iff]

theorem equals_null_iff {w : Value} : w.equals null = true ↔ w = null := by
  cases w <;> simp [equals]

theorem null_equals {v : Value} (hv : v ≠ null) : null.equals v = false := by
  rw [← Bool.not_eq_true, equals_comm, equals_null_iff]
  exact hv

theorem any_isNull_iff {ws : List Value} : ws.any (·.isNull) = true ↔ null ∈ ws := by
  rw [List.any_eq_true]
  simp only [isNull_iff, exists_eq_right]

theorem isAmong_null (ws : List Value) : isAmong null ws = ws.any (·.isNull) := by
  rw [Bool.eq_iff_iff, isAmong_iff, any_isNull_iff]
  simp only [equals_null_iff, exists_eq_right]

theorem exists_float {v : Value} (h : v.type = .float) : ∃ f, v = float f := by
  cases v <;> first | exact ⟨_, rfl⟩ | cases h

theorem exists_integer {v : Value} (h : v.type = .integer) : ∃ i, v = integer i := by
  cases v <;> first | exact ⟨_, rfl⟩ | cases h

/-- Only doubles are ever equal without being the same. -/
theorem eq_of_equals {a b : Value} (h : a.equals b = true) (ha : a.type ≠ .float) : a = b := by
  cases a with
  | float f => exact absurd rfl ha
  | _ => cases b <;> first | rfl | cases h | simpa [equals] using h

theorem equals_trans {u v w : Value} (huv : u.equals v = true) (hvw : v.equals w = true) :
    u.equals w = true := by
  by_cases hu : u.type = .float
  · obtain ⟨a, rfl⟩ := exists_float hu
    obtain ⟨b, rfl⟩ := exists_float (type_eq_of_equals huv).symm
    obtain ⟨c, rfl⟩ := exists_float (type_eq_of_equals hvw).symm
    exact Double.beq_trans huv hvw
  · rw [eq_of_equals huv hu]
    exact hvw

theorem isAmong_float_iff {f : Float} {ws : List Value} :
    isAmong (float f) ws = true ↔ ∃ g, float g ∈ ws ∧ (f == g) = true := by
  rw [isAmong_iff]
  constructor
  · rintro ⟨w, hw, he⟩
    obtain ⟨g, rfl⟩ := exists_float (type_eq_of_equals he)
    exact ⟨g, hw, Double.beq_symm he⟩
  · rintro ⟨g, hg, he⟩
    exact ⟨float g, hg, Double.beq_symm he⟩

theorem isAmong_integer_iff {i : Int64} {ws : List Value} :
    isAmong (integer i) ws = true ↔ integer i ∈ ws := by
  rw [isAmong_iff]
  constructor
  · rintro ⟨w, hw, he⟩
    obtain ⟨j, rfl⟩ := exists_integer (type_eq_of_equals he)
    obtain rfl : j = i := beq_iff_eq.mp he
    exact hw
  · intro hi
    exact ⟨integer i, hi, beq_iff_eq.mpr rfl⟩

end Value

theorem Row.isAmong_single (v : Value) (ws : List Value) :
    Row.isAmong [v] (ws.map ([·])) = v.isAmong ws := by
  simp [Row.isAmong, Value.isAmong, Row.canonical, Row.equals, List.filter_map, List.any_map,
    Function.comp_def]

namespace Comparison

variable {c : Comparison}

theorem outcome_of_isEquality (hc : c.isEquality = true) (a b : Value) :
    c.outcome a b = c.equality a b := by
  cases c <;> first | rfl | cases hc

/-- On values of one type a comparison for equality never fails, and says what `equals` says. -/
theorem outcome_of_same_type (hc : c.isEquality = true) {a b : Value} (h : a.type = b.type) :
    c.outcome a b = .ok (a.equals b) := by
  have hiff := Value.equals_iff_compare? h
  rw [outcome_of_isEquality hc, equality, if_pos h]
  cases hcomp : a.compare? b with
  | none =>
    have : a.equals b = false := by
      rw [← Bool.not_eq_true, hiff, hcomp]
      exact nofun
    rw [this]
  | some o =>
    refine congrArg Except.ok ?_
    rw [Bool.eq_iff_iff, hiff, hcomp]
    simp

end Comparison

end QuantifiedComparison
