import Mathlib.Tactic.SplitIfs
import QuantifiedComparison.Proofs.ValueEquality
import QuantifiedComparison.Value.Conversion

/-!
# The type of a converted value

What a conversion gives is NULL if it was given NULL, and of the target type otherwise
(`type_of_convert?`). A value of the target type, or NULL, is left as it is (`convert_fitting`).
-/

namespace QuantifiedComparison.Value

/-- What a column of the type may hold. -/
def Fits (v : Value) (t : ColumnType) : Prop :=
  v = null ∨ v.type = t

instance (v : Value) (t : ColumnType) : Decidable (v.Fits t) :=
  inferInstanceAs (Decidable (_ ∨ _))

theorem type_of_convert? {v w : Value} {t : ColumnType} (h : v.convert? t = some w)
    (hv : v ≠ null) : w.type = t ∧ w ≠ null := by
  have hw : w.type = t ∧ t ≠ .null := by
    cases v <;> cases t <;>
      simp only [convert?, Option.some.injEq, Option.map_eq_some_iff, Option.ite_none_right_eq_some,
        reduceCtorEq] at h <;> grind [type]
  refine ⟨hw.1, ?_⟩
  rintro rfl
  exact hw.2 hw.1.symm

theorem convert?_null (t : ColumnType) : null.convert? t = some null := by
  cases t <;> rfl

theorem convert?_own (v : Value) : v.convert? v.type = some v := by
  cases v <;> rfl

theorem convert_ok_iff {v w : Value} {t : ColumnType} :
    v.convert t = .ok w ↔ v.convert? t = some w := by
  unfold convert
  cases v.convert? t <;> simp

theorem convert_error_iff {v : Value} {t : ColumnType} {e : Error} :
    v.convert t = .error e ↔ v.convert? t = none ∧ e = .notConvertible v t := by
  unfold convert
  cases v.convert? t <;> simp [eq_comm]

theorem convert_fitting {v : Value} {t : ColumnType} (h : v.Fits t) : v.convert t = .ok v := by
  rw [convert_ok_iff]
  rcases h with rfl | rfl
  · exact convert?_null t
  · exact convert?_own v

theorem fits_of_convert {v w : Value} {t : ColumnType} (h : v.convert t = .ok w) : w.Fits t := by
  rw [convert_ok_iff] at h
  by_cases hv : v = null
  · subst hv
    rw [convert?_null] at h
    exact .inl (Option.some.inj h).symm
  · exact .inr (type_of_convert? h hv).1

theorem type_of_convert {v w : Value} {t : ColumnType} (h : v.convert t = .ok w)
    (hv : v ≠ null) : w.type = t ∧ w ≠ null :=
  type_of_convert? (convert_ok_iff.mp h) hv

end QuantifiedComparison.Value
