import QuantifiedComparison.Proofs.DoubleForm

/-!
# The order of doubles

Doubles are equal as numbers if they are the same double or both zero (`beq_iff`), and have no order
only if one of them is not a number (`compare?_eq_none_iff`). Equal doubles have one canonical form,
so a set that files doubles under it finds every equal one.
-/

namespace QuantifiedComparison.Double

open Float.Model Float.Model.UnpackedFloat

def IsZero (f : Float) : Prop :=
  ∃ s, f.toModel.unpack = .zero s

theorem isNaN_iff {f : Float} : f.isNaN = true ↔ f.toModel.unpack = .notANumber := by
  show f.toModel.unpack.isNaN = true ↔ _
  cases f.toModel.unpack <;> simp [UnpackedFloat.isNaN]

theorem unpack_injective {a b : Float} (h : a.toModel.unpack = b.toModel.unpack) : a = b := by
  obtain ⟨a⟩ := a
  obtain ⟨b⟩ := b
  exact congrArg Float.ofModel (eq_of_unpack_eq h)

theorem compare_unpacked_eq_iff {u v : UnpackedFloat} :
    u.compare v = some .eq ↔
      (u = v ∧ u ≠ .notANumber) ∨ ∃ s t, u = .zero s ∧ v = .zero t := by
  rcases u with (_ | _) | _ | s | ⟨(_ | _), m, e, hm⟩ <;>
    rcases v with (_ | _) | _ | t | ⟨(_ | _), n, d, hn⟩ <;>
    simp [UnpackedFloat.compare, and_comm, Ordering.swap_eq_eq]
  all_goals decide

theorem compare_unpacked_eq_none_iff {u v : UnpackedFloat} :
    u.compare v = none ↔ u = .notANumber ∨ v = .notANumber := by
  rcases u with (_ | _) | _ | s | ⟨(_ | _), m, e, hm⟩ <;>
    rcases v with (_ | _) | _ | t | ⟨(_ | _), n, d, hn⟩ <;>
    simp [UnpackedFloat.compare]

theorem compare_unpacked_swap (u v : UnpackedFloat) :
    v.compare u = (u.compare v).map Ordering.swap := by
  rcases u with (_ | _) | _ | s | ⟨(_ | _), m, e, hm⟩ <;>
    rcases v with (_ | _) | _ | t | ⟨(_ | _), n, d, hn⟩ <;>
    simp [UnpackedFloat.compare, Ordering.swap_then, Int.compare_swap, Nat.compare_swap]
  all_goals rfl

theorem compare?_swap (a b : Float) : compare? b a = (compare? a b).map Ordering.swap :=
  compare_unpacked_swap _ _

theorem beq_iff_compare {a b : Float} : (a == b) = true ↔ compare? a b = some .eq := by
  show (a.toModel.unpack.compare b.toModel.unpack == some .eq) = true ↔ _
  exact beq_iff_eq

theorem compare?_eq_none_iff {a b : Float} :
    compare? a b = none ↔ a.isNaN = true ∨ b.isNaN = true := by
  rw [isNaN_iff, isNaN_iff]
  exact compare_unpacked_eq_none_iff

/-- Doubles are equal if they are the same number or two zeros. -/
theorem beq_iff {a b : Float} :
    (a == b) = true ↔ (a = b ∧ a.isNaN = false) ∨ (IsZero a ∧ IsZero b) := by
  rw [beq_iff_compare, ← Bool.not_eq_true, isNaN_iff]
  refine compare_unpacked_eq_iff.trans (or_congr ?_ ?_)
  · exact and_congr_left fun _ => ⟨unpack_injective, fun h => by rw [h]⟩
  · exact ⟨fun ⟨s, t, ha, hb⟩ => ⟨⟨s, ha⟩, ⟨t, hb⟩⟩, fun ⟨⟨s, ha⟩, ⟨t, hb⟩⟩ => ⟨s, t, ha, hb⟩⟩

theorem beq_symm {a b : Float} (h : (a == b) = true) : (b == a) = true := by
  rw [beq_iff] at h ⊢
  rcases h with ⟨rfl, h⟩ | ⟨ha, hb⟩
  · exact .inl ⟨rfl, h⟩
  · exact .inr ⟨hb, ha⟩

theorem beq_trans {a b c : Float} (hab : (a == b) = true) (hbc : (b == c) = true) :
    (a == c) = true := by
  rw [beq_iff] at *
  rcases hab with ⟨rfl, -⟩ | ⟨ha, hb⟩
  · exact hbc
  · rcases hbc with ⟨rfl, -⟩ | ⟨-, hc⟩
    · exact .inr ⟨ha, hb⟩
    · exact .inr ⟨ha, hc⟩

theorem isZero_zero : IsZero 0.0 :=
  ⟨.positive, rfl⟩

theorem beq_zero_iff {f : Float} : (f == 0.0) = true ↔ IsZero f := by
  rw [beq_iff]
  refine ⟨fun h => ?_, fun h => .inr ⟨h, isZero_zero⟩⟩
  rcases h with ⟨rfl, -⟩ | ⟨h, -⟩
  · exact isZero_zero
  · exact h

/-- A set that files doubles under their canonical form has every equal one in one place. -/
theorem canonical_eq_of_beq {a b : Float} (h : (a == b) = true) : canonical a = canonical b := by
  rcases beq_iff.mp h with ⟨rfl, -⟩ | ⟨ha, hb⟩
  · rfl
  · unfold canonical
    rw [if_pos (beq_zero_iff.mpr ha), if_pos (beq_zero_iff.mpr hb)]

end QuantifiedComparison.Double
