import Mathlib.Data.List.Forall2
import QuantifiedComparison.Proofs.ValueEquality

/-!
# The equality of rows

Two values are equal if they are alike: the same but for not-a-number, or two zeros
(`Value.equals_iff_alike`). Two rows are equal if their values are, in as many places
(`equals_iff_forall₂`); equal rows have one canonical form, so a set of rows has a row among them
exactly when one of them equals it (`isAmong_iff`).
-/

namespace QuantifiedComparison

/-- Equal as data. NULL is like NULL and the two zeros are alike; not-a-number is like nothing. -/
inductive Value.Alike : Value → Value → Prop
  | same {v : Value} (h : ∀ f, v = float f → f.isNaN = false) : Alike v v
  | zeros {f g : Float} (hf : Double.IsZero f) (hg : Double.IsZero g) : Alike (float f) (float g)

theorem Value.equals_iff_alike {v w : Value} : v.equals w = true ↔ v.Alike w := by
  constructor
  · intro h
    by_cases htype : v.type = .float
    · obtain ⟨f, rfl⟩ := exists_float htype
      obtain ⟨g, rfl⟩ := exists_float ((type_eq_of_equals h).symm.trans htype)
      rcases Double.beq_iff.mp h with ⟨rfl, hnumber⟩ | ⟨hf, hg⟩
      · refine .same fun g hg => ?_
        cases hg
        exact hnumber
      · exact .zeros hf hg
    · obtain rfl := eq_of_equals h htype
      refine .same fun f hf => ?_
      rw [hf] at htype
      exact absurd rfl htype
  · rintro (hnumber | ⟨hf, hg⟩)
    · cases v with
      | float f => exact Double.beq_iff.mpr (.inl ⟨rfl, hnumber f rfl⟩)
      | null => rfl
      | _ => exact beq_self_eq_true _
    · exact Double.beq_iff.mpr (.inr ⟨hf, hg⟩)

namespace Row

theorem equals_iff_forall₂ : ∀ {r s : Row},
    r.equals s = true ↔ List.Forall₂ (fun v w => v.equals w = true) r s
  | [], [] => iff_of_true rfl .nil
  | [], w :: s => iff_of_false nofun nofun
  | v :: r, [] => iff_of_false nofun nofun
  | v :: r, w :: s => by
    rw [equals, Bool.and_eq_true, equals_iff_forall₂, List.forall₂_cons]

theorem equals_trans : ∀ {r s t : Row}, r.equals s = true → s.equals t = true → r.equals t = true
  | [], [], t, _, h => h
  | v :: r, w :: s, u :: t, hrs, hst => by
    rw [equals, Bool.and_eq_true] at hrs hst ⊢
    exact ⟨Value.equals_trans hrs.1 hst.1, equals_trans hrs.2 hst.2⟩

theorem canonical_eq_of_equals {r s : Row} (h : r.equals s = true) : canonical r = canonical s := by
  rw [equals_iff_forall₂] at h
  rw [canonical, canonical, ← List.forall₂_eq_eq_eq, List.forall₂_map_left_iff,
    List.forall₂_map_right_iff]
  exact h.imp fun _ _ => Value.canonical_eq_of_equals

theorem isAmong_iff {r : Row} {rows : List Row} :
    isAmong r rows = true ↔ ∃ row ∈ rows, row.equals r = true := by
  simp only [isAmong, List.any_eq_true, List.mem_filter, decide_eq_true_eq]
  constructor
  · rintro ⟨row, ⟨hrow, -⟩, he⟩
    exact ⟨row, hrow, he⟩
  · rintro ⟨row, hrow, he⟩
    exact ⟨row, ⟨hrow, canonical_eq_of_equals he⟩, he⟩

end Row

end QuantifiedComparison
