import QuantifiedComparison.Truth

/-!
# Three-valued connectives

Disjunction and conjunction of truths as in SQL: what is unknown could be either. Over a list a
disjunction holds if one truth does and fails if all do; a conjunction the other way round.
-/

namespace QuantifiedComparison.Truth

def or : Truth → Truth → Truth
  | holds, _ => holds
  | _, holds => holds
  | fails, fails => fails
  | _, _ => unknown

def and : Truth → Truth → Truth
  | fails, _ => fails
  | _, fails => fails
  | holds, holds => holds
  | _, _ => unknown

def disjunction (ks : List Truth) : Truth :=
  ks.foldr or fails

def conjunction (ks : List Truth) : Truth :=
  ks.foldr and holds

theorem or_eq_holds_iff {a b : Truth} : a.or b = holds ↔ a = holds ∨ b = holds := by
  cases a <;> cases b <;> simp [or]

theorem or_eq_fails_iff {a b : Truth} : a.or b = fails ↔ a = fails ∧ b = fails := by
  cases a <;> cases b <;> simp [or]

theorem and_eq_holds_iff {a b : Truth} : a.and b = holds ↔ a = holds ∧ b = holds := by
  cases a <;> cases b <;> simp [and]

theorem and_eq_fails_iff {a b : Truth} : a.and b = fails ↔ a = fails ∨ b = fails := by
  cases a <;> cases b <;> simp [and]

theorem disjunction_eq_holds_iff {ks : List Truth} : disjunction ks = holds ↔ holds ∈ ks := by
  induction ks with
  | nil => simp [disjunction]
  | cons k ks ih =>
    rw [disjunction, List.foldr_cons, or_eq_holds_iff, List.mem_cons, eq_comm]
    exact or_congr_right ih

theorem disjunction_eq_fails_iff {ks : List Truth} :
    disjunction ks = fails ↔ ∀ k ∈ ks, k = fails := by
  induction ks with
  | nil => simp [disjunction]
  | cons k ks ih =>
    rw [disjunction, List.foldr_cons, or_eq_fails_iff, List.forall_mem_cons]
    exact and_congr_right fun _ => ih

theorem conjunction_eq_holds_iff {ks : List Truth} :
    conjunction ks = holds ↔ ∀ k ∈ ks, k = holds := by
  induction ks with
  | nil => simp [conjunction]
  | cons k ks ih =>
    rw [conjunction, List.foldr_cons, and_eq_holds_iff, List.forall_mem_cons]
    exact and_congr_right fun _ => ih

theorem conjunction_eq_fails_iff {ks : List Truth} : conjunction ks = fails ↔ fails ∈ ks := by
  induction ks with
  | nil => simp [conjunction]
  | cons k ks ih =>
    rw [conjunction, List.foldr_cons, and_eq_fails_iff, List.mem_cons, eq_comm]
    exact or_congr_right ih

/-- What neither holds nor fails is unknown. -/
theorem eq_of_iff {a b : Truth} (hholds : a = holds ↔ b = holds) (hfails : a = fails ↔ b = fails) :
    a = b := by
  cases a <;> cases b <;> simp_all

theorem toValue_inj {a b : Truth} : a.toValue = b.toValue ↔ a = b := by
  cases a <;> cases b <;> simp [toValue]

theorem toValue_ofBool (b : Bool) : (ofBool b).toValue = .boolean b := by
  cases b <;> rfl

/-- To fail whenever something does not hold is right only if something fails then. -/
theorem ofBool_all_eq_conjunction_iff {ks : List Truth} :
    ofBool (ks.all (· == holds)) = conjunction ks ↔ (unknown ∈ ks → fails ∈ ks) := by
  cases hall : ks.all (· == holds) with
  | true =>
    have hholds : ∀ k ∈ ks, k = holds := by simpa using hall
    refine iff_of_true (conjunction_eq_holds_iff.mpr hholds).symm fun hunknown => ?_
    cases hholds _ hunknown
  | false =>
    obtain ⟨k, hk, hne⟩ : ∃ k ∈ ks, k ≠ holds := by simpa using hall
    rw [show ofBool false = fails from rfl, eq_comm, conjunction_eq_fails_iff]
    refine ⟨fun h _ => h, fun h => ?_⟩
    cases k with
    | holds => exact absurd rfl hne
    | fails => exact hk
    | unknown => exact h hk

end QuantifiedComparison.Truth
