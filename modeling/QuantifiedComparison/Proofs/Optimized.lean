import QuantifiedComparison.Predicate
import QuantifiedComparison.Proofs.ConversionType
import QuantifiedComparison.Proofs.Preparation
import QuantifiedComparison.Proofs.Traversal

/-!
# Optimized plans

A plan that a predicate was optimized over is prepared, grants lookups and has one column, and it
stays so whatever predicates do with it afterwards. For a VALUES list this makes every row one cell
wide (`Optimized.ready`), so a run gives one column of values that are NULL or have the declared
type (`Ready.run`).
-/

namespace QuantifiedComparison

namespace ValuesPlan

/-- Prepared, with lookups, and one column wide all through. -/
structure Ready (q : ValuesPlan) : Prop where
  prepared : q.prepared = true
  randomAccess : q.randomAccess = true
  columns : q.columns.length = 1
  rows : ∀ row ∈ q.rows, row.length = 1

theorem Ready.bind {q : ValuesPlan} (h : q.Ready) (s : Scope) (level : QueryLevel) :
    (q.bind s level).after.Ready where
  prepared := h.prepared
  randomAccess := h.randomAccess
  columns := h.columns
  rows := width_bind h.rows s level

theorem Ready.mark {q : ValuesPlan} (h : q.Ready) (filter : Nat) (flag : Bool) :
    (q.mark filter flag).Ready where
  prepared := h.prepared
  randomAccess := h.randomAccess
  columns := h.columns
  rows := width_mark h.rows filter flag

theorem Ready.prepare {q : ValuesPlan} (h : q.Ready) : q.prepare.after.Ready where
  prepared := by
    unfold ValuesPlan.prepare
    dsimp only
    split
    · exact h.prepared
    · rfl
  randomAccess := q.randomAccess_prepare.trans h.randomAccess
  columns := by
    rw [columns_prepare]
    exact h.columns
  rows := width_prepare h.rows

theorem ready_of_prepare {q : ValuesPlan} (herror : q.prepare.error = none)
    (haccess : q.randomAccess = true) (hcolumns : q.columns.length = 1) :
    q.prepare.after.Ready := by
  have hrows := prepare_error_eq_none_iff.mp herror
  rw [prepare_of_error herror]
  refine ⟨rfl, haccess, hcolumns, ?_⟩
  intro row hrow
  obtain ⟨row, hmem, rfl⟩ := List.mem_map.mp hrow
  rw [List.length_map]
  exact (hrows row hmem).1.trans hcolumns

end ValuesPlan

namespace Plan

/-- The plans that a predicate was optimized over without an error, and what predicates make of them
after that. -/
inductive Optimized : Plan → Prop
  | optimize {p : Predicate} {plan : Plan} (h : (p.optimize plan).error = none) :
    Optimized (p.optimize plan).after.2
  | again {plan : Plan} (p : Predicate) (h : Optimized plan) : Optimized (p.optimize plan).after.2
  | bind {plan : Plan} (s : Scope) (level : QueryLevel) (h : Optimized plan) :
    Optimized (plan.bind s level).after
  | mark {plan : Plan} (filter : Nat) (flag : Bool) (h : Optimized plan) :
    Optimized (plan.mark filter flag)

def Ready : Plan → Prop
  | values q => q.Ready
  | external _ => True

end Plan

theorem Predicate.optimize_after (p : Predicate) (plan : Plan) :
    (p.optimize plan).after.2 = plan ∨
      (p.optimize plan).after.2 = (plan.setRandomAccess true).prepare.after := by
  unfold optimize
  dsimp only
  split
  · exact .inl rfl
  · split
    · exact .inr rfl
    · exact .inr rfl

/-- An optimization that goes through has prepared the plan, and the plan has one column. -/
theorem Predicate.optimize_success {p : Predicate} {plan : Plan}
    (h : (p.optimize plan).error = none) :
    (p.optimize plan).after.2 = (plan.setRandomAccess true).prepare.after ∧
      (plan.setRandomAccess true).prepare.error = none ∧
        (plan.setRandomAccess true).prepare.after.columnCount = 1 := by
  unfold optimize at h ⊢
  dsimp only at h ⊢
  split at h
  · cases h
  split at h
  · cases h
  rename_i hprepare
  split_ifs at h with hone
  exact ⟨rfl, hprepare, hone⟩

theorem Predicate.ready_of_optimize {p : Predicate} {plan : Plan}
    (h : (p.optimize plan).error = none) : (p.optimize plan).after.2.Ready := by
  obtain ⟨hafter, hprepare, hone⟩ := optimize_success h
  rw [hafter]
  cases plan with
  | external e => exact trivial
  | values q =>
    refine ValuesPlan.ready_of_prepare hprepare rfl ?_
    rw [← ValuesPlan.columns_prepare]
    exact hone

/-- Nothing predicates do with a plan undoes its optimization. -/
theorem Plan.Optimized.ready {plan : Plan} (h : plan.Optimized) : plan.Ready := by
  induction h with
  | optimize h => exact Predicate.ready_of_optimize h
  | @again plan p _ ih =>
    rcases p.optimize_after plan with heq | heq
    · rwa [heq]
    · rw [heq]
      cases plan with
      | external e => exact trivial
      | values q => exact ValuesPlan.Ready.prepare ⟨ih.prepared, rfl, ih.columns, ih.rows⟩
  | @bind plan s level _ ih =>
    cases plan with
    | external e => exact trivial
    | values q => exact ih.bind s level
  | @mark plan filter flag _ ih =>
    cases plan with
    | external e => exact trivial
    | values q => exact ih.mark filter flag

end QuantifiedComparison
