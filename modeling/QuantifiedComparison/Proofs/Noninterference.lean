import QuantifiedComparison.Predicate.Evaluation
import QuantifiedComparison.Proofs.Independence

/-!
# Noninterference

Whatever says that it is independent of a filter gives the same result on whichever row the filter
stands, or if it stands on none: an expression its value or its error, a VALUES list its table or
its error, and a predicate over one its answer or its error (`evaluation_independent`). The registry
that a predicate is given plays no part in its answer either.
-/

namespace QuantifiedComparison

/-- Two contexts that differ at most in the row of one filter. -/
structure Context.AgreeOff (f : Nat) (ctx ctx' : Context) : Prop where
  settings : ctx.settings = ctx'.settings
  rows : ∀ g, g ≠ f → ctx.rows g = ctx'.rows g

namespace Context.AgreeOff

theorem position (f : Nat) (ctx : Context) (row : Row) : AgreeOff f ctx (ctx.position f row) :=
  ⟨rfl, fun _ hg => (if_neg hg).symm⟩

theorem clear (f : Nat) (ctx : Context) : AgreeOff f ctx (ctx.clear f) :=
  ⟨rfl, fun _ hg => (if_neg hg).symm⟩

theorem symm {f : Nat} {ctx ctx' : Context} (h : AgreeOff f ctx ctx') : AgreeOff f ctx' ctx :=
  ⟨h.settings.symm, fun g hg => (h.rows g hg).symm⟩

theorem trans {f : Nat} {ctx₁ ctx₂ ctx₃ : Context} (h : AgreeOff f ctx₁ ctx₂)
    (h' : AgreeOff f ctx₂ ctx₃) : AgreeOff f ctx₁ ctx₃ :=
  ⟨h.settings.trans h'.settings, fun g hg => (h.rows g hg).trans (h'.rows g hg)⟩

end Context.AgreeOff

section Agree

variable {f : Nat} {ctx ctx' : Context} (h : ctx.AgreeOff f ctx')
include h

theorem Expr.eval_of_agreeOff {e : Expr} (he : e.satisfies (.independentOf f) = true) :
    e.eval ctx = e.eval ctx' := by
  rw [independentOf_iff] at he
  refine eval_congr fun g hg => h.rows g ?_
  rintro rfl
  exact he hg

theorem ValuesPlan.run_of_agreeOff {q : ValuesPlan} (hq : q.satisfies (.independentOf f) = true) :
    q.run ctx = q.run ctx' := by
  rw [independentOf_iff] at hq
  refine run_congr fun g hg => h.rows g ?_
  rintro rfl
  exact hq hg

theorem Predicate.answer_of_agreeOff {p : Predicate}
    (hp : p.left.satisfies (.independentOf f) = true) : p.answer ctx = p.answer ctx' := by
  funext probe
  rw [answer, answer, Expr.eval_of_agreeOff h hp, h.settings]

end Agree

section WithProbe

variable {α : Type} {plan : Plan} {ctx ctx' : Context} {body body' : Probe → Except Error α × Probe}

theorem Plan.withProbe_congr (hrun : plan.run ctx = plan.run ctx') (hbody : body = body')
    (label : String) (registry : Registry) :
    plan.withProbe label ctx registry body = plan.withProbe label ctx' registry body' := by
  rw [withProbe, withProbe, hrun, hbody]

theorem Plan.outcome_withProbe (label : String) (registry registry' : Registry) :
    (plan.withProbe label ctx registry body).outcome
      = (plan.withProbe label ctx registry' body).outcome := by
  unfold withProbe
  rcases plan.run ctx with e | response
  · rfl
  · rfl

end WithProbe

/-- Nothing that is independent of a filter tells apart two contexts that differ in the row of the
filter alone. -/
theorem evaluation_independent {f : Nat} {ctx ctx' : Context} (h : ctx.AgreeOff f ctx') :
    (∀ e : Expr, e.satisfies (.independentOf f) = true → e.eval ctx = e.eval ctx') ∧
      (∀ q : ValuesPlan, q.satisfies (.independentOf f) = true → q.run ctx = q.run ctx') ∧
      ∀ (p : Predicate) (q : ValuesPlan), p.satisfies (.values q) (.independentOf f) = true →
        ∀ registry registry' : Registry, (p.evaluate (.values q) ctx registry).outcome
          = (p.evaluate (.values q) ctx' registry').outcome := by
  refine ⟨fun e he => Expr.eval_of_agreeOff h he, fun q hq => ValuesPlan.run_of_agreeOff h hq, ?_⟩
  intro p q hp registry registry'
  rw [Predicate.satisfies, Bool.and_eq_true] at hp
  obtain ⟨hleft, hquery⟩ := hp
  have hrun : (Plan.values q).run ctx = (Plan.values q).run ctx' :=
    congrArg (Except.map _) (ValuesPlan.run_of_agreeOff h hquery)
  calc (p.evaluate (.values q) ctx registry).outcome
      = (p.evaluate (.values q) ctx' registry).outcome :=
        congrArg Run.outcome
          (Plan.withProbe_congr hrun (Predicate.answer_of_agreeOff h hleft) _ registry)
    _ = (p.evaluate (.values q) ctx' registry').outcome :=
        Plan.outcome_withProbe _ registry registry'

/-- The first column of a filter. -/
def firstOf (filter : Nat) : Expr :=
  .column { table := none, name := "a", binding := some ⟨filter, 0, .integer, 0⟩ }

/-- `u.a IN (VALUES (u.a))` holds on a row of `u`, whether another filter stands on a row or on
none. -/
theorem evaluation_independent_of_other :
    let q : ValuesPlan :=
      { columns := [("v", .integer)], rows := [[firstOf 2]], randomAccess := true,
        prepared := true }
    let ctx := Context.position {} 2 [.integer 5]
    ((Predicate.isIn (firstOf 2) 0).evaluate (.values q) (ctx.position 1 [.integer 7]) {}).outcome
        = ((Predicate.isIn (firstOf 2) 0).evaluate (.values q) (ctx.clear 1) {}).outcome ∧
      ((Predicate.isIn (firstOf 2) 0).evaluate (.values q) (ctx.clear 1) {}).outcome
        = .ok (.boolean true) := by
  intro q ctx
  have hagree : (ctx.position 1 [.integer 7]).AgreeOff 1 (ctx.clear 1) :=
    (Context.AgreeOff.position 1 _ _).symm.trans (Context.AgreeOff.clear 1 _)
  exact ⟨(evaluation_independent hagree).2.2 _ q (by decide) {} {}, rfl⟩

end QuantifiedComparison
