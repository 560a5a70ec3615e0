import Mathlib.Data.List.Nodup
import QuantifiedComparison.Proofs.Pushdown
import QuantifiedComparison.Proofs.SessionChanges

/-!
# An index condition stays one

Whether a query reads from a filter is asked once, when the filter is given the index condition, and
a column that has no binding yet does not count. Predicates that share the query may bind it again
afterwards. But the filter has bound all it knows when the predicate was bound by it
(`bound_of_bind`), so the query never comes to read from the filter, whatever is done to it
short of giving it rows (`pushed_stays_independent`).
-/

namespace QuantifiedComparison

namespace Predicate

theorem settled_of_bind {p : Predicate} {plan : Plan} {s : Scope} {level : QueryLevel}
    (h : (p.bind plan s level).error = none) : (p.bind plan s level).after.2.Settled s := by
  unfold bind at h ⊢
  dsimp only at h ⊢
  split at h
  · cases h
  · split at h
    · cases h
    · rename_i hinner
      exact Plan.settled_of_bind hinner

end Predicate

namespace Session

variable {s s' : Session} {i k : Nat} {level : QueryLevel} {f : TableFilter} {settings : Settings}

theorem filter_of_scopes (h : s'.scopes = s.scopes) (hf : s.filters[k]? = some f) :
    ∃ f', s'.filters[k]? = some f' ∧ f'.scope = f.scope := by
  have hscope : s'.scopes[k]? = some f.scope := by
    rw [h, scopes, List.getElem?_map, hf]
    rfl
  rw [scopes, List.getElem?_map] at hscope
  exact Option.map_eq_some_iff.mp hscope

theorem scope_eq_of_filter_eq (h : (s.filters.map (·.id)).Nodup) {a b : Scope}
    (ha : a ∈ s.scopes) (hb : b ∈ s.scopes) (hab : b.filter = a.filter) : b = a := by
  obtain ⟨f, hf, rfl⟩ := List.mem_map.mp ha
  obtain ⟨g, hg, rfl⟩ := List.mem_map.mp hb
  rw [List.inj_on_of_nodup_map h hg hf hab]

/-- The query of a predicate, on which a filter's scope has done its work. -/
structure Bound (s : Session) (i k : Nat) (p : Predicate) (f : TableFilter) (plan : Plan) :
    Prop where
  predicateAt : s.predicates[i]? = some p
  filterAt : s.filters[k]? = some f
  planAt : s.plan? p.query = some plan
  settled : plan.Settled f.scope

variable {p : Predicate} {plan : Plan}

theorem Evolves.bound (h : s.Evolves s') (hbound : s.Bound i k p f plan) :
    ∃ p' f' plan', s'.Bound i k p' f' plan' ∧ f'.scope = f.scope ∧
      plan.Changes s.scopes plan' := by
  obtain ⟨p', hp', hquery⟩ := h.queries hbound.predicateAt
  obtain ⟨plan', hplan', (hchanges : plan.Changes s.scopes plan')⟩ := h.plans hbound.planAt
  obtain ⟨f', hf', hscope⟩ := filter_of_scopes h.scopes hbound.filterAt
  refine ⟨p', f', plan', ⟨hp', hf', by rw [hquery, hplan'], ?_⟩, hscope, hchanges⟩
  rw [hscope]
  exact hchanges.settled hbound.settled

/-- A filter that binds a predicate without an error has bound all it knows of the query. -/
theorem bound_of_bind (h : (s.step (.predicate i (.bind k level))).2 = .done) :
    ∃ p f plan, (s.step (.predicate i (.bind k level))).1.Bound i k p f plan := by
  have htaken := predicateStep_of_answer (s := s) (i := i) (t := .bind k level) (by rw [h]; nofun)
  revert h
  generalize s.step (.predicate i (.bind k level)) = r at htaken ⊢
  intro h
  unfold predicateStep at htaken
  obtain ⟨p, hp, htaken⟩ := Option.bind_eq_some_iff.mp htaken
  obtain ⟨plan, hplan, htaken⟩ := Option.bind_eq_some_iff.mp htaken
  obtain ⟨f, hf, htaken⟩ := Option.bind_eq_some_iff.mp htaken
  obtain rfl := Option.some.inj htaken
  refine ⟨(p.bind plan f.scope level).after.1, f, _, ?_, hf, ?_,
    Predicate.settled_of_bind (Answer.error_eq_none h)⟩
  · obtain ⟨hi, -⟩ := List.getElem?_eq_some_iff.mp hp
    exact List.getElem?_set_self hi
  · rw [plan?_setPlan]
    have hplan' : (s.setPredicate i (p.bind plan f.scope level).after.1).plan?
        (p.bind plan f.scope level).after.1.query = some plan := by
      rw [Predicate.query_bind]
      exact hplan
    rw [hplan', Predicate.query_bind, Option.map_some, if_pos rfl]

/-- A predicate that was pushed has a query that reads nothing from the filter. -/
theorem independent_of_push (h : (s.step (.predicate i (.push k settings))).2 = .flag true)
    (hbound : s.Bound i k p f plan) : plan.satisfies (.independentOf f.id) = true := by
  have htaken :=
    predicateStep_of_answer (s := s) (i := i) (t := .push k settings) (by rw [h]; nofun)
  revert h
  generalize s.step (.predicate i (.push k settings)) = r at htaken ⊢
  intro h
  unfold predicateStep at htaken
  obtain ⟨p', hp, htaken⟩ := Option.bind_eq_some_iff.mp htaken
  obtain ⟨plan', hplan, htaken⟩ := Option.bind_eq_some_iff.mp htaken
  obtain ⟨f', hf, htaken⟩ := Option.bind_eq_some_iff.mp htaken
  obtain rfl := Option.some.inj (hbound.predicateAt.symm.trans hp)
  obtain rfl := Option.some.inj (hbound.planAt.symm.trans hplan)
  obtain rfl := Option.some.inj (hbound.filterAt.symm.trans hf)
  obtain rfl := Option.some.inj htaken
  have hpush : p.push plan settings f = (true, (p.push plan settings f).2) :=
    Prod.ext (Answer.flag.inj h) rfl
  obtain ⟨c, -, hindexes⟩ := Predicate.indexes_of_push hpush
  exact hindexes.independent

/-- Once a predicate that a filter has bound becomes its index condition, the query reads nothing
from the filter whatever steps follow, unless they give it rows. -/
theorem pushed_stays_independent {before between after : List Step}
    (hids : (s.filters.map (·.id)).Nodup) (hrows : ∀ t ∈ between ++ after, t.addsRow = false)
    (hbind : ((s.steps before).1.step (.predicate i (.bind k level))).2 = .done)
    (hpush : ((s.steps (before ++ .predicate i (.bind k level) :: between)).1.step
      (.predicate i (.push k settings))).2 = .flag true) :
    ∃ p f plan,
      let s' := (s.steps (before ++ .predicate i (.bind k level) :: between ++
        .predicate i (.push k settings) :: after)).1
      s'.predicates[i]? = some p ∧ s'.filters[k]? = some f ∧ s'.plan? p.query = some plan ∧
        plan.satisfies (.independentOf f.id) = true := by
  obtain ⟨hbetween, hafter⟩ := List.forall_mem_append.mp hrows
  have hscopes : (s.steps (before ++ .predicate i (.bind k level) :: between)).1.scopes
      = s.scopes := s.scopes_steps _
  rw [steps_append]
  generalize hs₂ : (s.steps (before ++ .predicate i (.bind k level) :: between)).1 = s₂
    at hscopes hpush ⊢
  obtain ⟨p₂, f₂, plan₂, hbound₂⟩ : ∃ p f plan, s₂.Bound i k p f plan := by
    obtain ⟨p₁, f₁, plan₁, hbound₁⟩ := bound_of_bind hbind
    obtain ⟨p₂, f₂, plan₂, hbound₂, -⟩ := (evolves_steps _ hbetween).bound hbound₁
    rw [← hs₂, steps_append]
    exact ⟨p₂, f₂, plan₂, hbound₂⟩
  have hind := independent_of_push hpush hbound₂
  have hevolves : s₂.Evolves (s₂.steps (.predicate i (.push k settings) :: after)).1 :=
    s₂.evolves_steps (List.forall_mem_cons.mpr ⟨rfl, hafter⟩)
  obtain ⟨p₃, f₃, plan₃, hbound₃, hscope, hchanges⟩ := hevolves.bound hbound₂
  refine ⟨p₃, f₃, plan₃, hbound₃.predicateAt, hbound₃.filterAt, hbound₃.planAt, ?_⟩
  have hid : f₃.id = f₂.id := congrArg Scope.filter hscope
  rw [hid]
  refine hchanges.independent (s := f₂.scope) ?_ hbound₂.settled hind
  rw [hscopes]
  have hmem : f₂.scope ∈ s.scopes := hscopes ▸ mem_scopes hbound₂.filterAt
  exact fun a ha => scope_eq_of_filter_eq hids hmem ha

def unbound (name : String) : Expr :=
  .column { table := none, name }

/-- Two tables `t (a)` and `u (b)`, and two predicates that ask whether `a` is among the rows of one
query, whose row is `b` and not bound yet. -/
def twoTables : Session where
  filters :=
    [{ id := 1, name := "t", columns := [("a", .integer)] },
      { id := 2, name := "u", columns := [("b", .integer)] }]
  plans := [{ plan := .values { columns := [("v", .integer)], rows := [[unbound "b"]] } }]
  predicates := [.isIn (unbound "a") 0, .isIn (unbound "a") 0]

/-- Both predicates are bound by `t`, the first becomes its index condition, and only then the
second one has `u` bind the row. -/
theorem pushed_stays_independent_two : ∃ p f plan,
    let s' := (twoTables.steps ([Step.predicate 1 (.bind 0 0)] ++ Step.predicate 0 (.bind 0 0) ::
      [Step.predicate 0 .optimize] ++ Step.predicate 0 (.push 0 {}) ::
      [Step.predicate 1 (.bind 1 0)])).1
    s'.predicates[0]? = some p ∧ s'.filters[0]? = some f ∧ s'.plan? p.query = some plan ∧
      plan.satisfies (.independentOf f.id) = true := by
  have hbind : ((twoTables.steps [Step.predicate 1 (.bind 0 0)]).1.step
      (.predicate 0 (.bind 0 0))).2 = .done := rfl
  have hpush : ((twoTables.steps ([Step.predicate 1 (.bind 0 0)] ++ Step.predicate 0 (.bind 0 0) ::
      [Step.predicate 0 .optimize])).1.step (.predicate 0 (.push 0 {}))).2 = .flag true := rfl
  exact pushed_stays_independent (by decide) (by decide) hbind hpush

end Session

end QuantifiedComparison
