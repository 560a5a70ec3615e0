import QuantifiedComparison.Proofs.Failures
import QuantifiedComparison.Proofs.LastingIndependence

/-!
# A query that was optimized stays usable

An optimization that goes through leaves a VALUES list that is prepared for lookups, one column wide,
and folded as far as it can be. What predicates do to the list afterwards keeps all this
(`Plan.routine_usable`), and so does a session that does not add rows to it or take the lookups away
(`Session.usable_steps`). Preparing it again therefore changes nothing (`ValuesPlan.Usable.prepare`),
and what fails over it fails for its values and columns, never because the list is not ready
(`Session.prepared_stays_usable`).
-/

namespace QuantifiedComparison

namespace Expr

variable {s : Scope} {level : QueryLevel} {filter : Nat} {flag : Bool}

theorem isLiteral_bind (s : Scope) (level : QueryLevel) :
    ∀ e : Expr, (e.bind s level).after.isLiteral = e.isLiteral
  | literal _ => rfl
  | column _ => rfl
  | binary o l r => by
    rcases h : (l.bind s level).error with _ | e
    · rw [bind_binary_success h]
      rfl
    · rw [bind_binary_left h]
      rfl

theorem isLiteral_mark (filter : Nat) (flag : Bool) :
    ∀ e : Expr, (e.mark filter flag).isLiteral = e.isLiteral
  | literal _ => rfl
  | column c => by
    unfold mark
    split_ifs
    · rfl
    · rfl
  | binary _ _ _ => rfl

theorem Normal.bind : ∀ {e : Expr}, e.Normal → (e.bind s level).after.Normal
  | literal _, _ => trivial
  | column _, _ => trivial
  | binary o l r, ⟨hl, hr, hlit⟩ => by
    rcases h : (l.bind s level).error with _ | e
    · rw [bind_binary_success h]
      exact ⟨hl.bind, hr.bind, by rwa [isLiteral_bind, isLiteral_bind]⟩
    · rw [bind_binary_left h]
      exact ⟨hl.bind, hr, by rwa [isLiteral_bind]⟩

theorem Normal.mark : ∀ {e : Expr}, e.Normal → (e.mark filter flag).Normal
  | literal _, _ => trivial
  | column c, _ => by
    unfold Expr.mark
    split_ifs
    · trivial
    · trivial
  | binary o l r, ⟨hl, hr, hlit⟩ => ⟨hl.mark, hr.mark, by rwa [isLiteral_mark, isLiteral_mark]⟩

end Expr

namespace ValuesPlan

/-- Ready for lookups, with nothing left to fold. -/
structure Usable (q : ValuesPlan) : Prop extends q.Ready where
  normal : ∀ row ∈ q.rows, ∀ cell ∈ row, cell.Normal

variable {q : ValuesPlan}

theorem Usable.bind (h : q.Usable) (s : Scope) (level : QueryLevel) :
    (q.bind s level).after.Usable where
  toReady := h.toReady.bind s level
  normal := Attempt.each_forall (fun _ => Attempt.each_forall fun _ => Expr.Normal.bind) h.normal

theorem Usable.mark (h : q.Usable) (filter : Nat) (flag : Bool) : (q.mark filter flag).Usable where
  toReady := h.toReady.mark filter flag
  normal := by
    intro row hrow cell hcell
    obtain ⟨row, hrow', rfl⟩ := List.mem_map.mp hrow
    obtain ⟨cell, hcell', rfl⟩ := List.mem_map.mp hcell
    exact (h.normal row hrow' cell hcell').mark

/-- There is nothing to prepare a second time. -/
theorem Usable.prepare (h : q.Usable) : q.prepare = ⟨q, none⟩ := by
  have hfold : ∀ row ∈ q.rows, ∀ cell ∈ row, cell.fold = ⟨cell, none⟩ :=
    fun row hrow cell hcell => (h.normal row hrow cell hcell).fold
  have herror : q.prepare.error = none := by
    refine prepare_error_eq_none_iff.mpr fun row hrow => ⟨?_, fun cell hcell => ?_⟩
    · rw [h.rows row hrow, h.columns]
    · rw [hfold row hrow cell hcell]
  have hrows : q.rows.map (·.map (·.fold.after)) = q.rows := by
    conv_rhs => rw [← List.map_id q.rows]
    refine List.map_congr_left fun row hrow => ?_
    conv_rhs => rw [id, ← List.map_id row]
    exact List.map_congr_left fun cell hcell => by rw [hfold row hrow cell hcell]; rfl
  have hafter : q.prepare.after = q := by
    rw [prepare_of_error herror, hrows, ← h.prepared]
  calc q.prepare = ⟨q.prepare.after, q.prepare.error⟩ := rfl
    _ = ⟨q, none⟩ := by rw [hafter, herror]

theorem usable_of_prepare (herror : q.prepare.error = none) (haccess : q.randomAccess = true)
    (hcolumns : q.columns.length = 1) : q.prepare.after.Usable where
  toReady := ready_of_prepare herror haccess hcolumns
  normal := by
    rw [prepare_of_error herror]
    intro row hrow cell hcell
    obtain ⟨row, hrow', rfl⟩ := List.mem_map.mp hrow
    obtain ⟨cell, hcell', rfl⟩ := List.mem_map.mp hcell
    exact Expr.normal_of_fold ((prepare_error_eq_none_iff.mp herror row hrow').2 cell hcell')

end ValuesPlan

namespace Plan

/-- A VALUES list that can be used. -/
def Usable : Plan → Prop
  | values q => q.Usable
  | external _ => False

theorem usable_iff {plan : Plan} : plan.Usable ↔ ∃ q : ValuesPlan, plan = values q ∧ q.Usable := by
  cases plan with
  | values q => simp [Usable]
  | external e => simp [Usable]

theorem Usable.grant {plan : Plan} (h : plan.Usable) : plan.setRandomAccess true = plan := by
  obtain ⟨q, rfl, hq⟩ := usable_iff.mp h
  rw [setRandomAccess, ← hq.randomAccess]

theorem Usable.prepare {plan : Plan} (h : plan.Usable) : plan.prepare = ⟨plan, none⟩ := by
  obtain ⟨q, rfl, hq⟩ := usable_iff.mp h
  rw [Plan.prepare, hq.prepare]
  rfl

/-- What predicates do to a usable plan leaves it usable. -/
theorem routine_usable (scopes : List Scope) :
    Routine scopes fun plan plan' => plan.Usable → plan'.Usable where
  bind plan s _ level h := by
    obtain ⟨q, rfl, hq⟩ := usable_iff.mp h
    exact hq.bind s level
  mark plan filter flag h := by
    obtain ⟨q, rfl, hq⟩ := usable_iff.mp h
    exact hq.mark filter flag
  prepare plan h := by
    rw [h.prepare]
    exact h
  grant plan h := by
    rw [h.grant]
    exact h

end Plan

theorem Predicate.usable_of_optimize {p : Predicate} {q : ValuesPlan}
    (h : (p.optimize (.values q)).error = none) : (p.optimize (.values q)).after.2.Usable := by
  obtain ⟨hafter, hprepare, hone⟩ := optimize_success h
  rw [hafter]
  refine ValuesPlan.usable_of_prepare hprepare rfl ?_
  rw [← ValuesPlan.columns_prepare]
  exact hone

/-- Whether the step adds no row to the plan and does not take lookups from it. -/
def Step.spares (k : PlanId) : Step → Bool
  | .plan i (.addRow _) => i != k
  | .plan i (.setRandomAccess flag) => i != k || flag
  | _ => true

/-- The plan of this number stays usable; others may become anything. -/
def StaysUsable (k i : PlanId) (plan plan' : Plan) : Prop :=
  i = k → plan.Usable → plan'.Usable

theorem routine_staysUsable (scopes : List Scope) (k i : PlanId) :
    Plan.Routine scopes (StaysUsable k i) where
  bind plan s hs level _ := (Plan.routine_usable scopes).bind plan s hs level
  mark plan filter flag _ := (Plan.routine_usable scopes).mark plan filter flag
  prepare plan _ := (Plan.routine_usable scopes).prepare plan
  grant plan _ := (Plan.routine_usable scopes).grant plan

theorem Step.within_staysUsable {k : PlanId} {t : Step} (h : t.spares k = true) :
    t.Within (StaysUsable k) := by
  unfold Within
  split
  · simp only [spares, bne_iff_ne] at h
    exact fun _ hi => absurd hi h
  · rintro plan rfl husable
    simp only [spares, bne_self_eq_false, Bool.false_or] at h
    rw [h, husable.grant]
    exact husable
  · trivial

namespace Session

variable {s : Session} {k : PlanId}

theorem usable_steps {plan : Plan} (hplan : s.plan? k = some plan) (husable : plan.Usable)
    {ts : List Step} (h : ∀ t ∈ ts, t.spares k = true) :
    ∃ plan', (s.steps ts).1.plan? k = some plan' ∧ plan'.Usable := by
  have hevolves := evolvesBy_steps (fun i => routine_staysUsable s.scopes k i)
    fun t ht => Step.within_staysUsable (h t ht)
  obtain ⟨plan', hplan', hchanges⟩ := hevolves.plans hplan
  refine ⟨plan', hplan', ?_⟩
  clear hplan'
  induction hchanges with
  | refl => exact husable
  | tail _ hchange ih => exact hchange rfl ih

theorem step_optimize {i : Nat} {p : Predicate} {plan : Plan} (hp : s.predicates[i]? = some p)
    (hplan : s.plan? p.query = some plan) : s.step (.predicate i .optimize) =
      ((s.setPredicate i (p.optimize plan).after.1).setPlan p.query (p.optimize plan).after.2,
        .ofAttempt (p.optimize plan)) := by
  unfold step predicateStep
  dsimp only
  rw [hp, Option.bind_eq_bind, Option.bind_some, hplan]
  rfl

theorem step_prepare {plan : Plan} (hplan : s.plan? k = some plan) :
    s.step (.plan k .prepare) = (s.setPlan k plan.prepare.after, .ofAttempt plan.prepare) := by
  unfold step planStep
  dsimp only
  rw [hplan]
  rfl

theorem usable_of_optimizeStep {i : Nat} {p : Predicate} {q : ValuesPlan}
    (hp : s.predicates[i]? = some p) (hplan : s.plan? p.query = some (.values q))
    (h : (s.step (.predicate i .optimize)).2 = .done) :
    ∃ plan, (s.step (.predicate i .optimize)).1.plan? p.query = some plan ∧ plan.Usable := by
  rw [step_optimize hp hplan] at h ⊢
  refine ⟨_, ?_, Predicate.usable_of_optimize (Answer.error_eq_none h)⟩
  have hsame : (s.setPredicate i (p.optimize (.values q)).after.1).plan? p.query
      = some (.values q) := hplan
  rw [plan?_setPlan, hsame, Option.map_some, if_pos rfl]

end Session

/-- Errors that tell of a query that is not, or no longer, there to be read. -/
def Error.untimely : Error → Bool
  | notPrepared | resultClosed | noRandomAccess => true
  | _ => false

/-- Whatever goes wrong, the query could be read. -/
abbrev Timely {α : Type} (x : Except Error α) : Prop :=
  FailsWith (·.untimely = false) x

theorem Error.not_untimely_of_ofValues (e : Error) (h : e.ofValues) : e.untimely = false := by
  cases e <;> first | rfl | cases h

theorem Column.timely_eval (ctx : Context) (c : Column) : Timely (c.eval ctx) := by
  unfold eval Context.value
  split
  · split
    · exact failsWith_error rfl
    · split
      · exact failsWith_ok _
      · exact failsWith_error rfl
  · exact failsWith_error rfl

namespace ValuesPlan.Usable

variable {q : ValuesPlan} (h : q.Usable) (ctx : Context) (registry : Registry)
include h

theorem timely_evaluate (p : Predicate) : Timely (p.evaluate (.values q) ctx registry).outcome :=
  Predicate.failsWith_evaluate Error.not_untimely_of_ofValues (fun c _ => c.timely_eval ctx)
    (.inl h.prepared) (.inl h.randomAccess) (fun c _ => c.timely_eval ctx) registry

theorem timely_probeValues :
    Timely (IndexCondition.probeValues (.values q) ctx registry).outcome :=
  IndexCondition.failsWith_probeValues Error.not_untimely_of_ofValues
    (fun c _ => c.timely_eval ctx) (.inl h.prepared) registry

theorem timely_keysOf (f : TableFilter) {plans : PlanId → Plan} {c : IndexCondition}
    (hplan : plans c.query = .values q) : Timely (f.keysOf plans ctx c) :=
  f.failsWith_keysOf Error.not_untimely_of_ofValues (fun c _ => c.timely_eval ctx) (.inl h.prepared)
    hplan

end ValuesPlan.Usable

theorem Answer.eq_error_of_failed {α : Type} {f : α → Answer} {x : Except Error α} {e : Error}
    (hf : ∀ a, f a ≠ .failed e) (h : ofExcept f x = .failed e) : x = .error e := by
  rcases x with e' | a
  · rw [failed.inj h]
  · exact absurd h (hf a)

namespace Session

variable {s : Session} {e : Error}

section Inversion

variable {i n context : Nat} {rows : List Row}

theorem exists_of_evaluate_failed
    (h : (s.step (.predicate i (.evaluate context))).2 = .failed e) :
    ∃ p plan ctx registry, s.predicates[i]? = some p ∧ s.plan? p.query = some plan ∧
      (p.evaluate plan ctx registry).outcome = .error e := by
  have htaken := predicateStep_of_answer (s := s) (i := i) (t := .evaluate context) (by rw [h]; nofun)
  unfold predicateStep at htaken
  obtain ⟨p, hp, htaken⟩ := Option.bind_eq_some_iff.mp htaken
  obtain ⟨plan, hplan, htaken⟩ := Option.bind_eq_some_iff.mp htaken
  obtain ⟨⟨ctx, registry⟩, -, htaken⟩ := Option.bind_eq_some_iff.mp htaken
  rw [← Option.some.inj htaken] at h
  exact ⟨p, plan, ctx, _, hp, hplan, Answer.eq_error_of_failed (f := .value) (fun _ => nofun) h⟩

theorem exists_of_probeValues_failed
    (h : (s.step (.filter i (.probeValues n context))).2 = .failed e) :
    ∃ f c ctx registry, s.filters[i]? = some f ∧ f.conditions[n]? = some c ∧
      (IndexCondition.probeValues (s.planAt c.query) ctx registry).outcome = .error e := by
  have htaken := filterStep_of_answer (s := s) (i := i) (t := .probeValues n context)
    (by rw [h]; nofun)
  unfold filterStep at htaken
  obtain ⟨f, hf, htaken⟩ := Option.bind_eq_some_iff.mp htaken
  obtain ⟨⟨ctx, registry⟩, -, htaken⟩ := Option.bind_eq_some_iff.mp htaken
  dsimp only at htaken
  split at htaken
  · rw [← Option.some.inj htaken] at h
    cases h
  · rename_i c hc
    rw [← Option.some.inj htaken] at h
    exact ⟨f, c, ctx, _, hf, hc, Answer.eq_error_of_failed (f := .values) (fun _ => nofun) h⟩

theorem exists_of_restrict_failed
    (h : (s.step (.filter i (.restrict rows context))).2 = .failed e) :
    ∃ f ctx number registry, s.filters[i]? = some f ∧ s.contexts[context]? = some (ctx, number) ∧
      (f.restrict s.planAt ctx rows registry).outcome = .error e := by
  have htaken := filterStep_of_answer (s := s) (i := i) (t := .restrict rows context)
    (by rw [h]; nofun)
  unfold filterStep at htaken
  obtain ⟨f, hf, htaken⟩ := Option.bind_eq_some_iff.mp htaken
  obtain ⟨⟨ctx, number⟩, hctx, htaken⟩ := Option.bind_eq_some_iff.mp htaken
  rw [← Option.some.inj htaken] at h
  exact ⟨f, ctx, number, _, hf, hctx, Answer.eq_error_of_failed (f := .rows) (fun _ => nofun) h⟩

end Inversion

/-- The query can be read whenever it is asked for, and preparing it does nothing more. A restriction
may still fail for want of another query. -/
structure Serves (s : Session) (k : PlanId) : Prop where
  evaluate : ∀ {i : Nat} {p : Predicate} {context : Nat} {e : Error},
    s.predicates[i]? = some p → p.query = k →
      (s.step (.predicate i (.evaluate context))).2 = .failed e → e.untimely = false
  probeValues : ∀ {i n : Nat} {f : TableFilter} {c : IndexCondition} {context : Nat} {e : Error},
    s.filters[i]? = some f → f.conditions[n]? = some c → c.query = k →
      (s.step (.filter i (.probeValues n context))).2 = .failed e → e.untimely = false
  restrict : ∀ {i : Nat} {f : TableFilter} {rows : List Row} {context number : Nat} {ctx : Context}
    {e : Error}, s.filters[i]? = some f → s.contexts[context]? = some (ctx, number) →
      (s.step (.filter i (.restrict rows context))).2 = .failed e → e.untimely = true →
        ∃ c ∈ f.conditions, c.query ≠ k ∧ f.keysOf s.planAt ctx c = .error e
  prepare : ∃ plan, s.plan? k = some plan ∧ plan.prepare = ⟨plan, none⟩ ∧
    s.step (.plan k .prepare) = (s, .done)

theorem setPlan_self {k : PlanId} {plan : Plan} (h : s.plan? k = some plan) :
    s.setPlan k plan = s := by
  obtain ⟨m, hm, rfl⟩ := Option.map_eq_some_iff.mp h
  have hplans : (s.plans.modify k fun old => { old with plan := m.plan }) = s.plans := by
    refine List.ext_getElem? fun j => ?_
    rw [List.getElem?_modify]
    split_ifs with hj
    · rw [← hj, hm]
      rfl
    · simp
  rw [setPlan, hplans]

theorem serves_of_usable {k : PlanId} {plan : Plan} (hplan : s.plan? k = some plan)
    (h : plan.Usable) : s.Serves k := by
  obtain ⟨q, rfl, hq⟩ := Plan.usable_iff.mp h
  have hplanAt : s.planAt k = .values q := by rw [planAt, hplan, Option.getD_some]
  refine ⟨fun hp hk hfailed => ?_, fun hf hc hk hfailed => ?_,
    fun hf hctx hfailed huntimely => ?_, ?_⟩
  · obtain ⟨p, plan, ctx, registry, hp', hplan', houtcome⟩ := exists_of_evaluate_failed hfailed
    obtain rfl := Option.some.inj (hp.symm.trans hp')
    rw [hk, hplan] at hplan'
    obtain rfl := Option.some.inj hplan'
    exact hq.timely_evaluate ctx registry _ _ houtcome
  · obtain ⟨f, c, ctx, registry, hf', hc', houtcome⟩ := exists_of_probeValues_failed hfailed
    obtain rfl := Option.some.inj (hf.symm.trans hf')
    obtain rfl := Option.some.inj (hc.symm.trans hc')
    rw [hk, hplanAt] at houtcome
    exact hq.timely_probeValues ctx registry _ houtcome
  · obtain ⟨f, ctx, number, registry, hf', hctx', houtcome⟩ := exists_of_restrict_failed hfailed
    obtain rfl := Option.some.inj (hf.symm.trans hf')
    obtain rfl := congrArg Prod.fst (Option.some.inj (hctx.symm.trans hctx'))
    obtain ⟨c, hc, hkeys⟩ := TableFilter.exists_of_restrictBy_error houtcome
    refine ⟨c, hc, fun hk => ?_, hkeys⟩
    rw [← hk] at hplanAt
    rw [hq.timely_keysOf _ _ hplanAt _ hkeys] at huntimely
    cases huntimely
  · refine ⟨_, hplan, h.prepare, ?_⟩
    rw [step_prepare hplan, h.prepare, setPlan_self hplan]
    rfl

/-- Once a predicate over a VALUES list was optimized with success, whatever is done afterwards leaves
the list usable, unless rows are added to it or its lookups are taken away. -/
theorem prepared_stays_usable {i : Nat} {p : Predicate} {q : ValuesPlan} {later : List Step}
    (hp : s.predicates[i]? = some p) (hplan : s.plan? p.query = some (.values q))
    (hoptimize : (s.step (.predicate i .optimize)).2 = .done)
    (hlater : ∀ t ∈ later, t.spares p.query = true) :
    ((s.step (.predicate i .optimize)).1.steps later).1.Serves p.query := by
  obtain ⟨plan, hplan', husable⟩ := usable_of_optimizeStep hp hplan hoptimize
  obtain ⟨plan', hplan'', husable'⟩ := usable_steps hplan' husable hlater
  exact serves_of_usable hplan'' husable'

/-- The first predicate is optimized while nothing is bound. The second cannot be evaluated yet and
has the query bound; the restriction fails too, since no table stands on a row. -/
theorem prepared_stays_usable_two :
    ((twoTables.step (.predicate 0 .optimize)).1.steps
      [.predicate 1 (.evaluate 0), .predicate 1 (.bind 1 0), .predicate 0 (.bind 0 0),
        .predicate 1 .optimize, .predicate 0 (.push 0 {}),
        .filter 0 (.restrict [[.integer 1]] 0)]).1.Serves 0 := by
  have hp : twoTables.predicates[0]? = some (.isIn (unbound "a") 0) := rfl
  have hplan : twoTables.plan? 0
      = some (.values { columns := [("v", .integer)], rows := [[unbound "b"]] }) := rfl
  have hoptimize : (twoTables.step (.predicate 0 .optimize)).2 = .done := rfl
  exact prepared_stays_usable hp hplan hoptimize (by decide)

end Session

end QuantifiedComparison
