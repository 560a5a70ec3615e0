import QuantifiedComparison.Proofs.ColumnChanges
import QuantifiedComparison.Session.Step

/-!
# What a session keeps

Whatever steps are taken, a session keeps the scopes of its filters (`scopes_steps`), and each
predicate keeps its query. What becomes of a plan is told by a relation of its number, the plan
before and the plan after a change: if it holds of what predicates routinely do to a plan, and of
what two kinds of steps do besides, it holds of each change in a run (`evolvesBy_steps`). So as long
as no rows are added to it, a plan is only ever bound by those scopes, marked, prepared and set to
random access (`evolves_steps`).
-/

namespace QuantifiedComparison

namespace Predicate

variable (p : Predicate) (plan : Plan)

theorem query_bind (s : Scope) (level : QueryLevel) :
    (p.bind plan s level).after.1.query = p.query := by
  unfold bind
  dsimp only
  split
  · rfl
  · split
    · rfl
    · rfl

theorem query_optimize : (p.optimize plan).after.1.query = p.query := by
  unfold optimize
  dsimp only
  split
  · rfl
  · split
    · rfl
    · rfl

theorem bind_after (s : Scope) (level : QueryLevel) :
    (p.bind plan s level).after.2 = plan ∨
      (p.bind plan s level).after.2 = (plan.bind s (level + 1)).after := by
  unfold bind
  dsimp only
  split
  · exact .inl rfl
  · split
    · exact .inr rfl
    · exact .inr rfl

end Predicate

namespace Plan

open Relation (ReflTransGen)

/-- A relation that holds of what predicates do to a plan, where only these scopes bind. -/
structure Routine (scopes : List Scope) (R : Plan → Plan → Prop) : Prop where
  bind : ∀ plan : Plan, ∀ s ∈ scopes, ∀ level, R plan (plan.bind s level).after
  mark : ∀ (plan : Plan) filter flag, R plan (plan.mark filter flag)
  prepare : ∀ plan : Plan, R plan plan.prepare.after
  grant : ∀ plan : Plan, R plan (plan.setRandomAccess true)

theorem routine_change (scopes : List Scope) : Routine scopes (Change scopes) :=
  ⟨fun _ _ hs level => .bind hs level, fun _ => .mark, fun _ => .prepare,
    fun _ => .setRandomAccess true⟩

variable {scopes : List Scope} {R : Plan → Plan → Prop} (h : Routine scopes R)
include h

theorem Routine.bindPredicate (p : Predicate) (plan : Plan) {s : Scope} (hs : s ∈ scopes)
    (level : QueryLevel) : ReflTransGen R plan (p.bind plan s level).after.2 := by
  rcases p.bind_after plan s level with heq | heq
  · rw [heq]
  · rw [heq]
    exact .single (h.bind plan s hs (level + 1))

theorem Routine.optimizePredicate (p : Predicate) (plan : Plan) :
    ReflTransGen R plan (p.optimize plan).after.2 := by
  rcases p.optimize_after plan with heq | heq
  · rw [heq]
  · rw [heq]
    exact .tail (.single (h.grant plan)) (h.prepare _)

end Plan

theorem TableFilter.scope_push {p : Predicate} {plan : Plan} {settings : Settings}
    {f : TableFilter} : (p.push plan settings f).2.scope = f.scope := by
  unfold Predicate.push
  split
  · rfl
  · rfl

/-- Whether the step gives a plan another row. -/
def Step.addsRow : Step → Bool
  | .plan _ (.addRow _) => true
  | _ => false

/-- The step changes a plan as the relation for its number says, also where that is no routine. -/
def Step.Within (C : PlanId → Plan → Plan → Prop) : Step → Prop
  | .plan i (.addRow row) => ∀ q : ValuesPlan, C i (.values q) (.values (q.addRow row))
  | .plan i (.setRandomAccess flag) => ∀ plan : Plan, C i plan (plan.setRandomAccess flag)
  | _ => True

theorem Answer.error_eq_none {α : Type} {t : Attempt α} (h : Answer.ofAttempt t = .done) :
    t.error = none := by
  unfold ofAttempt at h
  cases herror : t.error with
  | none => rfl
  | some e =>
    rw [herror] at h
    cases h

namespace Session

def scopes (s : Session) : List Scope :=
  s.filters.map TableFilter.scope

/-- What becomes of a session, if each plan is changed as the relation for its number says. -/
structure EvolvesBy (C : PlanId → Plan → Plan → Prop) (s s' : Session) : Prop where
  plans : ∀ {i : Nat} {plan : Plan}, s.plan? i = some plan →
    ∃ plan', s'.plan? i = some plan' ∧ Relation.ReflTransGen (C i) plan plan'
  scopes : s'.scopes = s.scopes
  queries : ∀ {i : Nat} {p : Predicate}, s.predicates[i]? = some p →
    ∃ p' : Predicate, s'.predicates[i]? = some p' ∧ p'.query = p.query

/-- What becomes of a session whose plans get no rows. -/
abbrev Evolves (s s' : Session) : Prop :=
  EvolvesBy (fun _ => Plan.Change s.scopes) s s'

variable {C : PlanId → Plan → Plan → Prop} {s s' s'' : Session}

theorem EvolvesBy.refl (s : Session) : EvolvesBy C s s where
  plans h := ⟨_, h, .refl⟩
  scopes := rfl
  queries h := ⟨_, h, rfl⟩

theorem EvolvesBy.trans (h : EvolvesBy C s s') (h' : EvolvesBy C s' s'') : EvolvesBy C s s'' where
  plans hplan := by
    obtain ⟨plan', hplan', hchanges⟩ := h.plans hplan
    obtain ⟨plan'', hplan'', hchanges'⟩ := h'.plans hplan'
    exact ⟨plan'', hplan'', hchanges.trans hchanges'⟩
  scopes := h'.scopes.trans h.scopes
  queries hp := by
    obtain ⟨p', hp', hquery⟩ := h.queries hp
    obtain ⟨p'', hp'', hquery'⟩ := h'.queries hp'
    exact ⟨p'', hp'', hquery'.trans hquery⟩

theorem evolves_of_eq (hplans : ∀ i, s'.plan? i = s.plan? i) (hfilters : s'.filters = s.filters)
    (hpredicates : s'.predicates = s.predicates) : EvolvesBy C s s' where
  plans {i plan} h := ⟨plan, (hplans i).trans h, .refl⟩
  scopes := congrArg (List.map TableFilter.scope) hfilters
  queries {i p} h := ⟨p, by rw [hpredicates, h], rfl⟩

theorem plan?_meter (s : Session) (i : Nat) (u : Usage) (j : Nat) :
    (s.meter i u).plan? j = s.plan? j := by
  simp only [plan?, meter, List.getElem?_modify, Option.map_eq_map, Option.map_map]
  congr 1
  funext m
  dsimp only [Function.comp]
  split_ifs
  · rfl
  · rfl

theorem plan?_setPlan (s : Session) (i : Nat) (plan : Plan) (j : Nat) :
    (s.setPlan i plan).plan? j = (s.plan? j).map fun old => if i = j then plan else old := by
  simp only [plan?, setPlan, List.getElem?_modify, Option.map_eq_map, Option.map_map]
  congr 1
  funext m
  dsimp only [Function.comp]
  split_ifs
  · rfl
  · rfl

theorem evolves_meter (s : Session) (i : Nat) (u : Usage) : EvolvesBy C s (s.meter i u) :=
  evolves_of_eq (s.plan?_meter i u) rfl rfl

theorem evolves_setRegistry (s : Session) (i : Nat) (r : Registry) :
    EvolvesBy C s (s.setRegistry i r) :=
  evolves_of_eq (fun _ => rfl) rfl rfl

theorem evolves_foldl_meter :
    ∀ (usage : List (PlanId × Usage)) (s : Session),
      EvolvesBy C s (usage.foldl (fun (s : Session) u => s.meter u.1 u.2) s)
  | [], s => .refl s
  | u :: usage, s => (s.evolves_meter u.1 u.2).trans (evolves_foldl_meter usage _)

theorem evolves_setPlan {i : Nat} {plan plan' : Plan} (h : s.plan? i = some plan)
    (hchanges : Relation.ReflTransGen (C i) plan plan') : EvolvesBy C s (s.setPlan i plan') where
  plans {j old} hold := by
    rw [plan?_setPlan, hold, Option.map_some]
    refine ⟨_, rfl, ?_⟩
    split_ifs with hij
    · subst hij
      rw [Option.some.inj (hold.symm.trans h)]
      exact hchanges
    · exact .refl
  scopes := rfl
  queries h := ⟨_, h, rfl⟩

theorem evolves_setPredicate {i : Nat} {p p' : Predicate} (h : s.predicates[i]? = some p)
    (hquery : p'.query = p.query) : EvolvesBy C s (s.setPredicate i p') where
  plans h := ⟨_, h, .refl⟩
  scopes := rfl
  queries {j q} hq := by
    obtain ⟨hi, -⟩ := List.getElem?_eq_some_iff.mp h
    rw [setPredicate, List.getElem?_set]
    split_ifs with hij
    · subst hij
      rw [Option.some.inj (hq.symm.trans h)]
      exact ⟨p', rfl, hquery⟩
    · exact ⟨q, hq, rfl⟩

theorem evolves_setFilter {i : Nat} {f f' : TableFilter} (h : s.filters[i]? = some f)
    (hscope : f'.scope = f.scope) : EvolvesBy C s (s.setFilter i f') where
  plans h := ⟨_, h, .refl⟩
  scopes := by
    rw [scopes, setFilter, List.map_set, hscope]
    refine List.ext_getElem? fun j => ?_
    rw [List.getElem?_set]
    split_ifs with hij
    · subst hij
      rw [scopes, List.getElem?_map, h]
      rfl
    · rename_i hlength
      exact absurd (by simpa using (List.getElem?_eq_some_iff.mp h).1) hlength
    · rfl
  queries h := ⟨_, h, rfl⟩

theorem mem_scopes {i : Nat} {f : TableFilter} (h : s.filters[i]? = some f) : f.scope ∈ s.scopes :=
  List.mem_map_of_mem (List.mem_of_getElem? h)

section Steps

variable {i : Nat} {r : Session × Answer}

theorem evolves_exprStep {t : ExprStep} (h : s.exprStep i t = some r) : EvolvesBy C s r.1 := by
  have hsame : r.1.plans = s.plans ∧ r.1.filters = s.filters ∧ r.1.predicates = s.predicates := by
    cases t with
    | bind filter level =>
      obtain ⟨e, -, h⟩ := Option.bind_eq_some_iff.mp h
      obtain ⟨f, -, h⟩ := Option.bind_eq_some_iff.mp h
      obtain rfl := Option.some.inj h
      exact ⟨rfl, rfl, rfl⟩
    | eval context =>
      obtain ⟨c, -, h⟩ := Option.bind_eq_some_iff.mp h
      obtain ⟨e, -, h⟩ := Option.bind_eq_some_iff.mp h
      obtain rfl := Option.some.inj h
      exact ⟨rfl, rfl, rfl⟩
    | _ =>
      obtain ⟨e, -, h⟩ := Option.bind_eq_some_iff.mp h
      obtain rfl := Option.some.inj h
      exact ⟨rfl, rfl, rfl⟩
  exact evolves_of_eq (fun j => by rw [plan?, plan?, hsame.1]) hsame.2.1 hsame.2.2

theorem evolves_predicateStep (hC : ∀ j, Plan.Routine s.scopes (C j)) {t : PredicateStep}
    (h : s.predicateStep i t = some r) : EvolvesBy C s r.1 := by
  unfold predicateStep at h
  obtain ⟨p, hp, h⟩ := Option.bind_eq_some_iff.mp h
  obtain ⟨plan, hplan, h⟩ := Option.bind_eq_some_iff.mp h
  dsimp only at h
  have hroutine := hC p.query
  have hchanged : ∀ q : Predicate × Plan, q.1.query = p.query →
      Relation.ReflTransGen (C p.query) plan q.2 →
      EvolvesBy C s ((s.setPredicate i q.1).setPlan p.query q.2) := fun q hquery hchanges =>
    (evolves_setPredicate hp hquery).trans
      (evolves_setPlan (s := s.setPredicate i q.1) hplan hchanges)
  cases t with
  | bind filter level =>
    obtain ⟨f, hf, h⟩ := Option.bind_eq_some_iff.mp h
    obtain rfl := Option.some.inj h
    exact hchanged _ (p.query_bind plan f.scope level)
      (hroutine.bindPredicate p plan (mem_scopes hf) level)
  | optimize =>
    obtain rfl := Option.some.inj h
    exact hchanged _ (p.query_optimize plan) (hroutine.optimizePredicate p plan)
  | mark filter flag =>
    obtain rfl := Option.some.inj h
    exact hchanged _ rfl (.single (hroutine.mark plan filter flag))
  | push filter settings =>
    obtain ⟨f, hf, h⟩ := Option.bind_eq_some_iff.mp h
    obtain rfl := Option.some.inj h
    exact evolves_setFilter hf TableFilter.scope_push
  | evaluate context =>
    obtain ⟨⟨ctx, registry⟩, -, h⟩ := Option.bind_eq_some_iff.mp h
    obtain rfl := Option.some.inj h
    exact (s.evolves_setRegistry _ _).trans (Session.evolves_meter _ _ _)
  | _ =>
    obtain rfl := Option.some.inj h
    exact .refl s

theorem evolves_planStep (hC : ∀ j, Plan.Routine s.scopes (C j)) {t : PlanStep}
    (ht : (Step.plan i t).Within C) (h : s.planStep i t = some r) : EvolvesBy C s r.1 := by
  unfold planStep at h
  obtain ⟨plan, hplan, h⟩ := Option.bind_eq_some_iff.mp h
  cases t with
  | addRow row =>
    cases plan with
    | values q =>
      obtain rfl := Option.some.inj h
      exact evolves_setPlan hplan (.single (ht q))
    | external e => cases h
  | rowCount =>
    cases plan with
    | values q =>
      obtain rfl := Option.some.inj h
      exact .refl s
    | external e => cases h
  | bind filter level =>
    obtain ⟨f, hf, h⟩ := Option.bind_eq_some_iff.mp h
    obtain rfl := Option.some.inj h
    exact evolves_setPlan hplan (.single ((hC i).bind plan f.scope (mem_scopes hf) level))
  | setRandomAccess flag =>
    obtain rfl := Option.some.inj h
    exact evolves_setPlan hplan (.single (ht plan))
  | prepare =>
    obtain rfl := Option.some.inj h
    exact evolves_setPlan hplan (.single ((hC i).prepare plan))
  | mark filter flag =>
    obtain rfl := Option.some.inj h
    exact evolves_setPlan hplan (.single ((hC i).mark plan filter flag))
  | usage =>
    obtain ⟨m, -, h⟩ := Option.bind_eq_some_iff.mp h
    obtain rfl := Option.some.inj h
    exact .refl s
  | run context =>
    obtain ⟨⟨ctx, registry⟩, -, h⟩ := Option.bind_eq_some_iff.mp h
    dsimp only at h
    split at h
    · obtain rfl := Option.some.inj h
      exact evolves_meter s i _
    · obtain rfl := Option.some.inj h
      exact evolves_meter s i _
  | _ =>
    obtain rfl := Option.some.inj h
    exact .refl s

theorem evolves_filterStep {t : FilterStep} (h : s.filterStep i t = some r) :
    EvolvesBy C s r.1 := by
  unfold filterStep at h
  obtain ⟨f, hf, h⟩ := Option.bind_eq_some_iff.mp h
  cases t with
  | add c =>
    obtain ⟨plan, -, h⟩ := Option.bind_eq_some_iff.mp h
    obtain rfl := Option.some.inj h
    exact evolves_setFilter hf rfl
  | probeValues condition context =>
    obtain ⟨⟨ctx, registry⟩, -, h⟩ := Option.bind_eq_some_iff.mp h
    dsimp only at h
    split at h
    · obtain rfl := Option.some.inj h
      exact .refl s
    · obtain rfl := Option.some.inj h
      exact (s.evolves_setRegistry _ _).trans (Session.evolves_meter _ _ _)
  | restrict rows context =>
    obtain ⟨⟨ctx, registry⟩, -, h⟩ := Option.bind_eq_some_iff.mp h
    obtain rfl := Option.some.inj h
    exact (evolves_foldl_meter _ s).trans (Session.evolves_setRegistry _ _ _)
  | _ =>
    obtain rfl := Option.some.inj h
    exact .refl s

theorem evolves_contextStep {t : ContextStep} (h : s.contextStep i t = some r) :
    EvolvesBy C s r.1 := by
  unfold contextStep at h
  obtain ⟨⟨ctx, registry⟩, -, h⟩ := Option.bind_eq_some_iff.mp h
  cases t with
  | value filter index =>
    obtain rfl := Option.some.inj h
    exact .refl s
  | _ =>
    obtain rfl := Option.some.inj h
    exact evolves_of_eq (fun _ => rfl) rfl rfl

theorem evolvesBy_step (hC : ∀ j, Plan.Routine s.scopes (C j)) {t : Step} (ht : t.Within C) :
    EvolvesBy C s (s.step t).1 := by
  have hgetD : ∀ taken : Option (Session × Answer), (∀ r, taken = some r → EvolvesBy C s r.1) →
      EvolvesBy C s (taken.getD (s, .missing)).1 := by
    rintro (_ | r) h
    · exact .refl s
    · exact h r rfl
  refine hgetD _ fun r h => ?_
  cases t with
  | expr i t => exact evolves_exprStep h
  | predicate i t => exact evolves_predicateStep hC h
  | plan i t => exact evolves_planStep hC ht h
  | filter i t => exact evolves_filterStep h
  | context i t => exact evolves_contextStep h
  | registry i =>
    obtain rfl := Option.some.inj h
    exact .refl s

theorem evolvesBy_steps : ∀ {s : Session} {ts : List Step},
    (∀ j, Plan.Routine s.scopes (C j)) → (∀ t ∈ ts, t.Within C) → EvolvesBy C s (s.steps ts).1
  | s, [], _, _ => .refl s
  | s, t :: ts, hC, h => by
    obtain ⟨ht, hts⟩ := List.forall_mem_cons.mp h
    have hstep := evolvesBy_step hC ht
    rw [← hstep.scopes] at hC
    exact hstep.trans (evolvesBy_steps hC hts)

end Steps

theorem evolves_steps (s : Session) {ts : List Step} (h : ∀ t ∈ ts, t.addsRow = false) :
    s.Evolves (s.steps ts).1 := by
  refine evolvesBy_steps (fun _ => Plan.routine_change s.scopes) fun t ht => ?_
  have hrow := h t ht
  unfold Step.Within
  split
  · cases hrow
  · exact fun _ => .setRandomAccess _
  · trivial

theorem scopes_step (s : Session) (t : Step) : (s.step t).1.scopes = s.scopes := by
  have hC : ∀ j : PlanId, Plan.Routine s.scopes fun _ _ => True :=
    fun _ => ⟨by simp, by simp, by simp, by simp⟩
  refine (evolvesBy_step hC (t := t) ?_).scopes
  unfold Step.Within
  split
  · exact fun _ => trivial
  · exact fun _ => trivial
  · trivial

theorem scopes_steps (s : Session) : ∀ ts : List Step, (s.steps ts).1.scopes = s.scopes
  | [] => rfl
  | t :: ts => ((s.step t).1.scopes_steps ts).trans (s.scopes_step t)

theorem steps_append (s : Session) :
    ∀ ts us : List Step, (s.steps (ts ++ us)).1 = ((s.steps ts).1.steps us).1
  | [], _ => rfl
  | t :: ts, us => (s.step t).1.steps_append ts us

/-- A step with another answer than that it names what is not there has been taken. -/
theorem some_of_answer {taken : Option (Session × Answer)}
    (h : (taken.getD (s, .missing)).2 ≠ .missing) : taken = some (taken.getD (s, .missing)) := by
  rcases taken with _ | r
  · exact absurd rfl h
  · rfl

theorem predicateStep_of_answer {i : Nat} {t : PredicateStep}
    (h : (s.step (.predicate i t)).2 ≠ .missing) :
    s.predicateStep i t = some (s.step (.predicate i t)) :=
  some_of_answer h

theorem filterStep_of_answer {i : Nat} {t : FilterStep}
    (h : (s.step (.filter i t)).2 ≠ .missing) :
    s.filterStep i t = some (s.step (.filter i t)) :=
  some_of_answer h

end Session

end QuantifiedComparison
