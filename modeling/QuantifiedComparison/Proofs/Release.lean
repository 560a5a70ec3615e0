import QuantifiedComparison.Proofs.Noninterference
import QuantifiedComparison.Proofs.ProbeReaders

/-!
# Nothing is left open

A plan is run for one purpose at a time, and whatever comes of the purpose, the probe of the run is
closed once and its guard released (`Plan.released_withProbe`). The guard's number is not in use
before, so the guards of others stay as they are. A filter does this for each of its conditions, up
to the first that gives no keys (`TableFilter.released_restrictBy`). A fault of closing changes
nothing but the probe that is gone. All of it together is `probes_released`.
-/

namespace QuantifiedComparison

namespace Registry

/-- A registry that guards were registered in and released from, in any order. -/
inductive Reachable : Registry → Prop
  | empty : Reachable {}
  | register {r : Registry} (h : Reachable r) (label : String) (probe : Probe) :
    Reachable (r.register label probe).2
  | release {r : Registry} (h : Reachable r) (id : Nat) : Reachable (r.release id)

variable {r : Registry}

/-- The next guard's number is not in use. -/
theorem Reachable.lt_registered (h : r.Reachable) : ∀ g ∈ r.alive, g.1 < r.registered := by
  induction h with
  | empty => exact nofun
  | register _ label probe ih =>
    refine List.forall_mem_append.mpr ⟨fun g hg => Nat.lt_succ_of_lt (ih g hg), ?_⟩
    exact List.forall_mem_singleton.mpr (Nat.lt_succ_self _)
  | release _ id ih => exact fun g hg => ih g (List.mem_of_mem_filter hg)

/-- Only the count of registrations tells of a guard that is gone. -/
theorem Reachable.release_register (h : r.Reachable) (label : String) (probe : Probe) :
    (r.register label probe).2.release r.registered = { r with registered := r.registered + 1 } := by
  have hkept : r.alive.filter (·.1 ≠ r.registered) = r.alive :=
    List.filter_eq_self.mpr fun g hg => decide_eq_true (Nat.ne_of_lt (h.lt_registered g hg))
  unfold Registry.register Registry.release
  dsimp only
  rw [List.filter_append, hkept]
  simp

end Registry

/-- How many runs of the plan succeed, out of one. -/
def Plan.successes (plan : Plan) (ctx : Context) : Nat :=
  match plan.run ctx with
  | .ok _ => 1
  | .error _ => 0

/-- The second plan answers as the first does, up to the faults that closing meets. -/
def Plan.DiffersInClosing (ctx : Context) (plan plan' : Plan) : Prop :=
  ∃ onClose, plan'.run ctx =
    (plan.run ctx).map fun r => { r with faults := { r.faults with onClose } }

/-- A run that leaves nothing open. If the plan cannot be run, its error is what comes of it. -/
structure Run.Released {α : Type} (run : Run α) (plan : Plan) (ctx : Context)
    (registry : Registry) : Prop where
  alive : run.registry.alive = registry.alive
  registered : run.registry.registered = registry.registered + plan.successes ctx
  runs : run.usage.runs = 1
  closes : run.usage.closes = plan.successes ctx
  failed : ∀ e, plan.run ctx = .error e → run.outcome = .error e

theorem Probe.closed_close (p : Probe) : p.close.2.closed = true := by
  unfold close
  dsimp only
  split <;> rfl

theorem Probe.usage_close (p : Probe) :
    p.close.2.usage = { p.usage with closes := p.usage.closes + 1 } := by
  unfold close
  dsimp only
  split <;> rfl

namespace Plan

variable {α : Type} {plan plan' : Plan} {ctx : Context} {registry : Registry}
  {body : Probe → Except Error α × Probe} {label : String}

theorem withProbe_error {e : Error} (hrun : plan.run ctx = .error e) :
    plan.withProbe label ctx registry body
      = { outcome := .error e, registry, usage := { runs := 1 } } := by
  rw [withProbe, hrun]

theorem withProbe_ok {response : Response} (hrun : plan.run ctx = .ok response) :
    plan.withProbe label ctx registry body =
      { outcome := (body (.start response)).1
        registry := (registry.register label (.start response)).2.release registry.registered
        usage := (body (.start response)).2.close.2.usage } := by
  rw [withProbe, hrun]
  rfl

theorem reachable_withProbe (h : registry.Reachable) :
    (plan.withProbe label ctx registry body).registry.Reachable := by
  cases hrun : plan.run ctx with
  | error e =>
    rw [withProbe_error hrun]
    exact h
  | ok response =>
    rw [withProbe_ok hrun]
    exact (h.register label _).release _

theorem released_withProbe (h : registry.Reachable) (hbody : Probe.Reader body) :
    (plan.withProbe label ctx registry body).Released plan ctx registry := by
  cases hrun : plan.run ctx with
  | error e =>
    have hnone : plan.successes ctx = 0 := by rw [successes, hrun]
    rw [withProbe_error hrun]
    refine ⟨rfl, by rw [hnone]; rfl, rfl, hnone.symm, fun e' he => ?_⟩
    rw [hrun] at he
    rw [Except.error.inj he]
  | ok response =>
    have hone : plan.successes ctx = 1 := by rw [successes, hrun]
    rw [withProbe_ok hrun, h.release_register]
    refine ⟨rfl, by rw [hone], ?_, ?_, fun e he => ?_⟩
    · rw [Probe.usage_close]
      exact hbody.runs (.start response)
    · rw [Probe.usage_close, hbody.closes, hone]
      rfl
    · rw [hrun] at he
      cases he

/-- Faults of closing do not show in what comes of a run. -/
theorem withProbe_of_closing (h : plan.DiffersInClosing ctx plan') (hbody : Probe.Reader body) :
    plan'.withProbe label ctx registry body = plan.withProbe label ctx registry body := by
  obtain ⟨onClose, hrun'⟩ := h
  cases hrun : plan.run ctx with
  | error e =>
    rw [hrun] at hrun'
    rw [withProbe_error hrun, withProbe_error hrun']
  | ok response =>
    rw [hrun] at hrun'
    have hread := hbody (.start response) onClose 1 0
    have hstart : (Probe.start response).withClosing onClose 1 0
        = .start { response with faults := { response.faults with onClose } } := rfl
    rw [hstart] at hread
    have husage : ((body (.start response)).2.withClosing onClose 1 0).usage
        = (body (.start response)).2.usage :=
      (congrArg Probe.usage (hbody.snd_eq (.start response))).symm
    rw [withProbe_ok hrun, withProbe_ok hrun', hread, Probe.usage_close, Probe.usage_close, husage]
    rfl

end Plan

namespace Predicate

variable (p : Predicate) {plan plan' : Plan} {ctx : Context} {registry : Registry}

theorem released_evaluate (h : registry.Reachable) :
    (p.evaluate plan ctx registry).Released plan ctx registry :=
  Plan.released_withProbe h (p.reader_answer ctx)

theorem evaluate_of_closing (h : plan.DiffersInClosing ctx plan') :
    p.evaluate plan' ctx registry = p.evaluate plan ctx registry :=
  Plan.withProbe_of_closing h (p.reader_answer ctx)

end Predicate

namespace IndexCondition

variable {plan plan' : Plan} {ctx : Context} {registry : Registry}

theorem released_probeValues (h : registry.Reachable) :
    (probeValues plan ctx registry).Released plan ctx registry :=
  Plan.released_withProbe h (Probe.reader_consume _ _)

theorem reachable_probeValues (plan : Plan) (ctx : Context) (h : registry.Reachable) :
    (probeValues plan ctx registry).registry.Reachable :=
  Plan.reachable_withProbe h

theorem probeValues_of_closing (h : plan.DiffersInClosing ctx plan') :
    probeValues plan' ctx registry = probeValues plan ctx registry :=
  Plan.withProbe_of_closing h (Probe.reader_consume _ _)

end IndexCondition

namespace TableFilter

variable (f : TableFilter) (plans : PlanId → Plan) (ctx : Context)

/-- The keys that a condition gives; the registry plays no part in them. -/
def keysOf (c : IndexCondition) : Except Error (List Value) :=
  (IndexCondition.probeValues (plans c.query) ctx {}).outcome >>=
    IndexCondition.keys (f.columnType c.column)

/-- The conditions that a restriction applies: all up to the first that gives no keys. -/
def applied : List IndexCondition → List IndexCondition
  | [] => []
  | c :: cs =>
    match f.keysOf plans ctx c with
    | .ok _ => c :: applied cs
    | .error _ => [c]

end TableFilter

/-- A restriction that leaves nothing open. Each condition it applies has run its plan once, and the
error of a plan that cannot be run is what comes of it. -/
structure Restriction.Released (r : Restriction) (plans : PlanId → Plan) (ctx : Context)
    (applied : List IndexCondition) (registry : Registry) : Prop where
  alive : r.registry.alive = registry.alive
  registered : r.registry.registered
    = registry.registered + (applied.map fun c => (plans c.query).successes ctx).sum
  usage : List.Forall₂ (fun (c : IndexCondition) (u : PlanId × Usage) => u.1 = c.query ∧
    u.2.runs = 1 ∧ u.2.closes = (plans c.query).successes ctx) applied r.usage
  failed : ∀ c ∈ applied, ∀ e, (plans c.query).run ctx = .error e → r.outcome = .error e

namespace TableFilter

variable (f : TableFilter) {plans plans' : PlanId → Plan} {ctx : Context}

variable {f} in
theorem keysOf_of_run {c : IndexCondition} {e : Error} (h : (plans c.query).run ctx = .error e) :
    f.keysOf plans ctx c = .error e := by
  rw [keysOf, (IndexCondition.released_probeValues .empty).failed e h]
  rfl

/-- A restriction comes by the keys of a condition whatever its registry. -/
theorem probeValues_bind_keys (c : IndexCondition) (registry : Registry) :
    (IndexCondition.probeValues (plans c.query) ctx registry).outcome >>=
      IndexCondition.keys (f.columnType c.column) = f.keysOf plans ctx c :=
  congrArg (· >>= _) (Plan.outcome_withProbe _ registry {})

theorem released_restrictBy (cs : List IndexCondition) (rows : List Row) {registry : Registry}
    (h : registry.Reachable) :
    (f.restrictBy plans ctx cs rows registry).Released plans ctx (f.applied plans ctx cs)
      registry := by
  induction cs generalizing rows registry with
  | nil => exact ⟨rfl, rfl, .nil, nofun⟩
  | cons c cs ih =>
    have hrun : (IndexCondition.probeValues (plans c.query) ctx registry).Released (plans c.query)
        ctx registry := IndexCondition.released_probeValues h
    unfold restrictBy applied
    dsimp only
    rw [f.probeValues_bind_keys]
    cases hc : f.keysOf plans ctx c with
    | error e =>
      refine ⟨hrun.alive, hrun.registered, .cons ⟨rfl, hrun.runs, hrun.closes⟩ .nil, ?_⟩
      refine List.forall_mem_singleton.mpr fun e' he => ?_
      rw [keysOf_of_run he] at hc
      obtain rfl := Except.error.inj hc
      rfl
    | ok keys =>
      have hrest := ih (rows.filter (c.admits keys))
        (IndexCondition.reachable_probeValues (plans c.query) ctx h)
      refine ⟨hrest.alive.trans hrun.alive, ?_, .cons ⟨rfl, hrun.runs, hrun.closes⟩ hrest.usage,
        List.forall_mem_cons.mpr ⟨fun e he => ?_, hrest.failed⟩⟩
      · rw [List.map_cons, List.sum_cons, ← Nat.add_assoc, ← hrun.registered]
        exact hrest.registered
      · rw [keysOf_of_run he] at hc
        cases hc

theorem restrictBy_of_closing (h : ∀ i, (plans i).DiffersInClosing ctx (plans' i))
    (cs : List IndexCondition) (rows : List Row) (registry : Registry) :
    f.restrictBy plans' ctx cs rows registry = f.restrictBy plans ctx cs rows registry := by
  induction cs generalizing rows registry with
  | nil => rfl
  | cons c cs ih =>
    unfold restrictBy
    simp only [IndexCondition.probeValues_of_closing (h c.query), ih]

end TableFilter

/-- Evaluating a predicate, probing an index and restricting the rows of a filter leave no more open
than they found, whatever fails on the way: each probe that a run gave is closed once, a plan that
cannot be run registers nothing and its error is the result, and faults of closing do not show. -/
theorem probes_released {registry : Registry} (h : registry.Reachable) (ctx : Context) :
    (∀ (p : Predicate) (plan : Plan), (p.evaluate plan ctx registry).Released plan ctx registry) ∧
      (∀ plan : Plan,
        (IndexCondition.probeValues plan ctx registry).Released plan ctx registry) ∧
      (∀ (f : TableFilter) (plans : PlanId → Plan) (rows : List Row),
        (f.restrict plans ctx rows registry).Released plans ctx (f.applied plans ctx f.conditions)
          registry) ∧
      (∀ plan plan' : Plan, plan.DiffersInClosing ctx plan' →
        (∀ p : Predicate, p.evaluate plan' ctx registry = p.evaluate plan ctx registry) ∧
          IndexCondition.probeValues plan' ctx registry
            = IndexCondition.probeValues plan ctx registry) ∧
      ∀ (f : TableFilter) (plans plans' : PlanId → Plan) (rows : List Row),
        (∀ i, (plans i).DiffersInClosing ctx (plans' i)) →
          f.restrict plans' ctx rows registry = f.restrict plans ctx rows registry :=
  ⟨fun p _ => p.released_evaluate h, fun _ => IndexCondition.released_probeValues h,
    fun f _ rows => f.released_restrictBy f.conditions rows h,
    fun _ _ hclosing => ⟨fun p => p.evaluate_of_closing hclosing,
      IndexCondition.probeValues_of_closing hclosing⟩,
    fun f _ _ rows hclosing => f.restrictBy_of_closing hclosing f.conditions rows registry⟩

/-- A query of two rows, of which the second cannot be read, and which closes with a fault. -/
def brittle : Plan :=
  .external
    { sql := "brittle"
      run := fun _ => .ok
        { table :=
            { types := [.integer], rows := [[.integer 1], [.integer 2]], randomAccess := true }
          faults :=
            { onNext := fun n => if n = 1 then some (.execution "read") else none
              onClose := fun _ => some (.execution "close") } } }

/-- A registry in which another query is open. -/
def occupied : Registry :=
  { alive := [(0, "other")], registered := 1 }

/-- A scan that fails at the second row gives back its probe, and only that one. -/
theorem probes_released_brittle :
    let run := (Predicate.isIn (.literal (.integer 2)) 0).evaluate brittle
      { settings := { useLookup := false } } occupied
    run.registry.alive = [(0, "other")] ∧ run.registry.registered = 2 ∧ run.usage.closes = 1 :=
  have hoccupied : occupied.Reachable :=
    Registry.Reachable.empty.register "other"
      (.start { table := { types := [], rows := [], randomAccess := false } })
  have released := (probes_released hoccupied { settings := { useLookup := false } }).1
    (.isIn (.literal (.integer 2)) 0) brittle
  ⟨released.alive, released.registered, released.closes⟩

end QuantifiedComparison
