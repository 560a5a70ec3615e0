import QuantifiedComparison.Session

/-!
# Taking steps

A step changes the session and gives an answer. An error is an answer like others: what the failing
step changed before it stopped stays changed, and the session goes on.
-/

namespace QuantifiedComparison

def Expr.column? : Expr → Option Column
  | column c => some c
  | _ => none

namespace Session

variable (s : Session)

def setExpr (i : Nat) (e : Expr) : Session :=
  { s with exprs := s.exprs.set i e }

def setPredicate (i : Nat) (p : Predicate) : Session :=
  { s with predicates := s.predicates.set i p }

def setPlan (i : Nat) (plan : Plan) : Session :=
  { s with plans := s.plans.modify i fun m => { m with plan } }

def setFilter (i : Nat) (f : TableFilter) : Session :=
  { s with filters := s.filters.set i f }

def setContext (i : Nat) (c : Context) : Session :=
  { s with contexts := s.contexts.modify i fun old => (c, old.2) }

def setRegistry (i : Nat) (r : Registry) : Session :=
  { s with registries := fun j => if j = i then r else s.registries j }

/-- Counts what was asked of a plan. -/
def meter (i : Nat) (u : Usage) : Session :=
  { s with plans := s.plans.modify i fun m => { m with usage := m.usage.add u } }

def plan? (i : Nat) : Option Plan :=
  s.plans[i]?.map (·.plan)

/-- A plan for every number; one that is not there cannot be run. -/
def planAt (i : Nat) : Plan :=
  (s.plan? i).getD (.external { sql := "", run := fun _ => .error (.execution "No such plan") })

def exprStep (i : Nat) : ExprStep → Option (Session × Answer)
  | .bind filter level => do
    let t := (← s.exprs[i]?).bind (← s.filters[filter]?).scope level
    return (s.setExpr i t.after, .ofAttempt t)
  | .fold => do
    let t := (← s.exprs[i]?).fold
    return (s.setExpr i t.after, .ofAttempt t)
  | .eval context => do
    let (ctx, _) ← s.contexts[context]?
    return (s, .ofExcept .value ((← s.exprs[i]?).eval ctx))
  | .mark filter flag => do
    return (s.setExpr i ((← s.exprs[i]?).mark filter flag), .done)
  | .cost => do return (s, .count (← s.exprs[i]?).cost)
  | .ask q => do return (s, .flag ((← s.exprs[i]?).satisfies q))
  | .text => do return (s, .text (← s.exprs[i]?).text)
  | .reference => do return (s, .reference (← s.exprs[i]?).column?)

def predicateStep (i : Nat) (t : PredicateStep) : Option (Session × Answer) := do
  let p ← s.predicates[i]?
  let plan ← s.plan? p.query
  let changed (q : Predicate × Plan) : Session := (s.setPredicate i q.1).setPlan p.query q.2
  match t with
  | .bind filter level =>
    let t := p.bind plan (← s.filters[filter]?).scope level
    return (changed t.after, .ofAttempt t)
  | .optimize =>
    let t := p.optimize plan
    return (changed t.after, .ofAttempt t)
  | .mark filter flag => return (changed (p.mark plan filter flag), .done)
  | .cost => return (s, .count (p.cost plan))
  | .ask q => return (s, .flag (p.satisfies plan q))
  | .strategy settings => return (s, .strategy (p.strategy settings))
  | .push filter settings =>
    let (pushed, f) := p.push plan settings (← s.filters[filter]?)
    return (s.setFilter filter f, .flag pushed)
  | .evaluate context =>
    let (ctx, registry) ← s.contexts[context]?
    let run := p.evaluate plan ctx (s.registries registry)
    return ((s.setRegistry registry run.registry).meter p.query run.usage,
      .ofExcept .value run.outcome)
  | .text => return (s, .text (p.text plan))
  | .describe => return (s, .description p)

def planStep (i : Nat) (t : PlanStep) : Option (Session × Answer) := do
  let plan ← s.plan? i
  match t with
  | .addRow row =>
    let .values p := plan | none
    return (s.setPlan i (.values (p.addRow row)), .done)
  | .rowCount =>
    let .values p := plan | none
    return (s, .count p.rows.length)
  | .bind filter level =>
    let t := plan.bind (← s.filters[filter]?).scope level
    return (s.setPlan i t.after, .ofAttempt t)
  | .setRandomAccess flag => return (s.setPlan i (plan.setRandomAccess flag), .done)
  | .prepare =>
    let t := plan.prepare
    return (s.setPlan i t.after, .ofAttempt t)
  | .columnCount => return (s, .count plan.columnCount)
  | .mark filter flag => return (s.setPlan i (plan.mark filter flag), .done)
  | .cost => return (s, .count plan.cost)
  | .ask q => return (s, .flag (plan.satisfies q))
  | .sql => return (s, .text plan.sql)
  | .usage => return (s, .usage (← s.plans[i]?).usage)
  | .run context =>
    let (ctx, _) ← s.contexts[context]?
    match plan.run ctx with
    | .error e => return (s.meter i { runs := 1 }, .failed e)
    | .ok response =>
      let probe := Probe.start response
      let (rows, read) := probe.toRows
      return (s.meter i read.usage,
        .ofExcept (.result probe.rowCount (probe.columnType 0)) rows)

def filterStep (i : Nat) (t : FilterStep) : Option (Session × Answer) := do
  let f ← s.filters[i]?
  match t with
  | .find name => return (s, .found (f.find? name))
  | .add c =>
    let _ ← s.plan? c.query
    return (s.setFilter i (f.add c), .done)
  | .conditions =>
    return (s, .conditions (f.conditions.map fun c => (c.column, c.text (s.planAt c.query))))
  | .probeValues condition context =>
    let (ctx, registry) ← s.contexts[context]?
    match f.conditions[condition]? with
    | none => return (s, .noCondition)
    | some c =>
      let run := IndexCondition.probeValues (s.planAt c.query) ctx (s.registries registry)
      return ((s.setRegistry registry run.registry).meter c.query run.usage,
        .ofExcept .values run.outcome)
  | .restrict rows context =>
    let (ctx, registry) ← s.contexts[context]?
    let run := f.restrict s.planAt ctx rows (s.registries registry)
    let metered := run.usage.foldl (fun (s : Session) u => s.meter u.1 u.2) s
    return (metered.setRegistry registry run.registry, .ofExcept .rows run.outcome)

def contextStep (i : Nat) (t : ContextStep) : Option (Session × Answer) := do
  let (ctx, _) ← s.contexts[i]?
  match t with
  | .position filter row => return (s.setContext i (ctx.position filter row), .done)
  | .clear filter => return (s.setContext i (ctx.clear filter), .done)
  | .value filter index => return (s, .ofExcept .value (ctx.value filter index))
  | .settings => return (s, .settings ctx.settings)

def step (t : Step) : Session × Answer :=
  let taken :=
    match t with
    | .expr i t => s.exprStep i t
    | .predicate i t => s.predicateStep i t
    | .plan i t => s.planStep i t
    | .filter i t => s.filterStep i t
    | .context i t => s.contextStep i t
    | .registry i => some (s, .registry (s.registries i))
  taken.getD (s, .missing)

/-- Takes the steps in turn; there is an answer to each. -/
def steps (s : Session) : List Step → Session × List Answer
  | [] => (s, [])
  | t :: ts =>
    let (s, answer) := s.step t
    let (s, answers) := s.steps ts
    (s, answer :: answers)

end Session

end QuantifiedComparison
