import QuantifiedComparison.Plan.Values
import QuantifiedComparison.Registry

/-!
# Plans

A plan is a VALUES list or stands for a query of another kind, of which only the answers are known.
`withProbe` runs a plan for one purpose: it registers the probe of the run, and closes and releases
it whatever comes of that purpose.
-/

namespace QuantifiedComparison

/-- A plan of another kind: its answers do not depend on binding, marks or preparation. -/
structure ExternalPlan where
  columnCount : Nat := 1
  cost : Nat := 10
  satisfies : Question → Bool := fun _ => true
  sql : String
  /-- What preparing the plan fails with. -/
  unprepared : Option Error := none
  run : Context → Except Error Response

inductive Plan
  | values (p : ValuesPlan)
  | external (p : ExternalPlan)

namespace Plan

def bind (s : Scope) (level : QueryLevel) : Plan → Attempt Plan
  | values p => (p.bind s level).map values
  | external p => ⟨external p, none⟩

def setRandomAccess (flag : Bool) : Plan → Plan
  | values p => values { p with randomAccess := flag }
  | external p => external p

def prepare : Plan → Attempt Plan
  | values p => p.prepare.map values
  | external p => ⟨external p, p.unprepared⟩

def columnCount : Plan → Nat
  | values p => p.columns.length
  | external p => p.columnCount

def mark (filter : Nat) (flag : Bool) : Plan → Plan
  | values p => values (p.mark filter flag)
  | external p => external p

def cost : Plan → Nat
  | values p => p.cost
  | external p => p.cost

def satisfies (q : Question) : Plan → Bool
  | values p => p.satisfies q
  | external p => p.satisfies q

def sql : Plan → String
  | values p => p.sql
  | external p => p.sql

def run (ctx : Context) : Plan → Except Error Response
  | values p => (p.run ctx).map fun table => { table }
  | external p => p.run ctx

end Plan

/-- What came of one use of a plan, the registry after it, and what it asked of the plan. -/
structure Run (α : Type) where
  outcome : Except Error α
  registry : Registry
  usage : Usage

/-- Runs the plan under a label for what `body` makes of its probe. -/
def Plan.withProbe {α : Type} (plan : Plan) (label : String) (ctx : Context) (registry : Registry)
    (body : Probe → Except Error α × Probe) : Run α :=
  match plan.run ctx with
  | .error e => { outcome := .error e, registry, usage := { runs := 1 } }
  | .ok response =>
    let (guard, during) := registry.register label (.start response)
    let (outcome, used) := body guard.probe
    let (dropped, after) := Guard.drop { guard with probe := used } during
    { outcome, registry := after, usage := dropped.usage }

end QuantifiedComparison
