import QuantifiedComparison.Predicate.Evaluation
import QuantifiedComparison.TableFilter

/-!
# Restricting rows

An index condition runs its query for the distinct values it probes the index with. A filter keeps
the rows that every one of its conditions lets through.
-/

namespace QuantifiedComparison

namespace IndexCondition

def label : String := "IN index condition"

/-- Adds the first value of a row, unless it is NULL or there already. -/
def collect (values : List Value) (row : Row) : List Value :=
  match Predicate.datum? row with
  | some v => if v.isAmong values then values else values ++ [v]
  | none => values

/-- The distinct values of the query in the order in which they are first seen. -/
def probeValues (plan : Plan) (ctx : Context) (registry : Registry) : Run (List Value) :=
  plan.withProbe label ctx registry fun probe =>
    probe.consume (fun values row => .ok (.yield (collect values row))) []

/-- The probe values as values of the column's type. -/
def keys (type : ColumnType) (values : List Value) : Except Error (List Value) :=
  values.mapM (·.convert type)

/-- Whether the row's value in the column is among the keys; NULL never is. -/
def admits (c : IndexCondition) (keys : List Value) (row : Row) : Bool :=
  row[c.column]?.any fun v => !v.isNull && v.isAmong keys

end IndexCondition

/-- The rows that are left, the registry, and what was asked of which plan. -/
structure Restriction where
  outcome : Except Error (List Row)
  registry : Registry
  usage : List (PlanId × Usage) := []

namespace TableFilter

/-- Applies the conditions one after another, up to the first that fails. -/
def restrictBy (f : TableFilter) (plans : PlanId → Plan) (ctx : Context) :
    List IndexCondition → List Row → Registry → Restriction
  | [], rows, registry => { outcome := .ok rows, registry }
  | c :: cs, rows, registry =>
    let run := IndexCondition.probeValues (plans c.query) ctx registry
    match run.outcome >>= IndexCondition.keys (f.columnType c.column) with
    | .error e =>
      { outcome := .error e, registry := run.registry, usage := [(c.query, run.usage)] }
    | .ok keys =>
      let rest := f.restrictBy plans ctx cs (rows.filter (c.admits keys)) run.registry
      { rest with usage := (c.query, run.usage) :: rest.usage }

def restrict (f : TableFilter) (plans : PlanId → Plan) (ctx : Context) (rows : List Row)
    (registry : Registry) : Restriction :=
  f.restrictBy plans ctx f.conditions rows registry

end TableFilter

end QuantifiedComparison
