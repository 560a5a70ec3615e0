import QuantifiedComparison.Comparison.Outcome
import QuantifiedComparison.Predicate

/-!
# Evaluating a predicate

The query is run once. Over no rows a predicate has the value of its quantifier, and over some rows
a left operand that is NULL makes it unknown. Otherwise the left value is compared with the rows one
after another until one decides, or looked up among the distinct rows.
-/

namespace QuantifiedComparison.Predicate

/-- How far a scan has come. -/
structure Scan where
  result : Bool
  sawNull : Bool := false
deriving DecidableEq, Repr

/-- The first value of a row, if it has one that is not NULL. -/
def datum? (row : Row) : Option Value :=
  row.head?.filter (!·.isNull)

/-- Whether a row satisfies the comparison; one without a value never does. -/
def matchesRow (p : Predicate) (left : Value) (row : Row) : Except Error Bool :=
  match datum? row with
  | some v => p.comparison.outcome left v
  | none => .ok false

/-- Looks at one row. For ANY a row that satisfies the comparison decides, for ALL one that does
not. -/
def scanRow (p : Predicate) (left : Value) (s : Scan) (row : Row) :
    Except Error (ForInStep Scan) :=
  (p.matchesRow left row).map fun matched =>
    let sawNull := s.sawNull || (datum? row).isNone
    if matched = p.quantifier.vacuous then .yield { s with sawNull }
    else .done { result := matched, sawNull }

/-- Numbers compare with a numeric column as they are; all else takes the column's type. -/
def operand (left : Value) (type : ColumnType) : Except Error Value :=
  if type = .null ∨ (type.isNumeric ∧ left.type.isNumeric) then .ok left else left.convert type

def scan (p : Predicate) (policy : NullRowPolicy) (left : Value) (probe : Probe) :
    Except Error Truth × Probe :=
  match operand left (probe.columnType 0) with
  | .error e => (.error e, probe)
  | .ok v =>
    let (ended, probe) := probe.consume (p.scanRow v) { result := p.quantifier.vacuous }
    (ended.map fun s => policy.resolve p.quantifier s.result s.sawNull, probe)

/-- The value to look up. A double that is no integer is not among integers and needs no look. -/
def lookupKey (left : Value) (type : ColumnType) : Except Error (Option Value) :=
  match left, type with
  | .float f, .integer => .ok ((Value.float f).convert? .integer)
  | v, t => (v.convert t).map some

/-- Without the value among the rows, a NULL row leaves the answer open. -/
def lookupNull (probe : Probe) : Except Error Truth × Probe :=
  let (found, probe) := probe.contains [.null]
  (found.map fun b => if b then .unknown else .fails, probe)

def lookup (left : Value) (probe : Probe) : Except Error Truth × Probe :=
  if probe.columnType 0 = .null then (.ok .fails, probe)
  else
    match lookupKey left (probe.columnType 0) with
    | .error e => (.error e, probe)
    | .ok none => lookupNull probe
    | .ok (some key) =>
      match probe.contains [key] with
      | (.error e, probe) => (.error e, probe)
      | (.ok true, probe) => (.ok .holds, probe)
      | (.ok false, probe) => lookupNull probe

/-- The value of the predicate over the rows of a probe. -/
def answer (p : Predicate) (ctx : Context) (probe : Probe) : Except Error Value × Probe :=
  match p.left.eval ctx with
  | .error e => (.error e, probe)
  | .ok left =>
    if probe.rowCount = 0 then (.ok (.boolean p.quantifier.vacuous), probe)
    else if left.isNull then (.ok .null, probe)
    else
      let (truth, probe) :=
        match p.strategy ctx.settings with
        | .scan => p.scan ctx.settings.nullRows left probe
        | .lookup => lookup left probe
      (truth.map Truth.toValue, probe)

def label : String := "quantified subquery"

def evaluate (p : Predicate) (plan : Plan) (ctx : Context) (registry : Registry) : Run Value :=
  plan.withProbe label ctx registry (p.answer ctx)

end QuantifiedComparison.Predicate
