import QuantifiedComparison.Expr.Binding
import QuantifiedComparison.Expr.Evaluation
import QuantifiedComparison.Expr.Folding
import QuantifiedComparison.Expr.Question
import QuantifiedComparison.ResultTable
import QuantifiedComparison.Value.Conversion

/-!
# VALUES plans

A list of rows of expressions under declared columns. The expressions may read columns of enclosing
queries. Preparing a plan checks the width of its rows and folds their cells; running it evaluates
every cell and converts the value to the column's type.
-/

namespace QuantifiedComparison

structure ValuesPlan where
  columns : List (String × ColumnType)
  rows : List (List Expr) := []
  randomAccess : Bool := false
  /-- Set by a preparation that succeeds, until a row is added. -/
  prepared : Bool := false
deriving DecidableEq

namespace ValuesPlan

def addRow (p : ValuesPlan) (row : List Expr) : ValuesPlan :=
  { p with rows := p.rows ++ [row], prepared := false }

/-- One column of literals. -/
def ofValues (name : String) (type : ColumnType) (values : List Value) : ValuesPlan :=
  { columns := [(name, type)], rows := values.map fun v => [.literal v] }

def types (p : ValuesPlan) : List ColumnType :=
  p.columns.map (·.2)

/-- All cells, row by row. -/
def cells (p : ValuesPlan) : List Expr :=
  p.rows.flatten

def bind (p : ValuesPlan) (s : Scope) (level : QueryLevel) : Attempt ValuesPlan :=
  (Attempt.each (Attempt.each (·.bind s level)) p.rows).map fun rows => { p with rows }

def mark (p : ValuesPlan) (filter : Nat) (flag : Bool) : ValuesPlan :=
  { p with rows := p.rows.map (·.map (·.mark filter flag)) }

/-- Folds the rows, which are numbered from `first`; a row of another width stops the folding. -/
def foldRows (width : Nat) : Nat → List (List Expr) → Attempt (List (List Expr))
  | _, [] => ⟨[], none⟩
  | first, row :: rows =>
    if row.length ≠ width then ⟨row :: rows, some (.rowWidth first row.length width)⟩
    else
      let folded := Attempt.each Expr.fold row
      match folded.error with
      | some e => ⟨folded.after :: rows, some e⟩
      | none => (foldRows width (first + 1) rows).map (folded.after :: ·)

def prepare (p : ValuesPlan) : Attempt ValuesPlan :=
  let folded := foldRows p.columns.length 1 p.rows
  match folded.error with
  | some e => ⟨{ p with rows := folded.after }, some e⟩
  | none => ⟨{ p with rows := folded.after, prepared := true }, none⟩

def setupCost : Nat := 10
def cellCost : Nat := 10
def greatestCost : Nat := 1000000

def cost (p : ValuesPlan) : Nat :=
  let shape := p.rows.length * p.columns.length
  let expressions := p.cells.foldr (fun cell total => cell.cost + total) 0
  min (setupCost + cellCost * (shape + expressions)) greatestCost

/-- The cells stand one level deeper than the predicate that asks. -/
def satisfies (p : ValuesPlan) (q : Question) : Bool :=
  p.cells.all (·.satisfies q.descend)

def listed (parts : List String) : String :=
  String.intercalate ", " parts

def sql (p : ValuesPlan) : String :=
  let rows := p.rows.map fun row => "(" ++ listed (row.map Expr.text) ++ ")"
  "SELECT * FROM (VALUES " ++ listed rows ++ ") AS V(" ++ listed (p.columns.map (·.1)) ++ ")"

def evalCell (ctx : Context) (cell : Expr) (type : ColumnType) : Except Error Value := do
  (← cell.eval ctx).convert type

def evalRow (ctx : Context) (types : List ColumnType) (row : List Expr) : Except Error Row :=
  (row.zip types).mapM fun (cell, type) => evalCell ctx cell type

def run (p : ValuesPlan) (ctx : Context) : Except Error ResultTable := do
  if !p.prepared then throw .notPrepared
  let rows ← p.rows.mapM (evalRow ctx p.types)
  return { types := p.types, rows, randomAccess := p.randomAccess }

end ValuesPlan

end QuantifiedComparison
