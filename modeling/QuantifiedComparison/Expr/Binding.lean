import QuantifiedComparison.Attempt
import QuantifiedComparison.Expr

/-!
# Binding

A scope binds the columns it knows, at the level of its query. A column that is bound stays as it
is, so inner scopes, which bind first, hide outer ones; two scopes of one level that know the same
column make it ambiguous.
-/

namespace QuantifiedComparison

/-- The columns of one table as a query sees them. -/
structure Scope where
  filter : Nat
  name : String
  find? : String → Option (Nat × ColumnType)

/-- What the scope binds the column to: its name has to be known, and its table, if it names one,
has to be the scope's. -/
def Scope.match? (s : Scope) (c : Column) : Option (Nat × ColumnType) :=
  if c.table.all (Text.equalIgnoringCase · s.name) then s.find? c.name else none

def Column.bind (c : Column) (s : Scope) (level : QueryLevel) : Attempt Column :=
  match s.match? c with
  | none => ⟨c, none⟩
  | some (index, type) =>
    match c.binding with
    | none => ⟨{ c with binding := some ⟨s.filter, index, type, level⟩ }, none⟩
    | some b =>
      if b.level = level ∧ b.filter ≠ s.filter then ⟨c, some (.ambiguousColumn c.text)⟩
      else ⟨c, none⟩

namespace Expr

def bind (s : Scope) (level : QueryLevel) : Expr → Attempt Expr
  | literal v => ⟨literal v, none⟩
  | column c => (c.bind s level).map column
  | binary o l r =>
    let left := l.bind s level
    match left.error with
    | some e => ⟨binary o left.after r, some e⟩
    | none => (r.bind s level).map (binary o left.after)

/-- Sets or clears the mark of every column that is bound to the filter. -/
def mark (filter : Nat) (flag : Bool) : Expr → Expr
  | literal v => literal v
  | column c =>
    if c.binding.any (·.filter = filter) then column { c with evaluatable := flag } else column c
  | binary o l r => binary o (l.mark filter flag) (r.mark filter flag)

end Expr

end QuantifiedComparison
