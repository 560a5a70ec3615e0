import QuantifiedComparison.Proofs.ColumnChanges
import QuantifiedComparison.Proofs.Noninterference
import QuantifiedComparison.Proofs.SingleColumn

/-!
# Correlation is substitution

Where every column of an expression has a value, the values can be written in the place of the
columns. What comes out reads nothing any more and evaluates everywhere as the expression does in
the context the values are from (`Expr.eval_instantiate`).

A VALUES list is treated cell by cell. That it is prepared before it is run does not matter to the
table (`run_prepare_iff`), so a correlated list, whose constant parts alone were folded, and the
instantiated one, which folds down to literals, give the same table or both give none
(`correlation_is_substitution`).
-/

namespace QuantifiedComparison

/-- The column is bound, and its filter stands on a row that is long enough. -/
def Column.Positioned (ctx : Context) (c : Column) : Prop :=
  ∃ b row, c.binding = some b ∧ ctx.rows b.filter = some row ∧ b.index < row.length

/-- What stands at the column's place in the current row of its filter. -/
def Column.current? (ctx : Context) (c : Column) : Option Value := do
  let b ← c.binding
  let row ← ctx.rows b.filter
  row[b.index]?

theorem Column.Positioned.eval {ctx : Context} {c : Column} (h : c.Positioned ctx) :
    ∃ v, c.current? ctx = some v ∧ c.eval ctx = .ok v := by
  obtain ⟨b, row, hbinding, hrow, hindex⟩ := h
  refine ⟨row[b.index], ?_, ?_⟩
  · simp [current?, hbinding, hrow, hindex]
  · simp [Column.eval, Context.value, hbinding, hrow, hindex]

namespace Expr

/-- The expression with the current value of every column in its place. -/
def instantiate (ctx : Context) : Expr → Expr
  | literal v => literal v
  | column c => ((c.current? ctx).map literal).getD (column c)
  | binary o l r => binary o (l.instantiate ctx) (r.instantiate ctx)

variable {ctx : Context}

theorem eval_instantiate (elsewhere : Context) : ∀ {e : Expr},
    (∀ c ∈ e.columns, c.Positioned ctx) → (e.instantiate ctx).eval elsewhere = e.eval ctx
  | literal _, _ => rfl
  | column c, h => by
    obtain ⟨v, hcurrent, heval⟩ := (h c (List.mem_singleton_self c)).eval
    rw [instantiate, hcurrent, eval, heval]
    rfl
  | binary o l r, h => by
    obtain ⟨hl, hr⟩ := List.forall_mem_append.mp h
    rw [instantiate, eval, eval, eval_instantiate elsewhere hl, eval_instantiate elsewhere hr]

theorem columns_instantiate : ∀ {e : Expr},
    (∀ c ∈ e.columns, c.Positioned ctx) → (e.instantiate ctx).columns = []
  | literal _, _ => rfl
  | column c, h => by
    obtain ⟨v, hcurrent, -⟩ := (h c (List.mem_singleton_self c)).eval
    rw [instantiate, hcurrent]
    rfl
  | binary o l r, h => by
    obtain ⟨hl, hr⟩ := List.forall_mem_append.mp h
    rw [instantiate, columns, columns_instantiate hl, columns_instantiate hr]
    rfl

end Expr

namespace ValuesPlan

/-- The table of the plan's cells, whether or not the plan is prepared. -/
def evaluate (q : ValuesPlan) (ctx : Context) : Except Error ResultTable := do
  let rows ← q.rows.mapM (evalRow ctx q.types)
  return { types := q.types, rows, randomAccess := q.randomAccess }

section Run

variable {q : ValuesPlan} {ctx : Context} {table : ResultTable}

theorem run_of_prepared (h : q.prepared = true) : q.run ctx = q.evaluate ctx := by
  rw [run, h]
  rfl

theorem run_of_not_prepared (h : q.prepared = false) : q.run ctx = .error .notPrepared := by
  rw [run, h]
  rfl

theorem prepared_of_run (h : q.run ctx = .ok table) : q.prepared = true := by
  rcases hflag : q.prepared with _ | _
  · rw [run_of_not_prepared hflag] at h
    cases h
  · rfl

theorem evaluate_congr {q' : ValuesPlan} {ctx' : Context} (hcolumns : q'.columns = q.columns)
    (haccess : q'.randomAccess = q.randomAccess)
    (h : List.Forall₂ (List.Forall₂ fun cell cell' => cell'.eval ctx' = cell.eval ctx)
      q.rows q'.rows) : q'.evaluate ctx' = q.evaluate ctx := by
  have hrows : q'.rows.mapM (evalRow ctx' q.types) = q.rows.mapM (evalRow ctx q.types) :=
    mapM_congr₂ (h.imp fun _ _ hrow => evalRow_congr hrow)
  rw [evaluate, evaluate, types, types, hcolumns, haccess]
  exact congrArg (· >>= _) hrows

theorem evaluate_prepare (q : ValuesPlan) (ctx : Context) :
    q.prepare.after.evaluate ctx = q.evaluate ctx :=
  evaluate_congr q.columns_prepare q.randomAccess_prepare
    (forall₂_prepare (R := fun cell cell' => cell'.eval ctx = cell.eval ctx) (fun _ => rfl)
      (Expr.eval_fold ctx) q)

/-- In a row that is as wide as its types, every cell has a value if the row has one. -/
theorem cell_of_evalRow {types : List ColumnType} {cells : List Expr} {row : Row}
    (hwidth : cells.length = types.length) (h : evalRow ctx types cells = .ok row) :
    ∀ cell ∈ cells, ∃ v, cell.eval ctx = .ok v := by
  intro cell hcell
  rw [← List.map_fst_zip hwidth.le] at hcell
  obtain ⟨⟨cell, type⟩, hmem, rfl⟩ := List.mem_map.mp hcell
  obtain ⟨w, -, hw⟩ : ∃ w ∈ row, evalCell ctx cell type = .ok w := ok_of_mapM_ok h hmem
  obtain ⟨v, hv, -⟩ := evalCell_ok_iff.mp hw
  exact ⟨v, hv⟩

/-- Rows of the right width that give a table can be prepared. -/
theorem prepare_of_evaluate (hwidth : ∀ row ∈ q.rows, row.length = q.columns.length)
    (h : q.evaluate ctx = .ok table) : q.prepare.error = none := by
  have hrun : { q with prepared := true }.run ctx = .ok table := (run_of_prepared rfl).trans h
  obtain ⟨hrows, -, -⟩ := (run_ok_iff rfl).mp hrun
  refine prepare_error_eq_none_iff.mpr fun row hrow => ⟨hwidth row hrow, fun cell hcell => ?_⟩
  obtain ⟨values, -, hvalues⟩ := ok_of_mapM_ok hrows hrow
  have htypes : row.length = q.types.length := by rw [hwidth row hrow, types, List.length_map]
  obtain ⟨v, hv⟩ := cell_of_evalRow htypes hvalues cell hcell
  by_contra hstopped
  obtain ⟨stop, hstop⟩ := Option.ne_none_iff_exists'.mp hstopped
  obtain ⟨e, he⟩ := Expr.exists_error_of_fold ctx hstop
  rw [hv] at he
  cases he

/-- A prepared plan gives the table of its cells as they were. -/
theorem run_prepare_iff (hwidth : ∀ row ∈ q.rows, row.length = q.columns.length) :
    q.prepare.after.run ctx = .ok table ↔ q.evaluate ctx = .ok table := by
  rw [← evaluate_prepare]
  constructor
  · intro h
    rwa [run_of_prepared (prepared_of_run h)] at h
  · intro h
    have herror := prepare_of_evaluate hwidth ((q.evaluate_prepare ctx).symm.trans h)
    rw [run_of_prepared, h]
    rw [prepare_of_error herror]

theorem prepare_and_run_iff (hwidth : ∀ row ∈ q.rows, row.length = q.columns.length) :
    q.prepare.error = none ∧ q.prepare.after.run ctx = .ok table ↔ q.evaluate ctx = .ok table := by
  rw [run_prepare_iff hwidth]
  exact and_iff_right_of_imp (prepare_of_evaluate hwidth)

/-- The plan with the current value of every column in its place. -/
def instantiate (q : ValuesPlan) (ctx : Context) : ValuesPlan :=
  { q with rows := q.rows.map (·.map (·.instantiate ctx)) }

theorem evaluate_instantiate (h : ∀ c ∈ (Plan.values q).references, c.Positioned ctx)
    (elsewhere : Context) : (q.instantiate ctx).evaluate elsewhere = q.evaluate ctx := by
  refine evaluate_congr rfl rfl ?_
  rw [instantiate, List.forall₂_map_right_iff, List.forall₂_same]
  intro row hrow
  rw [List.forall₂_map_right_iff, List.forall₂_same]
  intro cell hcell
  exact Expr.eval_instantiate elsewhere (Plan.forall_references_iff.mp h row hrow cell hcell)

theorem references_instantiate (h : ∀ c ∈ (Plan.values q).references, c.Positioned ctx) :
    (Plan.values (q.instantiate ctx)).references = [] := by
  refine List.eq_nil_iff_forall_not_mem.mpr fun c hc => ?_
  obtain ⟨row, hrow, cell, hcell, hmem⟩ := Plan.mem_references.mp hc
  obtain ⟨row, hrow', rfl⟩ := List.mem_map.mp hrow
  obtain ⟨cell, hcell', rfl⟩ := List.mem_map.mp hcell
  rw [Expr.columns_instantiate (Plan.forall_references_iff.mp h row hrow' cell hcell')] at hmem
  cases hmem

theorem width_instantiate (h : ∀ row ∈ q.rows, row.length = q.columns.length) :
    ∀ row ∈ (q.instantiate ctx).rows, row.length = (q.instantiate ctx).columns.length := by
  intro row hrow
  obtain ⟨row, hrow', rfl⟩ := List.mem_map.mp hrow
  rw [List.length_map]
  exact h row hrow'

end Run

end ValuesPlan

/-- What reads the current rows of a context comes to the same, value or error, as what has their
values written in it comes to elsewhere. -/
theorem correlation_is_substitution (ctx elsewhere : Context) :
    (∀ e : Expr, (∀ c ∈ e.columns, c.Positioned ctx) →
      (e.instantiate ctx).columns = [] ∧ (e.instantiate ctx).eval elsewhere = e.eval ctx) ∧
    ∀ q : ValuesPlan, (∀ row ∈ q.rows, row.length = q.columns.length) →
      (∀ c ∈ (Plan.values q).references, c.Positioned ctx) →
      (Plan.values (q.instantiate ctx)).references = [] ∧
      ∀ table, ((q.instantiate ctx).prepare.error = none ∧
          (q.instantiate ctx).prepare.after.run elsewhere = .ok table ↔
            q.prepare.after.run ctx = .ok table) ∧
        (q.prepared = true → (q.prepare.after.run ctx = .ok table ↔ q.run ctx = .ok table)) := by
  refine ⟨fun e he => ⟨Expr.columns_instantiate he, Expr.eval_instantiate elsewhere he⟩, ?_⟩
  intro q hwidth hpositioned
  refine ⟨ValuesPlan.references_instantiate hpositioned, fun table => ⟨?_, fun hprepared => ?_⟩⟩
  · rw [ValuesPlan.prepare_and_run_iff (ValuesPlan.width_instantiate hwidth),
      ValuesPlan.evaluate_instantiate hpositioned, ValuesPlan.run_prepare_iff hwidth]
  · rw [ValuesPlan.run_prepare_iff hwidth, ValuesPlan.run_of_prepared hprepared]

/-- `VALUES (u.a + (1 + 1), u.a * u.a), (NULL, 7)`, of which `1 + 1` is folded in advance. -/
def sumAndSquare : ValuesPlan where
  columns := [("sum", .integer), ("square", .integer)]
  rows :=
    [[.binary .add (firstOf 2) (.binary .add (.literal (.integer 1)) (.literal (.integer 1))),
        .binary .multiply (firstOf 2) (firstOf 2)],
      [.literal .null, .literal (.integer 7)]]

/-- On a row of `u` and with its value in the place of `u.a`. -/
theorem correlation_is_substitution_three :
    let ctx := Context.position {} 2 [.integer 3]
    let table : ResultTable :=
      { types := [.integer, .integer], rows := [[.integer 5, .integer 9], [.null, .integer 7]],
        randomAccess := false }
    sumAndSquare.prepare.after.run ctx = .ok table ∧
      (sumAndSquare.instantiate ctx).prepare.error = none ∧
        (sumAndSquare.instantiate ctx).prepare.after.run {} = .ok table := by
  intro ctx table
  have hwidth : ∀ row ∈ sumAndSquare.rows, row.length = sumAndSquare.columns.length := by decide
  have hpositioned : ∀ c ∈ (Plan.values sumAndSquare).references, c.Positioned ctx := by
    intro c hc
    obtain rfl : c = { table := none, name := "a", binding := some ⟨2, 0, .integer, 0⟩ } := by
      simpa [sumAndSquare, Plan.references, firstOf, Expr.columns] using hc
    exact ⟨_, [.integer 3], rfl, rfl, by decide⟩
  have hrun : sumAndSquare.prepare.after.run ctx = .ok table := rfl
  obtain ⟨-, hplan⟩ := (correlation_is_substitution ctx {}).2 sumAndSquare hwidth hpositioned
  exact ⟨hrun, (hplan table).1.mpr hrun⟩

end QuantifiedComparison
