import QuantifiedComparison.Plan
import QuantifiedComparison.Proofs.Traversal

/-!
# What evaluation reads

An expression, and a VALUES list, read the rows of the filters their columns are bound to and
nothing else of a context (`Expr.eval_congr`, `ValuesPlan.run_congr`). A query that says it is
independent of a filter reads nothing from it, so it gives the same result wherever that filter
stands (`run_position`).
-/

namespace QuantifiedComparison

/-- The filters that its columns are bound to. -/
def Expr.filters (e : Expr) : List Nat :=
  e.columns.filterMap fun c => c.binding.map (·.filter)

def ValuesPlan.filters (q : ValuesPlan) : List Nat :=
  q.cells.flatMap Expr.filters

namespace Expr

theorem filters_binary (o : Arithmetic) (l r : Expr) :
    (binary o l r).filters = l.filters ++ r.filters := by
  simp only [filters, columns, List.filterMap_append]

theorem filters_column {c : Column} {b : Binding} (h : c.binding = some b) :
    (column c).filters = [b.filter] := by
  simp only [filters, columns, List.filterMap_cons, List.filterMap_nil, h, Option.map_some]

theorem eval_congr {e : Expr} {ctx ctx' : Context}
    (h : ∀ f ∈ e.filters, ctx.rows f = ctx'.rows f) : e.eval ctx = e.eval ctx' := by
  induction e with
  | literal v => rfl
  | column c =>
    rw [eval, eval, Column.eval, Column.eval]
    cases hb : c.binding with
    | none => rfl
    | some b =>
      have hrows : ctx.rows b.filter = ctx'.rows b.filter := by
        refine h b.filter ?_
        rw [filters_column hb]
        exact List.mem_singleton_self _
      dsimp only
      rw [Context.value, Context.value, hrows]
  | binary o l r ihl ihr =>
    rw [filters_binary] at h
    rw [eval, eval, ihl fun f hf => h f (List.mem_append_left _ hf),
      ihr fun f hf => h f (List.mem_append_right _ hf)]

theorem independentOf_iff {e : Expr} {f : Nat} :
    e.satisfies (.independentOf f) = true ↔ f ∉ e.filters := by
  induction e with
  | literal v => simp [satisfies, filters, columns]
  | column c =>
    cases hb : c.binding with
    | none => simp [satisfies, filters, columns, Column.satisfies, hb]
    | some b =>
      rw [filters_column hb, List.mem_singleton, satisfies, Column.satisfies, hb,
        Option.all_some, decide_eq_true_eq]
      exact ne_comm
  | binary o l r ihl ihr =>
    rw [filters_binary, satisfies, Bool.and_eq_true, ihl, ihr, List.mem_append, not_or]

end Expr

namespace ValuesPlan

theorem independentOf_iff {q : ValuesPlan} {f : Nat} :
    q.satisfies (.independentOf f) = true ↔ f ∉ q.filters := by
  simp only [satisfies, List.all_eq_true, Question.descend, Expr.independentOf_iff, filters,
    List.mem_flatMap, not_exists, not_and]

theorem evalRow_congr {types : List ColumnType} {row row' : List Expr} {ctx ctx' : Context}
    (h : List.Forall₂ (fun cell cell' => cell'.eval ctx' = cell.eval ctx) row row') :
    evalRow ctx' types row' = evalRow ctx types row := by
  induction h generalizing types with
  | nil => rfl
  | cons hcell _ ih =>
    cases types with
    | nil => rfl
    | cons type types =>
      have hrest := @ih types
      unfold evalRow at hrest ⊢
      rw [List.zip_cons_cons, List.zip_cons_cons, List.mapM_cons, List.mapM_cons, hrest]
      simp only [evalCell, hcell]

theorem run_congr {q : ValuesPlan} {ctx ctx' : Context}
    (h : ∀ f ∈ q.filters, ctx.rows f = ctx'.rows f) : q.run ctx = q.run ctx' := by
  have hrows : q.rows.mapM (evalRow ctx q.types) = q.rows.mapM (evalRow ctx' q.types) := by
    refine mapM_congr fun row hrow => evalRow_congr (List.forall₂_same.mpr fun cell hcell => ?_)
    refine Expr.eval_congr fun f hf => h f ?_
    exact List.mem_flatMap.mpr ⟨cell, List.mem_flatten.mpr ⟨row, hrow, hcell⟩, hf⟩
  rw [run, run, hrows]

theorem run_position {q : ValuesPlan} {f : Nat} (h : q.satisfies (.independentOf f) = true)
    (ctx : Context) (row : Row) : q.run (ctx.position f row) = q.run ctx := by
  rw [independentOf_iff] at h
  refine run_congr fun g hg => if_neg ?_
  rintro rfl
  exact h hg

end ValuesPlan

end QuantifiedComparison
