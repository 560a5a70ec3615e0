import QuantifiedComparison.Plan.Values
import QuantifiedComparison.Proofs.Attempts
import QuantifiedComparison.Proofs.Folding

/-!
# Preparing a VALUES list

A preparation folds the cells one after the other, row by row, until a cell cannot be folded or a
row has the wrong width (`folding_prepare`); it goes through if there is no such cell or row
(`prepare_error_eq_none_iff`). However far it comes, every cell stays in its place and keeps its
meaning (`folding_keeps_meaning`).
-/

namespace QuantifiedComparison.ValuesPlan

section FoldRows

variable {width first : Nat} {row : List Expr} {rows : List (List Expr)}

theorem foldRows_cons_ragged (h : row.length ≠ width) :
    foldRows width first (row :: rows)
      = ⟨row :: rows, some (.rowWidth first row.length width)⟩ := by
  simp [foldRows, h]

theorem foldRows_cons_error {e : Error} (hwidth : row.length = width)
    (h : (Attempt.each Expr.fold row).error = some e) :
    foldRows width first (row :: rows)
      = ⟨(Attempt.each Expr.fold row).after :: rows, some e⟩ := by
  simp [foldRows, hwidth, h]

theorem foldRows_cons_success (hwidth : row.length = width)
    (h : (Attempt.each Expr.fold row).error = none) :
    foldRows width first (row :: rows)
      = (foldRows width (first + 1) rows).map ((Attempt.each Expr.fold row).after :: ·) := by
  simp [foldRows, hwidth, h]

/-- What relates every row to itself and to what folding makes of it relates the lists of rows. -/
theorem forall₂_foldRows {R : List Expr → List Expr → Prop} (hrefl : ∀ row, R row row)
    (hfold : ∀ row, R row (Attempt.each Expr.fold row).after) (width : Nat) :
    ∀ (first : Nat) (rows : List (List Expr)),
      List.Forall₂ R rows (foldRows width first rows).after
  | _, [] => .nil
  | first, row :: rows => by
    have hrest : List.Forall₂ R rows rows := List.forall₂_same.mpr fun row _ => hrefl row
    by_cases hwidth : row.length = width
    · rcases herror : (Attempt.each Expr.fold row).error with _ | e
      · rw [foldRows_cons_success hwidth herror]
        exact .cons (hfold row) (forall₂_foldRows hrefl hfold width (first + 1) rows)
      · rw [foldRows_cons_error hwidth herror]
        exact .cons (hfold row) hrest
    · rw [foldRows_cons_ragged hwidth]
      exact .cons (hrefl row) hrest

theorem foldRows_error_eq_none_iff :
    ∀ {first : Nat} {rows : List (List Expr)}, (foldRows width first rows).error = none ↔
      ∀ row ∈ rows, row.length = width ∧ ∀ cell ∈ row, cell.fold.error = none
  | _, [] => by simp [foldRows]
  | first, row :: rows => by
    rw [List.forall_mem_cons, ← Attempt.each_error_eq_none_iff]
    by_cases hwidth : row.length = width
    · rcases herror : (Attempt.each Expr.fold row).error with _ | e
      · rw [foldRows_cons_success hwidth herror]
        simpa [Attempt.map, hwidth] using foldRows_error_eq_none_iff
      · simp [foldRows_cons_error hwidth herror]
    · simp [foldRows_cons_ragged hwidth, hwidth]

theorem after_foldRows : ∀ {first : Nat} {rows : List (List Expr)},
    (foldRows width first rows).error = none →
      (foldRows width first rows).after = rows.map (·.map (·.fold.after))
  | _, [], _ => rfl
  | first, row :: rows, h => by
    obtain ⟨⟨hwidth, hrow⟩, -⟩ := List.forall_mem_cons.mp (foldRows_error_eq_none_iff.mp h)
    have herror := Attempt.each_error_eq_none_iff.mpr hrow
    rw [foldRows_cons_success hwidth herror] at h ⊢
    exact List.cons_eq_cons.mpr ⟨Attempt.after_each herror, after_foldRows h⟩

end FoldRows

section Prepare

variable (q : ValuesPlan)

theorem rows_prepare : q.prepare.after.rows = (foldRows q.columns.length 1 q.rows).after := by
  unfold prepare
  dsimp only
  split <;> rfl

theorem error_prepare : q.prepare.error = (foldRows q.columns.length 1 q.rows).error := by
  unfold prepare
  dsimp only
  split <;> simp [*]

theorem columns_prepare : q.prepare.after.columns = q.columns := by
  unfold prepare
  dsimp only
  split <;> rfl

theorem randomAccess_prepare : q.prepare.after.randomAccess = q.randomAccess := by
  unfold prepare
  dsimp only
  split <;> rfl

/-- What folding keeps of every cell a preparation keeps of every cell. -/
theorem map_rows_prepare {γ : Type} {g : Expr → γ} (h : ∀ cell, g cell.fold.after = g cell) :
    q.prepare.after.rows.map (·.map g) = q.rows.map (·.map g) := by
  rw [rows_prepare]
  exact Attempt.map_eq_of_forall₂ (forall₂_foldRows (R := fun row row' => row'.map g = row.map g)
    (fun _ => rfl) (Attempt.map_each h) _ _ _)

theorem lengths_prepare : q.prepare.after.rows.map List.length = q.rows.map List.length := by
  rw [rows_prepare]
  exact Attempt.map_eq_of_forall₂ (forall₂_foldRows (R := fun row row' => row'.length = row.length)
    (fun _ => rfl) Attempt.length_each _ _ _)

variable {q}

theorem prepare_error_eq_none_iff : q.prepare.error = none ↔
    ∀ row ∈ q.rows, row.length = q.columns.length ∧ ∀ cell ∈ row, cell.fold.error = none := by
  rw [error_prepare, foldRows_error_eq_none_iff]

theorem prepare_of_error (h : q.prepare.error = none) : q.prepare.after
    = { q with rows := q.rows.map (·.map (·.fold.after)), prepared := true } := by
  rw [error_prepare] at h
  simp only [prepare, h]
  rw [after_foldRows h]

end Prepare

section Width

variable {q : ValuesPlan} {n : Nat} (h : ∀ row ∈ q.rows, row.length = n)
include h

theorem width_bind (s : Scope) (level : QueryLevel) :
    ∀ row ∈ (q.bind s level).after.rows, row.length = n :=
  Attempt.each_forall (fun row hrow => (Attempt.length_each row).trans hrow) h

theorem width_mark (filter : Nat) (flag : Bool) : ∀ row ∈ (q.mark filter flag).rows, row.length = n := by
  intro row hrow
  obtain ⟨row, hmem, rfl⟩ := List.mem_map.mp hrow
  rw [List.length_map]
  exact h row hmem

theorem width_prepare : ∀ row ∈ q.prepare.after.rows, row.length = n := by
  have hlengths : ∀ m ∈ q.rows.map List.length, m = n := List.forall_mem_map.mpr h
  rw [← lengths_prepare] at hlengths
  exact List.forall_mem_map.mp hlengths

end Width

/-- Where a folding of cells ends, and with which error: with the last cell, at a cell that cannot be
folded, or before a row of the wrong width. The cells in `reached` have been gone through, those in
`rest` have not. -/
inductive Ending : (reached rest : List Expr) → Option Error → Prop
  | complete {cells : List Expr} (h : ∀ cell ∈ cells, cell.fold.error = none) :
    Ending cells [] none
  | atCell {before : List Expr} {cell : Expr} {e : Error} (rest : List Expr)
    (h : ∀ c ∈ before, c.fold.error = none) (hcell : cell.fold.error = some e) :
    Ending (before ++ [cell]) rest (some e)
  | atRow {before row : List Expr} {width : Nat} (number : Nat) (rest : List Expr)
    (h : ∀ c ∈ before, c.fold.error = none) (hrow : row.length ≠ width) :
    Ending before (row ++ rest) (some (.rowWidth number row.length width))

/-- The cells are folded as far as the folding goes, and left as they are from there on. -/
def Folding (cells cells' : List Expr) (error : Option Error) : Prop :=
  ∃ reached rest, cells = reached ++ rest ∧ cells' = reached.map (·.fold.after) ++ rest ∧
    Ending reached rest error

theorem Ending.append {row reached rest : List Expr} {error : Option Error}
    (hrow : ∀ cell ∈ row, cell.fold.error = none) (h : Ending reached rest error) :
    Ending (row ++ reached) rest error := by
  cases h with
  | complete h => exact .complete (List.forall_mem_append.mpr ⟨hrow, h⟩)
  | atCell _ h hcell =>
    rw [← List.append_assoc]
    exact .atCell _ (List.forall_mem_append.mpr ⟨hrow, h⟩) hcell
  | atRow number _ h hwidth =>
    exact .atRow number _ (List.forall_mem_append.mpr ⟨hrow, h⟩) hwidth

theorem folding_foldRows (width : Nat) : ∀ (first : Nat) (rows : List (List Expr)),
    Folding rows.flatten (foldRows width first rows).after.flatten
      (foldRows width first rows).error
  | _, [] => ⟨[], [], rfl, rfl, .complete (by simp)⟩
  | first, row :: rows => by
    by_cases hwidth : row.length = width
    · rcases herror : (Attempt.each Expr.fold row).error with _ | e
      · obtain ⟨reached, rest, hcells, hcells', hend⟩ := folding_foldRows width (first + 1) rows
        rw [foldRows_cons_success hwidth herror]
        refine ⟨row ++ reached, rest, by simp [hcells], ?_,
          hend.append (Attempt.each_error_eq_none_iff.mp herror)⟩
        simp [Attempt.map, Attempt.after_each herror, hcells']
      · obtain ⟨before, cell, after, rfl, hbefore, hcell, heq⟩ := Attempt.exists_stop_of_each herror
        rw [foldRows_cons_error hwidth herror, heq]
        exact ⟨before ++ [cell], after ++ rows.flatten, by simp, by simp,
          .atCell _ hbefore hcell⟩
    · rw [foldRows_cons_ragged hwidth]
      exact ⟨[], row ++ rows.flatten, rfl, rfl, .atRow first _ (by simp) hwidth⟩

/-- A cell that is reached is folded, and what is not reached stays as it is. -/
theorem folding_prepare (q : ValuesPlan) :
    Folding q.cells q.prepare.after.cells q.prepare.error := by
  rw [cells, cells, rows_prepare, error_prepare]
  exact folding_foldRows q.columns.length 1 q.rows

theorem forall₂_prepare {R : Expr → Expr → Prop} (hrefl : ∀ cell, R cell cell)
    (hfold : ∀ cell, R cell cell.fold.after) (q : ValuesPlan) :
    List.Forall₂ (List.Forall₂ R) q.rows q.prepare.after.rows := by
  rw [rows_prepare]
  exact forall₂_foldRows (fun row => List.forall₂_same.mpr fun cell _ => hrefl cell)
    (Attempt.forall₂_each hrefl hfold) _ _ _

end QuantifiedComparison.ValuesPlan

namespace QuantifiedComparison

/-- Folding keeps the meaning of an expression, whether it is stopped or not. Preparing keeps that of
every cell: those it reaches are folded, and the others stay as they are. -/
theorem folding_keeps_meaning :
    (∀ e : Expr, e.Faithful e.fold) ∧
      ∀ q : ValuesPlan,
        List.Forall₂ (List.Forall₂ fun cell cell' => ∀ ctx, cell'.eval ctx = cell.eval ctx)
            q.rows q.prepare.after.rows ∧
          ValuesPlan.Folding q.cells q.prepare.after.cells q.prepare.error :=
  ⟨Expr.faithful_fold, fun q =>
    ⟨ValuesPlan.forall₂_prepare (fun _ _ => rfl) (fun cell ctx => Expr.eval_fold ctx cell) q,
      q.folding_prepare⟩⟩

end QuantifiedComparison
