import QuantifiedComparison.Proofs.ColumnChanges

/-!
# What a planner sees of an optimization

A planner sees the columns of an expression, with their bindings and marks, has questions about them
answered, and weighs costs. Folding puts literals in the place of operations on literals, so it
leaves every column where it is and can only make an expression cheaper, also where it is stopped
half-way. What it was stopped by is still there, and before it there is nothing left to fold, so
folding again stops at the same operation and changes nothing (`Expr.fold_again`). The same holds of
preparing a VALUES list and of optimizing a predicate over one (`optimizing_is_invisible`).
-/

namespace QuantifiedComparison

/-- To a planner the two are the same, but that the second may cost less. -/
structure Expr.SeenAs (e e' : Expr) : Prop where
  columns : e'.columns = e.columns
  answers : ∀ ask, e'.satisfies ask = e.satisfies ask
  cost : e'.cost ≤ e.cost

/-- To a planner the two are the same, but that the second may cost less. -/
structure ValuesPlan.SeenAs (q q' : ValuesPlan) : Prop where
  declared : q'.columns = q.columns
  rowCount : q'.rows.length = q.rows.length
  references : (Plan.values q').references = (Plan.values q).references
  answers : ∀ ask, q'.satisfies ask = q.satisfies ask
  cost : q'.cost ≤ q.cost

/-- To a planner the two are the same, and so are their queries, but that the second may cost
less. -/
structure Predicate.SeenAs (p : Predicate) (q : ValuesPlan) (p' : Predicate) (q' : ValuesPlan) :
    Prop where
  columns : p'.left.columns = p.left.columns
  query : q.SeenAs q'
  answers : ∀ ask, p'.satisfies (.values q') ask = p.satisfies (.values q) ask
  cost : p'.cost (.values q') ≤ p.cost (.values q)
  level : p'.level = p.level

namespace Expr

/-- The question has the same answer for the same columns. -/
theorem satisfies_congr {e e' : Expr} (h : e'.columns = e.columns) (ask : Question) :
    e'.satisfies ask = e.satisfies ask := by
  rw [Bool.eq_iff_iff, satisfies_iff, satisfies_iff, h]

section FoldNode

variable (o : Arithmetic) (l r : Expr)

/-- Either the operation is replaced by a literal, or it stays. -/
theorem foldNode_cases : (∃ v, foldNode o l r = ⟨literal v, none⟩) ∨
    (foldNode o l r).after = binary o l r := by
  unfold foldNode
  split
  · split
    · exact .inl ⟨_, rfl⟩
    · exact .inr rfl
  · exact .inr rfl

theorem cost_foldNode_le : (foldNode o l r).after.cost ≤ l.cost + r.cost + 1 := by
  rcases foldNode_cases o l r with ⟨v, hv⟩ | hbinary
  · rw [hv]
    exact Nat.zero_le _
  · rw [hbinary, cost]

end FoldNode

theorem cost_fold_le : ∀ e : Expr, e.fold.after.cost ≤ e.cost
  | literal _ => le_rfl
  | column _ => le_rfl
  | binary o l r => by
    have hl := cost_fold_le l
    have hr := cost_fold_le r
    rcases hleft : l.fold.error with _ | e
    · rcases hright : r.fold.error with _ | e
      · rw [fold_binary_node hleft hright, cost]
        have hnode := cost_foldNode_le o l.fold.after r.fold.after
        omega
      · rw [fold_binary_right hleft hright, cost, cost]
        omega
    · rw [fold_binary_left hleft, cost, cost]
      omega

theorem fold_again : ∀ e : Expr, e.fold.after.fold = e.fold
  | literal _ => rfl
  | column _ => rfl
  | binary o l r => by
    have hl := fold_again l
    have hr := fold_again r
    rcases hleft : l.fold.error with _ | e
    · have hleft' : l.fold.after.fold.error = none := by rw [hl, hleft]
      rcases hright : r.fold.error with _ | e
      · have hright' : r.fold.after.fold.error = none := by rw [hr, hright]
        rw [fold_binary_node hleft hright]
        rcases foldNode_cases o l.fold.after r.fold.after with ⟨v, hv⟩ | hbinary
        · rw [hv]
          rfl
        · rw [hbinary, fold_binary_node hleft' hright', hl, hr]
      · have hright' : r.fold.after.fold.error = some e := by rw [hr, hright]
        rw [fold_binary_right hleft hright, fold_binary_right hleft' hright', hl, hr]
    · have hleft' : l.fold.after.fold.error = some e := by rw [hl, hleft]
      rw [fold_binary_left hleft, fold_binary_left hleft', hl]

theorem seenAs_fold (e : Expr) : e.SeenAs e.fold.after where
  columns := e.columns_fold
  answers := satisfies_congr e.columns_fold
  cost := e.cost_fold_le

end Expr

namespace ValuesPlan

theorem foldRows_again (width : Nat) : ∀ (first : Nat) (rows : List (List Expr)),
    foldRows width first (foldRows width first rows).after = foldRows width first rows
  | _, [] => rfl
  | first, row :: rows => by
    have hrow : Attempt.each Expr.fold (Attempt.each Expr.fold row).after
        = Attempt.each Expr.fold row := Attempt.each_again Expr.fold_again row
    have hlength : (Attempt.each Expr.fold row).after.length = row.length :=
      Attempt.length_each row
    by_cases hwidth : row.length = width
    · rcases herror : (Attempt.each Expr.fold row).error with _ | e
      · rw [foldRows_cons_success hwidth herror, Attempt.map,
          foldRows_cons_success (hlength.trans hwidth) (by rw [hrow, herror]),
          foldRows_again width (first + 1) rows, hrow]
        rfl
      · rw [foldRows_cons_error hwidth herror,
          foldRows_cons_error (hlength.trans hwidth) (by rw [hrow, herror]), hrow]
    · rw [foldRows_cons_ragged hwidth, foldRows_cons_ragged hwidth]

theorem total_le {cells cells' : List Expr}
    (h : List.Forall₂ (fun cell cell' => cell'.cost ≤ cell.cost) cells cells') :
    cells'.foldr (fun cell total => cell.cost + total) 0
      ≤ cells.foldr (fun cell total => cell.cost + total) 0 := by
  induction h with
  | nil => exact le_rfl
  | cons hcell _ ih => exact Nat.add_le_add hcell ih

variable (q : ValuesPlan)

theorem prepare_again : q.prepare.after.prepare = q.prepare := by
  have hrows := foldRows_again q.columns.length 1 q.rows
  rcases herror : (foldRows q.columns.length 1 q.rows).error with _ | e
  · simp only [prepare, herror, hrows]
  · simp only [prepare, herror, hrows]

theorem rowCount_prepare : q.prepare.after.rows.length = q.rows.length := by
  simpa only [List.length_map] using congrArg List.length q.lengths_prepare

/-- No cell costs more, and the shape is the same. -/
theorem cost_prepare_le : q.prepare.after.cost ≤ q.cost := by
  have hcells := total_le (List.rel_flatten
    (forall₂_prepare (R := fun cell cell' => cell'.cost ≤ cell.cost) (fun _ => le_rfl)
      Expr.cost_fold_le q))
  simp only [cost, q.rowCount_prepare, q.columns_prepare]
  gcongr
  exact hcells

theorem seenAs_prepare : q.SeenAs q.prepare.after where
  declared := q.columns_prepare
  rowCount := q.rowCount_prepare
  references := Plan.references_prepare (.values q)
  answers ask := by
    have hbefore : q.satisfies ask = true ↔ _ := Plan.satisfies_values_iff
    have hafter : q.prepare.after.satisfies ask = true ↔ _ := Plan.satisfies_values_iff
    rw [Bool.eq_iff_iff, hbefore, hafter]
    exact iff_of_eq (congrArg (fun cs : List Column => ∀ c ∈ cs, c.satisfies ask.descend = true)
      (Plan.references_prepare (.values q)))
  cost := q.cost_prepare_le

theorem SeenAs.refl (q : ValuesPlan) : q.SeenAs q :=
  ⟨rfl, rfl, rfl, fun _ => rfl, le_rfl⟩

end ValuesPlan

namespace Plan

theorem setRandomAccess_of_eq {q : ValuesPlan} {flag : Bool} (h : q.randomAccess = flag) :
    (values q).setRandomAccess flag = values q := by
  subst h
  rfl

/-- What was prepared for lookups grants them already. -/
theorem setRandomAccess_again (flag : Bool) (plan : Plan) :
    (plan.setRandomAccess flag).prepare.after.setRandomAccess flag
      = (plan.setRandomAccess flag).prepare.after := by
  cases plan with
  | external e => rfl
  | values q =>
    exact setRandomAccess_of_eq (ValuesPlan.randomAccess_prepare { q with randomAccess := flag })

theorem prepare_again (plan : Plan) : plan.prepare.after.prepare = plan.prepare := by
  cases plan with
  | external e => rfl
  | values q => exact congrArg (Attempt.map values) q.prepare_again

end Plan

namespace Predicate

section Optimize

variable {p : Predicate} {plan : Plan} {e : Error}

theorem optimize_left_error (h : p.left.fold.error = some e) :
    p.optimize plan = ⟨({ p with left := p.left.fold.after }, plan), some e⟩ := by
  simp only [optimize, h]

theorem optimize_query_error (hleft : p.left.fold.error = none)
    (h : (plan.setRandomAccess true).prepare.error = some e) : p.optimize plan
      = ⟨({ p with left := p.left.fold.after }, (plan.setRandomAccess true).prepare.after),
          some e⟩ := by
  simp only [optimize, hleft, h]

theorem optimize_prepared (hleft : p.left.fold.error = none)
    (h : (plan.setRandomAccess true).prepare.error = none) : p.optimize plan
      = ⟨({ p with left := p.left.fold.after }, (plan.setRandomAccess true).prepare.after),
          if (plan.setRandomAccess true).prepare.after.columnCount = 1 then none
          else some (.notOneColumn (plan.setRandomAccess true).prepare.after.columnCount)⟩ := by
  simp only [optimize, hleft, h]

variable (p plan)

theorem optimize_again : (p.optimize plan).after.1.optimize (p.optimize plan).after.2
    = p.optimize plan := by
  have hleftAgain := p.left.fold_again
  have hqueryAgain :
      ((plan.setRandomAccess true).prepare.after.setRandomAccess true).prepare
        = (plan.setRandomAccess true).prepare := by
    rw [plan.setRandomAccess_again, Plan.prepare_again]
  rcases hleft : p.left.fold.error with _ | e
  · have hleft' : p.left.fold.after.fold.error = none := by rw [hleftAgain, hleft]
    rcases hquery : (plan.setRandomAccess true).prepare.error with _ | e
    · rw [optimize_prepared hleft hquery, optimize_prepared hleft' (by rw [hqueryAgain, hquery]),
        hleftAgain, hqueryAgain]
    · rw [optimize_query_error hleft hquery,
        optimize_query_error hleft' (by rw [hqueryAgain, hquery]), hleftAgain, hqueryAgain]
  · rw [optimize_left_error hleft, optimize_left_error (by rw [hleftAgain, hleft]), hleftAgain]

/-- The left operand is folded as far as it can be, and nothing else of the predicate changes. -/
theorem optimize_fst : (p.optimize plan).after.1 = { p with left := p.left.fold.after } := by
  unfold optimize
  dsimp only
  split
  · rfl
  · split <;> rfl

theorem optimize_values (q : ValuesPlan) :
    ∃ q', (p.optimize (.values q)).after.2 = .values q' ∧ q.SeenAs q' := by
  rcases p.optimize_after (.values q) with h | h
  · exact ⟨q, h, .refl q⟩
  · have hseen := ValuesPlan.seenAs_prepare { q with randomAccess := true }
    exact ⟨_, h, hseen.declared, hseen.rowCount, hseen.references, hseen.answers, hseen.cost⟩

theorem seenAs_optimize (q : ValuesPlan) : ∃ q', (p.optimize (.values q)).after.2 = .values q' ∧
    p.SeenAs q (p.optimize (.values q)).after.1 q' := by
  obtain ⟨q', hafter, hquery⟩ := p.optimize_values q
  have hleft := p.left.seenAs_fold
  refine ⟨q', hafter, ?_⟩
  rw [optimize_fst]
  exact {
    columns := hleft.columns
    query := hquery
    answers := fun ask => congrArg₂ and (hleft.answers ask) (hquery.answers ask)
    cost := min_le_min_right _ (Nat.add_le_add hleft.cost hquery.cost)
    level := rfl }

end Optimize

end Predicate

/-- Folding an expression, preparing a VALUES list and optimizing a predicate over one do not change
what a planner sees, whether they go through or not; and doing it again has the same outcome and
changes nothing. -/
theorem optimizing_is_invisible :
    (∀ e : Expr, e.SeenAs e.fold.after ∧ e.fold.after.fold = e.fold) ∧
      (∀ q : ValuesPlan, q.SeenAs q.prepare.after ∧ q.prepare.after.prepare = q.prepare) ∧
      ∀ (p : Predicate) (q : ValuesPlan),
        (∃ q', (p.optimize (.values q)).after.2 = .values q' ∧
          p.SeenAs q (p.optimize (.values q)).after.1 q') ∧
        (p.optimize (.values q)).after.1.optimize (p.optimize (.values q)).after.2
          = p.optimize (.values q) :=
  ⟨fun e => ⟨e.seenAs_fold, e.fold_again⟩, fun q => ⟨q.seenAs_prepare, q.prepare_again⟩,
    fun p q => ⟨p.seenAs_optimize q, p.optimize_again (.values q)⟩⟩

end QuantifiedComparison
