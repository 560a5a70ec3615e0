import QuantifiedComparison.Expr.Evaluation
import QuantifiedComparison.Expr.Folding

/-!
# Folding keeps the meaning

The meaning of an expression is what it evaluates to in each context, a value or an error. Folding
leaves it as it is, also where it stops half-way (`Expr.eval_fold`), and stops only at an operation
that fails in every context (`Expr.exists_error_of_fold`). Without columns a context has no say, and
folding finds the value or the error itself (`Expr.fold_closed`).

What a folding that is not stopped leaves is normal: no operation on two literals is left
(`Expr.normal_of_fold`), so there is nothing to fold a second time (`Expr.Normal.fold`).
-/

namespace QuantifiedComparison.Expr

variable {ctx : Context} {o : Arithmetic} {l r : Expr}

section Evaluation

theorem eval_binary_left {e : Error} (h : l.eval ctx = .error e) :
    (binary o l r).eval ctx = .error e := by
  rw [eval, h]
  rfl

theorem eval_binary_right {v : Value} {e : Error} (hl : l.eval ctx = .ok v)
    (hr : r.eval ctx = .error e) : (binary o l r).eval ctx = .error e := by
  rw [eval, hl, hr]
  rfl

theorem eval_binary_ok {v w : Value} (hl : l.eval ctx = .ok v) (hr : r.eval ctx = .ok w) :
    (binary o l r).eval ctx = o.outcome v w := by
  rw [eval, hl, hr]
  rfl

end Evaluation

section Equations

theorem fold_binary_left {e : Error} (h : l.fold.error = some e) :
    (binary o l r).fold = ⟨binary o l.fold.after r, some e⟩ := by
  simp only [fold, h]

theorem fold_binary_right {e : Error} (hl : l.fold.error = none) (hr : r.fold.error = some e) :
    (binary o l r).fold = ⟨binary o l.fold.after r.fold.after, some e⟩ := by
  simp only [fold, hl, hr]

theorem fold_binary_node (hl : l.fold.error = none) (hr : r.fold.error = none) :
    (binary o l r).fold = foldNode o l.fold.after r.fold.after := by
  simp only [fold, hl, hr]

end Equations

theorem eval_foldNode (ctx : Context) (o : Arithmetic) (l r : Expr) :
    (foldNode o l r).after.eval ctx = (binary o l r).eval ctx := by
  unfold foldNode
  split
  · rename_i v w
    rcases hout : o.outcome v w with e | u
    · rfl
    · exact hout.symm
  · rfl

theorem eval_fold (ctx : Context) : ∀ e : Expr, e.fold.after.eval ctx = e.eval ctx
  | literal _ => rfl
  | column _ => rfl
  | binary o l r => by
    have ihl := eval_fold ctx l
    have ihr := eval_fold ctx r
    rcases hl : l.fold.error with _ | e
    · rcases hr : r.fold.error with _ | e
      · rw [fold_binary_node hl hr, eval_foldNode]
        simp only [eval, ihl, ihr]
      · rw [fold_binary_right hl hr]
        simp only [eval, ihl, ihr]
    · rw [fold_binary_left hl]
      simp only [eval, ihl]

theorem literals_of_foldNode {e : Error} (h : (foldNode o l r).error = some e) :
    ∃ v w, l = literal v ∧ r = literal w ∧ o.outcome v w = .error e := by
  unfold foldNode at h
  split at h
  · rename_i v w
    rcases hout : o.outcome v w with e' | u <;> rw [hout] at h
    · simp only [Option.some.injEq] at h
      subst h
      exact ⟨v, w, rfl, rfl, hout⟩
    · simp at h
  · simp at h

/-- What cannot be folded has no value in any context. -/
theorem exists_error_of_fold (ctx : Context) :
    ∀ {e : Expr} {stop : Error}, e.fold.error = some stop → ∃ err, e.eval ctx = .error err
  | literal _, _, h => by simp [fold] at h
  | column _, _, h => by simp [fold] at h
  | binary o l r, stop, h => by
    rcases hl : l.fold.error with _ | e
    · rcases hr : r.fold.error with _ | e
      · rw [fold_binary_node hl hr] at h
        obtain ⟨v, w, hv, hw, hout⟩ := literals_of_foldNode h
        have hleft : l.eval ctx = .ok v := by rw [← eval_fold, hv]; rfl
        have hright : r.eval ctx = .ok w := by rw [← eval_fold, hw]; rfl
        exact ⟨stop, by rw [eval_binary_ok hleft hright, hout]⟩
      · obtain ⟨err, herr⟩ := exists_error_of_fold ctx hr
        rcases hleft : l.eval ctx with e' | v
        · exact ⟨e', eval_binary_left hleft⟩
        · exact ⟨err, eval_binary_right hleft herr⟩
    · obtain ⟨err, herr⟩ := exists_error_of_fold ctx hl
      exact ⟨err, eval_binary_left herr⟩

/-- Without columns, folding gives what evaluation gives. -/
theorem fold_closed (ctx : Context) : ∀ {e : Expr}, e.columns = [] →
    (∃ v, e.eval ctx = .ok v ∧ e.fold = ⟨literal v, none⟩)
      ∨ ∃ err, e.eval ctx = .error err ∧ e.fold.error = some err
  | literal v, _ => .inl ⟨v, rfl, rfl⟩
  | column c, h => by simp [columns] at h
  | binary o l r, h => by
    simp only [columns, List.append_eq_nil_iff] at h
    rcases fold_closed ctx h.1 with ⟨v, hv, hl⟩ | ⟨err, herr, hl⟩
    · rcases fold_closed ctx h.2 with ⟨w, hw, hr⟩ | ⟨err, herr, hr⟩
      · rw [eval_binary_ok hv hw, fold_binary_node (by rw [hl]) (by rw [hr]), hl, hr]
        rcases hout : o.outcome v w with err | u
        · exact .inr ⟨err, rfl, by simp [foldNode, hout]⟩
        · exact .inl ⟨u, rfl, by simp [foldNode, hout]⟩
      · refine .inr ⟨err, eval_binary_right hv herr, ?_⟩
        rw [fold_binary_right (by rw [hl]) hr]
    · refine .inr ⟨err, eval_binary_left herr, ?_⟩
      rw [fold_binary_left hl]

/-- What an attempt at folding an expression owes to it. -/
structure Faithful (e : Expr) (t : Attempt Expr) : Prop where
  meaning : ∀ ctx, t.after.eval ctx = e.eval ctx
  stopped : ∀ stop, t.error = some stop → ∀ ctx, ∃ err, e.eval ctx = .error err
  closed : e.columns = [] → ∀ ctx, (∃ v, e.eval ctx = .ok v ∧ t = ⟨literal v, none⟩)
    ∨ ∃ err, e.eval ctx = .error err ∧ t.error = some err

theorem faithful_fold (e : Expr) : e.Faithful e.fold where
  meaning ctx := eval_fold ctx e
  stopped _ h ctx := exists_error_of_fold ctx h
  closed h ctx := fold_closed ctx h

/-- A sum of which the left part folds and the right part does not. -/
example : (binary .add (binary .add (literal (.integer 1)) (literal (.integer 1)))
      (binary .divide (literal (.integer 1)) (literal (.integer 0)))).fold
    = ⟨binary .add (literal (.integer 2))
      (binary .divide (literal (.integer 1)) (literal (.integer 0))), some .divisionByZero⟩ :=
  rfl

def isLiteral : Expr → Bool
  | literal _ => true
  | _ => false

/-- No operation on two literals is left. -/
def Normal : Expr → Prop
  | literal _ => True
  | column _ => True
  | binary _ l r => l.Normal ∧ r.Normal ∧ ¬(l.isLiteral ∧ r.isLiteral)

theorem foldNode_of_not_literal (o : Arithmetic) (h : ¬(l.isLiteral ∧ r.isLiteral)) :
    foldNode o l r = ⟨binary o l r, none⟩ := by
  unfold foldNode
  split
  · simp [isLiteral] at h
  · rfl

theorem normal_of_foldNode (hl : l.Normal) (hr : r.Normal) (h : (foldNode o l r).error = none) :
    (foldNode o l r).after.Normal := by
  by_cases hlit : l.isLiteral ∧ r.isLiteral
  · unfold foldNode at h ⊢
    split
    · rename_i v w
      rcases hout : o.outcome v w with e | u <;> simp [hout] at h ⊢
      trivial
    · rename_i hne
      cases l <;> cases r <;> simp [isLiteral] at hlit
      exact absurd rfl (hne _ _ rfl)
  · rw [foldNode_of_not_literal o hlit]
    exact ⟨hl, hr, hlit⟩

theorem normal_of_fold : ∀ {e : Expr}, e.fold.error = none → e.fold.after.Normal
  | literal _, _ => trivial
  | column _, _ => trivial
  | binary o l r, h => by
    rcases hl : l.fold.error with _ | e
    · rcases hr : r.fold.error with _ | e
      · rw [fold_binary_node hl hr] at h ⊢
        exact normal_of_foldNode (normal_of_fold hl) (normal_of_fold hr) h
      · simp [fold_binary_right hl hr] at h
    · simp [fold_binary_left hl] at h

/-- There is nothing to fold a second time. -/
theorem Normal.fold : ∀ {e : Expr}, e.Normal → e.fold = ⟨e, none⟩
  | literal _, _ => rfl
  | column _, _ => rfl
  | binary o l r, ⟨hl, hr, hlit⟩ => by
    rw [fold_binary_node (by rw [hl.fold]) (by rw [hr.fold]), hl.fold, hr.fold,
      foldNode_of_not_literal o hlit]

end QuantifiedComparison.Expr
