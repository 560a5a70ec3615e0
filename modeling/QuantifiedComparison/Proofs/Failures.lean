import QuantifiedComparison.Proofs.Instantiation
import QuantifiedComparison.Proofs.Release

/-!
# What evaluations fail with

Operating on values, converting them and comparing them fails with errors of four categories. An
expression fails with these or as one of its columns does (`Expr.failsWith_eval`). A VALUES list
fails with these or as one of its columns does, or else it has not been prepared
(`ValuesPlan.failsWith_run`). Reading an open probe without faults adds to them only that its rows
cannot be looked up, and so does a predicate (`Predicate.failsWith_evaluate`).
-/

namespace QuantifiedComparison

/-- Every error is of this kind. -/
def FailsWith {α : Type} (P : Error → Prop) (x : Except Error α) : Prop :=
  ∀ e, x = .error e → P e

section Closure

variable {α β : Type} {P : Error → Prop}

theorem failsWith_ok (a : α) : FailsWith P (.ok a) :=
  nofun

theorem failsWith_error {e : Error} (h : P e) : FailsWith P (.error e : Except Error α) := by
  rintro _ ⟨⟩
  exact h

theorem FailsWith.mono {Q : Error → Prop} {x : Except Error α} (h : FailsWith P x)
    (hPQ : ∀ e, P e → Q e) : FailsWith Q x :=
  fun e he => hPQ e (h e he)

theorem FailsWith.bind {x : Except Error α} {f : α → Except Error β} (hx : FailsWith P x)
    (hf : ∀ a, x = .ok a → FailsWith P (f a)) : FailsWith P (x >>= f) := by
  rcases x with e | a
  · exact failsWith_error (hx e rfl)
  · exact hf a rfl

theorem FailsWith.map {x : Except Error α} (hx : FailsWith P x) (f : α → β) :
    FailsWith P (x.map f) := by
  rcases x with e | a
  · exact failsWith_error (hx e rfl)
  · exact failsWith_ok _

theorem failsWith_mapM {f : α → Except Error β} :
    ∀ {as : List α}, (∀ a ∈ as, FailsWith P (f a)) → FailsWith P (as.mapM f)
  | [], _ => failsWith_ok _
  | a :: as, h => by
    obtain ⟨ha, has⟩ := List.forall_mem_cons.mp h
    rw [List.mapM_cons]
    exact ha.bind fun _ _ => (failsWith_mapM has).bind fun _ _ => failsWith_ok _

theorem failsWith_forIn {step : α → β → Except Error (ForInStep β)}
    (h : ∀ a b, FailsWith P (step a b)) : ∀ (as : List α) (b : β), FailsWith P (forIn as b step)
  | [], b => failsWith_ok b
  | a :: as, b => by
    rw [List.forIn_cons]
    refine (h a b).bind fun next _ => ?_
    rcases next with b' | b'
    · exact failsWith_ok b'
    · exact failsWith_forIn h as b'

end Closure

/-- Errors that are about values and what is done with them. -/
def Error.Category.ofValues : Category → Bool
  | conversion | typing | overflow | divisionByZero => true
  | _ => false

def Error.ofValues (e : Error) : Prop :=
  e.category.ofValues = true

section Values

variable (v w : Value)

theorem Arithmetic.failsWith_outcome (o : Arithmetic) : FailsWith Error.ofValues (o.outcome v w) := by
  have hintegers : ∀ a b, FailsWith Error.ofValues (o.integers a b) := by
    intro a b
    unfold integers
    split_ifs
    · exact failsWith_error rfl
    · split
      · exact failsWith_ok _
      · exact failsWith_error rfl
  have hfloats : ∀ a b, FailsWith Error.ofValues (o.floats a b) := by
    intro a b
    unfold floats
    split_ifs
    · exact failsWith_error rfl
    · exact failsWith_ok _
  unfold outcome
  split
  · exact failsWith_ok _
  · exact failsWith_ok _
  · exact hintegers _ _
  · exact hfloats _ _
  · exact hfloats _ _
  · exact hfloats _ _
  · exact failsWith_error rfl

theorem Value.failsWith_convert (t : ColumnType) : FailsWith Error.ofValues (v.convert t) := by
  unfold convert
  split
  · exact failsWith_ok _
  · exact failsWith_error rfl

theorem Value.failsWith_order : FailsWith Error.ofValues (v.order w) := by
  unfold order
  split
  · exact failsWith_ok _
  · exact failsWith_error rfl

theorem Comparison.failsWith_outcome (c : Comparison) : FailsWith Error.ofValues (c.outcome v w) := by
  have hequality : FailsWith Error.ofValues (c.equality v w) := by
    unfold equality
    split
    · exact failsWith_ok _
    · split_ifs
      · exact failsWith_ok _
      · exact failsWith_error rfl
  cases c with
  | equal => exact hequality
  | identical => exact hequality
  | unequal => exact hequality.map _
  | _ => exact (v.failsWith_order w).map _

end Values

section Columns

variable {P : Error → Prop} {ctx : Context}

theorem Expr.failsWith_eval (hP : ∀ e, e.ofValues → P e) : ∀ {e : Expr},
    (∀ c ∈ e.columns, FailsWith P (c.eval ctx)) → FailsWith P (e.eval ctx)
  | literal v, _ => failsWith_ok v
  | column c, h => h c (List.mem_singleton_self c)
  | binary o l r, h => by
    obtain ⟨hl, hr⟩ := List.forall_mem_append.mp h
    exact (failsWith_eval hP hl).bind fun v _ => (failsWith_eval hP hr).bind fun w _ =>
      (o.failsWith_outcome v w).mono hP

theorem ValuesPlan.failsWith_run (hP : ∀ e, e.ofValues → P e) {q : ValuesPlan}
    (h : ∀ c ∈ (Plan.values q).references, FailsWith P (c.eval ctx))
    (hprepared : q.prepared = true ∨ P .notPrepared) : FailsWith P (q.run ctx) := by
  have hcells := Plan.forall_references_iff.mp h
  rcases hflag : q.prepared with _ | _
  · rw [run_of_not_prepared hflag]
    exact failsWith_error (hprepared.resolve_left (by rw [hflag]; exact nofun))
  rw [run_of_prepared hflag]
  refine (failsWith_mapM fun row hrow => ?_).bind fun _ _ => failsWith_ok _
  refine failsWith_mapM fun (cell, type) hmem => ?_
  have heval := Expr.failsWith_eval hP (hcells row hrow cell (List.of_mem_zip hmem).1)
  exact heval.bind fun v _ => (v.failsWith_convert type).mono hP

end Columns

/-- An open probe fails to look a row up only where its rows cannot be looked up. -/
theorem Probe.failsWith_contains {P : Error → Prop} {probe : Probe} (hopen : probe.closed = false)
    (haccess : probe.table.randomAccess = true ∨ P .noRandomAccess) (key : Row) :
    FailsWith P (probe.contains key).1 := by
  rw [Probe.contains, hopen, ResultTable.contains]
  rcases hflag : probe.table.randomAccess with _ | _
  · exact failsWith_error (haccess.resolve_left (by rw [hflag]; exact Bool.false_ne_true))
  · exact failsWith_ok _

namespace Predicate

variable {P : Error → Prop} {ctx : Context} {probe : Probe}

theorem failsWith_scan (hP : ∀ e, e.ofValues → P e) (p : Predicate) (policy : NullRowPolicy)
    (left : Value) (h : probe.Readable) : FailsWith P (p.scan policy left probe).1 := by
  have hoperand : ∀ t, FailsWith P (operand left t) := by
    intro t
    unfold operand
    split_ifs
    · exact failsWith_ok _
    · exact (left.failsWith_convert t).mono hP
  have hrow : ∀ v s row, FailsWith P (p.scanRow v s row) := by
    intro v s row
    have hmatches : FailsWith P (p.matchesRow v row) := by
      unfold matchesRow
      split
      · exact (Comparison.failsWith_outcome _ _ _).mono hP
      · exact failsWith_ok _
    exact hmatches.map _
  unfold scan
  split
  · rename_i e he
    exact failsWith_error (hoperand _ e he)
  · refine FailsWith.map ?_ _
    rw [Probe.consume_eq_forIn _ _ h rfl]
    exact failsWith_forIn (fun row s => hrow _ s row) _ _

theorem failsWith_lookupNull (hopen : probe.closed = false)
    (haccess : probe.table.randomAccess = true ∨ P .noRandomAccess) :
    FailsWith P (lookupNull probe).1 :=
  (Probe.failsWith_contains hopen haccess _).map _

theorem failsWith_lookup (hP : ∀ e, e.ofValues → P e) (left : Value) (hopen : probe.closed = false)
    (haccess : probe.table.randomAccess = true ∨ P .noRandomAccess) :
    FailsWith P (lookup left probe).1 := by
  have hkey : ∀ t, FailsWith P (lookupKey left t) := by
    intro t
    unfold lookupKey
    split
    · exact failsWith_ok _
    · exact ((left.failsWith_convert t).mono hP).map _
  unfold lookup
  split_ifs
  · exact failsWith_ok _
  · split
    · rename_i e he
      exact failsWith_error (hkey _ e he)
    · exact failsWith_lookupNull hopen haccess
    · split
      · rename_i e _ hfound
        exact failsWith_error (Probe.failsWith_contains hopen haccess _ e (congrArg Prod.fst hfound))
      · exact failsWith_ok _
      · rename_i hfound
        obtain rfl := congrArg Prod.snd hfound
        exact failsWith_lookupNull hopen haccess

theorem failsWith_answer (hP : ∀ e, e.ofValues → P e) {p : Predicate}
    (hleft : FailsWith P (p.left.eval ctx)) (h : probe.Readable)
    (haccess : probe.table.randomAccess = true ∨ P .noRandomAccess) :
    FailsWith P (p.answer ctx probe).1 := by
  unfold answer
  split
  · rename_i e he
    exact failsWith_error (hleft e he)
  · split_ifs
    · exact failsWith_ok _
    · exact failsWith_ok _
    · refine FailsWith.map ?_ _
      rcases p.strategy ctx.settings with _ | _
      · exact failsWith_scan hP p _ _ h
      · exact failsWith_lookup hP _ h.opened haccess

end Predicate

section Runs

variable {α : Type} {P : Error → Prop} {ctx : Context}

theorem Plan.failsWith_withProbe {plan : Plan} {body : Probe → Except Error α × Probe}
    (hrun : FailsWith P (plan.run ctx))
    (hbody : ∀ response, plan.run ctx = .ok response → FailsWith P (body (.start response)).1)
    (label : String) (registry : Registry) :
    FailsWith P (plan.withProbe label ctx registry body).outcome := by
  rcases h : plan.run ctx with e | response
  · rw [withProbe_error h]
    exact failsWith_error (hrun e h)
  · rw [withProbe_ok h]
    exact hbody response h

/-- A restriction fails as one of its conditions does. -/
theorem TableFilter.exists_of_restrictBy_error {f : TableFilter} {plans : PlanId → Plan} {e : Error} :
    ∀ {cs : List IndexCondition} {rows : List Row} {registry : Registry},
      (f.restrictBy plans ctx cs rows registry).outcome = .error e →
        ∃ c ∈ cs, f.keysOf plans ctx c = .error e
  | c :: cs, rows, registry, h => by
    unfold restrictBy at h
    dsimp only at h
    rw [f.probeValues_bind_keys] at h
    rcases hkeys : f.keysOf plans ctx c with e' | keys
    · rw [hkeys] at h
      obtain rfl := Except.error.inj h
      exact ⟨c, List.mem_cons_self, hkeys⟩
    · rw [hkeys] at h
      obtain ⟨d, hd, hde⟩ := exists_of_restrictBy_error h
      exact ⟨d, List.mem_cons_of_mem c hd, hde⟩

variable {q : ValuesPlan}

theorem Plan.exists_of_run_values {response : Response} (h : (values q).run ctx = .ok response) :
    ∃ table, q.run ctx = .ok table ∧ response = { table } := by
  rw [run] at h
  rcases hrun : q.run ctx with e | table
  · rw [hrun] at h
    cases h
  · rw [hrun] at h
    exact ⟨table, rfl, (Except.ok.inj h).symm⟩

variable (hP : ∀ e, e.ofValues → P e)
  (hquery : ∀ c ∈ (Plan.values q).references, FailsWith P (c.eval ctx))
  (hprepared : q.prepared = true ∨ P .notPrepared)
include hP hquery hprepared

/-- What becomes of a plan that was prepared for lookups is up to its values and columns. -/
theorem Predicate.failsWith_evaluate (haccess : q.randomAccess = true ∨ P .noRandomAccess)
    {p : Predicate}
    (hleft : ∀ c ∈ p.left.columns, FailsWith P (c.eval ctx)) (registry : Registry) :
    FailsWith P (p.evaluate (.values q) ctx registry).outcome := by
  have hrun := ValuesPlan.failsWith_run hP hquery hprepared
  refine Plan.failsWith_withProbe (hrun.map _) (fun response h => ?_) _ registry
  obtain ⟨table, htable, rfl⟩ := Plan.exists_of_run_values h
  have hflag := ((ValuesPlan.run_ok_iff (ValuesPlan.prepared_of_run htable)).mp htable).2.2
  rw [← hflag] at haccess
  exact failsWith_answer hP (Expr.failsWith_eval hP hleft) (Probe.readable_start table) haccess

theorem IndexCondition.failsWith_probeValues (registry : Registry) :
    FailsWith P (probeValues (.values q) ctx registry).outcome := by
  have hrun := ValuesPlan.failsWith_run hP hquery hprepared
  refine Plan.failsWith_withProbe (hrun.map _) (fun response h => ?_) _ registry
  obtain ⟨table, -, rfl⟩ := Plan.exists_of_run_values h
  rw [Probe.consume_eq_forIn _ _ (Probe.readable_start table) rfl]
  exact failsWith_forIn (fun _ _ => failsWith_ok _) _ _

theorem TableFilter.failsWith_keysOf (f : TableFilter) {plans : PlanId → Plan} {c : IndexCondition}
    (hplan : plans c.query = .values q) : FailsWith P (f.keysOf plans ctx c) := by
  rw [keysOf, hplan]
  refine (IndexCondition.failsWith_probeValues hP hquery hprepared {}).bind fun values _ => ?_
  exact failsWith_mapM fun v _ => (v.failsWith_convert _).mono hP

end Runs

end QuantifiedComparison
