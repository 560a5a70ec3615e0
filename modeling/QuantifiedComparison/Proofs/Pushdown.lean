import Mathlib.Data.Option.Basic
import QuantifiedComparison.Proofs.Independence
import QuantifiedComparison.Proofs.Kleene
import QuantifiedComparison.Proofs.Membership
import QuantifiedComparison.Proofs.ProbeValues

/-!
# Index conditions stand for their predicates

A predicate that gives a filter an index condition reads one of the filter's columns, and its query
reads nothing of the filter. So one run of the query serves every row: where the column and the
query have one type, the condition lets a row through exactly if the predicate is true of it
(`Indexes.exists_keys`), and a filter keeps the rows of which all its predicates are true
(`restrict_eq_filter`).
-/

namespace QuantifiedComparison

namespace Predicate

/-- Whether the predicate is true while the filter stands on the row. -/
def isTrueOn (p : Predicate) (plan : Plan) (ctx : Context) (filter : Nat) (registry : Registry)
    (row : Row) : Bool :=
  (p.evaluate plan (ctx.position filter row) registry).outcome.toOption = some (.boolean true)

/-- An index condition that says of a filter's rows what the predicate does. -/
structure Indexes (p : Predicate) (plan : Plan) (filter : Nat) (c : IndexCondition) : Prop where
  any : p.quantifier = .any
  equal : p.comparison = .equal
  column : ∃ col b, p.left = .column col ∧ col.binding = some b ∧ b.filter = filter ∧
    b.index = c.column
  independent : plan.satisfies (.independentOf filter) = true
  query : c.query = p.query

theorem indexes_of_push {p : Predicate} {plan : Plan} {s : Settings} {f g : TableFilter}
    (h : p.push plan s f = (true, g)) : ∃ c, g = f.add c ∧ p.Indexes plan f.id c := by
  unfold push at h
  split at h
  · rename_i c hc
    obtain ⟨-, rfl⟩ := Prod.mk.inj h
    refine ⟨c, rfl, ?_⟩
    unfold indexCondition? at hc
    obtain ⟨_, hplain, hc⟩ := Option.bind_eq_some_iff.mp hc
    split at hc
    · rename_i col hleft
      obtain ⟨b, hb, hc⟩ := Option.bind_eq_some_iff.mp hc
      obtain ⟨_, hown, hc⟩ := Option.bind_eq_some_iff.mp hc
      obtain rfl := Option.some.inj hc
      rw [Option.guard_eq_some'] at hplain hown
      exact ⟨hplain.2.1, hplain.2.2, ⟨col, b, hleft, hb, hown.1, rfl⟩, hown.2, rfl⟩
    · cases hc
  · cases h

end Predicate

/-- A filter that holds the index conditions of these predicates and no others. -/
inductive Pushed (plans : PlanId → Plan) : List Predicate → TableFilter → Prop
  | none {f : TableFilter} (h : f.conditions = []) : Pushed plans [] f
  | push {ps : List Predicate} {p : Predicate} {s : Settings} {f g : TableFilter}
    (h : Pushed plans ps f) (hp : p.push (plans p.query) s f = (true, g)) :
    Pushed plans (ps ++ [p]) g

theorem Pushed.indexes {plans : PlanId → Plan} {ps : List Predicate} {f : TableFilter}
    (h : Pushed plans ps f) :
    List.Forall₂ (fun p c => p.Indexes (plans p.query) f.id c) ps f.conditions := by
  induction h with
  | none h =>
    rw [h]
    exact .nil
  | push _ hp ih =>
    obtain ⟨c, rfl, hc⟩ := Predicate.indexes_of_push hp
    exact List.rel_append ih (.cons hc .nil)

namespace Predicate

variable {p : Predicate} {q : ValuesPlan} {c : IndexCondition} {filter : Nat} {ctx : Context}
  {table : ResultTable} {t : ColumnType} {row : Row} {v : Value}

theorem Indexes.eval_left {plan : Plan} (h : p.Indexes plan filter c)
    (hv : row[c.column]? = some v) :
    p.left.eval (ctx.position filter row) = .ok v := by
  obtain ⟨col, b, hleft, hb, rfl, hindex⟩ := h.column
  have hrow : (ctx.position b.filter row).rows b.filter = some row := if_pos rfl
  rw [hleft, Expr.eval, Column.eval, hb]
  dsimp only
  rw [Context.value, hrow, hindex]
  dsimp only
  rw [hv]

/-- The predicate is true of a row whose value is among those of the query. -/
theorem Indexes.isTrueOn_eq (h : p.Indexes (.values q) filter c)
    (hplan : Plan.Optimized (.values q)) (htypes : q.types = [t]) (hrun : q.run ctx = .ok table)
    (hv : row[c.column]? = some v) (hfits : v.Fits t) (registry : Registry) :
    p.isTrueOn (.values q) ctx filter registry row = (!v.isNull && v.isAmong table.firsts) := by
  have htable := hplan.singleColumn_of_run htypes hrun
  have hrun' : q.run (ctx.position filter row) = .ok table :=
    (ValuesPlan.run_position h.independent ctx row).trans hrun
  have hleft : p.left.eval (ctx.position filter row) = .ok v := h.eval_left hv
  unfold isTrueOn
  by_cases hrows : table.rows = []
  · rw [evaluate_empty registry hrun' hleft hrows, h.any, ResultTable.firsts, hrows]
    exact (Bool.and_false _).symm
  by_cases hnull : v = .null
  · subst hnull
    rw [evaluate_null registry hrun' hleft hrows]
    rfl
  have htype : v.type = t := hfits.resolve_left hnull
  have ht : t ≠ .null := by
    rintro rfl
    exact hnull (Value.type_eq_null_iff.mp htype)
  have hcross : ¬v.Crosses t := by
    rw [Value.Crosses, htype]
    rintro (⟨rfl, h⟩ | ⟨rfl, h⟩) <;> cases h
  have hc : p.comparison.isEquality = true := by
    rw [h.equal]
    rfl
  rw [evaluate_value registry hrun' htable ht hleft hnull hrows,
    truthOver_of_not_crosses h.any hc ht hnull hcross htable.fits, Value.convert_fitting hfits,
    Value.isNull_eq_false_iff.mpr hnull]
  rw [Bool.not_false, Bool.true_and, Bool.eq_iff_iff, decide_eq_true_iff]
  show some (Truth.toValue _) = some Truth.holds.toValue ↔ _
  rw [Option.some.injEq, Truth.toValue_inj, Truth.ofSearch_eq_holds_iff]

/-- One run of the query answers for every row of the filter. -/
theorem Indexes.exists_keys (h : p.Indexes (.values q) filter c)
    (hplan : Plan.Optimized (.values q)) (htypes : q.types = [t]) (hrun : q.run ctx = .ok table) :
    ∃ keys, (∀ registry, (IndexCondition.probeValues (.values q) ctx registry).outcome
        >>= IndexCondition.keys t = .ok keys) ∧
      ∀ row v registry, row[c.column]? = some v → v.Fits t →
        c.admits keys row = p.isTrueOn (.values q) ctx filter registry row := by
  have htable := hplan.singleColumn_of_run htypes hrun
  refine ⟨IndexCondition.collected table.firsts, fun registry => ?_, ?_⟩
  · rw [IndexCondition.probeValues_of_run hrun htable]
    exact IndexCondition.keys_of_fits fun v hv =>
      htable.fits v (IndexCondition.mem_of_mem_collected hv)
  · intro row v registry hv hfits
    rw [h.isTrueOn_eq hplan htypes hrun hv hfits, IndexCondition.admits, hv, Option.any_some]
    by_cases hnull : v = .null
    · subst hnull
      rfl
    · rw [IndexCondition.isAmong_collected hnull]

end Predicate

namespace TableFilter

variable {f : TableFilter} {plans : PlanId → Plan} {ctx : Context}

/-- If each condition lets through the rows of which something holds that is known by `ps`, all of
them together let through those of which all of that holds. -/
theorem restrictBy_eq_filter {τ : Type} {ps : List τ} {cs : List IndexCondition} (P : Row → Prop)
    (holds : τ → Row → Bool)
    (h : List.Forall₂ (fun c p => ∃ keys,
      (∀ registry, (IndexCondition.probeValues (plans c.query) ctx registry).outcome
        >>= IndexCondition.keys (f.columnType c.column) = .ok keys) ∧
      ∀ row, P row → c.admits keys row = holds p row) cs ps) {rows : List Row}
    (hrows : ∀ row ∈ rows, P row) (registry : Registry) :
    (f.restrictBy plans ctx cs rows registry).outcome
      = .ok (rows.filter fun row => ps.all (holds · row)) := by
  induction h generalizing rows registry with
  | nil => exact congrArg Except.ok (List.filter_true rows).symm
  | @cons c p cs ps hc hrest ih =>
    obtain ⟨keys, hkeys, hadmits⟩ := hc
    have hfilter : rows.filter (c.admits keys) = rows.filter (holds p) :=
      List.filter_congr fun row hrow => hadmits row (hrows row hrow)
    rw [restrictBy]
    dsimp only
    rw [hkeys]
    dsimp only
    rw [hfilter, ih fun row hrow => hrows row (List.mem_of_mem_filter hrow), List.filter_filter]
    refine congrArg Except.ok (List.filter_congr fun row _ => ?_)
    rw [List.all_cons, Bool.and_comm]

/-- A filter keeps, in order, the rows of which every predicate that became one of its conditions is
true, whatever the way to evaluate them. -/
theorem restrict_eq_filter {ps : List Predicate} {rows : List Row} (hpushed : Pushed plans ps f)
    (hplans : ∀ c ∈ f.conditions, ∃ q table, plans c.query = .values q ∧
      Plan.Optimized (.values q) ∧ q.types = [f.columnType c.column] ∧ q.run ctx = .ok table)
    (hrows : ∀ row ∈ rows, ∀ c ∈ f.conditions, ∃ v, row[c.column]? = some v ∧
      v.Fits (f.columnType c.column)) (registry registry' : Registry) :
    (f.restrict plans ctx rows registry).outcome = .ok (rows.filter fun row =>
      ps.all fun p => p.isTrueOn (plans p.query) ctx f.id registry' row) := by
  -- the rows are asked only about the filter's own conditions, so each pair remembers its membership
  have hconditions := (List.forall₂_and_left (p := (· ∈ f.conditions)) f.conditions ps).mpr
    ⟨fun _ hc => hc, hpushed.indexes.flip⟩
  refine restrictBy_eq_filter _ (fun (p : Predicate) row => p.isTrueOn (plans p.query) ctx f.id
    registry' row) (hconditions.imp fun c p hcp => ?_) hrows registry
  obtain ⟨hc, hflip⟩ := hcp
  have hindexes : p.Indexes (plans p.query) f.id c := hflip
  obtain ⟨q, table, hq, hplan, htypes, hrun⟩ := hplans c hc
  have hquery : plans p.query = .values q := by rw [← hindexes.query, hq]
  rw [hquery] at hindexes
  obtain ⟨keys, hkeys, hadmits⟩ := hindexes.exists_keys hplan htypes hrun
  rw [hq, hquery]
  refine ⟨keys, hkeys, fun row hrow => ?_⟩
  obtain ⟨v, hv, hfits⟩ := hrow c hc
  exact hadmits row v registry' hv hfits

/-- A table with one column `a`, and the column as the filter binds it. -/
def oneColumn : TableFilter :=
  { id := 1, name := "t", columns := [("a", .integer)] }

def columnA : Expr :=
  .column { table := none, name := "a", binding := some ⟨1, 0, .integer, 0⟩ }

/-- `a IN (1, NULL)` keeps the rows where `a` is 1. -/
theorem restrict_eq_filter_one :
    ((oneColumn.add ⟨0, "a", 0⟩).restrict
      (fun _ => .values (.literals "v" .integer [.integer 1, .null])) {}
      [[.integer 2], [.integer 1], [.null], [.integer 1]] {}).outcome
    = .ok [[.integer 1], [.integer 1]] := by
  have hvalues : ∀ w ∈ [Value.integer 1, .null], w.Fits .integer := by decide
  have hpushed : Pushed (fun _ => .values (.literals "v" .integer [.integer 1, .null]))
      [.isIn columnA 0] (oneColumn.add ⟨0, "a", 0⟩) :=
    .push (s := {}) (.none (f := oneColumn) rfl) rfl
  refine (restrict_eq_filter hpushed ?_ ?_ {} {}).trans rfl
  · intro c hc
    obtain rfl := List.mem_singleton.mp hc
    exact ⟨_, _, rfl, ValuesPlan.optimized_literals "v" .integer _, rfl,
      ValuesPlan.run_literals "v" hvalues {}⟩
  · intro row hrow c hc
    obtain rfl := List.mem_singleton.mp hc
    simp only [List.mem_cons, List.not_mem_nil, or_false] at hrow
    rcases hrow with rfl | rfl | rfl | rfl
    · exact ⟨_, rfl, .inr rfl⟩
    · exact ⟨_, rfl, .inr rfl⟩
    · exact ⟨_, rfl, .inl rfl⟩
    · exact ⟨_, rfl, .inr rfl⟩

end TableFilter

end QuantifiedComparison
