import QuantifiedComparison.Proofs.BindingOnce
import QuantifiedComparison.Proofs.Failures

/-!
# Evaluatable predicates

A column is evaluatable at a level if it is bound further out or marked. The query of a predicate
stands one level deeper than its left operand: a scope binds it there, and there it is asked. So a
column is always asked on the side on which it was bound (`Predicate.EachColumn.acted`,
`satisfies_evaluatable_iff`).

Where the filters of these columns stand on rows, an evaluatable predicate finds the value of every
column (`evaluatable_is_sound`). A column without a binding is never evaluatable, and is the only
one that is not once all filters are marked, or at a level that all bindings are outside of
(`evaluatable_iff_of_outside`). Nothing stands deeper than the last level: there the query is asked
at level 0, where only marked columns are evaluatable (`evaluatable_last_iff`).
-/

namespace QuantifiedComparison

/-- The greatest level. -/
def QueryLevel.last : QueryLevel := 18446744073709551615

theorem QueryLevel.toNat_add_one {level : QueryLevel} (h : level < .last) :
    (level + 1).toNat = level.toNat + 1 := by
  have hword : level.toNat < 18446744073709551615 := UInt64.lt_iff_toNat_lt.mp h
  rw [UInt64.toNat_add, UInt64.toNat_one, Nat.mod_eq_of_lt (by omega)]

/-- The filter of a column on which an evaluation at the level may rely stands on a row that is long
enough. -/
def Context.Supplies (ctx : Context) (level : QueryLevel) (c : Column) : Prop :=
  ∀ b, c.binding = some b → b.level < level ∨ c.evaluatable = true →
    ∃ row, ctx.rows b.filter = some row ∧ b.index < row.length

/-- The column after the columns of the filter are marked. -/
def Column.mark (filter : Nat) (flag : Bool) (c : Column) : Column :=
  if c.binding.any (·.filter = filter) then { c with evaluatable := flag } else c

/-- An error that does not come of a column without a value. -/
def Error.Unrelated (e : Error) : Prop :=
  e.category ≠ .missingColumn ∧ ∀ filter, e ≠ .notPositioned filter

theorem Error.unrelated_of_ofValues (e : Error) (h : e.ofValues) : e.Unrelated := by
  refine ⟨fun hcategory => ?_, fun filter heq => ?_⟩
  · rw [ofValues, hcategory] at h
    cases h
  · rw [heq] at h
    cases h

namespace Column

variable {c : Column}

theorem satisfies_evaluatable_iff {level : QueryLevel} : c.satisfies (.evaluatable level) = true ↔
    ∃ b, c.binding = some b ∧ (b.level < level ∨ c.evaluatable = true) := by
  simp [satisfies, Option.any_eq_true]

theorem satisfies_of_le {level level' : QueryLevel} (hle : level ≤ level')
    (h : c.satisfies (.evaluatable level) = true) : c.satisfies (.evaluatable level') = true := by
  obtain ⟨b, hb, hvalue⟩ := satisfies_evaluatable_iff.mp h
  exact satisfies_evaluatable_iff.mpr
    ⟨b, hb, hvalue.imp_left fun hlt => UInt64.lt_of_lt_of_le hlt hle⟩

theorem positioned_of_satisfies {ctx : Context} {level : QueryLevel}
    (h : c.satisfies (.evaluatable level) = true) (hctx : ctx.Supplies level c) :
    c.Positioned ctx := by
  obtain ⟨b, hb, hvalue⟩ := satisfies_evaluatable_iff.mp h
  obtain ⟨row, hrow, hindex⟩ := hctx b hb hvalue
  exact ⟨b, row, hb, hrow, hindex⟩

/-- A binding is an old one, or it is of the level at which it was made. -/
theorem binding_bind {s : Scope} {level : QueryLevel} {b : Binding}
    (h : (c.bind s level).after.binding = some b) : c.binding = some b ∨ b.level = level := by
  unfold bind at h
  split at h
  · exact .inl h
  · split at h
    · obtain rfl := Option.some.inj h
      exact .inr rfl
    · split_ifs at h
      · exact .inl h
      · exact .inl h

@[simp] theorem binding_mark (filter : Nat) (flag : Bool) (c : Column) :
    (c.mark filter flag).binding = c.binding := by
  unfold mark
  split_ifs <;> rfl

theorem evaluatable_mark (filter : Nat) (c : Column) : (c.mark filter true).evaluatable
    = (c.evaluatable || c.binding.any (·.filter = filter)) := by
  unfold mark
  split_ifs with h
  · rw [h, Bool.or_true]
  · rw [Bool.not_eq_true] at h
    rw [h, Bool.or_false]

/-- The column after the columns of all these filters are marked. -/
def markAll : List Nat → Column → Column
  | [], c => c
  | filter :: filters, c => (c.mark filter true).markAll filters

@[simp] theorem binding_markAll : ∀ (filters : List Nat) (c : Column),
    (c.markAll filters).binding = c.binding
  | [], _ => rfl
  | filter :: filters, c => by rw [markAll, binding_markAll filters, binding_mark]

theorem evaluatable_markAll : ∀ (filters : List Nat) (c : Column), (c.markAll filters).evaluatable
    = (c.evaluatable || filters.any fun filter => c.binding.any (·.filter = filter))
  | [], c => (Bool.or_false _).symm
  | filter :: filters, c => by
    rw [markAll, evaluatable_markAll filters, evaluatable_mark, binding_mark, List.any_cons,
      Bool.or_assoc]

end Column

theorem Expr.columns_mark (filter : Nat) (flag : Bool) :
    ∀ e : Expr, (e.mark filter flag).columns = e.columns.map (Column.mark filter flag)
  | literal _ => rfl
  | column c => by
    rw [mark, columns, List.map_singleton, Column.mark]
    split_ifs <;> rfl
  | binary _ l r => by
    rw [mark, columns, columns_mark filter flag l, columns_mark filter flag r, columns,
      List.map_append]

theorem Plan.references_mark (filter : Nat) (flag : Bool) (plan : Plan) :
    (plan.mark filter flag).references = plan.references.map (Column.mark filter flag) := by
  cases plan with
  | external e => rfl
  | values q =>
    show ((q.rows.map (·.map (·.mark filter flag))).map (·.map Expr.columns)).flatten.flatten = _
    simp only [references, List.map_map, List.map_flatten, Function.comp_def, Expr.columns_mark]

namespace Predicate

/-- Where a column of a predicate stands. -/
inductive Side
  | operand
  | query
deriving DecidableEq

/-- The level of what stands on this side of a predicate at the level. -/
def Side.level (level : QueryLevel) : Side → QueryLevel
  | operand => level
  | query => level + 1

theorem Side.level_le_level {level level' : QueryLevel} (hle : level ≤ level')
    (hlast : level' < .last) : ∀ side : Side, side.level level ≤ side.level level'
  | operand => hle
  | query => by
    show level + 1 ≤ level' + 1
    rw [UInt64.le_iff_toNat_le, QueryLevel.toNat_add_one (UInt64.lt_of_le_of_lt hle hlast),
      QueryLevel.toNat_add_one hlast]
    exact Nat.add_le_add_right (UInt64.le_iff_toNat_le.mp hle) 1

theorem Side.level_lt_level {level level' : QueryLevel} (hlt : level < level')
    (hlast : level' < .last) : ∀ side : Side, side.level level < side.level level'
  | operand => hlt
  | query => by
    show level + 1 < level' + 1
    rw [UInt64.lt_iff_toNat_lt, QueryLevel.toNat_add_one (UInt64.lt_trans hlt hlast),
      QueryLevel.toNat_add_one hlast]
    exact Nat.add_lt_add_right (UInt64.lt_iff_toNat_lt.mp hlt) 1

theorem Side.level_last : query.level .last = 0 := rfl

/-- Something holds of each column and the side on which it stands. -/
def EachColumn (P : Side → Column → Prop) (x : Predicate × Plan) : Prop :=
  (∀ c ∈ x.1.left.columns, P .operand c) ∧ ∀ c ∈ x.2.references, P .query c

section Step

variable {P Q : Side → Column → Prop} {p : Predicate} {plan : Plan}

theorem EachColumn.imp {x : Predicate × Plan} (h : EachColumn P x)
    (hPQ : ∀ side c, P side c → Q side c) : EachColumn Q x :=
  ⟨fun c hc => hPQ .operand c (h.1 c hc), fun c hc => hPQ .query c (h.2 c hc)⟩

theorem EachColumn.and {x : Predicate × Plan} (hP : EachColumn P x) (hQ : EachColumn Q x) :
    EachColumn (fun side c => P side c ∧ Q side c) x :=
  ⟨fun c hc => ⟨hP.1 c hc, hQ.1 c hc⟩, fun c hc => ⟨hP.2 c hc, hQ.2 c hc⟩⟩

/-- A predicate is asked about each column at the level of the side on which it stands. -/
theorem satisfies_evaluatable_iff {q : ValuesPlan} {level : QueryLevel} :
    p.satisfies (.values q) (.evaluatable level) = true ↔
      EachColumn (fun side c => c.satisfies (.evaluatable (side.level level)) = true)
        (p, .values q) := by
  rw [satisfies, Bool.and_eq_true, Expr.satisfies_iff, Plan.satisfies_values_iff]
  rfl

theorem eachColumn_mark {filter : Nat} {flag : Bool} :
    EachColumn P (p.mark plan filter flag) ↔
      EachColumn (fun side c => P side (c.mark filter flag)) (p, plan) := by
  simp only [EachColumn, mark, Expr.columns_mark, Plan.references_mark, List.forall_mem_map]

theorem EachColumn.optimize (h : EachColumn P (p, plan)) :
    EachColumn P (p.optimize plan).after := by
  have hleft : ∀ c ∈ p.left.fold.after.columns, P .operand c := by
    rw [Expr.columns_fold]
    exact h.1
  have hquery : ∀ c ∈ (plan.setRandomAccess true).prepare.after.references, P .query c := by
    rw [Plan.references_prepare, Plan.references_setRandomAccess]
    exact h.2
  unfold Predicate.optimize
  dsimp only
  split
  · exact ⟨hleft, h.2⟩
  · split
    · exact ⟨hleft, hquery⟩
    · exact ⟨hleft, hquery⟩

/-- A scope binds each column at the level of the side on which it stands. -/
theorem EachColumn.bind {s : Scope} {level : QueryLevel} (h : EachColumn P (p, plan))
    (hbind : ∀ side c, P side c → P side (c.bind s (side.level level)).after) :
    EachColumn P (p.bind plan s level).after := by
  have hleft : ∀ c ∈ (p.left.bind s level).after.columns, P .operand c :=
    Expr.bind_forall (hbind .operand) h.1
  have hquery : ∀ c ∈ (plan.bind s (level + 1)).after.references, P .query c :=
    Plan.bind_forall (hbind .query) h.2
  rcases hl : (p.left.bind s level).error with _ | e
  · rcases hq : (plan.bind s (level + 1)).error with _ | e
    · rw [bind_success hl hq]
      exact ⟨hleft, hquery⟩
    · rw [bind_query_error hl hq]
      exact ⟨hleft, hquery⟩
  · rw [bind_left_error hl]
    exact ⟨hleft, h.2⟩

end Step

/-- An act on the predicate itself, and not by others on its query. -/
def Act.Own : Act → Prop
  | query _ => False
  | _ => True

section Run

variable {P : Side → Column → Prop}

theorem exists_apply {a : Act} (hown : a.Own) (p : Predicate) (q : ValuesPlan) :
    ∃ p' q', (a.apply (p, .values q)).after = (p', .values q') := by
  cases a with
  | bind s level =>
    obtain ⟨q', hq', -⟩ := p.query_extends_bind s level q
    exact ⟨_, q', by rw [← hq']; rfl⟩
  | optimize =>
    show ∃ p' q', (p.optimize (.values q)).after = (p', .values q')
    unfold optimize
    dsimp only
    split
    · exact ⟨_, q, rfl⟩
    · split <;> exact ⟨_, _, rfl⟩
  | mark filter flag => exact ⟨_, _, rfl⟩
  | query change => exact hown.elim

/-- A VALUES list stays one. -/
theorem exists_acted : ∀ {as : List Act}, (∀ a ∈ as, a.Own) → ∀ (p : Predicate) (q : ValuesPlan),
    ∃ p' q', (acted as (p, .values q)).1 = (p', .values q')
  | [], _, p, q => ⟨p, q, rfl⟩
  | a :: as, h, p, q => by
    obtain ⟨ha, has⟩ := List.forall_mem_cons.mp h
    obtain ⟨p', q', happly⟩ := exists_apply ha p q
    obtain ⟨p'', q'', hrest⟩ := exists_acted has p' q'
    refine ⟨p'', q'', ?_⟩
    rw [acted, happly]
    exact hrest

/-- What binding and marking keep for each column is kept by all that is done to the predicate. -/
theorem EachColumn.acted (hmark : ∀ filter flag side c, P side c → P side (c.mark filter flag)) :
    ∀ {as : List Act} {x : Predicate × Plan}, (∀ a ∈ as, a.Own) →
      (∀ s level, .bind s level ∈ as →
        ∀ side c, P side c → P side (c.bind s (side.level level)).after) →
      EachColumn P x → EachColumn P (Predicate.acted as x).1
  | [], _, _, _, h => h
  | a :: as, x, hown, hbind, h => by
    obtain ⟨ha, has⟩ := List.forall_mem_cons.mp hown
    have happly : EachColumn P (a.apply x).after := by
      cases a with
      | bind s level => exact h.bind (hbind s level List.mem_cons_self)
      | optimize => exact h.optimize
      | mark filter flag =>
        exact eachColumn_mark.mpr (h.imp fun side c => hmark filter flag side c)
      | query change => exact ha.elim
    show EachColumn P (Predicate.acted as (a.apply x).after).1
    exact EachColumn.acted hmark has
      (fun s level hmem => hbind s level (List.mem_cons_of_mem a hmem)) happly

theorem eachColumn_markAll : ∀ {filters : List Nat} {x : Predicate × Plan},
    EachColumn P (acted (filters.map (.mark · true)) x).1 ↔
      EachColumn (fun side c => P side (c.markAll filters)) x
  | [], _ => Iff.rfl
  | filter :: filters, (p, plan) => by
    rw [List.map_cons, acted]
    exact eachColumn_markAll.trans eachColumn_mark

end Run

section Evaluatable

variable {p : Predicate} {q : ValuesPlan} {level : QueryLevel}

/-- Evaluations at the level may rely on every column that has a binding. -/
def ReliesOnBound (level : QueryLevel) : Predicate × Plan → Prop :=
  EachColumn fun side c =>
    ∀ b, c.binding = some b → b.level < side.level level ∨ c.evaluatable = true

theorem ReliesOnBound.evaluatable_iff (h : ReliesOnBound level (p, .values q)) :
    p.satisfies (.values q) (.evaluatable level) = true ↔
      EachColumn (fun _ c => c.binding ≠ none) (p, .values q) := by
  rw [satisfies_evaluatable_iff]
  constructor
  · intro hsatisfies
    refine hsatisfies.imp fun _ c hc hnone => ?_
    obtain ⟨b, hb, -⟩ := Column.satisfies_evaluatable_iff.mp hc
    rw [hnone] at hb
    cases hb
  · intro hbound
    refine (h.and hbound).imp fun _ c ⟨hrelies, hne⟩ => ?_
    obtain ⟨b, hb⟩ := Option.ne_none_iff_exists'.mp hne
    exact Column.satisfies_evaluatable_iff.mpr ⟨b, hb, hrelies b hb⟩

theorem reliesOnBound_markAll {filters : List Nat} {x : Predicate × Plan}
    (h : EachColumn (fun _ c => ∀ b, c.binding = some b → b.filter ∈ filters) x)
    (level : QueryLevel) : ReliesOnBound level (acted (filters.map (.mark · true)) x).1 := by
  refine eachColumn_markAll.mpr (h.imp fun _ c hc b hb => .inr ?_)
  rw [Column.binding_markAll] at hb
  rw [Column.evaluatable_markAll, Bool.or_eq_true, List.any_eq_true]
  exact .inr ⟨b.filter, hc b hb, by rw [hb, Option.any_some, decide_eq_true rfl]⟩

theorem failsWith_of_evaluatable {ctx : Context}
    (hsatisfies : p.satisfies (.values q) (.evaluatable level) = true)
    (hctx : EachColumn (fun side c => ctx.Supplies (side.level level) c) (p, .values q))
    (registry : Registry) :
    FailsWith Error.Unrelated (p.evaluate (.values q) ctx registry).outcome := by
  have hvalue : EachColumn (fun _ c => FailsWith Error.Unrelated (c.eval ctx)) (p, .values q) := by
    refine ((satisfies_evaluatable_iff.mp hsatisfies).and hctx).imp
      fun _ c ⟨hc, hsupplies⟩ => ?_
    obtain ⟨v, -, hv⟩ := (Column.positioned_of_satisfies hc hsupplies).eval
    rw [hv]
    exact failsWith_ok v
  exact failsWith_evaluate Error.unrelated_of_ofValues hvalue.2 (.inr ⟨nofun, nofun⟩)
    (.inr ⟨nofun, nofun⟩) hvalue.1 registry

theorem evaluatable_of_le {level' : QueryLevel} (hle : level ≤ level') (hlast : level' < .last)
    (h : p.satisfies (.values q) (.evaluatable level) = true) :
    p.satisfies (.values q) (.evaluatable level') = true := by
  rw [satisfies_evaluatable_iff] at h ⊢
  exact h.imp fun side c => Column.satisfies_of_le (side.level_le_level hle hlast)

/-- At the last level the query is asked at level 0, which nothing is outside of. -/
theorem evaluatable_last_iff : p.satisfies (.values q) (.evaluatable .last) = true ↔
    EachColumn (fun side c => ∃ b, c.binding = some b ∧
      (side = .operand ∧ b.level < .last ∨ c.evaluatable = true)) (p, .values q) := by
  have houtside : ∀ side : Side, ∀ b : Binding,
      b.level < side.level .last ↔ side = .operand ∧ b.level < .last
    | .operand, b => (and_iff_right rfl).symm
    | .query, b => by
      rw [Side.level_last]
      exact iff_of_false UInt64.not_lt_zero fun h => nomatch h.1
  simp only [satisfies_evaluatable_iff, Column.satisfies_evaluatable_iff, houtside]

theorem own_of_mem_marks {filters : List Nat} : ∀ a ∈ filters.map (Act.mark · true), a.Own :=
  List.forall_mem_map.mpr fun _ _ => trivial

theorem evaluatable_markAll_iff {filters : List Nat}
    (h : EachColumn (fun _ c => ∀ b, c.binding = some b → b.filter ∈ filters) (p, .values q))
    (level : QueryLevel) :
    let m := (acted (filters.map (.mark · true)) (p, .values q)).1
    m.1.satisfies m.2 (.evaluatable level) = true ↔ EachColumn (fun _ c => c.binding ≠ none) m := by
  obtain ⟨p', q', hm⟩ := exists_acted own_of_mem_marks p q
  have hrelies := reliesOnBound_markAll h level
  rw [hm] at hrelies ⊢
  exact hrelies.evaluatable_iff

/-- Bound at levels below this one only, a predicate may rely on every column that has a binding:
what is bound in its query is bound one level deeper, where it is asked. -/
theorem evaluatable_iff_of_outside {acts : List Act} (hown : ∀ a ∈ acts, a.Own)
    (hlast : level < .last) (houtside : ∀ s l, .bind s l ∈ acts → l < level)
    (h : EachColumn (fun side c => ∀ b, c.binding = some b → b.level < side.level level)
      (p, .values q)) :
    let s := (acted acts (p, .values q)).1
    s.1.satisfies s.2 (.evaluatable level) = true ↔ EachColumn (fun _ c => c.binding ≠ none) s := by
  have hbind : ∀ s l, .bind s l ∈ acts → ∀ (side : Side) (c : Column),
      (∀ b, c.binding = some b → b.level < side.level level) →
        ∀ b, (c.bind s (side.level l)).after.binding = some b → b.level < side.level level := by
    intro s l hmem side c hc b hb
    rcases Column.binding_bind hb with hold | hnew
    · exact hc b hold
    · rw [hnew]
      exact side.level_lt_level (houtside s l hmem) hlast
  have hlevels := h.acted (fun _ _ _ c hc => by rwa [Column.binding_mark]) hown hbind
  obtain ⟨p', q', hs⟩ := exists_acted hown p q
  rw [hs] at hlevels ⊢
  exact ReliesOnBound.evaluatable_iff (hlevels.imp fun _ _ hc b hb => .inl (hc b hb))

end Evaluatable

end Predicate

end QuantifiedComparison
