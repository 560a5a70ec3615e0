import Mathlib.Logic.Relation
import QuantifiedComparison.Proofs.ColumnPlaces
import QuantifiedComparison.Proofs.Optimized

/-!
# What becomes of columns

A plan is bound, marked, prepared and asked for lookups, any number of times and with or without
success. None of this adds a column: folding keeps the columns as they are (`columns_fold`), and
binding and marking change them one by one (`bind_forall`, `mark_forall`). What a column may become
is little: it gets a binding if it had none and the scope knows it (`Column.bind_cases`). So once a
scope has bound all it knows, it never binds a column of the plan again (`Change.settled`), and a
plan that then reads nothing from the scope's filter never will (`Change.independent`).
-/

namespace QuantifiedComparison

namespace Column

/-- A column that the scope will not bind: it is bound already, or the scope does not know it. -/
def Settled (s : Scope) (c : Column) : Prop :=
  c.binding = none → s.match? c = none

theorem bind_cases (c : Column) (s : Scope) (level : QueryLevel) :
    (c.bind s level).after = c ∨ c.binding = none ∧ s.match? c ≠ none ∧
      ∃ b : Binding, b.filter = s.filter ∧ (c.bind s level).after = { c with binding := some b } := by
  unfold bind
  split
  · exact .inl rfl
  · rename_i index type hmatch
    split
    · rename_i hnone
      exact .inr ⟨hnone, by rw [hmatch]; exact nofun, ⟨s.filter, index, type, level⟩, rfl, rfl⟩
    · split_ifs
      · exact .inl rfl
      · exact .inl rfl

theorem settled_bind (c : Column) (s : Scope) (level : QueryLevel) :
    (c.bind s level).after.Settled s := by
  unfold bind
  split
  · rename_i hmatch
    exact fun _ => hmatch
  · split
    · exact nofun
    · rename_i hbound
      split_ifs
      · exact fun hnone => absurd (hbound.symm.trans hnone) nofun
      · exact fun hnone => absurd (hbound.symm.trans hnone) nofun

theorem Settled.bind {s : Scope} {c : Column} (h : c.Settled s) (s' : Scope) (level : QueryLevel) :
    (c.bind s' level).after.Settled s := by
  rcases c.bind_cases s' level with heq | ⟨-, -, b, -, heq⟩
  · rwa [heq]
  · rw [heq]
    exact nofun

/-- A column whose filter is another one stays so, whoever binds it: its own scope would not, and
every other scope has another filter. -/
theorem satisfies_bind {s s' : Scope} {c : Column}
    (h : c.satisfies (.independentOf s.filter) = true) (hsettled : c.Settled s)
    (hids : s'.filter = s.filter → s' = s) (level : QueryLevel) :
    (c.bind s' level).after.satisfies (.independentOf s.filter) = true := by
  rcases c.bind_cases s' level with heq | ⟨hnone, hmatch, b, hb, heq⟩
  · rwa [heq]
  · rw [heq, satisfies, Option.all_some, decide_eq_true_eq, hb]
    intro hfilter
    rw [hids hfilter] at hmatch
    exact hmatch (hsettled hnone)

end Column

namespace Expr

/-- A question holds of an expression if it holds of each of its columns. -/
theorem satisfies_iff {e : Expr} {q : Question} :
    e.satisfies q = true ↔ ∀ c ∈ e.columns, c.satisfies q = true := by
  induction e with
  | literal v => exact iff_of_true rfl nofun
  | column c => rw [satisfies, columns, List.forall_mem_singleton]
  | binary o l r ihl ihr =>
    rw [satisfies, columns, Bool.and_eq_true, ihl, ihr, List.forall_mem_append]

theorem columns_foldNode (o : Arithmetic) (l r : Expr) :
    (foldNode o l r).after.columns = l.columns ++ r.columns := by
  unfold foldNode
  split
  · split
    · rfl
    · rfl
  · rfl

/-- Only literals are folded. -/
theorem columns_fold (e : Expr) : e.fold.after.columns = e.columns := by
  induction e with
  | literal v => rfl
  | column c => rfl
  | binary o l r ihl ihr =>
    unfold fold
    dsimp only
    split
    · rw [columns, columns, ihl]
    · split
      · rw [columns, columns, ihl, ihr]
      · rw [columns_foldNode, ihl, ihr, columns]

variable {P : Column → Prop} {s : Scope} {level : QueryLevel}

theorem bind_forall (hP : ∀ c, P c → P (c.bind s level).after) {e : Expr}
    (h : ∀ c ∈ e.columns, P c) : ∀ c ∈ (e.bind s level).after.columns, P c := by
  induction e with
  | literal v => exact nofun
  | column c => exact List.forall_mem_singleton.mpr (hP c (h c (List.mem_singleton_self c)))
  | binary o l r ihl ihr =>
    obtain ⟨hl, hr⟩ := List.forall_mem_append.mp h
    unfold bind
    dsimp only
    split
    · exact List.forall_mem_append.mpr ⟨ihl hl, hr⟩
    · exact List.forall_mem_append.mpr ⟨ihl hl, ihr hr⟩

theorem mark_forall {filter : Nat} {flag : Bool}
    (hP : ∀ c : Column, P c → P { c with evaluatable := flag }) {e : Expr}
    (h : ∀ c ∈ e.columns, P c) : ∀ c ∈ (e.mark filter flag).columns, P c := by
  induction e with
  | literal v => exact nofun
  | column c =>
    unfold mark
    split_ifs
    · exact List.forall_mem_singleton.mpr (hP c (h c (List.mem_singleton_self c)))
    · exact h
  | binary o l r ihl ihr =>
    obtain ⟨hl, hr⟩ := List.forall_mem_append.mp h
    exact List.forall_mem_append.mpr ⟨ihl hl, ihr hr⟩

end Expr

namespace Plan

/-- The columns in the cells of a VALUES list, row by row. -/
def references : Plan → List Column
  | values q => (q.rows.map (·.map Expr.columns)).flatten.flatten
  | external _ => []

theorem references_values (q : ValuesPlan) :
    (values q).references = ValuesPlan.columnPlaces.list q := by
  rw [references, List.flatten_flatten, List.map_map]
  rfl

theorem mem_references {q : ValuesPlan} {c : Column} :
    c ∈ (values q).references ↔ ∃ row ∈ q.rows, ∃ cell ∈ row, c ∈ cell.columns := by
  simp only [references, List.mem_flatten, List.mem_map, exists_exists_and_eq_and]
  grind

theorem satisfies_values_iff {q : ValuesPlan} {ask : Question} :
    (values q).satisfies ask = true ↔
      ∀ c ∈ (values q).references, c.satisfies ask.descend = true := by
  simp only [satisfies, ValuesPlan.satisfies, ValuesPlan.cells, List.all_eq_true, List.mem_flatten,
    Expr.satisfies_iff, mem_references]
  grind

theorem references_prepare (plan : Plan) : plan.prepare.after.references = plan.references := by
  cases plan with
  | external e => rfl
  | values q =>
    show (q.prepare.after.rows.map (·.map Expr.columns)).flatten.flatten = _
    rw [q.map_rows_prepare Expr.columns_fold]
    rfl

theorem references_setRandomAccess (flag : Bool) (plan : Plan) :
    (plan.setRandomAccess flag).references = plan.references := by
  cases plan <;> rfl

section Forall

variable {P : Column → Prop} {plan : Plan}

theorem forall_references_iff {q : ValuesPlan} : (∀ c ∈ (values q).references, P c) ↔
    ∀ row ∈ q.rows, ∀ cell ∈ row, ∀ c ∈ cell.columns, P c := by
  simp only [mem_references]
  grind

theorem bind_forall {s : Scope} {level : QueryLevel} (hP : ∀ c, P c → P (c.bind s level).after)
    (h : ∀ c ∈ plan.references, P c) : ∀ c ∈ (plan.bind s level).after.references, P c := by
  cases plan with
  | external e => exact nofun
  | values q =>
    refine forall_references_iff.mpr (Attempt.each_forall ?_ (forall_references_iff.mp h))
    exact fun row => Attempt.each_forall fun cell => Expr.bind_forall hP

theorem mark_forall {filter : Nat} {flag : Bool}
    (hP : ∀ c : Column, P c → P { c with evaluatable := flag })
    (h : ∀ c ∈ plan.references, P c) : ∀ c ∈ (plan.mark filter flag).references, P c := by
  cases plan with
  | external e => exact nofun
  | values q =>
    refine forall_references_iff.mpr ?_
    intro row hrow cell hcell
    obtain ⟨row, hrow', rfl⟩ := List.mem_map.mp hrow
    obtain ⟨cell, hcell', rfl⟩ := List.mem_map.mp hcell
    exact Expr.mark_forall hP (forall_references_iff.mp h row hrow' cell hcell')

end Forall

/-- A scope that binds a plan without an error has bound all it knows. -/
theorem settled_of_bind {plan : Plan} {s : Scope} {level : QueryLevel}
    (h : (plan.bind s level).error = none) :
    ∀ c ∈ (plan.bind s level).after.references, c.Settled s := by
  cases plan with
  | external e => exact nofun
  | values q =>
    show ∀ c ∈ (values (q.bind s level).after).references, c.Settled s
    rw [references_values]
    exact (q.pointwise_bind s level).forall_of_success (fun c _ => c.settled_bind s level) h

/-- What can be done to a plan without giving it rows, where only these scopes bind. -/
inductive Change (scopes : List Scope) : Plan → Plan → Prop
  | bind {plan : Plan} {s : Scope} (hs : s ∈ scopes) (level : QueryLevel) :
    Change scopes plan (plan.bind s level).after
  | setRandomAccess {plan : Plan} (flag : Bool) : Change scopes plan (plan.setRandomAccess flag)
  | prepare {plan : Plan} : Change scopes plan plan.prepare.after
  | mark {plan : Plan} (filter : Nat) (flag : Bool) : Change scopes plan (plan.mark filter flag)

section Change

variable {scopes : List Scope} {plan plan' : Plan}

theorem Change.forall {P : Column → Prop} (h : Change scopes plan plan')
    (hbind : ∀ s ∈ scopes, ∀ level c, P c → P (c.bind s level).after)
    (hmark : ∀ (flag : Bool) (c : Column), P c → P { c with evaluatable := flag })
    (hall : ∀ c ∈ plan.references, P c) : ∀ c ∈ plan'.references, P c := by
  cases h with
  | bind hs level => exact bind_forall (hbind _ hs level) hall
  | setRandomAccess flag => rwa [references_setRandomAccess]
  | prepare => rwa [references_prepare]
  | mark filter flag => exact mark_forall (hmark flag) hall

theorem Change.exists_values {q : ValuesPlan} (h : Change scopes (values q) plan') :
    ∃ q', plan' = values q' := by
  cases h <;> exact ⟨_, rfl⟩

theorem Change.eq_external {e : ExternalPlan} (h : Change scopes (external e) plan') :
    plan' = external e := by
  cases h <;> rfl

/-- The scope has bound every column of the plan that it knows. -/
def Settled (s : Scope) (plan : Plan) : Prop :=
  ∀ c ∈ plan.references, c.Settled s

theorem Change.settled (h : Change scopes plan plan') {s : Scope} (hsettled : plan.Settled s) :
    plan'.Settled s :=
  h.forall (fun _ _ level _ hc => hc.bind _ level) (fun _ _ hc => hc) hsettled

/-- A plan on which the scope has done its work reads nothing from the scope's filter after a change
unless it did before. -/
theorem Change.independent (h : Change scopes plan plan') {s : Scope}
    (hids : ∀ s' ∈ scopes, s'.filter = s.filter → s' = s) (hsettled : plan.Settled s)
    (hind : plan.satisfies (.independentOf s.filter) = true) :
    plan'.satisfies (.independentOf s.filter) = true := by
  cases plan with
  | external e =>
    rw [h.eq_external]
    exact hind
  | values q =>
    obtain ⟨q', rfl⟩ := h.exists_values
    rw [satisfies_values_iff] at hind ⊢
    have hboth : ∀ c ∈ (values q').references,
        c.satisfies (.independentOf s.filter) = true ∧ c.Settled s := by
      refine h.forall ?_ (fun _ _ hc => hc) fun c hc => ⟨hind c hc, hsettled c hc⟩
      intro s' hs' level c hc
      exact ⟨c.satisfies_bind hc.1 hc.2 (hids s' hs') level, hc.2.bind s' level⟩
    exact fun c hc => (hboth c hc).1

/-- Any number of changes, one after the other. -/
abbrev Changes (scopes : List Scope) : Plan → Plan → Prop :=
  Relation.ReflTransGen (Change scopes)

theorem Changes.settled (h : Changes scopes plan plan') {s : Scope} (hsettled : plan.Settled s) :
    plan'.Settled s := by
  induction h with
  | refl => exact hsettled
  | tail _ hchange ih => exact hchange.settled ih

theorem Changes.independent (h : Changes scopes plan plan') {s : Scope}
    (hids : ∀ s' ∈ scopes, s'.filter = s.filter → s' = s) (hsettled : plan.Settled s)
    (hind : plan.satisfies (.independentOf s.filter) = true) :
    plan'.satisfies (.independentOf s.filter) = true := by
  induction h with
  | refl => exact hind
  | tail hchanges hchange ih =>
    exact hchange.independent hids (Changes.settled hchanges hsettled) ih

end Change

end Plan

end QuantifiedComparison
