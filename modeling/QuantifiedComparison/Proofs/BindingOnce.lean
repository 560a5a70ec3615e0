import QuantifiedComparison.Proofs.LexicalScoping

/-!
# Binding once

A column is given a binding when it has none, and after that it keeps it (`Column.extends_bind`).
Binding stops at the first column that is ambiguous and leaves those before it bound; but they are
bound for the same scope, which finds nothing ambiguous in them, so binding once more stops at the
same column, with the same error, and changes nothing (`Predicate.bind_again`).

The level of a predicate is the deepest of those at which it was bound without an error, whatever
else has been done to it or to its query (`Predicate.level_acted`).
-/

namespace QuantifiedComparison

/-- The column is the same, and so is its binding if it had one. -/
structure Column.Extends (c c' : Column) : Prop where
  table : c'.table = c.table
  name : c'.name = c.name
  evaluatable : c'.evaluatable = c.evaluatable
  binding : ∀ b, c.binding = some b → c'.binding = some b

/-- The same expression but for its columns, each of which extends the one that stood there. -/
inductive Expr.Extends : Expr → Expr → Prop
  | literal (v : Value) : Extends (literal v) (literal v)
  | column {c c' : Column} (h : c.Extends c') : Extends (column c) (column c')
  | binary {o : Arithmetic} {l l' r r' : Expr} (hl : l.Extends l') (hr : r.Extends r') :
    Extends (binary o l r) (binary o l' r')

structure ValuesPlan.Extends (q q' : ValuesPlan) : Prop where
  columns : q'.columns = q.columns
  randomAccess : q'.randomAccess = q.randomAccess
  prepared : q'.prepared = q.prepared
  rows : List.Forall₂ (List.Forall₂ Expr.Extends) q.rows q'.rows

structure Predicate.Extends (p p' : Predicate) : Prop where
  left : p.left.Extends p'.left
  query : p'.query = p.query
  quantifier : p'.quantifier = p.quantifier
  comparison : p'.comparison = p.comparison

section Column

theorem Column.Extends.refl (c : Column) : c.Extends c :=
  ⟨rfl, rfl, rfl, fun _ h => h⟩

variable (c : Column) (s : Scope) (level : QueryLevel)

theorem Column.extends_bind : c.Extends (c.bind s level).after := by
  rcases c.bind_cases s level with heq | ⟨hnone, -, b, -, heq⟩
  · rw [heq]
    exact .refl c
  · rw [heq]
    refine ⟨rfl, rfl, rfl, fun b' hb' => ?_⟩
    rw [hnone] at hb'
    cases hb'

theorem Column.bind_again : (c.bind s level).after.bind s level = c.bind s level := by
  rcases hknows : s.knows c with _ | _
  · rw [bind_of_not_knows hknows, bind_of_not_knows hknows]
  rcases hbinding : c.binding with _ | b
  · obtain ⟨index, type, hfind, -⟩ := Scope.match?_of_knows hknows
    have hbind := bind_of_knows_unbound hknows hbinding level
    rw [hfind, Option.map_some] at hbind
    -- the scope knows the column as well as before, and finds its own binding
    have hknows' : s.knows (c.bind s level).after = true := (knows_bind s).trans hknows
    rw [hbind] at hknows' ⊢
    rw [bind_of_knows_bound hknows' rfl, if_neg fun hconflict => hconflict.2 rfl]
  · rw [bind_of_knows_bound hknows hbinding, bind_of_knows_bound hknows hbinding]

end Column

section Expr

variable (s : Scope) (level : QueryLevel)

theorem Expr.Extends.refl : ∀ e : Expr, e.Extends e
  | .literal v => .literal v
  | .column c => .column (.refl c)
  | .binary _ l r => .binary (refl l) (refl r)

theorem Expr.extends_bind : ∀ e : Expr, e.Extends (e.bind s level).after
  | literal v => .literal v
  | column c => .column (c.extends_bind s level)
  | binary o l r => by
    rcases herror : (l.bind s level).error with _ | e
    · rw [bind_binary_success herror]
      exact .binary (extends_bind l) (extends_bind r)
    · rw [bind_binary_left herror]
      exact .binary (extends_bind l) (.refl r)

theorem Expr.bind_again : ∀ e : Expr, (e.bind s level).after.bind s level = e.bind s level
  | literal _ => rfl
  | column c => congrArg (Attempt.map column) (c.bind_again s level)
  | binary o l r => by
    have hl := bind_again l
    have hr := bind_again r
    rcases herror : (l.bind s level).error with _ | e
    · have hagain : ((l.bind s level).after.bind s level).error = none := by rw [hl, herror]
      rw [bind_binary_success herror, bind_binary_success hagain, hl, hr]
    · have hagain : ((l.bind s level).after.bind s level).error = some e := by rw [hl, herror]
      rw [bind_binary_left herror, bind_binary_left hagain, hl]

theorem ValuesPlan.extends_bind (q : ValuesPlan) : q.Extends (q.bind s level).after where
  columns := rfl
  randomAccess := rfl
  prepared := rfl
  rows :=
    Attempt.forall₂_each (fun _ => List.forall₂_same.mpr fun cell _ => .refl cell)
      (Attempt.forall₂_each .refl (Expr.extends_bind s level)) q.rows

theorem ValuesPlan.Extends.refl (q : ValuesPlan) : q.Extends q :=
  ⟨rfl, rfl, rfl,
    List.forall₂_same.mpr fun _ _ => List.forall₂_same.mpr fun cell _ => .refl cell⟩

theorem ValuesPlan.bind_again (q : ValuesPlan) :
    (q.bind s level).after.bind s level = q.bind s level := by
  have hrows := Attempt.each_again (Attempt.each_again (Expr.bind_again s level)) q.rows
  exact congrArg (Attempt.map fun rows : List (List Expr) => { q with rows }) hrows

theorem Plan.bind_again (plan : Plan) :
    (plan.bind s level).after.bind s level = plan.bind s level := by
  cases plan with
  | external e => rfl
  | values q => exact congrArg (Attempt.map values) (q.bind_again s level)

end Expr

namespace Predicate

section Bind

variable {p : Predicate} {plan : Plan} {s : Scope} {level : QueryLevel} {e : Error}

theorem bind_left_error (h : (p.left.bind s level).error = some e) :
    p.bind plan s level = ⟨({ p with left := (p.left.bind s level).after }, plan), some e⟩ := by
  simp only [bind, h]

theorem bind_query_error (hleft : (p.left.bind s level).error = none)
    (h : (plan.bind s (level + 1)).error = some e) : p.bind plan s level
      = ⟨({ p with left := (p.left.bind s level).after }, (plan.bind s (level + 1)).after),
          some e⟩ := by
  simp only [bind, hleft, h]

theorem bind_success (hleft : (p.left.bind s level).error = none)
    (h : (plan.bind s (level + 1)).error = none) : p.bind plan s level
      = ⟨({ p with left := (p.left.bind s level).after, level := max p.level level },
          (plan.bind s (level + 1)).after), none⟩ := by
  simp only [bind, hleft, h]

variable (p plan s level)

theorem extends_bind : p.Extends (p.bind plan s level).after.1 := by
  have hbound := p.left.extends_bind s level
  rcases hleft : (p.left.bind s level).error with _ | e
  · rcases hquery : (plan.bind s (level + 1)).error with _ | e
    · rw [bind_success hleft hquery]
      exact ⟨hbound, rfl, rfl, rfl⟩
    · rw [bind_query_error hleft hquery]
      exact ⟨hbound, rfl, rfl, rfl⟩
  · rw [bind_left_error hleft]
    exact ⟨hbound, rfl, rfl, rfl⟩

theorem query_extends_bind (q : ValuesPlan) :
    ∃ q', (p.bind (.values q) s level).after.2 = .values q' ∧ q.Extends q' := by
  have hbound : ((Plan.values q).bind s (level + 1)).after
      = .values (q.bind s (level + 1)).after := rfl
  rcases hleft : (p.left.bind s level).error with _ | e
  · rcases hquery : ((Plan.values q).bind s (level + 1)).error with _ | e
    · rw [bind_success hleft hquery]
      exact ⟨_, hbound, q.extends_bind s (level + 1)⟩
    · rw [bind_query_error hleft hquery]
      exact ⟨_, hbound, q.extends_bind s (level + 1)⟩
  · rw [bind_left_error hleft]
    exact ⟨q, rfl, .refl q⟩

/-- Unless it is stopped, binding leaves no column that the scope would bind. -/
theorem settled_or_stopped : (p.bind plan s level).error ≠ none ∨
    (∀ c ∈ (p.bind plan s level).after.1.left.columns, c.Settled s) ∧
      (p.bind plan s level).after.2.Settled s := by
  rcases hleft : (p.left.bind s level).error with _ | e
  · rcases hquery : (plan.bind s (level + 1)).error with _ | e
    · rw [bind_success hleft hquery]
      exact .inr ⟨(p.left.pointwise_bind s level).forall_of_success
        (fun c _ => c.settled_bind s level) hleft, Plan.settled_of_bind hquery⟩
    · rw [bind_query_error hleft hquery]
      exact .inl nofun
  · rw [bind_left_error hleft]
    exact .inl nofun

theorem level_bind : (p.bind plan s level).after.1.level
    = if (p.bind plan s level).error = none then max p.level level else p.level := by
  rcases hleft : (p.left.bind s level).error with _ | e
  · rcases hquery : (plan.bind s (level + 1)).error with _ | e
    · rw [bind_success hleft hquery]
      rfl
    · rw [bind_query_error hleft hquery]
      rfl
  · rw [bind_left_error hleft]
    rfl

theorem max_level_again : max (max p.level level) level = max p.level level := by
  rw [show max p.level level = if p.level ≤ level then level else p.level from rfl]
  split_ifs with hle
  · exact if_pos (UInt64.le_refl level)
  · exact if_neg hle

theorem bind_again : (p.bind plan s level).after.1.bind (p.bind plan s level).after.2 s level
    = p.bind plan s level := by
  have hleftAgain := p.left.bind_again s level
  have hqueryAgain := plan.bind_again s (level + 1)
  rcases hleft : (p.left.bind s level).error with _ | e
  · have hleft' : ((p.left.bind s level).after.bind s level).error = none := by
      rw [hleftAgain, hleft]
    rcases hquery : (plan.bind s (level + 1)).error with _ | e
    · have hquery' : ((plan.bind s (level + 1)).after.bind s (level + 1)).error = none := by
        rw [hqueryAgain, hquery]
      rw [bind_success hleft hquery, bind_success hleft' hquery', hleftAgain, hqueryAgain]
      simp only [p.max_level_again level]
    · have hquery' : ((plan.bind s (level + 1)).after.bind s (level + 1)).error = some e := by
        rw [hqueryAgain, hquery]
      rw [bind_query_error hleft hquery, bind_query_error hleft' hquery', hleftAgain, hqueryAgain]
  · have hleft' : ((p.left.bind s level).after.bind s level).error = some e := by
      rw [hleftAgain, hleft]
    rw [bind_left_error hleft, bind_left_error hleft', hleftAgain]

end Bind

/-- What can be done to a predicate, and to its query by others. -/
inductive Act
  | bind (s : Scope) (level : QueryLevel)
  | optimize
  | mark (filter : Nat) (flag : Bool)
  | query (change : Plan → Plan)

namespace Act

def apply : Act → Predicate × Plan → Attempt (Predicate × Plan)
  | bind s level, (p, plan) => p.bind plan s level
  | optimize, (p, plan) => p.optimize plan
  | mark filter flag, (p, plan) => ⟨p.mark plan filter flag, none⟩
  | query change, (p, plan) => ⟨(p, change plan), none⟩

/-- The level of a binding that goes through. -/
def boundAt? (a : Act) (x : Predicate × Plan) : Option QueryLevel :=
  match a with
  | bind _ level => if (a.apply x).error = none then some level else none
  | _ => none

end Act

/-- What is left after the acts, and the levels at which the predicate was bound without an
error. -/
def acted : List Act → Predicate × Plan → (Predicate × Plan) × List QueryLevel
  | [], x => (x, [])
  | a :: as, x =>
    let (y, levels) := acted as (a.apply x).after
    (y, (a.boundAt? x).toList ++ levels)

theorem level_optimize (p : Predicate) (plan : Plan) :
    (p.optimize plan).after.1.level = p.level := by
  unfold optimize
  dsimp only
  split
  · rfl
  · split
    · rfl
    · rfl

theorem level_apply (a : Act) (x : Predicate × Plan) :
    (a.apply x).after.1.level = (a.boundAt? x).toList.foldl max x.1.level := by
  obtain ⟨p, plan⟩ := x
  cases a with
  | bind s level =>
    refine (p.level_bind plan s level).trans ?_
    show _ = (if (p.bind plan s level).error = none then some level else none).toList.foldl max _
    split_ifs
    · rfl
    · rfl
  | optimize => exact p.level_optimize plan
  | mark filter flag => rfl
  | query change => rfl

theorem level_acted : ∀ (as : List Act) (x : Predicate × Plan),
    (acted as x).1.1.level = (acted as x).2.foldl max x.1.level
  | [], _ => rfl
  | a :: as, x => by
    rw [acted, List.foldl_append, ← level_apply]
    exact level_acted as (a.apply x).after

/-- Binding gives bindings to columns that have none, to all that the scope knows unless it is
stopped, and changes nothing else but the level; doing it again changes nothing. -/
theorem binding_writes_once (p : Predicate) (q : ValuesPlan) (s : Scope) (level : QueryLevel) :
    let t := p.bind (.values q) s level
    p.Extends t.after.1 ∧ (∃ q', t.after.2 = .values q' ∧ q.Extends q') ∧
      (t.error ≠ none ∨
        (∀ c ∈ t.after.1.left.columns, c.Settled s) ∧ t.after.2.Settled s) ∧
      t.after.1.level = (if t.error = none then max p.level level else p.level) ∧
      t.after.1.bind t.after.2 s level = t ∧
      ∀ as : List Act, (acted as (p, .values q)).1.1.level
        = (acted as (p, .values q)).2.foldl max p.level := by
  intro t
  exact ⟨p.extends_bind _ s level, p.query_extends_bind s level q, p.settled_or_stopped _ s level,
    p.level_bind _ s level, p.bind_again _ s level, fun as => level_acted as _⟩

end Predicate

end QuantifiedComparison
