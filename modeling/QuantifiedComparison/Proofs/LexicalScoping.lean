import QuantifiedComparison.Proofs.ColumnChanges
import QuantifiedComparison.TableFilter

/-!
# Lexical scoping

Scopes bind one after the other, inner ones before outer ones. A column then goes to the first scope
that knows it, so inner scopes hide outer ones, and it is ambiguous if the scopes that know it at
the innermost level have more than one filter. This is all there is to a single column
(`Column.bindIn_of_unbound`), and an expression or a VALUES list is bound column by column
(`lexical_scoping`).
-/

namespace QuantifiedComparison

/-- Whether the column can be one of the scope's: it names no table or, up to case, this one, and
has the name of a column. -/
def Scope.knows (s : Scope) (c : Column) : Bool :=
  c.table.all (Text.equalIgnoringCase · s.name) && (s.find? c.name).isSome

namespace Scope

variable {s : Scope} {c : Column}

theorem match?_of_knows (h : s.knows c = true) :
    ∃ index type, s.find? c.name = some (index, type) ∧ s.match? c = some (index, type) := by
  rw [knows, Bool.and_eq_true] at h
  obtain ⟨⟨index, type⟩, hfind⟩ := Option.isSome_iff_exists.mp h.2
  exact ⟨index, type, hfind, by rw [match?, if_pos h.1, hfind]⟩

theorem match?_of_not_knows (h : s.knows c = false) : s.match? c = none := by
  rw [knows, Bool.and_eq_false_iff] at h
  rw [match?]
  split_ifs with htable
  · simpa [htable] using h
  · rfl

end Scope

namespace Column

/-- The scopes that know the column. -/
def knowing (scopes : List (Scope × QueryLevel)) (c : Column) : List (Scope × QueryLevel) :=
  scopes.filter (·.1.knows c)

/-- The scopes that know the column at the innermost level at which one does have one filter. -/
def Unambiguous (scopes : List (Scope × QueryLevel)) (c : Column) : Prop :=
  ∀ a ∈ c.knowing scopes, (∀ b ∈ c.knowing scopes, b.2 ≤ a.2) →
    ∀ b ∈ c.knowing scopes, b.2 = a.2 → b.1.filter = a.1.filter

instance (scopes : List (Scope × QueryLevel)) (c : Column) : Decidable (c.Unambiguous scopes) :=
  inferInstanceAs (Decidable (∀ a ∈ c.knowing scopes, _ → _))

/-- The column as the first scope that knows it has it; as it is if none does. -/
def resolve (scopes : List (Scope × QueryLevel)) (c : Column) : Column :=
  match c.knowing scopes with
  | [] => c
  | (s, level) :: _ =>
    { c with
      binding := (s.find? c.name).map fun (index, type) => ⟨s.filter, index, type, level⟩ }

/-- Bound by one scope after the other. -/
def bindIn : List (Scope × QueryLevel) → Column → Attempt Column :=
  Attempt.inTurn fun s c => c.bind s.1 s.2

section Bind

variable {c : Column} {s : Scope} {level : QueryLevel}

theorem bind_of_not_knows (h : s.knows c = false) (level : QueryLevel) :
    c.bind s level = ⟨c, none⟩ := by
  rw [bind, Scope.match?_of_not_knows h]

theorem bind_of_knows_unbound (h : s.knows c = true) (hnone : c.binding = none)
    (level : QueryLevel) :
    c.bind s level = ⟨{ c with binding := (s.find? c.name).map fun (index, type) =>
      ⟨s.filter, index, type, level⟩ }, none⟩ := by
  obtain ⟨index, type, hfind, hmatch⟩ := Scope.match?_of_knows h
  rw [bind, hmatch, hfind]
  simp only [hnone, Option.map_some]

theorem bind_of_knows_bound {b : Binding} (h : s.knows c = true) (hb : c.binding = some b)
    (level : QueryLevel) : c.bind s level
      = ⟨c, if b.level = level ∧ b.filter ≠ s.filter then some (.ambiguousColumn c.text)
          else none⟩ := by
  obtain ⟨index, type, -, hmatch⟩ := Scope.match?_of_knows h
  rw [bind, hmatch]
  simp only [hb]
  split_ifs
  · rfl
  · rfl

theorem bindIn_cons_error {e : Error} (h : (c.bind s level).error = some e)
    (scopes : List (Scope × QueryLevel)) :
    c.bindIn ((s, level) :: scopes) = ⟨(c.bind s level).after, some e⟩ := by
  simp only [bindIn, Attempt.inTurn, h]

theorem bindIn_cons_success (h : (c.bind s level).error = none)
    (scopes : List (Scope × QueryLevel)) :
    c.bindIn ((s, level) :: scopes) = (c.bind s level).after.bindIn scopes := by
  simp only [bindIn, Attempt.inTurn, h]

theorem knows_bind (s' : Scope) : s'.knows (c.bind s level).after = s'.knows c := by
  rcases c.bind_cases s level with h | ⟨-, -, b, -, h⟩
  · rw [h]
  · rw [h]
    rfl

end Bind

/-- Scopes that do not know the column might as well not be there. -/
theorem bindIn_knowing : ∀ (scopes : List (Scope × QueryLevel)) (c : Column),
    c.bindIn scopes = c.bindIn (c.knowing scopes)
  | [], _ => rfl
  | (s, level) :: scopes, c => by
    rcases hknows : s.knows c with _ | _
    · have hskip : c.knowing ((s, level) :: scopes) = c.knowing scopes :=
        List.filter_cons_of_neg (by simp [hknows])
      have hbind := bind_of_not_knows hknows level
      rw [bindIn_cons_success (by rw [hbind]), hbind, hskip]
      exact bindIn_knowing scopes c
    · have hkeep : c.knowing ((s, level) :: scopes) = (s, level) :: c.knowing scopes :=
        List.filter_cons_of_pos hknows
      rw [hkeep]
      rcases herror : (c.bind s level).error with _ | e
      · have hsame : (c.bind s level).after.knowing scopes = c.knowing scopes :=
          List.filter_congr fun a _ => knows_bind a.1
        rw [bindIn_cons_success herror, bindIn_cons_success herror, ← hsame]
        exact bindIn_knowing scopes _
      · rw [bindIn_cons_error herror, bindIn_cons_error herror]

/-- A bound column stays as it is, and is ambiguous to a scope of its level with another filter. -/
theorem bindIn_of_bound {c : Column} {b : Binding} (hb : c.binding = some b) :
    ∀ {scopes : List (Scope × QueryLevel)}, (∀ a ∈ scopes, a.1.knows c = true) → c.bindIn scopes
      = ⟨c, if ∀ a ∈ scopes, a.2 = b.level → a.1.filter = b.filter then none
          else some (.ambiguousColumn c.text)⟩
  | [], _ => by simp [bindIn, Attempt.inTurn]
  | (s, level) :: scopes, h => by
    obtain ⟨hs, hscopes⟩ := List.forall_mem_cons.mp h
    have hbind := bind_of_knows_bound hs hb level
    by_cases hconflict : b.level = level ∧ b.filter ≠ s.filter
    · rw [if_pos hconflict] at hbind
      rw [bindIn_cons_error (by rw [hbind]), hbind, if_neg]
      intro hall
      exact hconflict.2 (hall (s, level) List.mem_cons_self hconflict.1.symm).symm
    · rw [if_neg hconflict] at hbind
      have hhead : level = b.level → s.filter = b.filter := by grind
      have hall : (∀ a ∈ (s, level) :: scopes, a.2 = b.level → a.1.filter = b.filter) ↔
          ∀ a ∈ scopes, a.2 = b.level → a.1.filter = b.filter := by
        rw [List.forall_mem_cons]
        exact and_iff_right hhead
      rw [bindIn_cons_success (by rw [hbind]), hbind, bindIn_of_bound hb hscopes]
      simp only [hall]

section Resolution

variable {scopes : List (Scope × QueryLevel)} {c : Column}

/-- Where inner scopes come first, it is enough to compare with the first one. -/
theorem unambiguous_iff {a : Scope × QueryLevel} {rest : List (Scope × QueryLevel)}
    (hsorted : scopes.Pairwise fun a b => b.2 ≤ a.2) (hknowing : c.knowing scopes = a :: rest) :
    c.Unambiguous scopes ↔ ∀ b ∈ rest, b.2 = a.2 → b.1.filter = a.1.filter := by
  have hdeepest : ∀ b ∈ rest, b.2 ≤ a.2 := by
    have hknown : (c.knowing scopes).Pairwise fun a b => b.2 ≤ a.2 := hsorted.filter _
    rw [hknowing] at hknown
    exact (List.pairwise_cons.mp hknown).1
  rw [Unambiguous, hknowing]
  constructor
  · intro h b hb
    exact h a List.mem_cons_self (List.forall_mem_cons.mpr ⟨UInt64.le_refl a.2, hdeepest⟩) b
      (List.mem_cons_of_mem a hb)
  · intro h d hd hgreatest b hb hlevel
    -- the innermost level is that of the first scope, so both have its filter
    have hlevels : ∀ x ∈ a :: rest, x.2 ≤ a.2 :=
      List.forall_mem_cons.mpr ⟨UInt64.le_refl a.2, hdeepest⟩
    have hfilter : ∀ x ∈ a :: rest, x.2 = a.2 → x.1.filter = a.1.filter :=
      List.forall_mem_cons.mpr ⟨fun _ => rfl, h⟩
    have hd' : d.2 = a.2 := UInt64.le_antisymm (hlevels d hd) (hgreatest a List.mem_cons_self)
    rw [hfilter b hb (hlevel.trans hd'), hfilter d hd hd']

/-- What becomes of a column that is not bound yet. -/
theorem bindIn_of_unbound (hsorted : scopes.Pairwise fun a b => b.2 ≤ a.2) (hnone : c.binding = none) :
    c.bindIn scopes = ⟨c.resolve scopes,
      if c.Unambiguous scopes then none else some (.ambiguousColumn c.text)⟩ := by
  have hknows : ∀ a ∈ c.knowing scopes, a.1.knows c = true := fun a ha => (List.mem_filter.mp ha).2
  rw [bindIn_knowing, resolve]
  rcases hknowing : c.knowing scopes with _ | ⟨⟨s, level⟩, rest⟩
  · simp [bindIn, Attempt.inTurn, Unambiguous, hknowing]
  · rw [hknowing] at hknows
    obtain ⟨hs, hrest⟩ : s.knows c = true ∧ ∀ a ∈ rest, a.1.knows c = true :=
      List.forall_mem_cons.mp hknows
    obtain ⟨index, type, hfind, -⟩ := Scope.match?_of_knows hs
    have hbind := bind_of_knows_unbound hs hnone level
    rw [bindIn_cons_success (by rw [hbind]), hbind]
    have hbound := bindIn_of_bound (c := { c with binding := some ⟨s.filter, index, type, level⟩ })
      rfl hrest
    simp only [unambiguous_iff hsorted hknowing, hfind]
    exact hbound

end Resolution

end Column

def Expr.bindIn : List (Scope × QueryLevel) → Expr → Attempt Expr :=
  Attempt.inTurn fun s e => e.bind s.1 s.2

def ValuesPlan.bindIn : List (Scope × QueryLevel) → ValuesPlan → Attempt ValuesPlan :=
  Attempt.inTurn fun s q => q.bind s.1 s.2

/-- How the scopes bind something with these columns that ought to end up as `resolved`. -/
structure Scoped {τ : Type} (scopes : List (Scope × QueryLevel)) (columns : List Column)
    (resolved : τ) (t : Attempt τ) : Prop where
  error_eq_none_iff : t.error = none ↔ ∀ c ∈ columns, c.Unambiguous scopes
  after : t.error = none → t.after = resolved
  ambiguous : ∀ e, t.error = some e →
    ∃ c ∈ columns, ¬c.Unambiguous scopes ∧ e = .ambiguousColumn c.text

theorem Attempt.Pointwise.scoped {τ : Type} {P : Places τ Column}
    {scopes : List (Scope × QueryLevel)} {t : τ} {r : Attempt τ}
    (h : Pointwise P (Column.bindIn scopes) t r)
    (hsorted : scopes.Pairwise fun a b => b.2 ≤ a.2)
    (hnone : ∀ c ∈ P.list t, c.binding = none) :
    Scoped scopes (P.list t) (P.map (·.resolve scopes) t) r where
  error_eq_none_iff := by
    rw [h.error_eq_none_iff]
    refine forall₂_congr fun c hc => ?_
    rw [Column.bindIn_of_unbound hsorted (hnone c hc)]
    simp
  after hr := (h.after hr).trans (P.map_congr fun c hc => by
    rw [Column.bindIn_of_unbound hsorted (hnone c hc)])
  ambiguous e he := by
    obtain ⟨c, hc, hce⟩ := h.failure e he
    rw [Column.bindIn_of_unbound hsorted (hnone c hc)] at hce
    dsimp only at hce
    split_ifs at hce with hunambiguous
    exact ⟨c, hc, hunambiguous, (Option.some.inj hce).symm⟩

/-- Where inner scopes bind first, every column goes to the first scope that knows it, or binding
fails because of a column that is ambiguous. -/
theorem lexical_scoping {scopes : List (Scope × QueryLevel)}
    (hsorted : scopes.Pairwise fun a b => b.2 ≤ a.2) :
    (∀ e : Expr, (∀ c ∈ e.columns, c.binding = none) →
      Scoped scopes e.columns (e.mapColumns (·.resolve scopes)) (e.bindIn scopes)) ∧
    ∀ q : ValuesPlan, (∀ c ∈ (Plan.values q).references, c.binding = none) →
      Scoped scopes (Plan.values q).references
        { q with rows := q.rows.map (·.map (·.mapColumns (·.resolve scopes))) }
        (q.bindIn scopes) := by
  refine ⟨fun e he => ?_, fun q hq => ?_⟩
  · have hpointwise := Attempt.pointwise_inTurn
      (fun (s : Scope × QueryLevel) (e : Expr) => e.pointwise_bind s.1 s.2) scopes e
    exact hpointwise.scoped hsorted he
  · have hpointwise := Attempt.pointwise_inTurn
      (fun (s : Scope × QueryLevel) (q : ValuesPlan) => q.pointwise_bind s.1 s.2) scopes q
    rw [Plan.references_values] at hq ⊢
    exact hpointwise.scoped hsorted hq

/-- A table `t (a)` inside, and two tables `u (a, b)` and `w (b)` outside. -/
def nestedTables : List (Scope × QueryLevel) :=
  [({ id := 1, name := "t", columns := [("a", .integer)] : TableFilter }.scope, 1),
    ({ id := 2, name := "u", columns := [("a", .text), ("b", .integer)] : TableFilter }.scope, 0),
    ({ id := 3, name := "w", columns := [("b", .integer)] : TableFilter }.scope, 0)]

/-- In `a + U.b` the inner `a` hides that of `u`, and only `u` has a `U.b`. -/
theorem lexical_scoping_nested :
    let a : Column := { table := none, name := "a" }
    let b : Column := { table := some "U", name := "b" }
    let t := (Expr.binary .add (.column a) (.column b)).bindIn nestedTables
    t.error = none ∧ t.after = .binary .add
      (.column { a with binding := some ⟨1, 0, .integer, 1⟩ })
      (.column { b with binding := some ⟨2, 1, .integer, 0⟩ }) := by
  intro a b t
  have hsorted : nestedTables.Pairwise fun a b => b.2 ≤ a.2 := by decide
  have hunbound : ∀ c ∈ (Expr.binary .add (.column a) (.column b)).columns, c.binding = none := by
    decide
  obtain ⟨hiff, hafter, -⟩ := (lexical_scoping hsorted).1 _ hunbound
  have hnone : t.error = none := hiff.mpr (by decide)
  exact ⟨hnone, (hafter hnone).trans (by decide)⟩

end QuantifiedComparison
