import Mathlib.Algebra.Group.Int.Defs
import QuantifiedComparison.Proofs.Folding

/-!
# Integer arithmetic is exact

Here the arithmetic is that of the integers, without a range (`Arithmetic.Exact`), and an operation
fails for one of two reasons: it divides a number by zero, or its exact result is out of range
(`Arithmetic.Fails`). An operation on integers of 64 bits has the exact result as its outcome, or it
fails (`Arithmetic.outcome_cases`).

An expression over integers evaluates to its exact value unless one of its operations fails, and
else to the error of the first that does, operands before the operation and left before right
(`Expr.settled`, `integer_arithmetic_is_exact`).
-/

namespace QuantifiedComparison

/-- The value stands for the number, or it is NULL and stands for none. -/
inductive Value.Means : Value → Option Int → Prop
  | null : Means .null none
  | integer (i : Int64) : Means (.integer i) (some i.toInt)

namespace Value.Means

variable {v w : Value} {x y : Option Int}

theorem number_unique (hx : v.Means x) (hy : v.Means y) : x = y := by
  cases hx <;> cases hy <;> rfl

theorem value_unique (hv : v.Means x) (hw : w.Means x) : v = w := by
  cases hv with
  | null =>
    cases hw
    rfl
  | integer i =>
    generalize hx : some i.toInt = x at hw
    cases hw with
    | null => cases hx
    | integer j => rw [Int64.toInt_inj.mp (Option.some.inj hx)]

end Value.Means

namespace Arithmetic

variable {o : Arithmetic} {a b n : Int}

/-- The operation on two numbers has the result. A quotient is cut off towards zero: what remains
is smaller than the divisor and not on the other side of zero than the dividend. -/
def Exact : Arithmetic → Int → Int → Int → Prop
  | add, a, b, n => n = a + b
  | subtract, a, b, n => n = a - b
  | multiply, a, b, n => n = a * b
  | divide, a, b, n =>
    ∃ r, a = n * b + r ∧ r.natAbs < b.natAbs ∧ (0 ≤ a ∧ 0 ≤ r ∨ a ≤ 0 ∧ r ≤ 0)

/-- NULL on either side gives NULL. -/
inductive Gives (o : Arithmetic) : Option Int → Option Int → Option Int → Prop
  | nullLeft (y : Option Int) : Gives o none y none
  | nullRight (x : Option Int) : Gives o x none none
  | exact {a b n : Int} (h : o.Exact a b n) : Gives o (some a) (some b) (some n)

inductive Fails : Arithmetic → Option Int → Option Int → Error → Prop
  | divisionByZero (a : Int) : Fails divide (some a) (some 0) .divisionByZero
  | overflow {o : Arithmetic} {a b n : Int} (h : o.Exact a b n)
      (hrange : n < -2 ^ 63 ∨ 2 ^ 63 - 1 < n) : Fails o (some a) (some b) .overflow

theorem exact_divide_iff (hb : b ≠ 0) : divide.Exact a b n ↔ a.tdiv b = n := by
  constructor
  · rintro ⟨r, hsum, hr, ⟨ha, hr'⟩ | ⟨ha, hr'⟩⟩
    · exact ((Int.tdiv_tmod_unique ha hb).mpr ⟨by rw [hsum, Int.mul_comm, Int.add_comm],
        hr', by omega⟩).1
    · exact ((Int.tdiv_tmod_unique' ha hb).mpr ⟨by rw [hsum, Int.mul_comm, Int.add_comm],
        by omega, hr'⟩).1
  · rintro rfl
    rcases Int.le_total 0 a with ha | ha
    · obtain ⟨hsum, hlo, hhi⟩ := (Int.tdiv_tmod_unique ha hb).mp ⟨rfl, rfl⟩
      exact ⟨a.tmod b, by rw [Int.mul_comm, Int.add_comm, hsum], by omega, .inl ⟨ha, hlo⟩⟩
    · obtain ⟨hsum, hlo, hhi⟩ := (Int.tdiv_tmod_unique' ha hb).mp ⟨rfl, rfl⟩
      exact ⟨a.tmod b, by rw [Int.mul_comm, Int.add_comm, hsum], by omega, .inr ⟨ha, hhi⟩⟩

theorem not_exact_divide_zero : ¬divide.Exact a 0 n :=
  fun ⟨_, _, hr, _⟩ => Nat.not_lt_zero _ hr

theorem exact_iff (h : ¬(o = divide ∧ b = 0)) : o.Exact a b n ↔ o.onIntegers a b = n := by
  cases o with
  | divide => exact exact_divide_iff fun hb => h ⟨rfl, hb⟩
  | _ => exact eq_comm

theorem Exact.unique {m : Int} (hn : o.Exact a b n) (hm : o.Exact a b m) : n = m := by
  by_cases hzero : o = divide ∧ b = 0
  · obtain ⟨rfl, rfl⟩ := hzero
    exact absurd hn not_exact_divide_zero
  · rw [← (exact_iff hzero).mp hn, (exact_iff hzero).mp hm]

theorem Gives.unique {x y z z' : Option Int} (h : o.Gives x y z) (h' : o.Gives x y z') :
    z = z' := by
  cases h with
  | exact h =>
    cases h' with
    | exact h' => rw [h.unique h']
  | _ =>
    cases h'
    all_goals rfl

theorem fails_some_iff {e : Error} : o.Fails (some a) (some b) e ↔
    (o = divide ∧ b = 0) ∧ e = .divisionByZero ∨
      (∃ n, o.Exact a b n ∧ (n < -2 ^ 63 ∨ 2 ^ 63 - 1 < n)) ∧ e = .overflow := by
  constructor
  · rintro (_ | ⟨h, hrange⟩)
    · exact .inl ⟨⟨rfl, rfl⟩, rfl⟩
    · exact .inr ⟨⟨_, h, hrange⟩, rfl⟩
  · rintro (⟨⟨rfl, rfl⟩, rfl⟩ | ⟨⟨n, h, hrange⟩, rfl⟩)
    · exact .divisionByZero a
    · exact .overflow h hrange

theorem Exact.not_fails {k : Int64} {e : Error} (h : o.Exact a b k.toInt) :
    ¬o.Fails (some a) (some b) e := by
  rw [fails_some_iff]
  rintro (⟨⟨rfl, rfl⟩, -⟩ | ⟨⟨n, hn, hrange⟩, -⟩)
  · exact not_exact_divide_zero h
  · have hlo := k.le_toInt
    have hhi := k.toInt_lt
    rw [hn.unique h] at hrange
    omega

theorem Fails.unique {x y : Option Int} {e e' : Error} (h : o.Fails x y e) (h' : o.Fails x y e') :
    e = e' := by
  cases h with
  | divisionByZero a =>
    rcases fails_some_iff.mp h' with ⟨-, rfl⟩ | ⟨⟨n, hn, -⟩, -⟩
    · rfl
    · exact absurd hn not_exact_divide_zero
  | overflow hn hrange =>
    rcases fails_some_iff.mp h' with ⟨⟨rfl, rfl⟩, -⟩ | ⟨-, rfl⟩
    · exact absurd hn not_exact_divide_zero
    · rfl

theorem integers_cases (o : Arithmetic) (i j : Int64) :
    (∃ k : Int64, o.integers i j = .ok (.integer k) ∧ o.Exact i.toInt j.toInt k.toInt) ∨
      ∃ e, o.integers i j = .error e ∧ o.Fails (some i.toInt) (some j.toInt) e := by
  have hj : j.toInt = 0 ↔ j = 0 := by rw [← Int64.toInt_zero, Int64.toInt_inj]
  unfold integers
  split
  · rename_i hzero
    exact .inr ⟨_, rfl, fails_some_iff.mpr (.inl ⟨⟨hzero.1, hj.mpr hzero.2⟩, rfl⟩)⟩
  · rename_i hzero
    -- There is an exact result, and the question is whether it is in range.
    have hexact : o.Exact i.toInt j.toInt _ := (exact_iff (by rwa [hj])).mpr rfl
    rcases hk : Integer.ofInt? (o.onIntegers i.toInt j.toInt) with _ | k
    · refine .inr ⟨_, rfl, .overflow hexact ?_⟩
      have hrange := Integer.ofInt?_eq_none_iff.mp hk
      unfold Integer.bound at hrange
      omega
    · rw [← Integer.ofInt?_eq_some_iff.mp hk] at hexact
      exact .inl ⟨k, rfl, hexact⟩

/-- On integers and NULL an operation has an outcome that is exact, or it fails. -/
theorem outcome_cases (o : Arithmetic) {v w : Value} {x y : Option Int} (hv : v.Means x)
    (hw : w.Means y) :
    (∃ u z, o.outcome v w = .ok u ∧ u.Means z ∧ o.Gives x y z ∧ ∀ e, ¬o.Fails x y e) ∨
      ∃ e, o.outcome v w = .error e ∧ o.Fails x y e := by
  cases hv with
  | null => exact .inl ⟨.null, none, by cases w <;> rfl, .null, .nullLeft y, fun _ h => nomatch h⟩
  | integer i =>
    cases hw with
    | null => exact .inl ⟨.null, none, rfl, .null, .nullRight _, fun _ h => nomatch h⟩
    | integer j =>
      rcases o.integers_cases i j with ⟨k, hk, hexact⟩ | ⟨e, he, hfails⟩
      · exact .inl ⟨_, _, hk, .integer k, .exact hexact, fun _ => hexact.not_fails⟩
      · exact .inr ⟨e, he, hfails⟩

end Arithmetic

/-- An operation of an expression, with its operands. -/
structure Operation where
  operator : Arithmetic
  left : Expr
  right : Expr

def Operation.expr (t : Operation) : Expr :=
  .binary t.operator t.left t.right

namespace Expr

def leaves : Expr → List Expr
  | binary _ l r => l.leaves ++ r.leaves
  | e => [e]

/-- Its operations in the order in which they are carried out: both operands before the operation,
the left one first. -/
def operations : Expr → List Operation
  | literal _ => []
  | column _ => []
  | binary o l r => l.operations ++ r.operations ++ [⟨o, l, r⟩]

/-- In the context each literal and column of the expression is an integer or NULL. -/
def OverIntegers (ctx : Context) (e : Expr) : Prop :=
  ∀ leaf ∈ e.leaves, leaf.eval ctx = .ok .null ∨ ∃ i, leaf.eval ctx = .ok (.integer i)

/-- The exact value of an expression, none for NULL. -/
inductive Exact (ctx : Context) : Expr → Option Int → Prop
  | literal {v : Value} {x : Option Int} (hx : v.Means x) : Exact ctx (literal v) x
  | column {c : Column} {v : Value} {x : Option Int} (hv : c.eval ctx = .ok v) (hx : v.Means x) :
    Exact ctx (column c) x
  | binary {o : Arithmetic} {l r : Expr} {x y z : Option Int} (hl : Exact ctx l x)
    (hr : Exact ctx r y) (hz : o.Gives x y z) : Exact ctx (binary o l r) z

end Expr

/-- The operation has operands on which it fails. -/
def Operation.Fails (ctx : Context) (t : Operation) (e : Error) : Prop :=
  ∃ x y, t.left.Exact ctx x ∧ t.right.Exact ctx y ∧ t.operator.Fails x y e

/-- The error is that of the first operation to fail. -/
inductive FirstFails (ctx : Context) : List Operation → Error → Prop
  | here {t : Operation} {ts : List Operation} {e : Error} (h : t.Fails ctx e) :
    FirstFails ctx (t :: ts) e
  | later {t : Operation} {ts : List Operation} {e : Error} (h : ∀ e', ¬t.Fails ctx e')
    (hts : FirstFails ctx ts e) : FirstFails ctx (t :: ts) e

section Failures

variable {ctx : Context} {e e' : Error} {ts us : List Operation}

theorem Expr.Exact.unique {a : Expr} {x y : Option Int} (hx : a.Exact ctx x)
    (hy : a.Exact ctx y) : x = y := by
  induction hx generalizing y with
  | literal hv =>
    cases hy with
    | literal hw => exact hv.number_unique hw
  | column hc hv =>
    cases hy with
    | column hd hw =>
      obtain rfl := Except.ok.inj (hc.symm.trans hd)
      exact hv.number_unique hw
  | binary _ _ hz ihl ihr =>
    cases hy with
    | binary hl hr hz' =>
      obtain rfl := ihl hl
      obtain rfl := ihr hr
      exact hz.unique hz'

theorem Operation.fails_iff {t : Operation} {x y : Option Int} (hl : t.left.Exact ctx x)
    (hr : t.right.Exact ctx y) : t.Fails ctx e ↔ t.operator.Fails x y e := by
  constructor
  · rintro ⟨x', y', hl', hr', hfails⟩
    rwa [hl.unique hl', hr.unique hr']
  · exact fun hfails => ⟨x, y, hl, hr, hfails⟩

theorem Operation.Fails.unique {t : Operation} (h : t.Fails ctx e) (h' : t.Fails ctx e') :
    e = e' := by
  obtain ⟨x, y, hl, hr, hfails⟩ := h
  exact hfails.unique ((fails_iff hl hr).mp h')

namespace FirstFails

theorem exists_fails (h : FirstFails ctx ts e) : ∃ t ∈ ts, t.Fails ctx e := by
  induction h with
  | here h => exact ⟨_, List.mem_cons_self, h⟩
  | later _ _ ih =>
    obtain ⟨t, ht, hfails⟩ := ih
    exact ⟨t, List.mem_cons_of_mem _ ht, hfails⟩

theorem unique (h : FirstFails ctx ts e) (h' : FirstFails ctx ts e') : e = e' := by
  induction h with
  | here h =>
    cases h' with
    | here h' => exact h.unique h'
    | later hnot _ => exact absurd h (hnot _)
  | later hnot _ ih =>
    cases h' with
    | here h' => exact absurd h' (hnot _)
    | later _ h' => exact ih h'

theorem append_right (h : FirstFails ctx ts e) (us : List Operation) :
    FirstFails ctx (ts ++ us) e := by
  induction h with
  | here h => exact .here h
  | later hnot _ ih => exact .later hnot ih

theorem append_left : ∀ {ts : List Operation}, (∀ t ∈ ts, ∀ e', ¬t.Fails ctx e') →
    FirstFails ctx us e → FirstFails ctx (ts ++ us) e
  | [], _, h => h
  | t :: _, hnot, h =>
    .later (hnot t List.mem_cons_self)
      (append_left (fun u hu => hnot u (List.mem_cons_of_mem t hu)) h)

end FirstFails

end Failures

namespace Expr

variable {ctx : Context}

/-- Evaluation comes to the exact value, and no operation fails, or it ends at the first one that
does. -/
inductive Settled (ctx : Context) (a : Expr) : Prop
  | value {v : Value} {x : Option Int} (heval : a.eval ctx = .ok v) (hx : a.Exact ctx x)
    (hv : v.Means x) (hnot : ∀ t ∈ a.operations, ∀ e, ¬t.Fails ctx e)
  | error {e : Error} (heval : a.eval ctx = .error e) (hfirst : FirstFails ctx a.operations e)

theorem exists_means_of_leaf {leaf : Expr}
    (h : leaf.eval ctx = .ok .null ∨ ∃ i, leaf.eval ctx = .ok (.integer i)) :
    ∃ v x, leaf.eval ctx = .ok v ∧ v.Means x := by
  rcases h with h | ⟨i, h⟩
  · exact ⟨_, _, h, .null⟩
  · exact ⟨_, _, h, .integer i⟩

theorem settled_binary {o : Arithmetic} {l r : Expr} (hl : l.Settled ctx) (hr : r.Settled ctx) :
    (binary o l r).Settled ctx := by
  rcases hl with ⟨hleft, hx, hv, hnotl⟩ | ⟨hleft, hfirst⟩
  case error =>
    refine .error (eval_binary_left hleft) ?_
    rw [operations, List.append_assoc]
    exact hfirst.append_right _
  rcases hr with ⟨hright, hy, hw, hnotr⟩ | ⟨hright, hfirst⟩
  case error =>
    refine .error (eval_binary_right hleft hright) ?_
    rw [operations, List.append_assoc]
    exact .append_left hnotl (hfirst.append_right _)
  -- Both operands have their exact values, so only the operation itself can fail.
  have hnot : ∀ t ∈ l.operations ++ r.operations, ∀ e, ¬t.Fails ctx e :=
    List.forall_mem_append.mpr ⟨hnotl, hnotr⟩
  have hfails : ∀ e, (⟨o, l, r⟩ : Operation).Fails ctx e ↔ _ := fun _ =>
    Operation.fails_iff hx hy
  rcases o.outcome_cases hv hw with ⟨u, z, hout, hu, hz, hnoto⟩ | ⟨e, hout, hfail⟩
  · refine .value (by rw [eval_binary_ok hleft hright, hout]) (.binary hx hy hz) hu
      (List.forall_mem_append.mpr ⟨hnot, fun t ht => ?_⟩)
    obtain rfl := List.mem_singleton.mp ht
    exact fun e h => hnoto e ((hfails e).mp h)
  · exact .error (by rw [eval_binary_ok hleft hright, hout])
      (.append_left hnot (.here ((hfails e).mpr hfail)))

theorem settled : ∀ {a : Expr}, a.OverIntegers ctx → a.Settled ctx
  | literal v, h => by
    obtain ⟨w, x, hw, hx⟩ := exists_means_of_leaf (h _ List.mem_cons_self)
    obtain rfl := Except.ok.inj hw
    exact .value hw (.literal hx) hx (fun _ ht => absurd ht List.not_mem_nil)
  | column c, h => by
    obtain ⟨w, x, hw, hx⟩ := exists_means_of_leaf (h _ List.mem_cons_self)
    exact .value hw (.column hw hx) hx (fun _ ht => absurd ht List.not_mem_nil)
  | binary o l r, h =>
    settled_binary (settled fun leaf hleaf => h leaf (List.mem_append_left _ hleaf))
      (settled fun leaf hleaf => h leaf (List.mem_append_right _ hleaf))

theorem leaves_of_mem_operations {t : Operation} : ∀ {a : Expr}, t ∈ a.operations →
    ∀ leaf ∈ t.expr.leaves, leaf ∈ a.leaves
  | literal _, ht, _, _ => absurd ht List.not_mem_nil
  | column _, ht, _, _ => absurd ht List.not_mem_nil
  | binary o l r, ht, leaf, hleaf => by
    rcases List.mem_append.mp ht with ht | ht
    · rcases List.mem_append.mp ht with ht | ht
      · exact List.mem_append_left _ (leaves_of_mem_operations ht leaf hleaf)
      · exact List.mem_append_right _ (leaves_of_mem_operations ht leaf hleaf)
    · obtain rfl := List.mem_singleton.mp ht
      exact hleaf

namespace Settled

variable {a : Expr} (h : a.Settled ctx)
include h

theorem eval_ok_iff {v : Value} : a.eval ctx = .ok v ↔
    (∀ t ∈ a.operations, ∀ e, ¬t.Fails ctx e) ∧ ∃ x, a.Exact ctx x ∧ v.Means x := by
  rcases h with ⟨heval, hx, hv, hnot⟩ | ⟨heval, hfirst⟩
  · rw [heval, Except.ok.injEq]
    constructor
    · rintro rfl
      exact ⟨hnot, _, hx, hv⟩
    · rintro ⟨-, y, hy, hw⟩
      obtain rfl := hx.unique hy
      exact hv.value_unique hw
  · obtain ⟨t, ht, hfails⟩ := hfirst.exists_fails
    rw [heval]
    exact iff_of_false nofun fun hnot => hnot.1 t ht _ hfails

theorem eval_error_iff {e : Error} :
    a.eval ctx = .error e ↔ FirstFails ctx a.operations e := by
  rcases h with ⟨heval, hx, hv, hnot⟩ | ⟨heval, hfirst⟩
  · rw [heval]
    refine iff_of_false nofun fun hfirst => ?_
    obtain ⟨t, ht, hfails⟩ := hfirst.exists_fails
    exact hnot t ht _ hfails
  · rw [heval, Except.error.injEq]
    exact ⟨fun he => he ▸ hfirst, fun hfirst' => hfirst.unique hfirst'⟩

end Settled

end Expr

/-- An expression over integers and NULL has its exact value, in range at every operation, or the
error of the first operation that fails. -/
theorem integer_arithmetic_is_exact {ctx : Context} {a : Expr} (h : a.OverIntegers ctx) :
    (∀ v, a.eval ctx = .ok v ↔
      (∀ t ∈ a.operations, ∀ e, ¬t.Fails ctx e) ∧ ∃ x, a.Exact ctx x ∧ v.Means x) ∧
    (∀ e, a.eval ctx = .error e ↔ FirstFails ctx a.operations e) ∧
    ∀ t ∈ a.operations, ∀ v, t.expr.eval ctx = .ok v → ∃ x, t.expr.Exact ctx x ∧ v.Means x := by
  refine ⟨fun _ => (Expr.settled h).eval_ok_iff, fun _ => (Expr.settled h).eval_error_iff, ?_⟩
  intro t ht v heval
  have hpart : t.expr.OverIntegers ctx :=
    fun leaf hleaf => h leaf (Expr.leaves_of_mem_operations ht leaf hleaf)
  exact ((Expr.settled hpart).eval_ok_iff.mp heval).2

/-- `a / 0` is NULL where `a` is, and the least integer has no quotient by `-1`. -/
theorem integer_arithmetic_is_exact_least :
    let a : Column := { table := none, name := "a", binding := some ⟨0, 0, .integer, 0⟩ }
    let quotient : Expr := .binary .divide (.column a) (.literal (.integer 0))
    let past : Expr :=
      .binary .divide (.literal (.integer Int64.minValue)) (.literal (.integer (-1)))
    let ctx := Context.position {} 0 [.null]
    (Expr.binary .add quotient past).OverIntegers ctx ∧
      (Expr.binary .add quotient past).eval ctx = .error .overflow ∧
      FirstFails ctx (Expr.binary .add quotient past).operations .overflow := by
  intro a quotient past ctx
  have h : (Expr.binary .add quotient past).OverIntegers ctx := by
    intro leaf hleaf
    simp only [quotient, past, Expr.leaves, List.cons_append, List.nil_append, List.mem_cons,
      List.not_mem_nil, or_false] at hleaf
    rcases hleaf with rfl | rfl | rfl | rfl
    · exact .inl rfl
    all_goals exact .inr ⟨_, rfl⟩
  have heval : (Expr.binary .add quotient past).eval ctx = .error .overflow := rfl
  exact ⟨h, heval, ((integer_arithmetic_is_exact h).2.1 _).mp heval⟩

end QuantifiedComparison
