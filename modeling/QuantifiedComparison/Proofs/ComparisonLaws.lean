import QuantifiedComparison.Proofs.ValueEquality

/-!
# The laws of the comparisons

What a comparison of two values answers depends on the order of the values, if they have one, and on
whether they are of one type (`Comparison.answer?_eq_verdict`). Exchanging the values exchanges the
order, also where there is none (`Value.compare?_swap`).

So the seven comparisons are the usual ones: each has its converse, exactly one of `<`, `=` and `>`
holds of values that have an order, and the others are made of these (`Comparison.lawful`).
-/

namespace QuantifiedComparison

theorem Value.compare?_swap (a b : Value) : b.compare? a = (a.compare? b).map Ordering.swap := by
  cases a with
  | null => cases b <;> rfl
  | integer i =>
    cases b with
    | integer j => exact congrArg some Std.OrientedOrd.eq_swap
    | float g => exact Double.compare?_swap _ _
    | _ => rfl
  | float f =>
    cases b with
    | float g => exact Double.compare?_swap _ _
    | integer j => exact Double.compare?_swap _ _
    | _ => rfl
  | blob x =>
    cases b with
    | blob y =>
      by_cases h : x = y
      · simp [compare?, h]
      · simp [compare?, h, Ne.symm h]
    | _ => rfl
  | _ => cases b <;> first | rfl | exact congrArg some Std.OrientedOrd.eq_swap

namespace Comparison

/-- The comparison of the same two values the other way round. -/
def converse : Comparison → Comparison
  | less => greater
  | lessEqual => greaterEqual
  | greater => less
  | greaterEqual => lessEqual
  | c => c

/-- The comparisons that need an order. -/
def isOrdering : Comparison → Bool
  | equal | identical | unequal => false
  | _ => true

/-- The answer of a comparison that does not fail. -/
def answer? (c : Comparison) (a b : Value) : Option Bool :=
  (c.outcome a b).toOption

/-- The answer for two values in this order. -/
def admits : Comparison → Ordering → Bool
  | equal, o => o == .eq
  | identical, o => o == .eq
  | unequal, o => o != .eq
  | less, o => o == .lt
  | lessEqual, o => o != .gt
  | greater, o => o == .gt
  | greaterEqual, o => o != .lt

/-- The answer for two values with this order, or with none, of one type or not. -/
def verdict (c : Comparison) (sameType : Bool) : Option Ordering → Option Bool
  | some o => some (c.admits o)
  | none => if c.isOrdering = false ∧ sameType then some (c = unequal) else none

theorem answer?_eq_verdict (c : Comparison) (a b : Value) :
    c.answer? a b = c.verdict (a.type = b.type) (a.compare? b) := by
  unfold answer?
  rcases h : a.compare? b with _ | o
  · by_cases htype : a.type = b.type <;> cases c <;>
      simp [outcome, equality, Value.order, verdict, isOrdering, h, htype, Except.toOption,
        Except.map]
  · cases c <;>
      simp [outcome, equality, Value.order, verdict, admits, h, Except.toOption, Except.map, bne]

section Verdict

variable (sameType : Bool) (o : Option Ordering)

theorem verdict_converse (c : Comparison) :
    c.converse.verdict sameType (o.map Ordering.swap) = c.verdict sameType o := by
  rcases o with _ | _ | _ | _ <;> cases c <;> rfl

theorem verdict_identical : identical.verdict sameType o = equal.verdict sameType o := by
  rcases o with _ | o <;> rfl

theorem verdict_unequal :
    unequal.verdict sameType o = (equal.verdict sameType o).map (!·) := by
  rcases o with _ | o
  · cases sameType <;> rfl
  · rfl

variable {sameType o}

theorem verdict_eq_none_iff {c : Comparison} (hc : c.isOrdering = true) :
    c.verdict sameType o = none ↔ o = none := by
  rcases o with _ | o <;> simp [verdict, hc]

theorem verdict_equal_eq_none_iff :
    equal.verdict sameType o = none ↔ o = none ∧ sameType = false := by
  rcases o with _ | o <;> simp [verdict, isOrdering]

theorem verdict_lessEqual_iff : lessEqual.verdict sameType o = some true ↔
    less.verdict sameType o = some true ∨ equal.verdict sameType o = some true := by
  rcases o with _ | _ | _ | _ <;> simp [verdict, admits, isOrdering]

theorem verdict_greaterEqual_iff : greaterEqual.verdict sameType o = some true ↔
    greater.verdict sameType o = some true ∨ equal.verdict sameType o = some true := by
  rcases o with _ | _ | _ | _ <;> simp [verdict, admits, isOrdering]

end Verdict

theorem existsUnique_admits (o : Ordering) : ∃! c ∈ [less, equal, greater], c.admits o = true := by
  cases o
  case lt => exact ⟨less, by decide, fun c ⟨_, h⟩ => by cases c <;> simp_all [admits]⟩
  case eq => exact ⟨equal, by decide, fun c ⟨_, h⟩ => by cases c <;> simp_all [admits]⟩
  case gt => exact ⟨greater, by decide, fun c ⟨_, h⟩ => by cases c <;> simp_all [admits]⟩

/-- The laws of the comparisons of two values. A comparison that fails has no answer. -/
structure Lawful (a b : Value) : Prop where
  converse : ∀ c : Comparison, c.converse.answer? b a = c.answer? a b
  identical : identical.answer? a b = equal.answer? a b
  unequal : unequal.answer? a b = (equal.answer? a b).map (!·)
  together : ∀ c d : Comparison, c.isOrdering = true → d.isOrdering = true →
    (c.answer? a b = none ↔ d.answer? a b = none)
  fails : equal.answer? a b = none → ∀ c : Comparison, c.isOrdering = true → c.answer? a b = none
  trichotomy : less.answer? a b ≠ none →
    ∃! c ∈ [less, equal, greater], c.answer? a b = some true
  lessEqual : lessEqual.answer? a b = some true ↔
    less.answer? a b = some true ∨ equal.answer? a b = some true
  greaterEqual : greaterEqual.answer? a b = some true ↔
    greater.answer? a b = some true ∨ equal.answer? a b = some true

theorem lawful (a b : Value) : Lawful a b where
  converse c := by
    rw [answer?_eq_verdict, answer?_eq_verdict, Value.compare?_swap a b, ← verdict_converse _ _ c]
    simp only [eq_comm]
  identical := by
    rw [answer?_eq_verdict, answer?_eq_verdict, verdict_identical]
  unequal := by
    rw [answer?_eq_verdict, answer?_eq_verdict, verdict_unequal]
  together c d hc hd := by
    rw [answer?_eq_verdict, answer?_eq_verdict, verdict_eq_none_iff hc, verdict_eq_none_iff hd]
  fails h c hc := by
    rw [answer?_eq_verdict] at h ⊢
    exact (verdict_eq_none_iff hc).mpr (verdict_equal_eq_none_iff.mp h).1
  trichotomy h := by
    rw [answer?_eq_verdict, Ne, verdict_eq_none_iff rfl] at h
    obtain ⟨o, ho⟩ := Option.ne_none_iff_exists'.mp h
    simp only [answer?_eq_verdict, ho, verdict, Option.some.injEq]
    exact existsUnique_admits o
  lessEqual := by
    simp only [answer?_eq_verdict]
    exact verdict_lessEqual_iff
  greaterEqual := by
    simp only [answer?_eq_verdict]
    exact verdict_greaterEqual_iff

end Comparison

end QuantifiedComparison
