import QuantifiedComparison.Proofs.RowEquality

/-!
# Equality, hashing and the order

A hasher is fed a value in pieces: the number of its type and its datum, a double as the bits of its
canonical form. A row is fed as its width and then its values. What is fed tells the canonical form
and no more (`Value.fed_eq_iff`, `Row.fed_eq_iff`), so a set that files under canonical forms files
under what is fed.

Equal values are fed alike, and so are equal rows. The order calls two values of one type equal if
they are, and two of different types, which never are, where an integer meets a double or a date a
timestamp (`Value.meets_iff`).
-/

namespace QuantifiedComparison

/-- What a hasher is fed in one go. -/
inductive Piece
  | type (number : Nat)
  | width (n : Nat)
  | integer (i : Int64)
  | bits (w : UInt64)
  | text (s : String)
  | boolean (b : Bool)
  | bytes (bs : List UInt8)
deriving DecidableEq

namespace Value

def pieces : Value → List Piece
  | null => [.type 0]
  | integer i => [.type 1, .integer i]
  | float f => [.type 2, .bits f.toBits]
  | text s => [.type 3, .text s]
  | boolean b => [.type 4, .boolean b]
  | date s => [.type 5, .text s]
  | timestamp s => [.type 6, .text s]
  | blob bytes => [.type 7, .width bytes.length, .bytes bytes]

/-- What a hasher is fed for a value. -/
def fed (v : Value) : List Piece :=
  v.canonical.pieces

/-- The number of the type tells where the pieces of a value end. -/
theorem pieces_append_inj {v w : Value} {xs ys : List Piece}
    (h : v.pieces ++ xs = w.pieces ++ ys) : v = w ∧ xs = ys := by
  cases v <;> cases w <;> simp_all [pieces, Float.toBits_inj]

theorem fed_append_inj {v w : Value} {xs ys : List Piece} (h : v.fed ++ xs = w.fed ++ ys) :
    v.canonical = w.canonical ∧ xs = ys :=
  pieces_append_inj h

theorem fed_eq_iff {v w : Value} : v.fed = w.fed ↔ v.canonical = w.canonical := by
  refine ⟨fun h => ?_, congrArg pieces⟩
  exact (fed_append_inj (congrArg (· ++ []) h)).1

/-- Of different types, and yet equal in the order. -/
inductive Meets : Value → Value → Prop
  | integer_float {i : Int64} {f : Float} (h : (Double.ofInteger i == f) = true) :
    Meets (integer i) (float f)
  | float_integer {f : Float} {i : Int64} (h : (f == Double.ofInteger i) = true) :
    Meets (float f) (integer i)
  | date_timestamp (s : String) : Meets (date (dayOf s)) (timestamp s)
  | timestamp_date (s : String) : Meets (timestamp s) (date (dayOf s))

/-- Across types only numbers, and a date with a timestamp, have an order. -/
theorem meets_iff {a b : Value} (h : a.type ≠ b.type) :
    a.compare? b = some .eq ↔ a.Meets b := by
  constructor
  · intro heq
    cases a with
    | integer i =>
      cases b with
      | integer j => exact absurd rfl h
      | float f => exact .integer_float (Double.beq_iff_compare.mpr heq)
      | _ => cases heq
    | float f =>
      cases b with
      | float g => exact absurd rfl h
      | integer i => exact .float_integer (Double.beq_iff_compare.mpr heq)
      | _ => cases heq
    | date s =>
      cases b with
      | date t => exact absurd rfl h
      | timestamp t =>
        obtain rfl : s = dayOf t := Std.LawfulEqCmp.eq_of_compare (Option.some.inj heq)
        exact .date_timestamp t
      | _ => cases heq
    | timestamp s =>
      cases b with
      | timestamp t => exact absurd rfl h
      | date t =>
        obtain rfl : dayOf s = t := Std.LawfulEqCmp.eq_of_compare (Option.some.inj heq)
        exact .timestamp_date s
      | _ => cases heq
    | _ => cases b <;> first | exact absurd rfl h | cases heq
  · rintro (heq | heq | s | s)
    · exact Double.beq_iff_compare.mp heq
    · exact Double.beq_iff_compare.mp heq
    · exact congrArg some Std.ReflCmp.compare_self
    · exact congrArg some Std.ReflCmp.compare_self

/-- Equality, hashing and the order of two values fit together. -/
structure Coherent (a b : Value) : Prop where
  hashed : a.equals b = true → a.fed = b.fed
  filed : a.fed = b.fed ↔ a.canonical = b.canonical
  ordered : a.type = b.type → (a.equals b = true ↔ a.compare? b = some .eq)
  compared : a.type = b.type → a ≠ null →
    (a.equals b = true ↔ Comparison.equal.outcome a b = .ok true)
  apart : a.type ≠ b.type → a.equals b = false
  meets : a.type ≠ b.type → (a.compare? b = some .eq ↔ a.Meets b)

end Value

namespace Row

/-- What a hasher is fed for a row. -/
def fed (r : Row) : List Piece :=
  .width r.length :: r.flatMap Value.fed

theorem fed_eq (r : Row) :
    fed r = .width (canonical r).length :: (canonical r).flatMap Value.pieces := by
  rw [canonical, List.length_map, List.flatMap_map]
  rfl

theorem canonical_of_flatMap_fed : ∀ {r s : Row}, r.length = s.length →
    r.flatMap Value.fed = s.flatMap Value.fed → canonical r = canonical s
  | [], [], _, _ => rfl
  | v :: r, w :: s, hwidth, h => by
    rw [List.flatMap_cons, List.flatMap_cons] at h
    obtain ⟨hvalue, hrest⟩ := Value.fed_append_inj h
    exact congrArg₂ List.cons hvalue (canonical_of_flatMap_fed (Nat.succ.inj hwidth) hrest)

theorem fed_eq_iff {r s : Row} : fed r = fed s ↔ canonical r = canonical s := by
  constructor
  · intro h
    obtain ⟨hwidth, hvalues⟩ := List.cons.inj h
    exact canonical_of_flatMap_fed (Piece.width.inj hwidth) hvalues
  · intro h
    rw [fed_eq, fed_eq, h]

/-- Equality and hashing of two rows fit together. -/
structure Coherent (r s : Row) : Prop where
  valuewise : r.equals s = true ↔ List.Forall₂ (fun v w => v.equals w = true) r s
  hashed : List.Forall₂ (fun v w => v.equals w = true) r s → fed r = fed s
  filed : fed r = fed s ↔ canonical r = canonical s

end Row

/-- Equal values, and rows of equal values, are hashed alike. On values of one type equality, the
order and the comparison `=` say the same; values of different types are never equal, though the
order calls some of them so. -/
theorem equality_is_coherent : (∀ a b : Value, a.Coherent b) ∧ ∀ r s : Row, r.Coherent s := by
  constructor
  · intro a b
    exact {
      hashed := fun h => Value.fed_eq_iff.mpr (Value.canonical_eq_of_equals h)
      filed := Value.fed_eq_iff
      ordered := Value.equals_iff_compare?
      compared := fun h _ => by rw [Comparison.outcome_of_same_type rfl h, Except.ok.injEq]
      apart := fun h => Bool.eq_false_iff.mpr fun heq => h (Value.type_eq_of_equals heq)
      meets := Value.meets_iff }
  · intro r s
    exact {
      valuewise := Row.equals_iff_forall₂
      hashed := fun h =>
        Row.fed_eq_iff.mpr (Row.canonical_eq_of_equals (Row.equals_iff_forall₂.mpr h))
      filed := Row.fed_eq_iff }

example : Row.fed [.float 0.0] = Row.fed [.float (-0.0)] := by decide

end QuantifiedComparison
