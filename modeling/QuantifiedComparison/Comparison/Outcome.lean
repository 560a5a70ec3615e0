import QuantifiedComparison.Value.Order

/-!
# The outcome of a comparison

Two values that are not NULL, compared. The comparisons for equality also answer for two values of
one type that have no order: such values are not equal. The others need an order.
-/

namespace QuantifiedComparison.Comparison

def equality (c : Comparison) (a b : Value) : Except Error Bool :=
  match a.compare? b with
  | some o => .ok (o == .eq)
  | none => if a.type = b.type then .ok false else .error (.incomparableBy c a.type b.type)

def outcome (c : Comparison) (a b : Value) : Except Error Bool :=
  match c with
  | equal | identical => c.equality a b
  | unequal => (c.equality a b).map (!·)
  | less => (a.order b).map (· == .lt)
  | lessEqual => (a.order b).map (· != .gt)
  | greater => (a.order b).map (· == .gt)
  | greaterEqual => (a.order b).map (· != .lt)

end QuantifiedComparison.Comparison
