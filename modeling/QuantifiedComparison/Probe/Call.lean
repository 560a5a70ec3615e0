import QuantifiedComparison.Probe

/-!
# Calls on a probe

The calls that can be made on a probe in any order, and the reply to each.
-/

namespace QuantifiedComparison

inductive Probe.Call
  | next
  | contains (key : Row)
  | rowCount
  | columnType (index : Nat)
  | close
  | isClosed

inductive Probe.Reply
  | failed (e : Error)
  | row (r : Option Row)
  | flag (b : Bool)
  | count (n : Nat)
  | type (t : ColumnType)
  | done

namespace Probe

def Reply.ofExcept {α : Type} (f : α → Reply) : Except Error α → Reply
  | .ok a => f a
  | .error e => failed e

def call (p : Probe) : Call → Reply × Probe
  | .next => let (r, q) := p.next; (.ofExcept .row r, q)
  | .contains key => let (b, q) := p.contains key; (.ofExcept .flag b, q)
  | .rowCount => (.count p.rowCount, p)
  | .columnType index => (.type (p.columnType index), p)
  | .close => let (u, q) := p.close; (.ofExcept (fun _ => .done) u, q)
  | .isClosed => (.flag p.closed, p)

def calls (p : Probe) : List Call → List Reply × Probe
  | [] => ([], p)
  | c :: cs =>
    let (reply, p) := p.call c
    let (replies, p) := p.calls cs
    (reply :: replies, p)

end Probe

end QuantifiedComparison
