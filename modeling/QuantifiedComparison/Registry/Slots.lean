import QuantifiedComparison.Probe.Call
import QuantifiedComparison.Registry

/-!
# Guards in slots

A registry together with the guards it handed out. Each guard stays in its slot until it is dropped,
and slots are not used again.
-/

namespace QuantifiedComparison

structure Slots where
  registry : Registry := {}
  guards : List (Option Guard) := []

namespace Slots

inductive Action
  | register (label : String) (response : Response)
  | drop (slot : Nat)
  | call (slot : Nat) (c : Probe.Call)

inductive Reply
  | registered (id : Nat)
  /-- Whether there was a guard to drop. -/
  | dropped (b : Bool)
  | called (r : Probe.Reply)
  | noGuard

def guard? (s : Slots) (slot : Nat) : Option Guard :=
  s.guards[slot]?.join

def act (s : Slots) : Action → Reply × Slots
  | .register label response =>
    let (guard, registry) := s.registry.register label (.start response)
    (.registered guard.id, { registry, guards := s.guards ++ [some guard] })
  | .drop slot =>
    match s.guard? slot with
    | none => (.dropped false, s)
    | some g => (.dropped true,
        { registry := (g.drop s.registry).2, guards := s.guards.set slot none })
  | .call slot c =>
    match s.guard? slot with
    | none => (.noGuard, s)
    | some g =>
      let (reply, probe) := g.probe.call c
      (.called reply, { s with guards := s.guards.set slot (some { g with probe }) })

end Slots

end QuantifiedComparison
