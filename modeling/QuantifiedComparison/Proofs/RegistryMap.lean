import Mathlib.Data.String.Basic
import QuantifiedComparison.Proofs.Release

/-!
# A registry kept in a map

Nothing is done to a registry but registering probes and releasing guards. Whatever the order, the
guards get the numbers from the count of registrations on, one after the other
(`Registry.ids_perform`), and those that are alive are listed by number (`Registry.Reachable.sorted`).

A registry may be kept in a map from the number of each guard to its label, with a counter for the
next number and another for the registrations. The map is in no order and the counters are two, but
nothing shows of that (`RegistryMap.Represents.perform`): an entry is only made for a number that
has none, and labels are sorted before they are shown.
-/

namespace QuantifiedComparison

namespace Registry

inductive Op
  | register (label : String) (probe : Probe)
  | release (id : Nat)

/-- The numbers given out, and the registry after it all. -/
def perform (r : Registry) : List Op → List Nat × Registry
  | [] => ([], r)
  | .register label probe :: ops =>
    let (guard, next) := r.register label probe
    let (ids, last) := next.perform ops
    (guard.id :: ids, last)
  | .release id :: ops => (r.release id).perform ops

theorem perform_append : ∀ (r : Registry) (ops ops' : List Op), r.perform (ops ++ ops')
    = ((r.perform ops).1 ++ ((r.perform ops).2.perform ops').1, ((r.perform ops).2.perform ops').2)
  | _, [], _ => rfl
  | r, .register label probe :: ops, ops' =>
    congrArg (fun x => (r.registered :: x.1, x.2))
      (perform_append (r.register label probe).2 ops ops')
  | r, .release id :: ops, ops' => perform_append (r.release id) ops ops'

theorem reachable_perform : ∀ {r : Registry} (ops : List Op), r.Reachable →
    (r.perform ops).2.Reachable
  | _, [], h => h
  | _, .register label probe :: ops, h => reachable_perform ops (h.register label probe)
  | _, .release id :: ops, h => reachable_perform ops (h.release id)

theorem ids_perform : ∀ (r : Registry) (ops : List Op), ∃ n,
    (r.perform ops).1 = List.range' r.registered n ∧
      (r.perform ops).2.registered = r.registered + n
  | _, [] => ⟨0, rfl, rfl⟩
  | r, .register label probe :: ops => by
    obtain ⟨n, hids, hregistered⟩ := ids_perform (r.register label probe).2 ops
    refine ⟨n + 1, congrArg (r.registered :: ·) hids, hregistered.trans ?_⟩
    exact Nat.add_right_comm _ 1 n
  | r, .release id :: ops => ids_perform (r.release id) ops

theorem Reachable.sorted {r : Registry} (h : r.Reachable) :
    r.alive.Pairwise fun a b => a.1 < b.1 := by
  induction h with
  | empty => exact .nil
  | register h label probe ih =>
    refine List.pairwise_append.mpr ⟨ih, List.pairwise_singleton _ _, fun a ha b hb => ?_⟩
    rw [List.mem_singleton.mp hb]
    exact h.lt_registered a ha
  | release _ id ih => exact ih.filter _

/-- An entry is found by its number, and releasing the number leaves all others. -/
theorem alive_release {r : Registry} {older newer : List (Nat × String)} {id : Nat}
    {label : String} (h : r.Reachable) (halive : r.alive = older ++ (id, label) :: newer) :
    (r.release id).alive = older ++ newer ∧ ∀ a ∈ older ++ newer, a.1 ≠ id := by
  have hsorted := h.sorted
  rw [halive] at hsorted
  obtain ⟨-, hnewer, holder⟩ := List.pairwise_append.mp hsorted
  have hothers : ∀ a ∈ older ++ newer, a.1 ≠ id := List.forall_mem_append.mpr
    ⟨fun a ha => (holder a ha _ List.mem_cons_self).ne,
      fun a ha => ((List.pairwise_cons.mp hnewer).1 a ha).ne'⟩
  refine ⟨?_, hothers⟩
  obtain ⟨hkeepOlder, hkeepNewer⟩ := List.forall_mem_append.mp hothers
  unfold Registry.release
  dsimp only
  rw [halive, List.filter_append, List.filter_cons_of_neg (by simp),
    List.filter_eq_self.mpr fun a ha => decide_eq_true (hkeepOlder a ha),
    List.filter_eq_self.mpr fun a ha => decide_eq_true (hkeepNewer a ha)]

/-- The order in which labels are shown. -/
theorem pairwise_mergeSort_labels (labels : List String) :
    (labels.mergeSort fun a b => compare a b != .gt).Pairwise (· ≤ ·) := by
  have hle : ∀ a b : String, (compare a b != .gt) = true ↔ a ≤ b := fun a b => by
    rw [bne_iff_ne]
    exact compare_le_iff_le
  refine (List.pairwise_mergeSort (fun a b c hab hbc => ?_) (fun a b => ?_) labels).imp ?_
  · rw [hle] at hab hbc ⊢
    exact hab.trans hbc
  · rw [Bool.or_eq_true, hle, hle]
    exact le_total a b
  · exact (hle _ _).mp

theorem mergeSort_labels_congr {labels labels' : List String} (h : labels.Perm labels') :
    (labels.mergeSort fun a b => compare a b != .gt)
      = labels'.mergeSort fun a b => compare a b != .gt := by
  refine List.Perm.eq_of_pairwise (fun _ _ _ _ => le_antisymm) (pairwise_mergeSort_labels labels)
    (pairwise_mergeSort_labels labels') ?_
  exact (List.mergeSort_perm labels _).trans (h.trans (List.mergeSort_perm labels' _).symm)

end Registry

structure RegistryMap where
  held : Std.HashMap Nat String := {}
  next : Nat := 0
  total : Nat := 0

namespace RegistryMap

def register (m : RegistryMap) (label : String) : Nat × RegistryMap :=
  (m.next, { held := m.held.insert m.next label, next := m.next + 1, total := m.total + 1 })

def release (m : RegistryMap) (id : Nat) : RegistryMap :=
  { m with held := m.held.erase id }

def openCount (m : RegistryMap) : Nat :=
  m.held.size

def openLabels (m : RegistryMap) : List String :=
  (m.held.toList.map (·.2)).mergeSort fun a b => compare a b != .gt

def perform (m : RegistryMap) : List Registry.Op → List Nat × RegistryMap
  | [] => ([], m)
  | .register label _ :: ops =>
    let (id, next) := m.register label
    let (ids, last) := next.perform ops
    (id :: ids, last)
  | .release id :: ops => (m.release id).perform ops

/-- The map has an entry for every guard that is alive, and each counter is the registry's. -/
structure Represents (m : RegistryMap) (r : Registry) : Prop where
  next : m.next = r.registered
  total : m.total = r.registered
  held : m.held.toList.Perm r.alive

theorem represents_empty : Represents {} {} :=
  ⟨rfl, rfl, by simp⟩

theorem toList_erase_perm (held : Std.HashMap Nat String) (id : Nat) :
    (held.erase id).toList.Perm (held.toList.filter (·.1 ≠ id)) := by
  have hnodup : ∀ held : Std.HashMap Nat String, held.toList.Nodup := fun held =>
    held.distinct_keys_toList.imp fun {a b} hkeys heq => by simp [heq] at hkeys
  rw [List.perm_ext_iff_of_nodup (hnodup _) ((hnodup held).filter _)]
  rintro ⟨key, label⟩
  rw [List.mem_filter, Std.HashMap.mem_toList_iff_getElem?_eq_some,
    Std.HashMap.mem_toList_iff_getElem?_eq_some, Std.HashMap.getElem?_erase]
  grind

variable {m : RegistryMap} {r : Registry}

theorem Represents.register (h : m.Represents r) (hr : r.Reachable) (label : String)
    (probe : Probe) : (m.register label).2.Represents (r.register label probe).2 where
  next := congrArg (· + 1) h.next
  total := congrArg (· + 1) h.total
  held := by
    -- no guard has the next number, so the entry takes the place of no other
    have hfresh : m.held.toList.filter (fun a => ¬(m.next == a.1) = true) = m.held.toList := by
      refine List.filter_eq_self.mpr fun a ha => ?_
      have hlt := hr.lt_registered a (h.held.mem_iff.mp ha)
      rw [h.next]
      simpa using hlt.ne'
    refine Std.HashMap.toList_insert_perm.trans ?_
    rw [hfresh, h.next]
    exact (h.held.cons _).trans (List.perm_append_singleton _ _).symm

theorem Represents.release (h : m.Represents r) (id : Nat) :
    (m.release id).Represents (r.release id) where
  next := h.next
  total := h.total
  held := (toList_erase_perm m.held id).trans (h.held.filter _)

theorem Represents.perform : ∀ {m : RegistryMap} {r : Registry}, m.Represents r → r.Reachable →
    ∀ ops, (m.perform ops).1 = (r.perform ops).1 ∧ (m.perform ops).2.Represents (r.perform ops).2
  | _, _, h, _, [] => ⟨rfl, h⟩
  | _, _, h, hr, .register label probe :: ops => by
    obtain ⟨hids, hlast⟩ := (h.register hr label probe).perform (hr.register label probe) ops
    exact ⟨List.cons_eq_cons.mpr ⟨h.next, hids⟩, hlast⟩
  | _, _, h, hr, .release id :: ops => (h.release id).perform (hr.release id) ops

theorem Represents.openCount (h : m.Represents r) : m.openCount = r.openCount := by
  rw [RegistryMap.openCount, Registry.openCount, ← Std.HashMap.length_toList, h.held.length_eq]

theorem Represents.openLabels (h : m.Represents r) : m.openLabels = r.openLabels :=
  Registry.mergeSort_labels_congr (h.held.map _)

end RegistryMap

end QuantifiedComparison
