import QuantifiedComparison.Proofs.RegistryMap
import QuantifiedComparison.Registry.Slots

/-!
# What a registry knows

Guards are registered and dropped in any order while predicates are evaluated and rows restricted
over the same registry. Each of these is a list of registrations and releases
(`Slots.registry_steps`), and whatever comes of them, the registry lists the guards in the slots
with their labels and no other (`Slots.Kept.steps`): an evaluation takes its own guard back, and a
guard that is dropped takes its own entry along (`Slots.Kept.frees`). So the registry tells exactly
what is open and how many there were (`registry_is_exact`).
-/

namespace QuantifiedComparison

/-- What one use of a plan does to a registry: if the plan can be run, a guard comes and goes. -/
def Plan.ops (plan : Plan) (label : String) (ctx : Context) (r : Registry) : List Registry.Op :=
  match plan.run ctx with
  | .error _ => []
  | .ok response =>
    [.register label (.start response), .release (r.register label (.start response)).1.id]

theorem Plan.registry_withProbe {α : Type} {body : Probe → Except Error α × Probe} (plan : Plan)
    (label : String) (ctx : Context) (r : Registry) : (plan.withProbe label ctx r body).registry
      = (r.perform (plan.ops label ctx r)).2 := by
  rcases hrun : plan.run ctx with e | response
  · rw [withProbe_error hrun, ops, hrun]
    rfl
  · rw [withProbe_ok hrun, ops, hrun]
    rfl

/-- Each condition that is applied uses its plan once. -/
def TableFilter.ops (f : TableFilter) (plans : PlanId → Plan) (ctx : Context) :
    List IndexCondition → Registry → List Registry.Op
  | [], _ => []
  | c :: cs, r =>
    let now := (plans c.query).ops IndexCondition.label ctx r
    match f.keysOf plans ctx c with
    | .error _ => now
    | .ok _ => now ++ f.ops plans ctx cs (r.perform now).2

theorem TableFilter.registry_restrictBy (f : TableFilter) (plans : PlanId → Plan) (ctx : Context) :
    ∀ (cs : List IndexCondition) (rows : List Row) (r : Registry),
      (f.restrictBy plans ctx cs rows r).registry = (r.perform (f.ops plans ctx cs r)).2
  | [], _, _ => rfl
  | c :: cs, rows, r => by
    have hnow : (IndexCondition.probeValues (plans c.query) ctx r).registry
        = (r.perform ((plans c.query).ops IndexCondition.label ctx r)).2 :=
      Plan.registry_withProbe _ _ ctx r
    unfold restrictBy ops
    dsimp only
    rw [f.probeValues_bind_keys]
    rcases f.keysOf plans ctx c with e | keys
    · exact hnow
    · rw [Registry.perform_append, ← hnow]
      exact registry_restrictBy f plans ctx cs _ _

namespace Slots

/-- The numbers and labels of the guards in the slots, where every slot has its label. -/
def live : List (Option Guard) → List String → List (Nat × String)
  | guard :: guards, label :: labels =>
    (guard.map fun g => (g.id, label)).toList ++ live guards labels
  | _, _ => []

section Live

variable {g : Guard}

theorem live_concat (label : String) : ∀ {guards : List (Option Guard)} {labels : List String},
    guards.length = labels.length →
      live (guards ++ [some g]) (labels ++ [label]) = live guards labels ++ [(g.id, label)]
  | [], [], _ => rfl
  | _ :: _, _ :: _, h => by
    rw [List.cons_append, List.cons_append, live, live, List.append_assoc,
      live_concat label (Nat.succ.inj h)]

theorem length_live : ∀ {guards : List (Option Guard)} {labels : List String},
    guards.length = labels.length → (live guards labels).length = guards.countP Option.isSome
  | [], [], _ => rfl
  | none :: _, _ :: _, h => by
    rw [List.countP_cons_of_neg (by simp), ← length_live (Nat.succ.inj h)]
    rfl
  | some _ :: _, _ :: _, h => by
    rw [List.countP_cons_of_pos rfl, ← length_live (Nat.succ.inj h)]
    rfl

/-- What is put in the place of a guard is listed in its place, if it is listed at all. -/
theorem live_set : ∀ {guards : List (Option Guard)} {labels : List String} {slot : Nat},
    guards.length = labels.length → guards[slot]? = some (some g) →
      ∃ older label newer, labels[slot]? = some label ∧
        live guards labels = older ++ (g.id, label) :: newer ∧
          ∀ guard, live (guards.set slot guard) labels
            = older ++ (guard.map fun g => (g.id, label)).toList ++ newer
  | guard :: guards, label :: labels, 0, _, hg => by
    obtain rfl := Option.some.inj hg
    exact ⟨[], label, live guards labels, rfl, rfl, fun _ => rfl⟩
  | guard :: guards, first :: labels, slot + 1, h, hg => by
    obtain ⟨older, label, newer, hlabel, hlive, hset⟩ := live_set (Nat.succ.inj h) hg
    refine ⟨(guard.map fun g => (g.id, first)).toList ++ older, label, newer, hlabel, ?_, ?_⟩
    · rw [live, hlive, List.append_assoc]
    · intro guard'
      rw [List.set_cons_succ, live, hset]
      simp only [List.append_assoc]

end Live

/-- What happens to a registry: its slots are used, or a predicate is evaluated, an index probed or
rows restricted in one of the contexts that share it. -/
inductive Event
  | act (a : Action)
  | evaluate (p : Predicate) (plan : Plan) (ctx : Context)
  | probeValues (plan : Plan) (ctx : Context)
  | restrict (f : TableFilter) (plans : PlanId → Plan) (ctx : Context) (rows : List Row)

namespace Event

def take : Event → Slots → Slots
  | act a, s => (s.act a).2
  | evaluate p plan ctx, s => { s with registry := (p.evaluate plan ctx s.registry).registry }
  | probeValues plan ctx, s =>
    { s with registry := (IndexCondition.probeValues plan ctx s.registry).registry }
  | restrict f plans ctx rows, s =>
    { s with registry := (f.restrict plans ctx rows s.registry).registry }

/-- The registrations and releases that the event consists of. -/
def ops : Event → Slots → List Registry.Op
  | act (.register label response), _ => [.register label (.start response)]
  | act (.drop slot), s => ((s.guard? slot).map fun g => .release g.id).toList
  | act (.call _ _), _ => []
  | evaluate _ plan ctx, s => plan.ops Predicate.label ctx s.registry
  | probeValues plan ctx, s => plan.ops IndexCondition.label ctx s.registry
  | restrict f plans ctx _, s => f.ops plans ctx f.conditions s.registry

/-- The label of the guard that the event puts in a slot. -/
def label? : Event → Option String
  | act (.register label _) => some label
  | _ => none

end Event

def steps : Slots → List Event → Slots
  | s, [] => s
  | s, e :: es => steps (e.take s) es

def trace : Slots → List Event → List Registry.Op
  | _, [] => []
  | s, e :: es => e.ops s ++ trace (e.take s) es

section Act

variable {s : Slots} {slot : Nat} {g : Guard}

theorem act_drop_none (h : s.guard? slot = none) : s.act (.drop slot) = (.dropped false, s) := by
  simp only [act, h]

theorem act_drop_some (h : s.guard? slot = some g) : s.act (.drop slot) = (.dropped true,
    { registry := s.registry.release g.id, guards := s.guards.set slot none }) := by
  simp only [act, h]
  rfl

theorem act_call_none (h : s.guard? slot = none) (c : Probe.Call) :
    s.act (.call slot c) = (.noGuard, s) := by
  simp only [act, h]

theorem act_call_some (h : s.guard? slot = some g) (c : Probe.Call) : s.act (.call slot c)
    = (.called (g.probe.call c).1,
      { s with guards := s.guards.set slot (some { g with probe := (g.probe.call c).2 }) }) := by
  simp only [act, h]

theorem registry_take (e : Event) (s : Slots) :
    (e.take s).registry = (s.registry.perform (e.ops s)).2 := by
  cases e with
  | act a =>
    cases a with
    | register label response => rfl
    | drop slot =>
      rcases hg : s.guard? slot with _ | g
      · rw [Event.take, act_drop_none hg, Event.ops, hg]
        rfl
      · rw [Event.take, act_drop_some hg, Event.ops, hg]
        rfl
    | call slot c =>
      rcases hg : s.guard? slot with _ | g
      · rw [Event.take, act_call_none hg]
        rfl
      · rw [Event.take, act_call_some hg]
        rfl
  | evaluate p plan ctx => exact plan.registry_withProbe _ ctx s.registry
  | probeValues plan ctx => exact plan.registry_withProbe _ ctx s.registry
  | restrict f plans ctx rows => exact f.registry_restrictBy plans ctx _ rows s.registry

theorem registry_steps : ∀ (s : Slots) (es : List Event),
    (s.steps es).registry = (s.registry.perform (s.trace es)).2
  | _, [] => rfl
  | s, e :: es => by
    rw [steps, trace, Registry.perform_append, ← registry_take]
    exact registry_steps (e.take s) es

end Act

/-- The registry lists the guards in the slots, under the labels they were registered with. -/
structure Kept (s : Slots) (labels : List String) : Prop where
  reachable : s.registry.Reachable
  length : s.guards.length = labels.length
  alive : s.registry.alive = live s.guards labels

/-- Dropping the guard closes its probe, takes its entry from the registry and empties its slot. -/
structure Frees (s : Slots) (labels : List String) (slot : Nat) (g : Guard) : Prop where
  reply : (s.act (.drop slot)).1 = .dropped true
  closed : (g.drop s.registry).1.closed = true
  closes : (g.drop s.registry).1.usage.closes = g.probe.usage.closes + 1
  entry : ∃ older label newer, labels[slot]? = some label ∧
    s.registry.alive = older ++ (g.id, label) :: newer ∧
      (s.act (.drop slot)).2.registry.alive = older ++ newer ∧ ∀ a ∈ older ++ newer, a.1 ≠ g.id
  registered : (s.act (.drop slot)).2.registry.registered = s.registry.registered
  emptied : (s.act (.drop slot)).2.guard? slot = none
  others : ∀ other ≠ slot, (s.act (.drop slot)).2.guard? other = s.guard? other

namespace Kept

variable {s : Slots} {labels : List String}

theorem empty : Kept {} [] :=
  ⟨.empty, rfl, rfl⟩

theorem frees (h : s.Kept labels) {slot : Nat} {g : Guard} (hg : s.guard? slot = some g) :
    s.Frees labels slot g := by
  have hguard : s.guards[slot]? = some (some g) := Option.join_eq_some_iff.mp hg
  obtain ⟨older, label, newer, hlabel, hlive, -⟩ := live_set h.length hguard
  have halive := h.alive.trans hlive
  obtain ⟨hrelease, hothers⟩ := Registry.alive_release h.reachable halive
  have hact := act_drop_some hg
  refine ⟨by rw [hact], g.probe.closed_close, ?_, ?_, by rw [hact]; rfl, ?_, fun other hother => ?_⟩
  · show g.probe.close.2.usage.closes = _
    rw [Probe.usage_close]
  · rw [hact]
    exact ⟨older, label, newer, hlabel, halive, hrelease, hothers⟩
  · obtain ⟨hlt, -⟩ := List.getElem?_eq_some_iff.mp hguard
    rw [hact, guard?, List.getElem?_set_self hlt]
    rfl
  · rw [hact, guard?, List.getElem?_set_ne hother.symm]
    rfl

/-- What becomes of one guard, if the registry goes along. -/
theorem set (h : s.Kept labels) {slot : Nat} {g : Guard} (hg : s.guard? slot = some g)
    {registry : Registry} (hreachable : registry.Reachable) {guard : Option Guard}
    (hentry : ∀ older label newer, s.registry.alive = older ++ (g.id, label) :: newer →
      registry.alive = older ++ (guard.map fun g => (g.id, label)).toList ++ newer) :
    Kept { registry, guards := s.guards.set slot guard } labels := by
  obtain ⟨older, label, newer, -, hlive, hset⟩ :=
    live_set h.length (Option.join_eq_some_iff.mp hg)
  refine ⟨hreachable, List.length_set.trans h.length, ?_⟩
  exact (hentry older label newer (h.alive.trans hlive)).trans (hset guard).symm

theorem take_act (h : s.Kept labels) (a : Action) :
    (s.act a).2.Kept (labels ++ (Event.act a).label?.toList) := by
  cases a with
  | register label response =>
    refine ⟨h.reachable.register label (.start response), ?_, ?_⟩
    · show (s.guards ++ [_]).length = (labels ++ [label]).length
      rw [List.length_append, List.length_append, h.length, List.length_singleton,
        List.length_singleton]
    · show s.registry.alive ++ [(s.registry.registered, label)] = _
      rw [h.alive]
      exact (live_concat (g := ⟨s.registry.registered, .start response⟩) label h.length).symm
  | drop slot =>
    show Kept _ (labels ++ [])
    rw [List.append_nil]
    rcases hg : s.guard? slot with _ | g
    · rwa [act_drop_none hg]
    · rw [act_drop_some hg]
      refine h.set hg (h.reachable.release g.id) fun older label newer halive => ?_
      rw [(Registry.alive_release h.reachable halive).1, Option.map_none, Option.toList_none,
        List.append_nil]
  | call slot c =>
    show Kept _ (labels ++ [])
    rw [List.append_nil]
    rcases hg : s.guard? slot with _ | g
    · rwa [act_call_none hg]
    · rw [act_call_some hg]
      refine h.set hg h.reachable fun older label newer halive => ?_
      rw [halive, Option.map_some, Option.toList_some, List.append_assoc, List.singleton_append]

/-- A run that gives back what it opens does not show in the slots. -/
theorem run (h : s.Kept labels) {registry : Registry} (hreachable : registry.Reachable)
    (halive : registry.alive = s.registry.alive) : Kept { s with registry } (labels ++ []) := by
  rw [List.append_nil]
  exact ⟨hreachable, h.length, halive.trans h.alive⟩

theorem take (h : s.Kept labels) (e : Event) : (e.take s).Kept (labels ++ e.label?.toList) := by
  have hreachable : (e.take s).registry.Reachable := by
    rw [registry_take]
    exact Registry.reachable_perform _ h.reachable
  cases e with
  | act a => exact h.take_act a
  | evaluate p plan ctx => exact h.run hreachable (p.released_evaluate h.reachable).alive
  | probeValues plan ctx =>
    exact h.run hreachable (IndexCondition.released_probeValues h.reachable).alive
  | restrict f plans ctx rows =>
    exact h.run hreachable (f.released_restrictBy f.conditions rows h.reachable).alive

theorem steps : ∀ {s : Slots} {labels : List String}, s.Kept labels → ∀ es : List Event,
    (s.steps es).Kept (labels ++ es.filterMap Event.label?)
  | _, labels, h, [] => by
    rw [List.filterMap_nil, List.append_nil]
    exact h
  | s, labels, h, e :: es => by
    have hrest := (h.take e).steps es
    rw [List.append_assoc] at hrest
    have hlabels : e.label?.toList ++ es.filterMap Event.label? = (e :: es).filterMap Event.label? := by
      rcases hlabel : e.label? with _ | label
      · rw [List.filterMap_cons_none hlabel]
        rfl
      · rw [List.filterMap_cons_some hlabel]
        rfl
    rwa [hlabels] at hrest

end Kept

/-- Dropping the slot frees the guard in it; if there is none, or none any more, nothing happens. -/
def DropsOnce (s : Slots) (labels : List String) (slot : Nat) : Prop :=
  s.guard? slot = none ∧ s.act (.drop slot) = (.dropped false, s) ∨
    ∃ g, s.guard? slot = some g ∧ s.Frees labels slot g

/-- What is run over the registry closes each probe it is given once, and takes its guard back. -/
structure RunsReleased (s : Slots) : Prop where
  evaluate : ∀ (p : Predicate) (plan : Plan) (ctx : Context),
    (p.evaluate plan ctx s.registry).Released plan ctx s.registry
  probeValues : ∀ (plan : Plan) (ctx : Context),
    (IndexCondition.probeValues plan ctx s.registry).Released plan ctx s.registry
  restrict : ∀ (f : TableFilter) (plans : PlanId → Plan) (ctx : Context) (rows : List Row),
    (f.restrict plans ctx rows s.registry).Released plans ctx (f.applied plans ctx f.conditions)
      s.registry

end Slots

/-- However guards are registered and dropped, and whatever is run in between, they are numbered from
0 on in the order of registration, and the registry counts and lists those that are left; a registry
kept in a map shows the same. -/
theorem registry_is_exact (es : List Slots.Event) :
    let s := Slots.steps {} es
    let labels := es.filterMap Slots.Event.label?
    let ops := Slots.trace {} es
    let map := ({} : RegistryMap).perform ops
    (s.registry = (Registry.perform {} ops).2 ∧
        (Registry.perform {} ops).1 = List.range s.registry.registered) ∧
      (s.guards.length = labels.length ∧
        s.registry.openCount = s.guards.countP Option.isSome) ∧
      (s.registry.openLabels.Perm ((Slots.live s.guards labels).map (·.2)) ∧
        s.registry.openLabels.Pairwise (· ≤ ·)) ∧
      (map.1 = List.range map.2.total ∧ map.2.total = s.registry.registered ∧
        map.2.openCount = s.registry.openCount ∧ map.2.openLabels = s.registry.openLabels) ∧
      (∀ slot, s.DropsOnce labels slot) ∧ s.RunsReleased := by
  intro s labels ops map
  have hkept : s.Kept labels := Slots.Kept.empty.steps es
  have hregistry : s.registry = (Registry.perform {} ops).2 := Slots.registry_steps {} es
  obtain ⟨n, hids, hregistered⟩ := Registry.ids_perform {} ops
  rw [← hregistry] at hregistered
  have hn : s.registry.registered = n := hregistered.trans (Nat.zero_add n)
  have hrange : (Registry.perform {} ops).1 = List.range s.registry.registered := by
    rw [hids, hn, List.range_eq_range']
  obtain ⟨hmapIds, hmap⟩ := RegistryMap.represents_empty.perform .empty ops
  rw [← hregistry] at hmap
  refine ⟨⟨hregistry, hrange⟩, ⟨hkept.length, ?_⟩, ⟨?_, Registry.pairwise_mergeSort_labels _⟩,
    ⟨?_, hmap.total, hmap.openCount, hmap.openLabels⟩, fun slot => ?_, ?_⟩
  · rw [Registry.openCount, hkept.alive, Slots.length_live hkept.length]
  · rw [← hkept.alive]
    exact List.mergeSort_perm _ _
  · exact (hmapIds.trans hrange).trans (congrArg List.range hmap.total.symm)
  · rcases hg : s.guard? slot with _ | g
    · exact .inl ⟨hg, Slots.act_drop_none hg⟩
    · exact .inr ⟨g, hg, hkept.frees hg⟩
  · exact ⟨fun p _ _ => p.released_evaluate hkept.reachable,
      fun _ _ => IndexCondition.released_probeValues hkept.reachable,
      fun f _ _ rows => f.released_restrictBy f.conditions rows hkept.reachable⟩

end QuantifiedComparison
