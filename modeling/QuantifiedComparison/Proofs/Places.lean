import QuantifiedComparison.Proofs.Attempts

/-!
# Changes in place

An expression has columns and a plan has cells, each in its place: they can be listed and they can
be changed, and what is changed stands where it stood (`Places`). Places in places are places again.

An attempt on the whole may come down to attempts on what stands in the places (`Pointwise`). If each
of several attempts does, then making them in turn on the whole comes down to making them in turn in
every place (`pointwise_inTurn`).
-/

namespace QuantifiedComparison

/-- Where elements stand in a whole. -/
structure Places (τ α : Type) where
  list : τ → List α
  map : (α → α) → τ → τ
  list_map (f : α → α) (t : τ) : list (map f t) = (list t).map f
  map_id (t : τ) : map id t = t
  map_map (f g : α → α) (t : τ) : map g (map f t) = map (g ∘ f) t
  map_congr {f g : α → α} {t : τ} (h : ∀ a ∈ list t, f a = g a) : map f t = map g t

namespace Places

variable {τ σ α : Type}

def elements (α : Type) : Places (List α) α where
  list as := as
  map := List.map
  list_map _ _ := rfl
  map_id := List.map_id
  map_map _ _ _ := List.map_map
  map_congr := List.map_congr_left

/-- The places of `Q` in what stands in the places of `P`. -/
def within (P : Places τ σ) (Q : Places σ α) : Places τ α where
  list t := (P.list t).flatMap Q.list
  map f := P.map (Q.map f)
  list_map f t := by
    rw [P.list_map, List.flatMap_map, List.map_flatMap]
    exact List.flatMap_congr fun s _ => Q.list_map f s
  map_id t := (P.map_congr fun s _ => Q.map_id s).trans (P.map_id t)
  map_map f g t := (P.map_map _ _ t).trans (P.map_congr fun s _ => Q.map_map f g s)
  map_congr h := P.map_congr fun _ hs =>
    Q.map_congr fun a ha => h a (List.mem_flatMap.mpr ⟨_, hs, ha⟩)

end Places

namespace Attempt

variable {τ σ α : Type}

/-- An attempt at a whole that comes out as the attempts on what stands in the places do. -/
structure Pointwise (P : Places τ α) (change : α → Attempt α) (t : τ) (r : Attempt τ) : Prop where
  error_eq_none_iff : r.error = none ↔ ∀ a ∈ P.list t, (change a).error = none
  after : r.error = none → r.after = P.map (fun a => (change a).after) t
  failure : ∀ e, r.error = some e → ∃ a ∈ P.list t, (change a).error = some e

theorem pointwise_each (change : α → Attempt α) (as : List α) :
    Pointwise (.elements α) change as (each change as) where
  error_eq_none_iff := each_error_eq_none_iff
  after := after_each
  failure e h := by
    obtain ⟨before, a, after, rfl, -, ha, -⟩ := exists_stop_of_each h
    exact ⟨a, List.mem_append_cons_self, ha⟩

theorem Pointwise.within {P : Places τ σ} {Q : Places σ α} {outer : σ → Attempt σ}
    {inner : α → Attempt α} {t : τ} {r : Attempt τ} (h : Pointwise P outer t r)
    (hinner : ∀ s, Pointwise Q inner s (outer s)) : Pointwise (P.within Q) inner t r where
  error_eq_none_iff := by
    rw [h.error_eq_none_iff]
    simp only [(hinner _).error_eq_none_iff, Places.within, List.forall_mem_flatMap]
  after hnone := (h.after hnone).trans
    (P.map_congr fun s hs => (hinner s).after (h.error_eq_none_iff.mp hnone s hs))
  failure e he := by
    obtain ⟨s, hs, hse⟩ := h.failure e he
    obtain ⟨a, ha, hae⟩ := (hinner s).failure e hse
    exact ⟨a, List.mem_flatMap.mpr ⟨s, hs, ha⟩, hae⟩

/-- Without an error every place holds what an attempt that went through has left there. -/
theorem Pointwise.forall_of_success {P : Places τ α} {change : α → Attempt α} {t : τ}
    {r : Attempt τ} (h : Pointwise P change t r) {Q : α → Prop}
    (hQ : ∀ a, (change a).error = none → Q (change a).after) (hnone : r.error = none) :
    ∀ a ∈ P.list r.after, Q a := by
  rw [h.after hnone, P.list_map]
  exact List.forall_mem_map.mpr fun a ha => hQ a (h.error_eq_none_iff.mp hnone a ha)

/-- Changes made one after the other, up to the first that is stopped. -/
def inTurn (change : σ → α → Attempt α) : List σ → α → Attempt α
  | [], a => ⟨a, none⟩
  | s :: ss, a =>
    match (change s a).error with
    | some e => ⟨(change s a).after, some e⟩
    | none => inTurn change ss (change s a).after

section InTurn

variable (change : σ → α → Attempt α)

theorem inTurn_cons_error {s : σ} {a : α} {e : Error} (h : (change s a).error = some e)
    (ss : List σ) : inTurn change (s :: ss) a = ⟨(change s a).after, some e⟩ := by
  simp only [inTurn, h]

theorem inTurn_cons_success {s : σ} {a : α} (h : (change s a).error = none) (ss : List σ) :
    inTurn change (s :: ss) a = inTurn change ss (change s a).after := by
  simp only [inTurn, h]

variable {change} {P : Places τ α} {whole : σ → τ → Attempt τ}

/-- Changes of a whole that are made in place can be made in one place after the other instead. -/
theorem pointwise_inTurn (h : ∀ s t, Pointwise P (change s) t (whole s t)) :
    ∀ (ss : List σ) (t : τ), Pointwise P (inTurn change ss) t (inTurn whole ss t)
  | [], t => ⟨by simp [inTurn], fun _ => (P.map_id t).symm, nofun⟩
  | s :: ss, t => by
    rcases herror : (whole s t).error with _ | e
    · have hsuccess := (h s t).error_eq_none_iff.mp herror
      have hrest := pointwise_inTurn h ss (P.map (fun a => (change s a).after) t)
      have hcongr : ∀ a ∈ P.list t, inTurn change ss (change s a).after = inTurn change (s :: ss) a :=
        fun a ha => (inTurn_cons_success change (hsuccess a ha) ss).symm
      rw [inTurn_cons_success whole herror, (h s t).after herror]
      refine ⟨?_, fun hnone => ?_, fun e he => ?_⟩
      · rw [hrest.error_eq_none_iff, P.list_map, List.forall_mem_map]
        exact forall₂_congr fun a ha => by rw [hcongr a ha]
      · rw [hrest.after hnone, P.map_map]
        exact P.map_congr fun a ha => congrArg Attempt.after (hcongr a ha)
      · obtain ⟨b, hb, hbe⟩ := hrest.failure e he
        rw [P.list_map] at hb
        obtain ⟨a, ha, rfl⟩ := List.mem_map.mp hb
        exact ⟨a, ha, by rw [← hcongr a ha, hbe]⟩
    · obtain ⟨a, ha, hae⟩ := (h s t).failure e herror
      have hstopped : (inTurn change (s :: ss) a).error = some e := by
        rw [inTurn_cons_error change hae]
      rw [inTurn_cons_error whole herror]
      refine ⟨⟨nofun, fun hall => ?_⟩, nofun, fun e' he => ?_⟩
      · rw [hall a ha] at hstopped
        cases hstopped
      · exact ⟨a, ha, by rw [hstopped, ← he]⟩

end InTurn

end Attempt

end QuantifiedComparison
