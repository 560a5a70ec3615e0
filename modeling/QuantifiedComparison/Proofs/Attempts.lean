import Mathlib.Data.List.Forall2
import QuantifiedComparison.Attempt

/-!
# Attempts on lists

A change made to each element of a list in turn goes through if it goes through on every element
(`each_error_eq_none_iff`); otherwise it is made up to the element that stops it
(`exists_stop_of_each`). What the change keeps of every element it keeps of the list either way, and
it is made once and for all on the list if it is on every element (`each_again`).
-/

namespace QuantifiedComparison.Attempt

variable {α β : Type} {change : α → Attempt α}

theorem map_eq_of_forall₂ {f : α → β} {as bs : List α} (h : List.Forall₂ (fun a b => f b = f a) as bs) :
    bs.map f = as.map f := by
  rw [← List.forall₂_eq_eq_eq, List.forall₂_map_left_iff, List.forall₂_map_right_iff]
  exact h.flip

theorem each_cons_error {a : α} {e : Error} (h : (change a).error = some e) (as : List α) :
    each change (a :: as) = ⟨(change a).after :: as, some e⟩ := by
  simp only [each, h]

theorem each_cons_success {a : α} (h : (change a).error = none) (as : List α) :
    each change (a :: as) = (each change as).map ((change a).after :: ·) := by
  simp only [each, h]

/-- What a change keeps of every element it keeps of the list, also when it is stopped. -/
theorem each_forall {P : α → Prop} (hchange : ∀ a, P a → P (change a).after) :
    ∀ {as : List α}, (∀ a ∈ as, P a) → ∀ a ∈ (each change as).after, P a
  | [], _ => nofun
  | a :: as, h => by
    obtain ⟨ha, has⟩ := List.forall_mem_cons.mp h
    rcases herror : (change a).error with _ | e
    · rw [each_cons_success herror]
      exact List.forall_mem_cons.mpr ⟨hchange a ha, each_forall hchange has⟩
    · rw [each_cons_error herror]
      exact List.forall_mem_cons.mpr ⟨hchange a ha, has⟩

/-- What relates every element to itself and to what the change makes of it relates the lists. -/
theorem forall₂_each {R : α → α → Prop} (hrefl : ∀ a, R a a) (hchange : ∀ a, R a (change a).after) :
    ∀ as : List α, List.Forall₂ R as (each change as).after
  | [] => .nil
  | a :: as => by
    rcases herror : (change a).error with _ | e
    · rw [each_cons_success herror]
      exact .cons (hchange a) (forall₂_each hrefl hchange as)
    · rw [each_cons_error herror]
      exact .cons (hchange a) (List.forall₂_same.mpr fun b _ => hrefl b)

theorem length_each (as : List α) : (each change as).after.length = as.length :=
  (forall₂_each (R := fun _ _ => True) (fun _ => trivial) (fun _ => trivial) as).length_eq.symm

/-- A change that keeps what `g` sees of each element keeps what it sees of the list. -/
theorem map_each {g : α → β} (h : ∀ a, g (change a).after = g a) (as : List α) :
    (each change as).after.map g = as.map g :=
  map_eq_of_forall₂ (forall₂_each (R := fun a b => g b = g a) (fun _ => rfl) h as)

theorem each_error_eq_none_iff : ∀ {as : List α},
    (each change as).error = none ↔ ∀ a ∈ as, (change a).error = none
  | [] => by simp [each]
  | a :: as => by
    rcases herror : (change a).error with _ | e
    · rw [each_cons_success herror]
      simpa [map, herror] using each_error_eq_none_iff
    · simp [each_cons_error herror, herror]

theorem after_each : ∀ {as : List α}, (each change as).error = none →
    (each change as).after = as.map fun a => (change a).after
  | [], _ => rfl
  | a :: as, h => by
    obtain ⟨ha, has⟩ := List.forall_mem_cons.mp (each_error_eq_none_iff.mp h)
    rw [each_cons_success ha]
    exact congrArg ((change a).after :: ·) (after_each (each_error_eq_none_iff.mpr has))

/-- Where making the change of an element again changes nothing, and stops as it did the first time,
so does making it again on the list. -/
theorem each_again (h : ∀ a, change (change a).after = change a) :
    ∀ as : List α, each change (each change as).after = each change as
  | [] => rfl
  | a :: as => by
    rcases herror : (change a).error with _ | e
    · have hagain : (change (change a).after).error = none := by rw [h, herror]
      rw [each_cons_success herror]
      show each change ((change a).after :: (each change as).after) = _
      rw [each_cons_success hagain, each_again h as, h]
    · have hagain : (change (change a).after).error = some e := by rw [h, herror]
      rw [each_cons_error herror, each_cons_error hagain, h]

/-- A change that is stopped was made up to the element that stopped it. -/
theorem exists_stop_of_each {e : Error} : ∀ {as : List α}, (each change as).error = some e →
    ∃ before a after, as = before ++ a :: after ∧ (∀ b ∈ before, (change b).error = none)
      ∧ (change a).error = some e
      ∧ (each change as).after = before.map (fun b => (change b).after) ++ (change a).after :: after
  | a :: as, h => by
    rcases herror : (change a).error with _ | e'
    · rw [each_cons_success herror] at h ⊢
      obtain ⟨before, b, after, rfl, hbefore, hb, heq⟩ := exists_stop_of_each h
      refine ⟨a :: before, b, after, rfl, List.forall_mem_cons.mpr ⟨herror, hbefore⟩, hb, ?_⟩
      exact congrArg ((change a).after :: ·) heq
    · rw [each_cons_error herror] at h ⊢
      exact ⟨[], a, as, rfl, by simp, by rw [herror, ← h], rfl⟩

end QuantifiedComparison.Attempt
