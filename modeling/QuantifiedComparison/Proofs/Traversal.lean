import Mathlib.Data.List.Forall2

/-!
# Traversals that may fail

A traversal that succeeds pairs every element with its image, in order (`mapM_ok_iff`), and one that
fails does so at the first element for which its function does (`exists_of_mapM_error`,
`mapM_error_iff`). Traversals and searches depend on their function at the elements alone.
-/

namespace QuantifiedComparison

variable {ε α β : Type} {f : α → Except ε β}

theorem mapM_cons_ok_iff {x : α} {xs : List α} {zs : List β} :
    (x :: xs).mapM f = .ok zs ↔ ∃ y ys, f x = .ok y ∧ xs.mapM f = .ok ys ∧ zs = y :: ys := by
  rw [List.mapM_cons]
  rcases f x with e | y
  · exact ⟨nofun, nofun⟩
  rcases xs.mapM f with e | ys
  · exact ⟨nofun, nofun⟩
  constructor
  · intro h
    exact ⟨y, ys, rfl, rfl, (Except.ok.inj h).symm⟩
  · rintro ⟨_, _, hy, hys, rfl⟩
    cases hy
    cases hys
    rfl

theorem mapM_ok_iff {xs : List α} {ys : List β} :
    xs.mapM f = .ok ys ↔ List.Forall₂ (fun x y => f x = .ok y) xs ys := by
  induction xs generalizing ys with
  | nil =>
    rw [List.forall₂_nil_left_iff]
    exact ⟨fun h => (Except.ok.inj h).symm, fun h => by rw [h]; rfl⟩
  | cons x xs ih =>
    rw [mapM_cons_ok_iff, List.forall₂_cons_left_iff]
    simp only [ih]

theorem mem_of_mapM_ok {xs : List α} {ys : List β} (h : xs.mapM f = .ok ys) {y : β}
    (hy : y ∈ ys) : ∃ x ∈ xs, f x = .ok y := by
  induction mapM_ok_iff.mp h with
  | nil => cases hy
  | @cons x z xs ys hx hrest ih =>
    rcases List.mem_cons.mp hy with rfl | hy
    · exact ⟨x, List.mem_cons_self, hx⟩
    · obtain ⟨w, hw, hfw⟩ := ih (mapM_ok_iff.mpr hrest) hy
      exact ⟨w, List.mem_cons_of_mem _ hw, hfw⟩

theorem ok_of_mapM_ok {xs : List α} {ys : List β} (h : xs.mapM f = .ok ys) {x : α}
    (hx : x ∈ xs) : ∃ y ∈ ys, f x = .ok y := by
  induction mapM_ok_iff.mp h with
  | nil => cases hx
  | @cons w y xs ys hw hrest ih =>
    rcases List.mem_cons.mp hx with rfl | hx
    · exact ⟨y, List.mem_cons_self, hw⟩
    · obtain ⟨z, hz, hfz⟩ := ih (mapM_ok_iff.mpr hrest) hx
      exact ⟨z, List.mem_cons_of_mem _ hz, hfz⟩

theorem length_of_mapM_ok {xs : List α} {ys : List β} (h : xs.mapM f = .ok ys) :
    ys.length = xs.length :=
  (mapM_ok_iff.mp h).length_eq.symm

theorem getElem?_of_mapM_ok {xs : List α} {ys : List β} (h : xs.mapM f = .ok ys) {i : Nat} {x : α}
    (hx : xs[i]? = some x) : ∃ y, ys[i]? = some y ∧ f x = .ok y := by
  induction mapM_ok_iff.mp h generalizing i with
  | nil => cases hx
  | @cons w y xs ys hw hrest ih =>
    cases i with
    | zero =>
      obtain rfl := Option.some.inj hx
      exact ⟨y, rfl, hw⟩
    | succ i => exact ih (mapM_ok_iff.mpr hrest) hx

/-- A traversal fails at the first element at which its function does. -/
theorem exists_of_mapM_error {e : ε} : ∀ {xs : List α}, xs.mapM f = .error e →
    ∃ (i : Nat) (x : α), xs[i]? = some x ∧ f x = .error e ∧
      ∀ j < i, ∀ w, xs[j]? = some w → ∃ z, f w = .ok z
  | x :: xs, h => by
    rw [List.mapM_cons] at h
    rcases hx : f x with e' | y
    · rw [hx] at h
      obtain rfl := Except.error.inj h
      exact ⟨0, x, rfl, hx, nofun⟩
    rcases hxs : xs.mapM f with e' | ys
    · rw [hx, hxs] at h
      obtain rfl := Except.error.inj h
      obtain ⟨i, w, hw, hfail, hbefore⟩ := exists_of_mapM_error hxs
      refine ⟨i + 1, w, hw, hfail, fun j hj v hv => ?_⟩
      cases j with
      | zero =>
        obtain rfl := Option.some.inj hv
        exact ⟨y, hx⟩
      | succ j => exact hbefore j (Nat.lt_of_succ_lt_succ hj) v hv
    · rw [hx, hxs] at h
      cases h

theorem mapM_error_iff {e : ε} : ∀ {xs : List α},
    xs.mapM f = .error e ↔ ∃ before x after, xs = before ++ x :: after ∧
      (∀ w ∈ before, ∃ y, f w = .ok y) ∧ f x = .error e
  | [] => by simp [pure, Except.pure]
  | x :: xs => by
    rw [List.mapM_cons]
    constructor
    · intro h
      rcases hx : f x with e' | y
      · rw [hx] at h
        obtain rfl := Except.error.inj h
        exact ⟨[], x, xs, rfl, nofun, hx⟩
      rcases hxs : xs.mapM f with e' | ys
      · rw [hx, hxs] at h
        obtain rfl := Except.error.inj h
        obtain ⟨before, w, after, rfl, hbefore, hw⟩ := mapM_error_iff.mp hxs
        exact ⟨x :: before, w, after, rfl, List.forall_mem_cons.mpr ⟨⟨y, hx⟩, hbefore⟩, hw⟩
      · rw [hx, hxs] at h
        cases h
    · rintro ⟨before, w, after, hsplit, hbefore, hw⟩
      rcases before with _ | ⟨x', before⟩
      · obtain ⟨rfl, -⟩ := List.cons.inj hsplit
        rw [hw]
        rfl
      · obtain ⟨rfl, hrest⟩ := List.cons.inj hsplit
        obtain ⟨⟨y, hy⟩, hbefore⟩ := List.forall_mem_cons.mp hbefore
        rw [hy, mapM_error_iff.mpr ⟨before, w, after, hrest, hbefore, hw⟩]
        rfl

/-- Traversals of two lists by functions that agree on the elements in the same place. -/
theorem mapM_congr₂ {γ : Type} {g : γ → Except ε β} {xs : List α} {ys : List γ}
    (h : List.Forall₂ (fun x y => g y = f x) xs ys) : ys.mapM g = xs.mapM f := by
  induction h with
  | nil => rfl
  | cons hx _ ih => rw [List.mapM_cons, List.mapM_cons, hx, ih]

theorem mapM_congr {g : α → Except ε β} {xs : List α} (h : ∀ x ∈ xs, f x = g x) :
    xs.mapM f = xs.mapM g :=
  mapM_congr₂ (List.forall₂_same.mpr h)

theorem find?_congr {p q : α → Bool} {xs : List α} (h : ∀ x ∈ xs, p x = q x) :
    xs.find? p = xs.find? q := by
  induction xs with
  | nil => rfl
  | cons x xs ih =>
    obtain ⟨hx, hxs⟩ := List.forall_mem_cons.mp h
    rw [List.find?_cons, List.find?_cons, hx, ih hxs]

/-- A traversal in which nothing fails is a map. -/
theorem mapM_eq_map {g : α → β} {xs : List α} (h : ∀ x ∈ xs, f x = .ok (g x)) :
    xs.mapM f = .ok (xs.map g) := by
  rw [mapM_ok_iff, List.forall₂_map_right_iff, List.forall₂_same]
  exact h

end QuantifiedComparison
