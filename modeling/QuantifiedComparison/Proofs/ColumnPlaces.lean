import QuantifiedComparison.Plan.Values
import QuantifiedComparison.Proofs.Places

/-!
# The places of columns

The columns of an expression and of a VALUES list can be changed in place, and a scope that binds
what it is given binds it column by column (`pointwise_bind`).
-/

namespace QuantifiedComparison

namespace Expr

def mapColumns (f : Column → Column) : Expr → Expr
  | literal v => literal v
  | column c => column (f c)
  | binary o l r => binary o (l.mapColumns f) (r.mapColumns f)

theorem columns_mapColumns (f : Column → Column) :
    ∀ e : Expr, (e.mapColumns f).columns = e.columns.map f
  | literal _ => rfl
  | column _ => rfl
  | binary o l r => by
    rw [mapColumns, columns, columns_mapColumns f l, columns_mapColumns f r, columns,
      List.map_append]

theorem mapColumns_id : ∀ e : Expr, e.mapColumns id = e
  | literal _ => rfl
  | column _ => rfl
  | binary o l r => by rw [mapColumns, mapColumns_id l, mapColumns_id r]

theorem mapColumns_mapColumns (f g : Column → Column) :
    ∀ e : Expr, (e.mapColumns f).mapColumns g = e.mapColumns (g ∘ f)
  | literal _ => rfl
  | column _ => rfl
  | binary o l r => by
    rw [mapColumns, mapColumns, mapColumns_mapColumns f g l, mapColumns_mapColumns f g r,
      mapColumns]

theorem mapColumns_congr {f g : Column → Column} :
    ∀ {e : Expr}, (∀ c ∈ e.columns, f c = g c) → e.mapColumns f = e.mapColumns g
  | literal _, _ => rfl
  | column c, h => congrArg column (h c (List.mem_singleton_self c))
  | binary o l r, h => by
    obtain ⟨hl, hr⟩ := List.forall_mem_append.mp h
    rw [mapColumns, mapColumns_congr hl, mapColumns_congr hr, mapColumns]

def columnPlaces : Places Expr Column where
  list := columns
  map := mapColumns
  list_map := columns_mapColumns
  map_id := mapColumns_id
  map_map := mapColumns_mapColumns
  map_congr := mapColumns_congr

section Bind

variable {s : Scope} {level : QueryLevel} {o : Arithmetic} {l r : Expr}

theorem bind_binary_left {e : Error} (h : (l.bind s level).error = some e) :
    (binary o l r).bind s level = ⟨binary o (l.bind s level).after r, some e⟩ := by
  simp only [bind, h]

theorem bind_binary_success (h : (l.bind s level).error = none) :
    (binary o l r).bind s level
      = ⟨binary o (l.bind s level).after (r.bind s level).after, (r.bind s level).error⟩ := by
  simp only [bind, h, Attempt.map]

end Bind

theorem pointwise_bind (s : Scope) (level : QueryLevel) (e : Expr) :
    Attempt.Pointwise columnPlaces (·.bind s level) e (e.bind s level) := by
  induction e with
  | literal v =>
    refine ⟨by simp [bind, columnPlaces, columns], fun _ => rfl, fun e he => ?_⟩
    cases he
  | column c =>
    refine ⟨?_, fun _ => rfl, fun e he => ⟨c, List.mem_singleton_self c, he⟩⟩
    simp [bind, Attempt.map, columnPlaces, columns]
  | binary o l r ihl ihr =>
    rcases herror : (l.bind s level).error with _ | e
    · rw [bind_binary_success herror]
      refine ⟨?_, fun hnone => ?_, fun e he => ?_⟩
      · rw [ihr.error_eq_none_iff]
        exact ⟨fun h => List.forall_mem_append.mpr ⟨ihl.error_eq_none_iff.mp herror, h⟩,
          fun h => (List.forall_mem_append.mp h).2⟩
      · show binary o _ _ = _
        rw [ihl.after herror, ihr.after hnone]
        rfl
      · obtain ⟨c, hc, hce⟩ := ihr.failure e he
        exact ⟨c, List.mem_append_right _ hc, hce⟩
    · obtain ⟨c, hc, hce⟩ := ihl.failure e herror
      rw [bind_binary_left herror]
      refine ⟨⟨fun hnone => ?_, fun h => ?_⟩, fun hnone => ?_, fun e' he => ?_⟩
      · cases hnone
      · rw [h c (List.mem_append_left _ hc)] at hce
        cases hce
      · cases hnone
      · obtain rfl := Option.some.inj he
        exact ⟨c, List.mem_append_left _ hc, hce⟩

end Expr

namespace ValuesPlan

def rowPlaces : Places ValuesPlan (List Expr) where
  list := rows
  map f q := { q with rows := q.rows.map f }
  list_map _ _ := rfl
  map_id q := by rw [List.map_id]
  map_map f g q := by rw [List.map_map]
  map_congr h := by rw [List.map_congr_left h]

def columnPlaces : Places ValuesPlan Column :=
  rowPlaces.within ((Places.elements Expr).within Expr.columnPlaces)

theorem pointwise_bind (s : Scope) (level : QueryLevel) (q : ValuesPlan) :
    Attempt.Pointwise columnPlaces (·.bind s level) q (q.bind s level) := by
  have hrows := Attempt.pointwise_each (Attempt.each (·.bind s level)) q.rows
  have hplan : Attempt.Pointwise rowPlaces (Attempt.each (·.bind s level)) q (q.bind s level) :=
    ⟨hrows.error_eq_none_iff,
      fun h => congrArg (fun rows => { q with rows }) (hrows.after h), hrows.failure⟩
  exact hplan.within fun row =>
    (Attempt.pointwise_each _ row).within (Expr.pointwise_bind s level)

end ValuesPlan

end QuantifiedComparison
