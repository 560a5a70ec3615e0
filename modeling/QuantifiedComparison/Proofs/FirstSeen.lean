import QuantifiedComparison.Proofs.Conjunction

/-!
# Probe values are the first ones seen

An index condition reads the first value of every row of its query, also of rows that hold several,
and skips the rows that hold none. Of these values it collects the fresh ones, in the order of the
rows (`IndexCondition.exists_keptAt`, `IndexCondition.probeValues_are_first_seen`). So it has every
not-a-number, since that equals nothing before it, and of the two zeros the one that comes first.
-/

namespace QuantifiedComparison

theorem Plan.firsts_of_reads {plan : Plan} {ctx : Context} {response : Response}
    (hrun : plan.run ctx = .ok response)
    (hreads : ∀ n ≤ response.table.rows.length, response.faults.onNext n = none) :
    plan.firsts ctx = .ok (response.table.rows.filterMap List.head?) := by
  rw [firsts, hrun]
  dsimp only [Bind.bind, Except.bind]
  rw [Probe.toRows_of_reads hreads]
  rfl

namespace IndexCondition

section Kept

variable {ws vs : List Value} {positions : List Nat}

/-- The values are those at the positions, which are the ones of the fresh values, in order. -/
structure KeptAt (ws : List Value) (positions : List Nat) (vs : List Value) : Prop where
  increasing : positions.Pairwise (· < ·)
  fresh : ∀ i, i ∈ positions ↔ ∃ w, Fresh ws i w
  values : positions.map (ws[·]?) = vs.map some

namespace KeptAt

variable (h : KeptAt ws positions vs)
include h

theorem lt_of_mem {i : Nat} (hi : i ∈ positions) : i < ws.length := by
  obtain ⟨w, hw⟩ := (h.fresh i).mp hi
  exact hw.lt

theorem map_concat (w : Value) : positions.map ((ws ++ [w])[·]?) = vs.map some := by
  rw [← h.values]
  exact List.map_congr_left fun i hi => List.getElem?_append_left (h.lt_of_mem hi)

theorem concat_fresh {w : Value}
    (hfresh : ∀ i v, Fresh (ws ++ [w]) i v ↔ Fresh ws i v ∨ i = ws.length ∧ v = w) :
    KeptAt (ws ++ [w]) (positions ++ [ws.length]) (vs ++ [w]) where
  increasing := List.pairwise_append.mpr ⟨h.increasing, List.pairwise_singleton .., fun i hi j hj =>
    List.mem_singleton.mp hj ▸ h.lt_of_mem hi⟩
  fresh i := by
    simp only [hfresh, List.mem_append, List.mem_singleton, h.fresh, exists_or, exists_and_left,
      exists_eq, and_true]
  values := by
    rw [List.map_append, List.map_append, h.map_concat, List.map_singleton,
      List.getElem?_concat_length, List.map_singleton]

theorem concat_stale {w : Value} (hfresh : ∀ i v, Fresh (ws ++ [w]) i v ↔ Fresh ws i v) :
    KeptAt (ws ++ [w]) positions vs where
  increasing := h.increasing
  fresh i := by simp only [hfresh, h.fresh]
  values := h.map_concat w

theorem exists_position {v : Value} (hv : v ∈ vs) : ∃ i, Fresh ws i v := by
  have hmem : some v ∈ positions.map (ws[·]?) := by
    rw [h.values]
    exact List.mem_map_of_mem hv
  obtain ⟨i, hi, hget⟩ := List.mem_map.mp hmem
  obtain ⟨w, hw⟩ := (h.fresh i).mp hi
  obtain rfl := Option.some.inj (hw.1.symm.trans hget)
  exact ⟨i, hw⟩

theorem null_not_mem : Value.null ∉ vs := by
  intro hnull
  obtain ⟨i, -, hne, -⟩ := h.exists_position hnull
  exact hne rfl

theorem pairwise_distinct : vs.Pairwise fun u v => u.equals v = false := by
  -- Of two positions the later one holds a value that equals none before it.
  have hpositions : positions.Pairwise fun i j =>
      ∀ u, ws[i]? = some u → ∀ v, ws[j]? = some v → u.equals v = false := by
    refine h.increasing.imp_of_mem fun {i j} hi hj hlt u hu v hv => ?_
    obtain ⟨w, hw, -, hbefore⟩ := (h.fresh j).mp hj
    obtain rfl := Option.some.inj (hw.symm.trans hv)
    exact hbefore i hlt u hu
  have hvalues : (positions.map (ws[·]?)).Pairwise fun x y =>
      ∀ u, x = some u → ∀ v, y = some v → u.equals v = false :=
    List.pairwise_map.mpr hpositions
  rw [h.values, List.pairwise_map] at hvalues
  exact hvalues.imp fun hdistinct => hdistinct _ rfl _ rfl

end KeptAt

theorem exists_keptAt (ws : List Value) : ∃ positions, KeptAt ws positions (collected ws) := by
  induction ws using List.reverseRecOn with
  | nil => exact ⟨[], .nil, fun i => by simp [Fresh], rfl⟩
  | append_singleton ws w ih =>
    obtain ⟨positions, h⟩ := ih
    rcases collected_concat_cases ws w with ⟨hvalues, hfresh⟩ | ⟨hvalues, hfresh⟩
    · exact ⟨positions ++ [ws.length], hvalues ▸ h.concat_fresh hfresh⟩
    · exact ⟨positions, hvalues ▸ h.concat_stale hfresh⟩

/-- A value is fresh, or equals one that is collected. -/
theorem fresh_or_exists_equals {i : Nat} {w : Value} (hw : ws[i]? = some w) (hne : w ≠ .null) :
    Fresh ws i w ∨ ∃ v ∈ collected ws, v.equals w = true := by
  by_cases hearlier : ∃ j < i, ∃ u, ws[j]? = some u ∧ u.equals w = true
  · obtain ⟨j, -, u, hu, heq⟩ := hearlier
    have hamong : w.isAmong ws = true := Value.isAmong_iff.mpr ⟨u, List.mem_of_getElem? hu, heq⟩
    rw [← isAmong_collected hne] at hamong
    exact .inr (Value.isAmong_iff.mp hamong)
  · simp only [not_exists, not_and] at hearlier
    exact .inl ⟨hw, hne, fun j hj u hu => Bool.eq_false_iff.mpr (hearlier j hj u hu)⟩

end Kept

/-- Where its query can be run and read, an index condition collects the first values of the rows
that are not NULL and equal none before them. -/
theorem probeValues_are_first_seen {plan : Plan} {ctx : Context} {response : Response}
    (hrun : plan.run ctx = .ok response)
    (hreads : ∀ n ≤ response.table.rows.length, response.faults.onNext n = none)
    (registry : Registry) :
    ∃ vs positions, (probeValues plan ctx registry).outcome = .ok vs ∧
      KeptAt (response.table.rows.filterMap List.head?) positions vs ∧
      Value.null ∉ vs ∧
      (vs.Pairwise fun u v => u.equals v = false) ∧
      ∀ i w, (response.table.rows.filterMap List.head?)[i]? = some w → w ≠ .null →
        i ∈ positions ∨ ∃ v ∈ vs, v.equals w = true := by
  obtain ⟨positions, h⟩ := exists_keptAt (response.table.rows.filterMap List.head?)
  refine ⟨_, positions, ?_, h, h.null_not_mem, h.pairwise_distinct, fun i w hw hne => ?_⟩
  · rw [outcome_probeValues, Plan.firsts_of_reads hrun hreads]
    rfl
  · exact (fresh_or_exists_equals hw hne).imp_left fun hfresh => (h.fresh i).mpr ⟨w, hfresh⟩

/-- Rows of every width, which cannot be read any further than to the end. -/
def unevenRows : Response :=
  { table :=
      { types := [.float]
        rows := [[], [.null], [.float (0.0 / 0.0), .integer 1], [.float 0.0],
          [.float (-0.0), .null], [.float (0.0 / 0.0)]]
        randomAccess := false }
    faults := { onNext := fun n => if n ≤ 6 then none else some (.execution "read") } }

def uneven : Plan :=
  .external { sql := "SELECT v FROM uneven", run := fun _ => .ok unevenRows }

/-- Neither not-a-number equals the other, and both zeros are equal. -/
theorem probeValues_are_first_seen_uneven :
    (probeValues uneven {} {}).outcome
        = .ok [.float (0.0 / 0.0), .float 0.0, .float (0.0 / 0.0)] ∧
      ∃ positions, KeptAt (unevenRows.table.rows.filterMap List.head?) positions
        [.float (0.0 / 0.0), .float 0.0, .float (0.0 / 0.0)] := by
  have hrun : uneven.run {} = .ok unevenRows := rfl
  have hreads : ∀ n ≤ unevenRows.table.rows.length, unevenRows.faults.onNext n = none :=
    fun n hn => if_pos hn
  have hcollected : (probeValues uneven {} {}).outcome
      = .ok [.float (0.0 / 0.0), .float 0.0, .float (0.0 / 0.0)] := by
    rw [outcome_probeValues, Plan.firsts_of_reads hrun hreads]
    rfl
  obtain ⟨vs, positions, houtcome, hkept, -⟩ := probeValues_are_first_seen hrun hreads {}
  obtain rfl := Except.ok.inj (hcollected.symm.trans houtcome)
  exact ⟨hcollected, positions, hkept⟩

end IndexCondition

end QuantifiedComparison
