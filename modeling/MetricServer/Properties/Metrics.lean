import MetricServer.Http.Store

/-! What the published text says about the calls and the updates before it. It lists every
metric ever set once, with the value it was given last; no call takes a metric away, so
that what an update cannot read stays as an earlier one found it. -/

namespace MetricServer.Http.MetricDatabase

open Base

/-- Calls whose names and values fit on lines are published as the map from each name to the
value of its last call, the names in increasing order. -/
theorem readMetrics_setMetrics (calls : List (Bytes × Bytes)) (h : ∀ e ∈ calls, Publishable e) :
    ∃ entries,
      readMetrics (new.setMetrics calls).prepareAllMetricsBody = some entries ∧
        (entries.map Prod.fst).Pairwise (· < ·) ∧
        (∀ name value, (name, value) ∈ entries ↔ calls.reverse.lookup name = some value) ∧
        ∀ e ∈ calls,
          calls.reverse.lookup e.1 = some ((new.setMetrics calls).findMetric e.1) := by
  refine ⟨(new.setMetrics calls)._mdb.entries, ?_, (new.setMetrics calls)._mdb.sorted, ?_, ?_⟩
  · exact readMetrics_prepareAllMetricsBody (publishable_entries h)
  · intro name value
    rw [OrderedMap.mem_entries_iff, find_setMetrics]
  · intro e he
    rw [findMetric, find_setMetrics]
    cases hlookup : calls.reverse.lookup e.1 with
    | some value => rfl
    | none =>
      have hne := List.lookup_eq_none_iff.mp hlookup e (List.mem_reverse.mpr he)
      simp at hne

/-- A metric set twice around another one. -/
def sampleCalls : List (Bytes × Bytes) :=
  [(ascii "b", ascii "1"), (ascii "a", ascii "2 3"), (ascii "b", ascii "4")]

theorem readMetrics_setMetrics_sample :
    ∃ entries,
      readMetrics (new.setMetrics sampleCalls).prepareAllMetricsBody = some entries ∧
        (entries.map Prod.fst).Pairwise (· < ·) ∧
        (∀ name value,
          (name, value) ∈ entries ↔ sampleCalls.reverse.lookup name = some value) ∧
        ∀ e ∈ sampleCalls,
          sampleCalls.reverse.lookup e.1 =
            some ((new.setMetrics sampleCalls).findMetric e.1) := by
  refine readMetrics_setMetrics sampleCalls fun e he => ?_
  simp only [sampleCalls, List.mem_cons, List.not_mem_nil, or_false] at he
  obtain rfl | rfl | rfl := he <;> exact ⟨by decide, by decide, by decide⟩

/-- After the same last reading two databases publish the same exactly when the groups that
it lacks were last read the same before. -/
theorem body_concat_eq_iff (before before' : List Snapshot) (s : Snapshot) :
    (ofUpdates (before ++ [s])).prepareAllMetricsBody =
        (ofUpdates (before' ++ [s])).prepareAllMetricsBody ↔
      ∀ g, s.values g = none → latest before g = latest before' g := by
  rw [ofUpdates_body_eq_iff]
  apply forall_congr'
  intro g
  rw [latest_concat, latest_concat]
  cases s.values g with
  | none => simp
  | some vs => simp

/-- A snapshot whose processor load is read, and one whose load is not. -/
def loaded : Snapshot := ⟨0, 0, 0, 0, 0, 0, true, 80, 60, 70, none, none⟩

def unread : Snapshot := { loaded with isFunctional := false }

/-- The load of the first update is still published after the second. -/
theorem body_stale :
    ¬ ∀ before before' s, (ofUpdates (before ++ [s])).prepareAllMetricsBody =
      (ofUpdates (before' ++ [s])).prepareAllMetricsBody := by
  intro h
  exact absurd (h [loaded] [] unread) (by decide +kernel)

end MetricServer.Http.MetricDatabase
