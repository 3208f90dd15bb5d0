import MetricServer.Demo.Autoscaler
import MetricServer.Handler.Loop
import Mathlib.Tactic.IntervalCases

/-! The instances that the autoscaler makes. Their ports follow from how many there are, so
that no two of them, and no two servers of one, get the same port, and each is started
with options that its metric server takes. There is one more for every turn that found
a busy one, up to five. -/

namespace MetricServer.Demo

open Base Http

/-- The instance that is made as the `k`th after the first one. -/
def instanceAt (k : ℕ) : Instance := ⟨3840 + k, 7390 + 2 * k, 7391 + 2 * k⟩

/-- The ports that an instance listens on. -/
def Instance.ports (i : Instance) : List ℤ := [i.port, i.metricport, i.httpsmetricport]

namespace Autoscaler

variable {s s₀ t : Autoscaler} {load : ℤ → Option ℤ} {d : Delivery} {rounds : List Scrape}
  {r : Scrape} {k : ℕ}

/-! ### The fleet -/

/-- `main` has made `k` instances after the first one. -/
structure Fleet (k : ℕ) (s : Autoscaler) : Prop where
  jitPort : s.jitPort = 3840 + k
  metricPort : s.metricPort = 7390 + 2 * k
  httpsPort : s.httpsPort = 7391 + 2 * k
  instances : s.instances = (List.range (k + 1)).map instanceAt
  metricPorts : s.metricPorts = s.instances.map Instance.metricport
  lt_five : k < 5

theorem Fleet.count (h : Fleet k s) : s.instances.length = k + 1 := by
  rw [h.instances, List.length_map, List.length_range]

theorem Fleet.length_metricPorts (h : Fleet k s) : s.metricPorts.length = k + 1 := by
  rw [h.metricPorts, List.length_map, h.count]

theorem Fleet.announce (h : Fleet k s) (hnext : s.announce load d = .next t) : Fleet k t := by
  obtain ⟨messages, rfl⟩ := announce_next hnext
  exact ⟨h.jitPort, h.metricPort, h.httpsPort, h.instances, h.metricPorts, h.lt_five⟩

theorem Fleet.grow (h : Fleet k s) (hlt : s.metricPorts.length < 5) : Fleet (k + 1) s.grow := by
  rw [h.length_metricPorts] at hlt
  obtain ⟨hjit, hmetric, hhttps, hinstances, hports, -⟩ := h
  have hmade : (⟨s.jitPort + 1, s.metricPort + 2, s.httpsPort + 2⟩ : Instance) =
      instanceAt (k + 1) := by
    simp only [instanceAt, Instance.mk.injEq]
    omega
  refine ⟨?_, ?_, ?_, ?_, ?_, hlt⟩
  · simp only [Autoscaler.grow, makeInstance, hjit]
    push_cast
    omega
  · simp only [Autoscaler.grow, makeInstance, hmetric]
    push_cast
    omega
  · simp only [Autoscaler.grow, makeInstance, hhttps]
    push_cast
    omega
  · simp only [Autoscaler.grow, makeInstance, hmade, hinstances]
    rw [List.range_succ (n := k + 1), List.map_append]
    rfl
  · simp only [Autoscaler.grow, makeInstance, hports, List.map_append, List.map_cons, List.map_nil]

theorem Fleet.reset (h : Fleet k s) : Fleet k { s with new := false } :=
  ⟨h.jitPort, h.metricPort, h.httpsPort, h.instances, h.metricPorts, h.lt_five⟩

theorem Fleet.iteration (h : Fleet k s) (hnext : s.iteration r = .next t) :
    Fleet (k + if s.metricPorts.length < 5 ∧ s.busy (getMetrics r.result) then 1 else 0) t := by
  rw [iteration_eq] at hnext
  split_ifs with hcome
  · rw [if_pos hcome] at hnext
    exact (h.reset.grow hcome.1).announce hnext
  · rw [if_neg hcome] at hnext
    obtain rfl := Outcome.next.inj hnext
    exact h.reset

theorem fleet_start (h : start d = .next s) : Fleet 0 s :=
  Fleet.announce (s := makeInstance ⟨3840, 7390, 7391, [7390], false, [], []⟩)
    ⟨rfl, rfl, rfl, rfl, rfl, by decide⟩ h

theorem Fleet.trace (h : Fleet k s) (htrace : Trace (continues Autoscaler.iteration) s rounds t) :
    ∃ k, Fleet k t :=
  htrace.invariant (I := fun s => ∃ k, Fleet k s)
    (fun _ _ _ _ ⟨_, hs⟩ hstep => ⟨_, hs.iteration hstep⟩) ⟨k, h⟩

/-- At every head of the loop the ports of all instances are distinct and can be bound to without
privileges, the loop goes over all of them, and the metric server of each takes its options. -/
theorem fleet_of_reaches (h : Reaches d rounds s) :
    s.instances.length ≤ 5 ∧ s.instances = (List.range s.instances.length).map instanceAt ∧
      s.metricPorts = s.instances.map Instance.metricport ∧
      (s.instances.flatMap Instance.ports).Nodup ∧
      ∀ i ∈ s.instances, (∀ p ∈ i.ports, 1024 ≤ p ∧ p < 2 ^ 16) ∧
        ∀ sslCtx, ∃ cfg,
          readArguments ⟨some i.metricport, none, none, some i.httpsmetricport⟩ sslCtx =
            some cfg ∧ cfg.metricPort = i.metricport ∧ cfg.metricHttpsPort = i.httpsmetricport := by
  obtain ⟨s₀, hs₀, htrace⟩ := h
  obtain ⟨k, hk⟩ := (fleet_start hs₀).trace htrace
  have hlt := hk.lt_five
  have hdistinct : ∀ k < 5,
      (((List.range (k + 1)).map instanceAt).flatMap Instance.ports).Nodup := by decide
  refine ⟨by rw [hk.count]; omega, by rw [hk.count]; exact hk.instances,
    hk.metricPorts, hk.instances ▸ hdistinct k hlt, fun i hi => ?_⟩
  rw [hk.instances] at hi
  obtain ⟨j, hj, rfl⟩ := List.mem_map.mp hi
  have hj := List.mem_range.mp hj
  refine ⟨fun p hp => ?_, fun sslCtx => ?_⟩
  · simp only [Instance.ports, instanceAt, List.mem_cons, List.not_mem_nil, or_false] at hp
    omega
  · have hpos : 0 < (instanceAt j).metricport ∧ 0 < (instanceAt j).httpsmetricport := by
      simp only [instanceAt]
      omega
    have htakes (default : ℤ) {n : ℤ} (hn : 0 < n) : intOption default (some n) = some n :=
      if_neg (not_le.mpr hn)
    refine ⟨⟨(instanceAt j).metricport, (instanceAt j).httpsmetricport, 10, sslCtx, by decide⟩, ?_,
      rfl, rfl⟩
    simp only [readArguments, htakes _ hpos.1, htakes _ hpos.2]
    rfl

theorem fleet_of_reaches_sample : ∃ s, Reaches .whole [.busyFirst] s ∧ s.instances.length = 2 ∧
    s.instances.length ≤ 5 ∧ s.instances = (List.range s.instances.length).map instanceAt ∧
      s.metricPorts = s.instances.map Instance.metricport ∧
      (s.instances.flatMap Instance.ports).Nodup ∧
      ∀ i ∈ s.instances, (∀ p ∈ i.ports, 1024 ≤ p ∧ p < 2 ^ 16) ∧
        ∀ sslCtx, ∃ cfg,
          readArguments ⟨some i.metricport, none, none, some i.httpsmetricport⟩ sslCtx =
            some cfg ∧ cfg.metricPort = i.metricport ∧ cfg.metricHttpsPort = i.httpsmetricport := by
  obtain ⟨s, hs, hlen⟩ := exists_reaches [.busyFirst] (fun s => s.instances.length == 2) (by decide)
  exact ⟨s, hs, by simpa using hlen, fleet_of_reaches hs⟩

/-! ### Its growth -/

/-- The turns of the main loop that found a busy instance. -/
def busyTurns : Autoscaler → List Scrape → ℕ
  | _, [] => 0
  | s, r :: rounds =>
    match s.iteration r with
    | .next t => (if s.busy (getMetrics r.result) then 1 else 0) + busyTurns t rounds
    | .done _ => 0

theorem Fleet.length_trace (h : Fleet k s)
    (htrace : Trace (continues Autoscaler.iteration) s rounds t) :
    t.instances.length = min 5 (k + 1 + busyTurns s rounds) := by
  induction htrace generalizing k with
  | nil s =>
    have := h.lt_five
    rw [h.count, busyTurns]
    omega
  | @cons s s₁ t r rounds hstep _ ih =>
    have hout : s.iteration r = .next s₁ := hstep
    have hlt := h.lt_five
    rw [ih (h.iteration hout), busyTurns, hout, h.length_metricPorts]
    split_ifs <;> simp_all <;> omega

/-- There is one instance more for every turn that found a busy one, and never more than five. -/
theorem length_instances (hs : start d = .next s₀)
    (htrace : Trace (continues Autoscaler.iteration) s₀ rounds s) :
    s.instances.length = min 5 (1 + busyTurns s₀ rounds) := by
  rw [(fleet_start hs).length_trace htrace, Nat.zero_add]

theorem length_instances_sample : ∃ s₀ s, start .whole = .next s₀ ∧
    Trace (continues Autoscaler.iteration) s₀ [.busyFirst] s ∧
      s.instances.length = min 5 (1 + busyTurns s₀ [.busyFirst]) := by
  obtain ⟨s, ⟨s₀, hs₀, htrace⟩, -⟩ := exists_reaches [.busyFirst] (fun _ => true) (by decide)
  exact ⟨s₀, s, hs₀, htrace, length_instances hs₀ htrace⟩

end Autoscaler

end MetricServer.Demo
