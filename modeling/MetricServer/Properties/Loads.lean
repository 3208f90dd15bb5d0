import MetricServer.Demo.Messages

/-! Whether the demo's two programs agree on the loads. The autoscaler sends the loads it
knows without saying of which port, and the launcher gives them to its ports from the first
on, so that a port without a load moves the loads of those after it. -/

namespace MetricServer.Demo

open Http

variable {α : Type*} {f : α → Option ℤ} {l : List α}

/-- Values that stand the same when they are moved by at least one place are zero. -/
theorem eq_zero_of_moved {k m : ℕ}
    (h : l.filterMap f ++ List.replicate m 0 =
      List.replicate (k + 1) 0 ++ l.map fun x => (f x).getD 0) :
    ∀ x ∈ l, ∀ v, f x = some v → v = 0 := by
  induction l generalizing k with
  | nil => simp
  | cons y l ih =>
    rw [List.forall_mem_cons]
    rw [List.map_cons] at h
    have hzeros (j : ℕ) (vs : List ℤ) :
        List.replicate j 0 ++ 0 :: vs = List.replicate (j + 1) 0 ++ vs := by
      rw [List.replicate_succ', List.append_assoc, List.singleton_append]
    cases hy : f y with
    | none =>
      rw [List.filterMap_cons_none hy, hy, Option.getD_none, hzeros] at h
      exact ⟨nofun, ih h⟩
    | some w =>
      rw [List.filterMap_cons_some hy, hy, Option.getD_some, List.replicate_succ,
        List.cons_append, List.cons_append] at h
      obtain ⟨rfl, h⟩ := List.cons_eq_cons.mp h
      rw [hzeros] at h
      exact ⟨fun v hv => (Option.some.inj hv).symm, ih h⟩

theorem filterMap_eq_replicate (h : ∀ x ∈ l, ∀ v, f x = some v → v = 0) :
    l.filterMap f = List.replicate (l.filterMap f).length 0 := by
  apply List.eq_replicate_of_mem
  intro v hv
  obtain ⟨x, hx, hxv⟩ := List.mem_filterMap.mp hv
  exact h x hx v hxv

theorem map_eq_replicate (h : ∀ x ∈ l, ∀ v, f x = some v → v = 0) :
    l.map (fun x => (f x).getD 0) = List.replicate l.length 0 := by
  apply List.map_eq_replicate_iff.mpr
  intro x hx
  cases hfx : f x with
  | none => rfl
  | some v => exact h x hx v hfx

/-- The values that are there, filled up with zeros, stand at their places exactly when those
after a missing one are zero. -/
theorem filterMap_append_eq_map_iff {m : ℕ} (hm : (l.filterMap f).length + m = l.length) :
    l.filterMap f ++ List.replicate m 0 = l.map (fun x => (f x).getD 0) ↔
      l.Pairwise fun x y => f x = none → ∀ v, f y = some v → v = 0 := by
  induction l with
  | nil =>
    obtain rfl : m = 0 := by simpa using hm
    simp
  | cons y l ih =>
    rw [List.pairwise_cons, List.map_cons]
    cases hy : f y with
    | none =>
      rw [List.filterMap_cons_none hy, Option.getD_none]
      constructor
      · intro h
        have hzero := eq_zero_of_moved (k := 0) h
        exact ⟨fun x hx _ => hzero x hx,
          List.pairwise_of_forall_mem_list fun _ _ x hx _ => hzero x hx⟩
      · rintro ⟨hzero, -⟩
        have hzero : ∀ x ∈ l, ∀ v, f x = some v → v = 0 := fun x hx => hzero x hx rfl
        rw [List.filterMap_cons_none hy] at hm
        rw [filterMap_eq_replicate hzero, map_eq_replicate hzero, List.replicate_append_replicate,
          hm, List.length_cons, List.replicate_succ]
    | some w =>
      rw [List.filterMap_cons_some hy, List.length_cons, List.length_cons] at hm
      rw [List.filterMap_cons_some hy, Option.getD_some, List.cons_append, List.cons_inj_right,
        ih (by omega)]
      exact ⟨fun h => ⟨nofun, h⟩, fun h => h.2⟩

/-- The launcher, which was `s`, has the new port and the load of every port, zero for a port
that has none. -/
def Agrees (s s' : Launcher) (jitPort : ℤ) (metricPorts : List ℤ) (load : ℤ → Option ℤ) : Prop :=
  s'.loads = metricPorts.map (fun p => (load p).getD 0) ∧ s'.ports = s.ports ++ [jitPort]

/-- After a message that is sent and arrives whole the two programs agree exactly when the
loads after a missing one are zero. -/
theorem agrees_iff {s : Launcher} {jitPort : ℤ} {metricPorts : List ℤ} {load : ℤ → Option ℤ}
    {results : List ℕ} {arrivals : List (Option ℕ)} (hfinished : s.finished = false)
    (hports : s.ports.length + 1 = metricPorts.length) (hloads : s.loads.length = s.ports.length)
    (hport : Packable jitPort) (hvalues : ∀ p ∈ metricPorts, ∀ v, load p = some v → Packable v)
    (hresults : ∀ k ∈ results, 4 ≤ k) (henough : metricPorts.length < results.length)
    (harrivals : none ∉ arrivals) :
    ∃ sent, sendNewPort true jitPort metricPorts load results = some sent ∧
      (Agrees s (s.recvmsg (some ⟨sent, arrivals⟩)) jitPort metricPorts load ↔
        metricPorts.Pairwise fun p q => load p = none → ∀ v, load q = some v → v = 0) := by
  have hpackable : ∀ v ∈ metricPorts.filterMap load, Packable v := by
    intro v hv
    obtain ⟨p, hp, hpv⟩ := List.mem_filterMap.mp hv
    exact hvalues p hp v hpv
  refine ⟨_, sendNewPort_eq hport hpackable hresults henough, ?_⟩
  obtain ⟨hlen, hunpack⟩ := hport.spec
  obtain ⟨m, hm⟩ := Nat.exists_eq_add_of_le (List.length_filterMap_le load metricPorts)
  have hfilled : filled (word jitPort) = word jitPort := by simp [filled, hlen]
  have hfirst :
      words 1 (word jitPort ++ (metricPorts.filterMap load).flatMap word) = [jitPort] := by
    rw [words, ← hlen, List.take_left, hfilled, hunpack]
    rfl
  rw [Agrees, Launcher.recvmsg_eq hfinished hloads harrivals, hfirst, ← hlen, List.drop_left,
    hports, hm, words_flatMap hpackable, ← filterMap_append_eq_map_iff hm.symm]
  exact and_iff_left rfl

/-- A scrape that has a load for the second of three ports only. -/
def sampleLoad (p : ℤ) : Option ℤ := if p = 7392 then some 5 else none

theorem eq_five_of_sampleLoad {p v : ℤ} (h : sampleLoad p = some v) : v = 5 := by
  rw [sampleLoad] at h
  split_ifs at h
  exact (Option.some.inj h).symm

theorem agrees_iff_sampleLoad :
    ∃ sent, sendNewPort true 3842 [7390, 7392, 7394] sampleLoad [4, 4, 4, 4] = some sent ∧
      (Agrees ⟨false, [3840, 3841], [0, 0]⟩
          (Launcher.recvmsg ⟨false, [3840, 3841], [0, 0]⟩ (some ⟨sent, [some 2, some 1]⟩))
          3842 [7390, 7392, 7394] sampleLoad ↔
        [7390, 7392, 7394].Pairwise fun p q =>
          sampleLoad p = none → ∀ v, sampleLoad q = some v → v = 0) := by
  refine agrees_iff rfl rfl rfl (by decide) (fun p _ v hv => ?_) (by decide) (by decide) (by decide)
  rw [eq_five_of_sampleLoad hv]
  decide

/-- The load of the second port is given to the first. -/
theorem not_agrees_sampleLoad :
    ¬ ∀ (s : Launcher) (jitPort : ℤ) (metricPorts : List ℤ) (load : ℤ → Option ℤ)
      (results : List ℕ) (arrivals : List (Option ℕ)), s.finished = false →
      s.ports.length + 1 = metricPorts.length → s.loads.length = s.ports.length →
      (0 ≤ jitPort ∧ jitPort < 2 ^ 31) →
      (∀ p ∈ metricPorts, ∀ v, load p = some v → 0 ≤ v ∧ v < 2 ^ 31) →
      (∀ k ∈ results, 4 ≤ k) → metricPorts.length < results.length → none ∉ arrivals →
      ∃ sent, sendNewPort true jitPort metricPorts load results = some sent ∧
        Agrees s (s.recvmsg (some ⟨sent, arrivals⟩)) jitPort metricPorts load := by
  intro h
  obtain ⟨sent, hsent, hloads, -⟩ := h ⟨false, [3840, 3841], [0, 0]⟩ 3842 [7390, 7392, 7394]
    sampleLoad [4, 4, 4, 4] [] rfl rfl rfl (by decide)
    (fun p _ v hv => by
      rw [eq_five_of_sampleLoad hv]
      decide)
    (by decide) (by decide) (by decide)
  have hbytes : sent = [0, 0, 15, 2, 0, 0, 0, 5] :=
    (Option.some.inj (hsent.symm.trans (by decide)))
  subst hbytes
  revert hloads
  decide

end MetricServer.Demo
