import MetricServer.Demo.Sendreq

/-! How `sendreq` spends its requests. Whatever `recvmsg` leaves between the rounds, the
calls made and the requests left add up to the load it started with, so that it returns
with that many calls and never with more. Once the launcher's socket has timed out the
lists are no longer extended, and the rounds make progress if there is an instance at
all: after one of them every load is four. Without one the outer loop spins. -/

namespace MetricServer.Demo

open Base

namespace Launcher

theorem parallel_readLoads (n i : ℕ) (c : Connection) {s : Launcher} (h : s.Parallel) :
    (readLoads n i c s).Parallel := by
  induction n generalizing i c s with
  | zero => exact h
  | succ n ih =>
    rw [readLoads]
    split
    · exact h
    · apply ih
      rw [Parallel, List.length_set]
      exact h

/-- `recvmsg` adds a load for every port it adds. -/
theorem parallel_recvmsg (s : Launcher) (accepted : Option Connection) (h : s.Parallel) :
    (s.recvmsg accepted).Parallel := by
  unfold recvmsg
  split_ifs
  · exact h
  · split
    · exact h
    · split
      · exact h
      · apply parallel_readLoads
        rw [Parallel, List.length_append, List.length_append, h]
        rfl

end Launcher

namespace Sender

variable {ι : Type*} {recvmsg : Launcher → ι → Launcher} {load : ℤ} {launcher : Launcher}
  {s t : Sender}

/-- `sendreq` at its start. -/
def start (load : ℤ) (launcher : Launcher) : Sender := ⟨load, launcher, []⟩

/-! ### What the rounds send -/

/-- The state in which a round, or a part of one, leaves off. -/
def Leaves (o : Outcome Sender End) (t : Sender) : Prop :=
  o = .next t ∨ ∃ closes, o = .done (.returned t closes)

/-- Nothing is sent that was not asked for, and the rounds of a run only level the loads. -/
structure Distributes (recvmsg : Launcher → ι → Launcher) (load : ℤ) (launcher : Launcher)
    (is : List ι) : Prop where
  total : ∀ e, runs (iteration recvmsg) (start load launcher) is = .done e →
    ∃ t closes, e = .returned t closes ∧ t.calls.length = load
  left : ∀ s, runs (iteration recvmsg) (start load launcher) is = .next s →
    0 ≤ s.load ∧ s.calls.length + s.load = load
  rounds : ∀ s, runs (iteration recvmsg) (start load launcher) is = .next s →
    s.launcher.ports ≠ [] → ∃ m, s.launcher.loads.max? = some m ∧
      s.round = runs (turn (max m 5)) s (List.range s.launcher.ports.length) ∧
      ∀ k ≤ s.launcher.ports.length, ∃ t, Leaves (runs (turn (max m 5)) s (List.range k)) t ∧
        0 ≤ t.load ∧ t.calls.length + t.load = load ∧
        ∀ i l, s.launcher.loads[i]? = some l →
          t.fired i - s.fired i ≤ max m 5 - l ∧ (5 ≤ l → t.fired i = s.fired i)

/-- The requests left and those sent are the ones asked for. -/
structure Sound (load : ℤ) (s : Sender) : Prop where
  load_nonneg : 0 ≤ s.load
  conserved : s.calls.length + s.load = load
  parallel : s.launcher.Parallel

/-- A round is over, or it has sent the last request. -/
theorem Sound.round (h : Sound load s) :
    (∃ t, s.round = .next t ∧ Sound load t) ∨
      ∃ t, s.round = .done (.returned t (!t.launcher.finished)) ∧ t.calls.length = load := by
  by_cases hports : s.launcher.ports = []
  · refine .inl ⟨s, ?_, h⟩
    rw [Sender.round, hports]
    rfl
  · obtain ⟨maxload, ⟨t, hround, hturns, -⟩ | ⟨t, hround, hturns, hzero⟩⟩ :=
      round_cases h.load_nonneg h.parallel hports
    · refine .inl ⟨t, hround, hturns.load_nonneg, hturns.conserved.trans h.conserved, ?_⟩
      rw [Launcher.Parallel, hturns.parallel, hturns.ports]
      exact h.parallel
    · have := hturns.conserved.trans h.conserved
      exact .inr ⟨t, hround, by omega⟩

theorem Sound.iteration (hrecv : ∀ l i, l.Parallel → (recvmsg l i).Parallel)
    (h : Sound load s) (i : ι) :
    (∃ t, iteration recvmsg s i = .next t ∧ Sound load t) ∨
      ∃ t closes, iteration recvmsg s i = .done (.returned t closes) ∧ t.calls.length = load := by
  rw [Sender.iteration]
  obtain ⟨t, hround, ht⟩ | ⟨t, hround, htotal⟩ := h.round
  · rw [hround]
    refine .inl ⟨_, rfl, ?_⟩
    split_ifs
    · exact ht
    · exact ⟨ht.load_nonneg, ht.conserved, hrecv _ i ht.parallel⟩
  · rw [hround]
    exact .inr ⟨t, _, rfl, htotal⟩

theorem Sound.runs (hrecv : ∀ l i, l.Parallel → (recvmsg l i).Parallel) (h : Sound load s)
    (is : List ι) :
    (∃ t, runs (Sender.iteration recvmsg) s is = .next t ∧ Sound load t) ∨
      ∃ t closes, runs (Sender.iteration recvmsg) s is = .done (.returned t closes) ∧
        t.calls.length = load := by
  induction is generalizing s with
  | nil => exact .inl ⟨s, rfl, h⟩
  | cons i is ih =>
    rw [Base.runs]
    obtain ⟨t, hstep, ht⟩ | ⟨t, closes, hstep, htotal⟩ := h.iteration hrecv i
    · rw [hstep]
      exact ih ht
    · rw [hstep]
      exact .inr ⟨t, closes, rfl, htotal⟩

/-- `sendreq` sends what it was asked for and levels the loads, whatever `recvmsg` does to
lists that it leaves equally long. -/
theorem distributes (hrecv : ∀ l i, l.Parallel → (recvmsg l i).Parallel) (hload : 0 ≤ load)
    (hparallel : launcher.Parallel) (is : List ι) : Distributes recvmsg load launcher is := by
  have hstart : Sound load (start load launcher) := ⟨hload, Int.zero_add load, hparallel⟩
  obtain ⟨s, hruns, hs⟩ | ⟨t, closes, hruns, htotal⟩ := hstart.runs hrecv is
  · refine ⟨fun e he => ?_, fun s' hs' => ?_, fun s' hs' hports => ?_⟩
    · cases hruns.symm.trans he
    · obtain rfl : s = s' := by simpa using hruns.symm.trans hs'
      exact ⟨hs.load_nonneg, hs.conserved⟩
    · obtain rfl : s = s' := by simpa using hruns.symm.trans hs'
      obtain ⟨m, hm, hready, hround⟩ := exists_round hs.load_nonneg hs.parallel hports
      refine ⟨m, hm, by rw [hround, List.range_eq_range'], fun k hk => ?_⟩
      obtain ⟨t, hleaves, hturns⟩ :
          ∃ t, Leaves (Base.runs (turn (max m 5)) s (List.range k)) t ∧ Turns (max m 5) 0 s t := by
        rw [List.range_eq_range']
        obtain ⟨t, hpart, hturns, -⟩ | ⟨t, hpart, hturns, -⟩ :=
          runs_turn_cases hready ((Nat.zero_add k).trans_le hk)
        · exact ⟨t, .inl hpart, hturns⟩
        · exact ⟨t, .inr ⟨_, hpart⟩, hturns⟩
      refine ⟨t, hleaves, hturns.load_nonneg, hturns.conserved.trans hs.conserved,
        fun i l hl => ⟨?_, fun hfive => hturns.fired_eq i l hl (.inl hfive)⟩⟩
      have := hturns.fired_le i l hl
      omega
  · refine ⟨fun e he => ?_, fun s' hs' => ?_, fun s' hs' => ?_⟩
    · obtain rfl : End.returned t closes = e := by simpa using hruns.symm.trans he
      exact ⟨t, closes, rfl, htotal⟩
    · cases hruns.symm.trans hs'
    · cases hruns.symm.trans hs'

/-- Two instances, of which the second is told the load of the first one's rounds. -/
theorem distributes_twoPorts :
    Distributes Launcher.recvmsg 3 ⟨false, [], []⟩
      [some ⟨[0, 0, 15, 0], []⟩, some ⟨[0, 0, 15, 1, 0, 0, 0, 7], []⟩] :=
  distributes Launcher.parallel_recvmsg (by decide) (by rfl) _

/-! ### After the timeout -/

/-- `sendreq` returns after finitely many further turns of its loop. -/
def Returns (s : Sender) : Prop :=
  ∃ n, ∀ is : List (Option Connection), n ≤ is.length →
    ∃ t closes, runs (iteration Launcher.recvmsg) s is = .done (.returned t closes)

/-- The timeout is over, and so is a round over some ports. -/
structure Leveled (s : Sender) : Prop where
  finished : s.launcher.finished = true
  ports : s.launcher.ports ≠ []
  parallel : s.launcher.Parallel
  four : ∀ l ∈ s.launcher.loads, l = 4
  load_nonneg : 0 ≤ s.load

/-- After the timeout a round over some ports returns or levels them. -/
theorem iteration_cases_of_finished (hload : 0 ≤ s.load) (hparallel : s.launcher.Parallel)
    (hfinished : s.launcher.finished = true) (hports : s.launcher.ports ≠ [])
    (i : Option Connection) :
    (∃ t, iteration Launcher.recvmsg s i = .next t ∧ Leveled t ∧ t.load ≤ s.load ∧
      ((∀ l ∈ s.launcher.loads, l = 4) → t.load < s.load)) ∨
    ∃ t closes, iteration Launcher.recvmsg s i = .done (.returned t closes) := by
  obtain ⟨maxload, ⟨t, hround, hturns, hfour⟩ | ⟨t, hround, -⟩⟩ :=
    round_cases hload hparallel hports
  · have htfinished := hturns.finished.trans hfinished
    refine .inl ⟨t, ?_, ⟨htfinished, ?_, ?_, hfour, hturns.load_nonneg⟩, hturns.load_le,
      fun hfour => load_lt_of_round hload hparallel hports hfour hround⟩
    · rw [iteration, hround]
      simp [htfinished]
    · rwa [hturns.ports]
    · rw [Launcher.Parallel, hturns.parallel, hturns.ports]
      exact hparallel
  · refine .inr ⟨t, !t.launcher.finished, ?_⟩
    rw [iteration, hround]

/-- From loads of four every turn but the last one sends a request. -/
theorem Leveled.runs {k : ℕ} (h : Leveled s) (hk : s.load < k) {is : List (Option Connection)}
    (hlong : k ≤ is.length) :
    ∃ t closes, runs (iteration Launcher.recvmsg) s is = .done (.returned t closes) := by
  induction k generalizing s is with
  | zero =>
    have := h.load_nonneg
    omega
  | succ k ih =>
    obtain ⟨i, is, rfl⟩ := List.exists_cons_of_length_pos (show 0 < is.length by omega)
    rw [Base.runs]
    obtain ⟨t, hstep, ht, -, hless⟩ | ⟨t, closes, hstep⟩ :=
      iteration_cases_of_finished h.load_nonneg h.parallel h.finished h.ports i
    · have := hless h.four
      rw [hstep]
      exact ih ht (by omega) (Nat.le_of_succ_le_succ hlong)
    · rw [hstep]
      exact ⟨t, closes, rfl⟩

/-- Without a port the loop goes on in the same state. -/
theorem runs_of_no_ports (hfinished : s.launcher.finished = true) (hports : s.launcher.ports = [])
    (is : List (Option Connection)) : runs (iteration Launcher.recvmsg) s is = .next s := by
  induction is with
  | nil => rfl
  | cons i is ih =>
    have hround : s.round = .next s := by
      rw [round, hports]
      rfl
    have hstep : iteration Launcher.recvmsg s i = .next s := by
      rw [iteration, hround]
      simp [hfinished]
    rw [runs, hstep]
    exact ih

/-- After the timeout `sendreq` returns exactly when a port has been received. -/
theorem returns_iff (hload : 0 ≤ load) (hparallel : launcher.Parallel)
    {history : List (Option Connection)}
    (hrun : runs (iteration Launcher.recvmsg) (start load launcher) history = .next s)
    (hfinished : s.launcher.finished = true) : Returns s ↔ s.launcher.ports ≠ [] := by
  have hstart : Sound load (start load launcher) := ⟨hload, Int.zero_add load, hparallel⟩
  have hs : Sound load s := by
    obtain ⟨s', hruns, hs⟩ | ⟨t, closes, hruns, -⟩ :=
      hstart.runs Launcher.parallel_recvmsg history
    · obtain rfl : s' = s := by simpa using hruns.symm.trans hrun
      exact hs
    · cases hruns.symm.trans hrun
  constructor
  · rintro ⟨n, hreturns⟩ hports
    obtain ⟨t, closes, hruns⟩ := hreturns (List.replicate n none) List.length_replicate.ge
    rw [runs_of_no_ports hfinished hports] at hruns
    cases hruns
  · intro hports
    refine ⟨s.load.toNat + 2, fun is hlong => ?_⟩
    obtain ⟨i, is, rfl⟩ := List.exists_cons_of_length_pos (show 0 < is.length by omega)
    rw [runs]
    obtain ⟨t, hstep, ht, hle, -⟩ | ⟨t, closes, hstep⟩ :=
      iteration_cases_of_finished hs.load_nonneg hs.parallel hfinished hports i
    · have := hs.load_nonneg
      rw [hstep]
      exact ht.runs (k := s.load.toNat + 1) (by omega) (Nat.le_of_succ_le_succ hlong)
    · rw [hstep]
      exact ⟨t, closes, rfl⟩

/-- One instance, whose connection times out before its load comes. -/
theorem runs_onePort :
    runs (iteration Launcher.recvmsg) (start 1 ⟨false, [], []⟩)
        [some ⟨[0, 0, 15, 0], [some 4, none]⟩] = .next ⟨1, ⟨true, [3840], [0]⟩, []⟩ := by
  have hrecv : Launcher.recvmsg ⟨false, [], []⟩ (some ⟨[0, 0, 15, 0], [some 4, none]⟩) =
      ⟨true, [3840], [0]⟩ := by
    decide +kernel
  simp [runs, iteration, round, start, hrecv]

theorem returns_iff_onePort :
    Returns ⟨1, ⟨true, [3840], [0]⟩, []⟩ ↔ [3840] ≠ ([] : List ℤ) :=
  returns_iff Int.one_nonneg (by rfl) runs_onePort rfl

/-- A launcher that no instance reaches spins. -/
theorem not_returns_noPorts :
    ¬ ∀ (load : ℤ) (history : List (Option Connection)) (s : Sender), 0 ≤ load →
      runs (iteration Launcher.recvmsg) (start load ⟨false, [], []⟩) history = .next s →
      s.launcher.finished = true → Returns s := by
  intro h
  have hrun : runs (iteration Launcher.recvmsg) (start 1 ⟨false, [], []⟩) [none] =
      .next ⟨1, ⟨true, [], []⟩, []⟩ := rfl
  obtain ⟨n, hreturns⟩ := h 1 [none] ⟨1, ⟨true, [], []⟩, []⟩ Int.one_nonneg hrun rfl
  obtain ⟨t, closes, hruns⟩ := hreturns (List.replicate n none) List.length_replicate.ge
  rw [runs_of_no_ports rfl rfl] at hruns
  cases hruns

end Sender

end MetricServer.Demo
