import MetricServer.Properties.Shutdown

/-! How far the two threads have come. What the one has seen bounds where the other can be:
`start` comes back when the server thread is through with its first notification, and
`stop` comes back when it has ended. So neither waits for the other in vain unless it is
`stop` that comes too late, and once the exit flag is set both come to their end in a
bounded number of steps, in whatever order they are taken. -/

namespace MetricServer

open Base LoopState

/-- How far the server thread has come. -/
def ServerPc.rank : ServerPc → ℕ
  | .notCreated => 0
  | .attach => 1
  | .enterFirst _ => 2
  | .setAttachAttempted _ => 3
  | .setMetricServer _ => 4
  | .notifyFirst _ => 5
  | .exitFirst _ => 6
  | .handler => 7
  | .loopHead _ | .loopBody _ => 8
  | .detach => 9
  | .enterLast => 10
  | .clearMetricServer => 11
  | .notifyLast => 12
  | .exitLast => 13
  | .ended | .failed => 14

theorem ServerPc.outside_of_through {pc : ServerPc} (h : pc = .notCreated ∨ pc.finished) :
    pc.standing = .outside := by
  cases pc <;> simp_all [finished, standing]

theorem ServerPc.rank_of_finished {pc : ServerPc} (h : pc.finished) : pc.rank = 14 := by
  cases pc <;> first | rfl | cases h

theorem ServerPc.ended_of_finished {pc : ServerPc} (h : pc.finished) (hfailed : pc ≠ .failed) :
    pc = .ended := by
  cases pc <;> simp_all [finished]

theorem ServerPc.rank_le (pc : ServerPc) : pc.rank ≤ 14 := by
  cases pc <;> simp [rank]

theorem ServerPc.silent_of_finished {pc : ServerPc} (h : pc.finished) : pc.silent := by
  cases pc <;> first | rfl | cases h

theorem MainPc.eq_of_waiting {pc : MainPc} (h : pc.standing = .waiting) :
    pc = .waitStart ∨ pc = .waitStop := by
  cases pc <;> simp_all [standing]

/-- `start` is through with its wait. -/
def MainPc.started : MainPc → Bool
  | .create | .enterStart | .testAttachAttempted | .callWaitStart | .waitStart | .exitStart => false
  | _ => true

/-- `start` has a server thread, and is not through with its wait. -/
def MainPc.starting : MainPc → Bool
  | .enterStart | .testAttachAttempted | .callWaitStart | .waitStart | .exitStart => true
  | _ => false

/-- `stop` has found a server thread. -/
def MainPc.found : MainPc → Bool
  | .enterStop | .setExitFlag | .callWaitStop | .waitStop | .exitStop => true
  | _ => false

theorem MainPc.started_of_found {pc : MainPc} (h : pc.found) : pc.started := by
  cases pc <;> first | rfl | cases h

theorem MainPc.started_of_flagged {pc : MainPc} (h : pc.flagged) : pc.started := by
  cases pc <;> first | rfl | cases h

/-- The steps that are left of `stop` once the exit flag is set. -/
def MainPc.left : MainPc → ℕ
  | .callWaitStop => 3
  | .waitStop => 2
  | .exitStop => 1
  | _ => 0

namespace Process

variable {cfg : Config} {p q : Process} {created attached : Bool} {u : StartUp} {r : Round}
  {actions : List Action}

/-- The threads are never both in the monitor. -/
theorem not_both_holding (h : p.monitor.Fits (standingOf p.main p.server))
    (hmain : p.main.standing = .holding) : p.server.standing ≠ .holding := by
  intro hserver
  have : Thread.main = .server := h.unique hmain hserver
  cases this

/-! ### Starting -/

/-- What `start` knows of the server thread. -/
structure Begun (p : Process) : Prop where
  fits : p.monitor.Fits (standingOf p.main p.server)
  created : p.main = .create → p.server = .notCreated
  running : p.main.starting → p.server ≠ .notCreated
  attempted : p._metricServerAttachAttempted = true ↔ 4 ≤ p.server.rank
  untested : p.main = .callWaitStart → p._metricServerAttachAttempted = false
  waits : p.main = .waitStart → .main ∈ p.monitor.waiting → p.server.rank ≤ 5
  tested : p.main = .exitStart → p._metricServerAttachAttempted = true
  begun : p.main.started → p.server = .notCreated ∨ 7 ≤ p.server.rank

theorem begun_initial : initial.Begun where
  fits := .free fun t => by cases t <;> rfl
  created _ := rfl
  running := nofun
  attempted := by decide
  untested := nofun
  waits := nofun
  tested := nofun
  begun := nofun

/-- Past its wait `start` has nothing more to see. -/
theorem begun_of_started (hfits : q.monitor.Fits (standingOf q.main q.server))
    (hattempted : q._metricServerAttachAttempted = true ↔ 4 ≤ q.server.rank)
    (hmain : q.main.started) (hbegun : q.server = .notCreated ∨ 7 ≤ q.server.rank) : q.Begun := by
  have hne {pc : MainPc} (hpc : pc.started = false) (h : q.main = pc) : False := by
    rw [h, hpc] at hmain
    cases hmain
  refine ⟨hfits, fun h => (hne rfl h).elim, fun h => ?_, hattempted, fun h => (hne rfl h).elim,
    fun h => (hne rfl h).elim, fun h => (hne rfl h).elim, fun _ => hbegun⟩
  cases hpc : q.main <;> simp_all [MainPc.starting, MainPc.started]

theorem Begun.mainStep (h : p.Begun) (hstep : p.mainStep created = .next q) : q.Begun := by
  have hfits := mainStep_fits h.fits h.created hstep
  obtain ⟨hold, hcreated, hrunning, hattempted, huntested, -, htested, hbegun⟩ := h
  obtain ⟨m, metricServer, attempted, flag, pc, server⟩ := p
  cases pc with
  | create =>
    obtain rfl := Outcome.next.inj hstep
    obtain rfl : server = .notCreated := hcreated rfl
    cases created with
    | false => exact begun_of_started hfits hattempted rfl (.inl rfl)
    | true =>
      have hunset : ¬ attempted = true := hattempted.not.mpr (by simp [ServerPc.rank])
      exact ⟨hfits, nofun, by simp, iff_of_false hunset (by simp [ServerPc.rank]), nofun, nofun,
        nofun, nofun⟩
  | enterStart | waitStart =>
    obtain ⟨m', hm, rfl⟩ := sync_eq_next.mp hstep
    exact ⟨hfits, nofun, fun _ => hrunning rfl, hattempted, nofun, nofun, nofun, nofun⟩
  | testAttachAttempted =>
    obtain rfl := Outcome.next.inj hstep
    cases attempted with
    | false =>
      exact ⟨hfits, nofun, fun _ => hrunning rfl, hattempted, fun _ => rfl, nofun, nofun, nofun⟩
    | true =>
      exact ⟨hfits, nofun, fun _ => hrunning rfl, hattempted, nofun, nofun, fun _ => rfl, nofun⟩
  | callWaitStart =>
    obtain ⟨m', hm, rfl⟩ := sync_eq_next.mp hstep
    refine ⟨hfits, nofun, fun _ => hrunning rfl, hattempted, nofun, fun _ _ => ?_, nofun, nofun⟩
    have hrank : ¬ 4 ≤ server.rank := hattempted.not.mp (Bool.eq_false_iff.mp (huntested rfl))
    show server.rank ≤ 5
    omega
  | exitStart =>
    -- the monitor is the main thread's, so the server thread is out of it again
    have hout := not_both_holding hold rfl
    obtain ⟨m', hm, rfl⟩ := sync_eq_next.mp hstep
    have hrank : 4 ≤ server.rank := hattempted.mp (htested rfl)
    refine begun_of_started hfits hattempted rfl (.inr ?_)
    show 7 ≤ server.rank
    cases server <;> simp_all [ServerPc.rank, ServerPc.standing]
  | testStart | setExitFlag =>
    obtain rfl := Outcome.next.inj hstep
    exact begun_of_started hfits hattempted rfl (hbegun rfl)
  | testStop =>
    obtain rfl := Outcome.next.inj hstep
    cases metricServer <;> exact begun_of_started hfits hattempted rfl (hbegun rfl)
  | enterStop | callWaitStop | waitStop | exitStop =>
    obtain ⟨m', hm, rfl⟩ := sync_eq_next.mp hstep
    exact begun_of_started hfits hattempted rfl (hbegun rfl)
  | stopped => cases hstep

/-- An iteration that finds the flag set after `poll` is the last one. -/
theorem loopBody_of_flag (cfg : Config) (s : LoopState) (hflag : p._metricServerExitFlag) :
    LoopState.loopBody cfg s (p.round r) =
      .done (.returned ((s.polled (p.round r)).shutdown cfg)) :=
  if_pos hflag

/-- What a step of the server thread leaves as it was: the main thread, which it takes at most
out of the list of those that wait. It brings its own thread further, once the exit flag is
set, and past its first part that thread does not fail. -/
structure Advances (p q : Process) : Prop where
  main : q.main = p.main
  waiting : ∀ t ∈ q.monitor.waiting, t ∈ p.monitor.waiting
  flag : q._metricServerExitFlag = p._metricServerExitFlag
  rank_le : p.server.rank ≤ q.server.rank
  rank_lt : p._metricServerExitFlag → p.server.rank < q.server.rank
  created : p.server ≠ .notCreated
  created' : q.server ≠ .notCreated
  alive : 7 ≤ p.server.rank → q.server ≠ .failed

theorem advances (hstep : p.serverStep cfg attached u r = .next q) : p.Advances q := by
  obtain ⟨m, metricServer, attempted, flag, main, pc⟩ := p
  cases pc with
  | notCreated | ended | failed => cases hstep
  | attach | setAttachAttempted ok | setMetricServer ok | detach | clearMetricServer =>
    obtain rfl := Outcome.next.inj hstep
    constructor <;> simp [ServerPc.rank]
  | enterFirst ok | enterLast =>
    obtain ⟨m', hm, rfl⟩ := sync_eq_next.mp hstep
    constructor <;> simp [ServerPc.rank, Monitor.waiting_enter hm]
  | notifyFirst ok | notifyLast =>
    obtain ⟨m', hm, rfl⟩ := sync_eq_next.mp hstep
    constructor <;> simp [ServerPc.rank, Monitor.waiting_notifyAll hm]
  | exitFirst ok =>
    obtain ⟨m', hm, rfl⟩ := sync_eq_next.mp hstep
    cases ok <;> constructor <;> simp [ServerPc.rank, Monitor.waiting_exit hm]
  | exitLast =>
    obtain ⟨m', hm, rfl⟩ := sync_eq_next.mp hstep
    constructor <;> simp [ServerPc.rank, Monitor.waiting_exit hm]
  | loopHead s =>
    obtain rfl := Outcome.next.inj hstep
    cases flag <;> constructor <;> simp [ServerPc.rank]
  | handler =>
    simp only [serverStep] at hstep
    split at hstep
    all_goals cases hstep
    all_goals constructor <;> simp [ServerPc.rank]
  | loopBody s =>
    simp only [serverStep] at hstep
    split at hstep
    next s' hs' =>
      cases hstep
      have hunset : ¬ flag = true := fun hflag => by
        cases (loopBody_of_flag cfg s hflag).symm.trans hs'
      constructor <;> simp [ServerPc.rank, hunset]
    next =>
      cases hstep
      constructor <;> simp [ServerPc.rank]
    next => cases hstep

/-- What `start` knows stays true when the server thread goes on. -/
theorem Begun.advance (h : p.Begun) (hstep : p.serverStep cfg attached u r = .next q)
    (hattempted : q._metricServerAttachAttempted = true ↔ 4 ≤ q.server.rank)
    (huntested : q.main = .callWaitStart → q._metricServerAttachAttempted = false)
    (hwaits : .main ∈ q.monitor.waiting → p.server.rank ≤ 5 → q.server.rank ≤ 5) : q.Begun := by
  have hfits := serverStep_fits h.fits hstep
  have ha := advances hstep
  have hmain := ha.main
  refine ⟨hfits, fun hc => ?_, fun _ => ha.created', hattempted, huntested, fun hw hmem => ?_,
    fun ht => ?_, fun hs => .inr ?_⟩
  · exact absurd (h.created (hmain ▸ hc)) ha.created
  · exact hwaits hmem (h.waits (hmain ▸ hw) (ha.waiting _ hmem))
  · exact hattempted.mpr ((h.attempted.mp (h.tested (hmain ▸ ht))).trans ha.rank_le)
  · exact ((h.begun (hmain ▸ hs)).resolve_left ha.created).trans ha.rank_le

theorem Begun.serverStep (h : p.Begun) (hstep : p.serverStep cfg attached u r = .next q) :
    q.Begun := by
  have hadvance := h.advance hstep
  obtain ⟨hold, -, -, hattempted, huntested, -, -, -⟩ := h
  obtain ⟨m, metricServer, attempted, flag, main, pc⟩ := p
  cases pc with
  | notCreated | ended | failed => cases hstep
  | attach =>
    obtain rfl := Outcome.next.inj hstep
    exact hadvance (hattempted.trans (by simp [ServerPc.rank])) huntested
      fun _ _ => by simp [ServerPc.rank]
  | enterFirst ok =>
    obtain ⟨m', hm, rfl⟩ := sync_eq_next.mp hstep
    exact hadvance (hattempted.trans (by simp [ServerPc.rank])) huntested
      fun _ _ => by simp [ServerPc.rank]
  | setAttachAttempted ok =>
    obtain rfl := Outcome.next.inj hstep
    refine hadvance (by simp [ServerPc.rank]) (fun hmain => ?_) fun _ _ => by simp [ServerPc.rank]
    obtain rfl : main = .callWaitStart := hmain
    exact absurd rfl (not_both_holding hold rfl)
  | setMetricServer ok =>
    obtain rfl := Outcome.next.inj hstep
    exact hadvance (hattempted.trans (by simp [ServerPc.rank])) huntested
      fun _ _ => by simp [ServerPc.rank]
  | notifyFirst ok =>
    obtain ⟨m', hm, rfl⟩ := sync_eq_next.mp hstep
    refine hadvance (hattempted.trans (by simp [ServerPc.rank])) huntested fun hmem => ?_
    simp [Monitor.waiting_notifyAll hm] at hmem
  | exitFirst ok =>
    obtain ⟨m', hm, rfl⟩ := sync_eq_next.mp hstep
    refine hadvance (hattempted.trans ?_) huntested fun _ hrank => absurd hrank ?_
    · cases ok <;> simp [ServerPc.rank]
    · simp [ServerPc.rank]
  | detach | clearMetricServer =>
    obtain rfl := Outcome.next.inj hstep
    exact hadvance (hattempted.trans (by simp [ServerPc.rank])) huntested
      fun _ hrank => absurd hrank (by simp [ServerPc.rank])
  | enterLast | notifyLast | exitLast =>
    obtain ⟨m', hm, rfl⟩ := sync_eq_next.mp hstep
    exact hadvance (hattempted.trans (by simp [ServerPc.rank])) huntested
      fun _ hrank => absurd hrank (by simp [ServerPc.rank])
  | loopHead s =>
    obtain rfl := Outcome.next.inj hstep
    refine hadvance (hattempted.trans ?_) huntested fun _ hrank => absurd hrank ?_
    · cases flag <;> simp [ServerPc.rank]
    · simp [ServerPc.rank]
  | handler | loopBody s =>
    simp only [Process.serverStep] at hstep
    split at hstep
    all_goals cases hstep
    all_goals
      exact hadvance (hattempted.trans (by simp [ServerPc.rank])) huntested
        fun _ hrank => absurd hrank (by simp [ServerPc.rank])

/-! ### Stopping -/

/-- What `stop` knows of the server thread. -/
structure Answered (p : Process) : Prop extends Begun p where
  unset : p.server.unset → p._metricServer = false
  found : p.main.found → p.server ≠ .notCreated ∧ p.server ≠ .failed
  woken : p.main = .waitStop → .main ∉ p.monitor.waiting → 13 ≤ p.server.rank
  answered : p.main = .exitStop → p.server = .ended

theorem answered_initial : initial.Answered where
  toBegun := begun_initial
  unset _ := rfl
  found := nofun
  woken := nofun
  answered := nofun

/-- A server thread that is entered in `_metricServer` is there, and has not failed. -/
theorem ServerPc.ne_of_unset {pc : ServerPc} (h : pc.unset = false) :
    pc ≠ .notCreated ∧ pc ≠ .failed := by
  cases pc <;> simp_all [ServerPc.unset]

theorem Answered.mainStep (h : p.Answered) (hstep : p.mainStep created = .next q) :
    q.Answered := by
  have hbegun := h.toBegun.mainStep hstep
  obtain ⟨⟨hold, hcreated, -, -, -, -, -, -⟩, hunset, hfound, hwoken, -⟩ := h
  obtain ⟨m, metricServer, attempted, flag, pc, server⟩ := p
  cases pc with
  | create =>
    obtain rfl := Outcome.next.inj hstep
    obtain rfl : server = .notCreated := hcreated rfl
    cases created <;> exact ⟨hbegun, fun _ => hunset rfl, nofun, nofun, nofun⟩
  | enterStart | callWaitStart | waitStart | exitStart =>
    obtain ⟨m', hm, rfl⟩ := sync_eq_next.mp hstep
    exact ⟨hbegun, hunset, nofun, nofun, nofun⟩
  | testAttachAttempted =>
    obtain rfl := Outcome.next.inj hstep
    cases attempted <;> exact ⟨hbegun, hunset, nofun, nofun, nofun⟩
  | testStart =>
    obtain rfl := Outcome.next.inj hstep
    exact ⟨hbegun, hunset, nofun, nofun, nofun⟩
  | testStop =>
    obtain rfl := Outcome.next.inj hstep
    cases metricServer with
    | false => exact ⟨hbegun, hunset, nofun, nofun, nofun⟩
    | true =>
      have hset : server.unset = false := Bool.eq_false_iff.mpr fun h => by cases hunset h
      exact ⟨hbegun, hunset, fun _ => ServerPc.ne_of_unset hset, nofun, nofun⟩
  | enterStop =>
    obtain ⟨m', hm, rfl⟩ := sync_eq_next.mp hstep
    exact ⟨hbegun, hunset, fun _ => hfound rfl, nofun, nofun⟩
  | setExitFlag =>
    obtain rfl := Outcome.next.inj hstep
    exact ⟨hbegun, hunset, fun _ => hfound rfl, nofun, nofun⟩
  | callWaitStop =>
    obtain ⟨m', hm, rfl⟩ := sync_eq_next.mp hstep
    refine ⟨hbegun, hunset, fun _ => hfound rfl, fun _ hnot => ?_, nofun⟩
    exact absurd (Monitor.mem_waiting_wait hm) hnot
  | waitStop =>
    obtain ⟨m', hm, rfl⟩ := sync_eq_next.mp hstep
    refine ⟨hbegun, hunset, fun _ => hfound rfl, nofun, fun _ => ?_⟩
    -- the monitor is free, so the server thread is past its last step in it
    have hrank := hwoken rfl (Monitor.notMem_waiting_of_resume hm)
    have hout := not_both_holding hbegun.fits rfl
    have hnot := (hfound rfl).2
    cases server <;> simp_all [ServerPc.rank, ServerPc.standing]
  | exitStop =>
    obtain ⟨m', hm, rfl⟩ := sync_eq_next.mp hstep
    exact ⟨hbegun, hunset, nofun, nofun, nofun⟩
  | stopped => cases hstep

/-- What `stop` knows stays true when the server thread goes on: only its last notification
wakes `stop`. -/
theorem Answered.advance (h : p.Answered) (hstep : p.serverStep cfg attached u r = .next q)
    (hunset : q.server.unset → q._metricServer = false)
    (hwoken : 7 ≤ p.server.rank → .main ∈ p.monitor.waiting → .main ∉ q.monitor.waiting →
      13 ≤ q.server.rank)
    (hended : p.server ≠ .ended) : q.Answered := by
  have ha := advances hstep
  have hmain := ha.main
  have hbegun (hstarted : p.main.started) : 7 ≤ p.server.rank :=
    (h.begun hstarted).resolve_left ha.created
  refine ⟨h.toBegun.serverStep hstep, hunset, fun hf => ⟨ha.created', ha.alive (hbegun ?_)⟩,
    fun hw hnot => ?_, fun he => absurd (h.answered (hmain ▸ he)) hended⟩
  · rw [hmain] at hf
    exact MainPc.started_of_found hf
  · rw [hmain] at hw
    by_cases hmem : .main ∈ p.monitor.waiting
    · exact hwoken (hbegun (by rw [hw]; rfl)) hmem hnot
    · exact (h.woken hw hmem).trans ha.rank_le

theorem Answered.serverStep (h : p.Answered) (hstep : p.serverStep cfg attached u r = .next q) :
    q.Answered := by
  have hadvance := h.advance hstep
  have hunset := h.unset
  obtain ⟨m, metricServer, attempted, flag, main, pc⟩ := p
  cases pc with
  | notCreated | ended | failed => cases hstep
  | attach | setAttachAttempted ok =>
    obtain rfl := Outcome.next.inj hstep
    exact hadvance (fun _ => hunset rfl) (fun _ h hnot => absurd h hnot) (by simp)
  | enterFirst ok =>
    obtain ⟨m', hm, rfl⟩ := sync_eq_next.mp hstep
    exact hadvance (fun _ => hunset rfl) (fun hrank => absurd hrank (by simp [ServerPc.rank]))
      (by simp)
  | setMetricServer ok =>
    obtain rfl := Outcome.next.inj hstep
    refine hadvance (fun hq => ?_) (fun _ h hnot => absurd h hnot) (by simp)
    cases ok with
    | false => exact hunset rfl
    | true => cases hq
  | notifyFirst ok =>
    obtain ⟨m', hm, rfl⟩ := sync_eq_next.mp hstep
    exact hadvance hunset (fun hrank => absurd hrank (by simp [ServerPc.rank])) (by simp)
  | exitFirst ok =>
    obtain ⟨m', hm, rfl⟩ := sync_eq_next.mp hstep
    refine hadvance (fun hq => ?_) (fun hrank => absurd hrank (by simp [ServerPc.rank])) (by simp)
    cases ok with
    | false => exact hunset rfl
    | true => cases hq
  | detach =>
    obtain rfl := Outcome.next.inj hstep
    exact hadvance (fun hq => by cases hq) (fun _ h hnot => absurd h hnot) (by simp)
  | enterLast =>
    obtain ⟨m', hm, rfl⟩ := sync_eq_next.mp hstep
    exact hadvance (fun hq => by cases hq)
      (fun _ h hnot => absurd (Monitor.waiting_enter hm ▸ h) hnot) (by simp)
  | clearMetricServer =>
    obtain rfl := Outcome.next.inj hstep
    exact hadvance (fun _ => rfl) (fun _ h hnot => absurd h hnot) (by simp)
  | notifyLast =>
    obtain ⟨m', hm, rfl⟩ := sync_eq_next.mp hstep
    exact hadvance (fun _ => hunset rfl) (fun _ _ _ => le_rfl) (by simp)
  | exitLast =>
    obtain ⟨m', hm, rfl⟩ := sync_eq_next.mp hstep
    exact hadvance (fun _ => hunset rfl)
      (fun _ h hnot => absurd (Monitor.waiting_exit hm ▸ h) hnot) (by simp)
  | loopHead s =>
    obtain rfl := Outcome.next.inj hstep
    cases flag <;>
      exact hadvance (fun hq => by cases hq) (fun _ h hnot => absurd h hnot) (by simp)
  | handler | loopBody s =>
    simp only [Process.serverStep] at hstep
    split at hstep
    all_goals cases hstep
    all_goals exact hadvance (fun hq => by cases hq) (fun _ h hnot => absurd h hnot) (by simp)

theorem Answered.kept {action : Action} (h : p.Answered) (hstep : p.step cfg action = .next q) :
    q.Answered := by
  cases action with
  | main created => exact h.mainStep hstep
  | server attached u r => exact h.serverStep hstep

/-- What `stop` knows holds in every interleaving. -/
theorem answered_of_trace (h : Trace (continues (step cfg)) initial actions p) : p.Answered :=
  h.invariant (fun _ _ _ _ hI hstep => hI.kept hstep) answered_initial

/-! ### Progress -/

/-- The step is taken. -/
def Goes (cfg : Config) (p : Process) (action : Action) : Prop := ∃ q, p.step cfg action = .next q

/-- An operation on the monitor that is open to the thread is a step. -/
theorem exists_sync {m : Monitor Thread} {o : Option (Monitor Thread)} (h : o = some m) :
    ∃ q, p.sync o = .next q :=
  ⟨_, sync_eq_next.mpr ⟨m, h, rfl⟩⟩

theorem sync_ne_exited {m : Option (Monitor Thread)} : p.sync m ≠ .done .exited := by
  cases m <;> simp [sync]

/-- The main thread goes on while it has the monitor. -/
theorem goes_main_of_holding (h : p.monitor.Fits (standingOf p.main p.server))
    (hmain : p.main.standing = .holding) (created : Bool) : p.Goes cfg (.main created) := by
  have howner : p.monitor.owner = some .main := (h.holds .main).mpr hmain
  obtain ⟨m, metricServer, attempted, flag, pc, server⟩ := p
  cases pc with
  | create | enterStart | waitStart | testStart | testStop | enterStop | waitStop | stopped =>
    cases hmain
  | testAttachAttempted | setExitFlag => exact ⟨_, rfl⟩
  | callWaitStart | callWaitStop => exact exists_sync (if_pos howner)
  | exitStart | exitStop => exact exists_sync (if_pos howner)

/-- It goes on when the monitor is free, unless it waits to be woken or is through. -/
theorem goes_main_of_free (hfree : p.monitor.owner = none)
    (hmain : p.main.standing ≠ .holding) (hfinished : p.main ≠ .stopped)
    (hwaits : p.main.standing = .waiting → .main ∉ p.monitor.waiting) (created : Bool) :
    p.Goes cfg (.main created) := by
  obtain ⟨m, metricServer, attempted, flag, pc, server⟩ := p
  cases pc with
  | testAttachAttempted | callWaitStart | exitStart | setExitFlag | callWaitStop | exitStop =>
    exact absurd rfl hmain
  | create | testStart | testStop => exact ⟨_, rfl⟩
  | enterStart | enterStop => exact exists_sync (if_pos hfree)
  | waitStart | waitStop => exact exists_sync (if_pos ⟨hfree, hwaits rfl⟩)
  | stopped => exact absurd rfl hfinished

/-- The server thread goes on while the main thread does not have the monitor, or its handler ends
the process. -/
theorem goes_server (h : p.monitor.Fits (standingOf p.main p.server))
    (hmain : p.main.standing ≠ .holding) (hcreated : p.server ≠ .notCreated)
    (hfinished : p.server.finished = false) (attached : Bool) (u : StartUp) (r : Round) :
    p.Goes cfg (.server attached u r) ∨ p.step cfg (.server attached u r) = .done .exited := by
  have hfree (hout : p.server.standing ≠ .holding) : p.monitor.owner = none :=
    h.owner_eq_none fun t => by cases t <;> assumption
  have howner (hin : p.server.standing = .holding) : p.monitor.owner = some .server :=
    (h.holds .server).mpr hin
  obtain ⟨m, metricServer, attempted, flag, main, pc⟩ := p
  cases pc with
  | notCreated => exact absurd rfl hcreated
  | ended | failed => cases hfinished
  | attach | setAttachAttempted ok | setMetricServer ok | loopHead s | detach | clearMetricServer =>
    exact .inl ⟨_, rfl⟩
  | enterFirst ok | enterLast => exact .inl (exists_sync (if_pos (hfree nofun)))
  | notifyFirst ok | notifyLast => exact .inl (exists_sync (if_pos (howner rfl)))
  | exitFirst ok | exitLast => exact .inl (exists_sync (if_pos (howner rfl)))
  | handler | loopBody s =>
    simp only [Goes, step, Process.serverStep]
    split <;> simp

/-- Both threads are through. -/
def Finished (p : Process) : Prop :=
  p.main = .stopped ∧ (p.server = .notCreated ∨ p.server.finished)

/-- One of the threads goes on, whatever it reads, until both are through. -/
theorem goes_of_heard (hheard : p.Heard) (hanswered : p.Answered) (created attached : Bool)
    (u : StartUp) (r : Round) :
    p.Goes cfg (.main created) ∨ p.Goes cfg (.server attached u r) ∨
      p.step cfg (.server attached u r) = .done .exited ∨ p.Finished := by
  by_cases hholds : p.main.standing = .holding
  · exact .inl (goes_main_of_holding hanswered.fits hholds created)
  by_cases hthrough : p.server = .notCreated ∨ p.server.finished
  · by_cases hstopped : p.main = .stopped
    · exact .inr (.inr (.inr ⟨hstopped, hthrough⟩))
    · have hout := ServerPc.outside_of_through hthrough
      refine .inl (goes_main_of_free ?_ hholds hstopped (fun hwaits hmem => ?_) created)
      · exact hanswered.fits.owner_eq_none fun t => by
          cases t with
          | main => exact hholds
          | server => exact ne_of_eq_of_ne hout (by decide)
      -- the server thread is past the notification that the main thread waits for
      · obtain hmain | hmain := MainPc.eq_of_waiting hwaits
        · have hrank := hanswered.waits hmain hmem
          obtain hnone | hfinished := hthrough
          · exact hanswered.running (by rw [hmain]; rfl) hnone
          · exact absurd hrank (by rw [ServerPc.rank_of_finished hfinished]; decide)
        · obtain hnone | hfinished := hthrough
          · exact (hanswered.found (by rw [hmain]; rfl)).1 hnone
          · exact hheard.silent (ServerPc.silent_of_finished hfinished) hmain hmem
  · obtain ⟨hcreated, hfinished⟩ := not_or.mp hthrough
    have hgoes : p.Goes cfg (.server attached u r) ∨
        p.step cfg (.server attached u r) = .done .exited :=
      goes_server hanswered.fits hholds hcreated (by simpa using hfinished) attached u r
    obtain hgo | hexit := hgoes
    · exact .inr (.inl hgo)
    · exact .inr (.inr (.inl hexit))

/-- As long as the server thread does not clear `_metricServer` between the test of `stop` and
its entry, there is no deadlock. -/
theorem goes_of_punctual (h : Trace (when Punctual (continues (step cfg))) initial actions p)
    (created attached : Bool) (u : StartUp) (r : Round) :
    p.Goes cfg (.main created) ∨ p.Goes cfg (.server attached u r) ∨
      p.step cfg (.server attached u r) = .done .exited ∨ p.Finished :=
  goes_of_heard (heard_of_punctual h) (answered_of_trace (h.mono fun _ _ _ hR => hR.2)) created
    attached u r

/-- `start`, and a `stop` that has to wait for the server thread. -/
def stopWaits : List Action :=
  steps (.main :: .replicate 7 .server ++ .replicate 8 .main)

theorem exists_stopWaits : ∃ p,
    Trace (when Punctual (continues (step (.sample false)))) initial stopWaits p ∧
      p.main = .waitStop ∧ p._metricServerExitFlag := by
  obtain ⟨p, hp, hmain⟩ := Outcome.exists_of_goes
    (o := runs (step (.sample false)) initial stopWaits)
    (p := fun p : Process => decide (p.main = .waitStop ∧ p._metricServerExitFlag)) (by decide)
  exact ⟨p, trace_of_meets (P := Punctual) hp (by decide), of_decide_eq_true hmain⟩

theorem goes_of_punctual_sample : ∃ p : Process, p.main = .waitStop ∧
    (p.Goes (.sample false) (.main true) ∨
      p.Goes (.sample false) (.server true .sample (.sample [] 5 6 "")) ∨
      p.step (.sample false) (.server true .sample (.sample [] 5 6 "")) = .done .exited ∨
      p.Finished) := by
  obtain ⟨p, htrace, hmain, -⟩ := exists_stopWaits
  exact ⟨p, hmain, goes_of_punctual htrace _ _ _ _⟩

/-! ### The end of `stop` -/

/-- The exit flag is set when `stop` has found a server thread, which has not failed. -/
structure Flagged (p : Process) : Prop extends Answered p where
  flagged : p._metricServerExitFlag → p.main.flagged ∧ p.server ≠ .notCreated ∧ p.server ≠ .failed

theorem Flagged.kept {action : Action} (h : p.Flagged) (hstep : p.step cfg action = .next q) :
    q.Flagged := by
  refine ⟨h.toAnswered.kept hstep, ?_⟩
  obtain ⟨hanswered, hflagged⟩ := h
  cases action with
  | main created =>
    have hfound := hanswered.found
    obtain ⟨m, metricServer, attempted, flag, pc, server⟩ := p
    cases pc with
    | create | testAttachAttempted | testStart | testStop =>
      obtain rfl := Outcome.next.inj hstep
      intro hflag
      refine absurd (hflagged ?_).1 (by simp [MainPc.flagged])
      first | exact hflag | (revert hflag; split <;> exact id)
    | setExitFlag =>
      obtain rfl := Outcome.next.inj hstep
      exact fun _ => ⟨rfl, hfound rfl⟩
    | enterStart | callWaitStart | waitStart | exitStart | enterStop =>
      obtain ⟨m', hm, rfl⟩ := sync_eq_next.mp hstep
      exact fun hflag => absurd (hflagged hflag).1 (by simp [MainPc.flagged])
    | callWaitStop | waitStop | exitStop =>
      obtain ⟨m', hm, rfl⟩ := sync_eq_next.mp hstep
      exact fun hflag => ⟨rfl, (hflagged hflag).2⟩
    | stopped => cases hstep
  | server attached u r =>
    have ha := advances hstep
    intro hflag
    obtain ⟨hmain, hcreated, -⟩ := hflagged (ha.flag ▸ hflag)
    refine ⟨ha.main ▸ hmain, ha.created', ha.alive ?_⟩
    exact (hanswered.begun (MainPc.started_of_flagged hmain)).resolve_left hcreated

/-- The steps that are left to both threads. -/
def work (p : Process) : ℕ := p.main.left + (14 - p.server.rank)

/-- Once the exit flag is set it stays so, and every step leaves less to do. -/
theorem Flagged.work_lt {action : Action} (h : p.Flagged) (hflag : p._metricServerExitFlag)
    (hstep : p.step cfg action = .next q) : q._metricServerExitFlag ∧ q.work < p.work := by
  obtain ⟨hflagged, -⟩ := h.flagged hflag
  cases action with
  | main created =>
    obtain ⟨m, metricServer, attempted, flag, pc, server⟩ := p
    cases pc with
    | callWaitStop | waitStop | exitStop =>
      obtain ⟨m', hm, rfl⟩ := sync_eq_next.mp hstep
      exact ⟨hflag, by simp [work, MainPc.left]⟩
    | stopped => cases hstep
    | _ => cases hflagged
  | server attached u r =>
    have ha := advances hstep
    have hlt := ha.rank_lt hflag
    have hle := q.server.rank_le
    refine ⟨ha.flag ▸ hflag, ?_⟩
    rw [work, work, ha.main]
    omega

/-- Once the flag is set only start-up ends the process. -/
theorem handler_of_exited (hflag : p._metricServerExitFlag)
    (h : p.step cfg (.server attached u r) = .done .exited) : p.server = .handler := by
  obtain ⟨m, metricServer, attempted, flag, main, pc⟩ := p
  cases pc with
  | handler => rfl
  | loopBody s =>
    simp only [step, Process.serverStep] at h
    rw [loopBody_of_flag cfg s hflag] at h
    cases h
  | notCreated | attach | setAttachAttempted ok | setMetricServer ok | loopHead s | detach
  | clearMetricServer | ended | failed => cases h
  | enterFirst ok | enterLast | notifyFirst ok | exitFirst ok | notifyLast | exitLast =>
    exact absurd h sync_ne_exited

/-- A server thread that comes after the flag is punctual. -/
theorem Flagged.punctual (h : p.Flagged) (hflag : p._metricServerExitFlag) (action : Action) :
    p.Punctual action := by
  cases action with
  | main created => trivial
  | server attached u r =>
    rintro - hmain
    cases hmain ▸ (h.flagged hflag).1

theorem Flagged.work_le (h : p.Flagged) (hflag : p._metricServerExitFlag) : p.work ≤ 10 := by
  obtain ⟨hflagged, hcreated, -⟩ := h.flagged hflag
  have hrank := (h.begun (MainPc.started_of_flagged hflagged)).resolve_left hcreated
  have hleft : p.main.left ≤ 3 := by cases p.main <;> simp [MainPc.left]
  rw [work]
  omega

/-- Once `stop` has set the exit flag no more than ten steps are taken, whichever thread takes
them, and then `stop` has come back and the server thread has ended. Only a start-up that fails
can end the process before. -/
theorem stop_returns (h : Trace (when Punctual (continues (step cfg))) initial actions p)
    (hflag : p._metricServerExitFlag) {later : List Action}
    (hlater : Trace (continues (step cfg)) p later q) :
    later.length ≤ 10 ∧ ∀ created attached u r,
      q.Goes cfg (.main created) ∨ q.Goes cfg (.server attached u r) ∨
      (q.server = .handler ∧ q.step cfg (.server attached u r) = .done .exited) ∨
      (q.main = .stopped ∧ q.server = .ended) := by
  have hp : p.Flagged :=
    h.invariant (fun _ _ _ _ hI hstep => hI.kept hstep.2) ⟨answered_initial, nofun⟩
  have hstep {action : Action} {p q : Process} (hI : p.Flagged ∧ p.Heard ∧ p._metricServerExitFlag)
      (hR : p.step cfg action = .next q) : q.Flagged ∧ q.Heard ∧ q._metricServerExitFlag :=
    ⟨hI.1.kept hR, hI.2.1.kept (hI.1.punctual hI.2.2 action) hR, (hI.1.work_lt hI.2.2 hR).1⟩
  have hI : p.Flagged ∧ p.Heard ∧ p._metricServerExitFlag := ⟨hp, heard_of_punctual h, hflag⟩
  constructor
  · have hlen := hlater.length_le (fun _ _ _ => hstep)
      (fun _ _ _ hI hR => (hI.1.work_lt hI.2.2 hR).2) hI
    have := hp.work_le hflag
    omega
  · intro created attached u r
    obtain ⟨hq, hheard, hqflag⟩ := hlater.invariant (fun _ _ _ _ => hstep) hI
    obtain hgo | hgo | hexit | ⟨hmain, hfinished⟩ :=
      goes_of_heard hheard hq.toAnswered created attached u r
    · exact .inl hgo
    · exact .inr (.inl hgo)
    · exact .inr (.inr (.inl ⟨handler_of_exited hqflag hexit, hexit⟩))
    · obtain ⟨-, hcreated, hfailed⟩ := hq.flagged hqflag
      have hended := ServerPc.ended_of_finished (hfinished.resolve_left hcreated) hfailed
      exact .inr (.inr (.inr ⟨hmain, hended⟩))

theorem stop_returns_sample : ∃ p : Process, p.main = .waitStop ∧
    ∀ later q, Trace (continues (step (.sample false))) p later q →
      later.length ≤ 10 ∧ ∀ created attached u r,
        q.Goes (.sample false) (.main created) ∨ q.Goes (.sample false) (.server attached u r) ∨
        (q.server = .handler ∧
          q.step (.sample false) (.server attached u r) = .done .exited) ∨
        (q.main = .stopped ∧ q.server = .ended) := by
  obtain ⟨p, htrace, hmain, hflag⟩ := exists_stopWaits
  exact ⟨p, hmain, fun later q hlater => stop_returns htrace hflag hlater⟩

end Process
end MetricServer
