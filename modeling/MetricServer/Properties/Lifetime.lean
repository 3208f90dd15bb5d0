import MetricServer.Lifecycle.Lifetime
import MetricServer.Properties.Sequencing

/-! The monitor outlives its use. Whatever calls the owner makes and however the threads
interleave, neither of them operates on a monitor that is gone, and the monitor is destroyed
when nobody is in it. What is not destroyed is the monitor of a server thread that ended by
itself or could not attach. -/

namespace MetricServer

open Base

/-- The main thread is between two steps of `start` or of `stop`. -/
def MainPc.inCall : MainPc → Bool
  | .create | .stopped => false
  | _ => true

/-- The main thread is not in a call. -/
def MainPc.resting : MainPc → Bool
  | .testStop | .stopped => true
  | _ => false

theorem MainPc.started_of_resting {pc : MainPc} (h : pc.resting) : pc.started := by
  cases pc <;> first | rfl | cases h

theorem MainPc.outside_of_resting {pc : MainPc} (h : pc.resting) : pc.standing = .outside := by
  cases pc <;> first | rfl | cases h

/-- The server thread does not come to its monitor again. -/
def ServerPc.gone : ServerPc → Bool
  | .notCreated | .ended | .failed => true
  | _ => false

theorem ServerPc.gone_of_finished {pc : ServerPc} (h : pc.finished) : pc.gone := by
  cases pc <;> first | rfl | cases h

theorem ServerPc.not_usesMonitor_of_gone {pc : ServerPc} (h : pc.gone) :
    pc.usesMonitor = false := by
  cases pc <;> first | rfl | cases h

theorem ServerPc.unset_of_gone {pc : ServerPc} (h : pc.gone) : pc.unset := by
  cases pc <;> first | rfl | cases h

namespace Process

variable {cfg : Config} {p q : Process} {attached : Bool} {u : StartUp} {r : Round}

/-- A server thread that is gone takes no step. -/
theorem not_goes_of_gone (h : p.server.gone) : p.serverStep cfg attached u r ≠ .next q := by
  intro hstep
  obtain ⟨m, metricServer, attempted, flag, main, pc⟩ := p
  cases pc with
  | notCreated | ended | failed => cases hstep
  | _ => cases h

/-- `stop` can be called again. -/
theorem Answered.again (h : p.Answered) (hmain : p.main.resting) :
    ({ p with main := .testStop } : Process).Answered := by
  have hstarted : p.main.started := MainPc.started_of_resting hmain
  have hout : p.main.standing = .outside := MainPc.outside_of_resting hmain
  refine ⟨begun_of_started (fits_of_eq h.fits hout.symm rfl) h.attempted rfl (h.begun hstarted),
    h.unset, nofun, nofun, nofun⟩

/-- A monitor that no thread is in is in no use. -/
theorem unused_of_outside (h : p.monitor.Fits (standingOf p.main p.server))
    (hmain : p.main.standing = .outside) (hserver : p.server.standing = .outside) :
    p.monitor.owner = none ∧ p.monitor.waiting = [] := by
  have hout (t : Thread) : standingOf p.main p.server t = .outside := by
    cases t with
    | main => exact hmain
    | server => exact hserver
  refine ⟨h.owner_eq_none fun t => by rw [hout t]; decide, ?_⟩
  refine List.eq_nil_iff_forall_not_mem.mpr fun t ht => ?_
  cases (hout t).symm.trans (h.waits t ht)

end Process

namespace Lifetime

variable {cfg : Config} {l l' : Lifetime} {move : Move} {moves : List Move}

/-- The server thread is there, and `stop` has not answered for it. -/
structure Tended (l : Lifetime) : Prop where
  monitor : l._metricServerMonitor = .valid
  server : l.process.server ≠ .notCreated
  flag : l.process._metricServerExitFlag = false

/-- There never was a server thread, or `stop` has answered for it. -/
structure Released (l : Lifetime) : Prop where
  monitor : l._metricServerMonitor = .null
  server : l.process.server = .notCreated ∧ l.process._metricServerExitFlag = false ∨
    l.process.server = .ended ∧ l.process._metricServerExitFlag = true

/-- Where the threads, the monitor and the exit flag are at each step of the owner. -/
def Placed (l : Lifetime) : Prop :=
  match l.owner with
  | .createMonitor => l.process = .initial ∧ l._metricServerMonitor = .null
  | .createThread | .destroyUnused => l.process = .initial ∧ l._metricServerMonitor = .valid
  | .clearUnused => l.process = .initial ∧ l._metricServerMonitor = .dangling
  | .within =>
    (l.process.main.inCall ∧ l._metricServerMonitor = .valid ∧ l.process.server ≠ .notCreated ∧
      (l.process._metricServerExitFlag = true ↔ l.process.main.flagged)) ∨
    (l.process.main = .testStop ∧ l.Released)
  | .destroyStopped =>
    l.process.main = .stopped ∧ l._metricServerMonitor = .valid ∧ l.process.server = .ended ∧
      l.process._metricServerExitFlag = true
  | .clearStopped =>
    l.process.main = .stopped ∧ l._metricServerMonitor = .dangling ∧ l.process.server = .ended ∧
      l.process._metricServerExitFlag = true
  | .waitForExit | .idle => l.process.main.resting ∧ (l.Tended ∨ l.Released)

structure Safe (l : Lifetime) : Prop where
  answered : l.process.Answered
  placed : l.Placed

theorem safe_initial : initial.Safe where
  answered := Process.answered_initial
  placed := ⟨rfl, rfl⟩

theorem Released.gone (h : l.Released) : l.process.server.gone := by
  obtain ⟨hserver, -⟩ | ⟨hserver, -⟩ := h.server <;> rw [hserver] <;> rfl

/-- The server thread is gone when its monitor is. -/
theorem Safe.gone (h : l.Safe) (hmonitor : l._metricServerMonitor ≠ .valid) :
    l.process.server.gone := by
  obtain ⟨-, hplaced⟩ := h
  obtain ⟨p, monitor, thread, owner⟩ := l
  cases owner with
  | createMonitor | clearUnused =>
    obtain rfl : p = .initial := hplaced.1
    rfl
  | createThread | destroyUnused => exact absurd hplaced.2 hmonitor
  | destroyStopped => exact absurd hplaced.2.1 hmonitor
  | clearStopped =>
    have hserver : p.server = .ended := hplaced.2.2.1
    exact hserver ▸ rfl
  | within =>
    obtain ⟨-, hvalid, -⟩ | ⟨-, hreleased⟩ := hplaced
    · exact absurd hvalid hmonitor
    · exact hreleased.gone
  | waitForExit | idle =>
    obtain ⟨-, htended | hreleased⟩ := hplaced
    · exact absurd htended.monitor hmonitor
    · exact hreleased.gone

/-- The server thread finds its monitor. -/
theorem Safe.server_valid (h : l.Safe) (huses : l.process.server.usesMonitor) :
    l._metricServerMonitor = .valid := by
  by_contra hvalid
  rw [ServerPc.not_usesMonitor_of_gone (h.gone hvalid)] at huses
  cases huses

theorem Safe.serverStep (h : l.Safe) {attached : Bool} {u : StartUp} {r : Round}
    (hstep : l.serverStep cfg attached u r = .next l') : l'.Safe := by
  rw [Lifetime.serverStep] at hstep
  split at hstep
  next => cases hstep
  split at hstep
  next q hq =>
    cases hstep
    have ha := Process.advances hq
    have hgone : ¬ l.process.server.gone := fun hgone => Process.not_goes_of_gone hgone hq
    refine ⟨h.answered.serverStep hq, ?_⟩
    obtain ⟨-, hplaced⟩ := h
    obtain ⟨p, monitor, thread, owner⟩ := l
    have hmain : q.main = p.main := ha.main
    have hflag : q._metricServerExitFlag = p._metricServerExitFlag := ha.flag
    cases owner with
    | createMonitor | createThread | destroyUnused | clearUnused =>
      obtain rfl : p = .initial := hplaced.1
      exact absurd rfl hgone
    | destroyStopped | clearStopped =>
      have hserver : p.server = .ended := hplaced.2.2.1
      exact absurd (hserver ▸ rfl) hgone
    | within =>
      obtain ⟨hcall, hvalid, -, hset⟩ | ⟨-, hreleased⟩ := hplaced
      · exact .inl ⟨hmain ▸ hcall, hvalid, ha.created', by rw [hflag, hmain]; exact hset⟩
      · exact absurd hreleased.gone hgone
    | waitForExit | idle =>
      obtain ⟨hrest, htended | hreleased⟩ := hplaced
      · exact ⟨hmain ▸ hrest, .inl ⟨htended.monitor, ha.created', hflag.trans htended.flag⟩⟩
      · exact absurd hreleased.gone hgone
  next => cases hstep

/-- The main thread finds its monitor. -/
theorem Safe.main_valid (h : l.Safe) (howner : l.owner = .within)
    (huses : l.process.main.usesMonitor) : l._metricServerMonitor = .valid := by
  have hplaced := h.placed
  simp only [Placed, howner] at hplaced
  obtain ⟨-, hvalid, -⟩ | ⟨hmain, -⟩ := hplaced
  · exact hvalid
  · rw [hmain] at huses
    cases huses

/-- `stop` destroys the monitor for the server thread that has answered. -/
theorem Safe.within (h : l.Safe) (howner : l.owner = .within) {q : Process}
    (hstep : l.process.mainStep true = .next q) :
    ({ l with process := q, owner := OwnerPc.after l.process.main q.main } : Lifetime).Safe := by
  refine ⟨h.answered.mainStep hstep, ?_⟩
  have hunset := h.answered.unset
  have hended := h.answered.answered
  obtain ⟨-, hplaced⟩ := h
  obtain ⟨⟨m, metricServer, attempted, flag, pc, server⟩, monitor, thread, owner⟩ := l
  obtain rfl : owner = .within := howner
  obtain ⟨hcall, hvalid, hcreated, hset⟩ | ⟨hmain, hreleased⟩ := hplaced
  · cases pc with
    | create | stopped => cases hcall
    | enterStart | callWaitStart | waitStart | exitStart =>
      obtain ⟨m', hm, rfl⟩ := Process.sync_eq_next.mp hstep
      exact .inl ⟨rfl, hvalid, hcreated, hset⟩
    | testAttachAttempted =>
      obtain rfl := Outcome.next.inj hstep
      cases attempted <;> exact .inl ⟨rfl, hvalid, hcreated, hset⟩
    | testStart =>
      obtain rfl := Outcome.next.inj hstep
      exact ⟨rfl, .inl ⟨hvalid, hcreated, by simpa [MainPc.flagged] using hset⟩⟩
    | testStop =>
      obtain rfl := Outcome.next.inj hstep
      cases metricServer with
      | false => exact ⟨rfl, .inl ⟨hvalid, hcreated, by simpa [MainPc.flagged] using hset⟩⟩
      | true => exact .inl ⟨rfl, hvalid, hcreated, hset⟩
    | enterStop =>
      obtain ⟨m', hm, rfl⟩ := Process.sync_eq_next.mp hstep
      exact .inl ⟨rfl, hvalid, hcreated, hset⟩
    | setExitFlag =>
      obtain rfl := Outcome.next.inj hstep
      exact .inl ⟨rfl, hvalid, hcreated, iff_of_true rfl rfl⟩
    | callWaitStop | waitStop =>
      obtain ⟨m', hm, rfl⟩ := Process.sync_eq_next.mp hstep
      exact .inl ⟨rfl, hvalid, hcreated, hset⟩
    | exitStop =>
      obtain ⟨m', hm, rfl⟩ := Process.sync_eq_next.mp hstep
      exact ⟨rfl, hvalid, hended rfl, hset.mpr rfl⟩
  -- the server thread is gone, so `stop` finds none
  · obtain rfl : pc = .testStop := hmain
    obtain rfl : metricServer = false := hunset (ServerPc.unset_of_gone hreleased.gone)
    obtain rfl := Outcome.next.inj hstep
    exact ⟨rfl, .inr ⟨hreleased.monitor, hreleased.server⟩⟩

/-- The monitor can be destroyed at the two places where it is. -/
theorem Safe.unused (h : l.Safe) (howner : l.owner = .destroyUnused ∨ l.owner = .destroyStopped) :
    l._metricServerMonitor = .valid ∧ l.process.monitor.owner = none ∧
      l.process.monitor.waiting = [] := by
  obtain ⟨hanswered, hplaced⟩ := h
  obtain ⟨p, monitor, thread, owner⟩ := l
  obtain rfl | rfl := howner
  · obtain ⟨rfl, hvalid⟩ := hplaced
    exact ⟨hvalid, rfl, rfl⟩
  · obtain ⟨hmain, hvalid, hserver, -⟩ := hplaced
    exact ⟨hvalid, Process.unused_of_outside hanswered.fits (hmain ▸ rfl) (hserver ▸ rfl)⟩

theorem Safe.destroy (h : l.Safe) (owner : OwnerPc)
    (howner : l.owner = .destroyUnused ∨ l.owner = .destroyStopped) :
    l.destroy owner = .next { l with _metricServerMonitor := .dangling, owner := owner } :=
  if_pos (h.unused howner)

/-- Without a thread `start` leaves no monitor. -/
theorem safe_noThread (hprocess : l.process = .initial)
    (hmonitor : l._metricServerMonitor = .null) :
    l.noThread.Safe := by
  obtain ⟨p, monitor, thread, owner⟩ := l
  obtain rfl : p = .initial := hprocess
  exact ⟨Process.answered_initial.mainStep
      (show Process.initial.mainStep false = .next _ from rfl),
    rfl, .inr ⟨hmonitor, .inl ⟨rfl, rfl⟩⟩⟩

theorem Safe.ownerStep (h : l.Safe) {made created : Bool} {call : Call}
    (hstep : l.ownerStep made created call = .next l') : l'.Safe := by
  have hanswered := h.answered
  have hplaced := h.placed
  have hdestroy := h.destroy
  have hwithin {q : Process} := h.within (q := q)
  obtain ⟨p, monitor, thread, owner⟩ := l
  cases owner with
  | createMonitor =>
    obtain rfl := Outcome.next.inj hstep
    obtain ⟨rfl, hmonitor⟩ := hplaced
    cases made with
    | true => exact ⟨Process.answered_initial, rfl, rfl⟩
    | false => exact safe_noThread rfl hmonitor
  | createThread =>
    obtain ⟨rfl, hmonitor⟩ := hplaced
    cases created with
    | true =>
      obtain rfl := Outcome.next.inj hstep
      exact ⟨Process.answered_initial.mainStep
          (show Process.initial.mainStep true = .next _ from rfl),
        .inl ⟨rfl, hmonitor, nofun, iff_of_false nofun nofun⟩⟩
    | false =>
      obtain rfl := Outcome.next.inj hstep
      exact ⟨Process.answered_initial, rfl, hmonitor⟩
  | destroyUnused =>
    obtain rfl := Outcome.next.inj ((hdestroy _ (.inl rfl)).symm.trans hstep)
    exact ⟨hanswered, hplaced.1, rfl⟩
  | clearUnused =>
    obtain rfl := Outcome.next.inj hstep
    exact safe_noThread (l := ⟨p, .null, thread, .clearUnused⟩) hplaced.1 rfl
  | within =>
    simp only [Lifetime.ownerStep] at hstep
    split at hstep
    next => cases hstep
    split at hstep
    next q hq =>
      cases hstep
      exact hwithin rfl hq
    next => cases hstep
  | destroyStopped =>
    obtain rfl := Outcome.next.inj ((hdestroy _ (.inr rfl)).symm.trans hstep)
    exact ⟨hanswered, hplaced.1, rfl, hplaced.2.2⟩
  | clearStopped =>
    obtain rfl := Outcome.next.inj hstep
    obtain ⟨hmain, -, hserver⟩ := hplaced
    exact ⟨hanswered, by rw [hmain]; rfl, .inr ⟨rfl, .inr hserver⟩⟩
  | waitForExit =>
    simp only [Lifetime.ownerStep] at hstep
    split at hstep
    next => cases hstep
    next =>
      cases hstep
      exact ⟨hanswered, hplaced.1, hplaced.2.imp (fun h => ⟨h.1, h.2, h.3⟩) fun h => ⟨h.1, h.2⟩⟩
  | idle =>
    obtain ⟨hrest, hheld⟩ := hplaced
    cases call with
    | stop =>
      obtain rfl := Outcome.next.inj hstep
      refine ⟨hanswered.again hrest, ?_⟩
      obtain ⟨hmonitor, hserver, hflag⟩ | ⟨hmonitor, hserver⟩ := hheld
      · exact .inl ⟨rfl, hmonitor, hserver, by simpa [MainPc.flagged] using hflag⟩
      · exact .inr ⟨rfl, hmonitor, hserver⟩
    | waitForMetricServerExit =>
      obtain rfl := Outcome.next.inj hstep
      exact ⟨hanswered, hrest, hheld.imp (fun h => ⟨h.1, h.2, h.3⟩) fun h => ⟨h.1, h.2⟩⟩

theorem Safe.kept (h : l.Safe) (hstep : l.step cfg move = .next l') : l'.Safe := by
  cases move with
  | owner made created call => exact h.ownerStep hstep
  | server attached u r => exact h.serverStep hstep

theorem safe_of_trace (h : Trace (continues (step cfg)) initial moves l) : l.Safe :=
  h.invariant (fun _ _ _ _ hI hstep => hI.kept hstep) safe_initial

/-- Neither thread uses a monitor that is gone, nor is one destroyed that is in use. -/
theorem Safe.not_misuse (h : l.Safe) (move : Move) : l.step cfg move ≠ .done .misuse := by
  intro hstep
  cases move with
  | server attached u r =>
    simp only [step, Lifetime.serverStep] at hstep
    split at hstep
    next huses => exact huses.2 (h.server_valid huses.1)
    next =>
      split at hstep
      all_goals cases hstep
  | owner made created call =>
    have hdestroy := h.destroy
    have hvalid := h.main_valid
    obtain ⟨p, monitor, thread, owner⟩ := l
    simp only [step] at hstep
    cases owner with
    | createMonitor | clearUnused | clearStopped => cases hstep
    | createThread =>
      simp only [Lifetime.ownerStep] at hstep
      split at hstep
      · split at hstep
        all_goals cases hstep
      · cases hstep
    | destroyUnused => cases (hdestroy _ (.inl rfl)).symm.trans hstep
    | destroyStopped => cases (hdestroy _ (.inr rfl)).symm.trans hstep
    | within =>
      simp only [Lifetime.ownerStep] at hstep
      split at hstep
      next huses => exact huses.2 (hvalid rfl huses.1)
      next =>
        split at hstep
        all_goals cases hstep
    | waitForExit =>
      simp only [Lifetime.ownerStep] at hstep
      split at hstep
      all_goals cases hstep
    | idle => cases call <;> cases hstep

/-- Whatever the owner calls and the threads do, in whatever order, no monitor is misused. -/
theorem runs_ne_misuse (cfg : Config) (moves : List Move) :
    runs (step cfg) initial moves ≠ .done .misuse := by
  intro h
  obtain ⟨before, move, l, htrace, hstep⟩ := exists_trace_of_runs h
  exact (safe_of_trace htrace).not_misuse move hstep

/-- Between two calls the monitor is gone when there was no server thread or `stop` has answered
for it, and then that thread has ended; else it is there. -/
theorem monitor_of_idle (h : Trace (continues (step cfg)) initial moves l)
    (hidle : l.owner = .idle) :
    (l._metricServerMonitor = .null ↔
      l.process.server = .notCreated ∨ l.process._metricServerExitFlag) ∧
    (l._metricServerMonitor = .valid ↔
      l.process.server ≠ .notCreated ∧ ¬ l.process._metricServerExitFlag) ∧
    (l.process._metricServerExitFlag → l.process.server = .ended) := by
  have hplaced := (safe_of_trace h).placed
  simp only [Placed, hidle] at hplaced
  obtain ⟨-, htended | hreleased⟩ := hplaced
  · simp [htended.monitor, htended.server, htended.flag]
  · obtain ⟨hserver, hflag⟩ | ⟨hserver, hflag⟩ := hreleased.server <;>
      simp [hreleased.monitor, hserver, hflag]

/-- The steps of an owner that gets what it asks for and calls `stop`, and of a server thread that
reads nothing. -/
def movesOf (attached : Bool) (turns : List Thread) : List Move :=
  turns.map fun
    | .main => .owner true true .stop
    | .server => .server attached .sample (.sample [] 5 6 "")

/-- `start`, and a `stop` that the server thread answers. -/
def answeredMoves : List Move :=
  movesOf true (.replicate 2 .main ++ .replicate 7 .server ++ .replicate 9 .main ++
    .replicate 6 .server ++ .replicate 4 .main)

theorem monitor_of_idle_sample : ∃ l : Lifetime,
    Trace (continues (step (.sample false))) initial answeredMoves l ∧ l.owner = .idle ∧
      l._metricServerMonitor = .null ∧ l.process.server = .ended := by
  obtain ⟨l, hl, htest⟩ := Outcome.exists_of_goes
    (o := runs (step (.sample false)) initial answeredMoves)
    (p := fun l : Lifetime => decide (l.owner = .idle ∧ l.process._metricServerExitFlag))
    (by decide)
  obtain ⟨hidle, hflag⟩ := of_decide_eq_true htest
  have htrace := trace_of_runs hl
  obtain ⟨hnull, -, hended⟩ := monitor_of_idle htrace hidle
  exact ⟨l, htrace, hidle, hnull.mpr (.inr hflag), hended hflag⟩

/-! ### A monitor that stays -/

/-- The server thread is over without a call of `stop` that has found it. -/
structure Abandoned (l : Lifetime) : Prop where
  finished : l.process.server.finished
  unset : l.process._metricServer = false
  monitor : l._metricServerMonitor = .valid
  owner : l.owner = .idle ∨ l.owner = .waitForExit ∨
    (l.owner = .within ∧ l.process.main = .testStop)

/-- A later `stop` finds no server thread, and destroys nothing. -/
theorem Abandoned.kept (h : l.Abandoned) (hstep : l.step cfg move = .next l') : l'.Abandoned := by
  obtain ⟨hfinished, hunset, hmonitor, howner⟩ := h
  cases move with
  | server attached u r =>
    simp only [step, Lifetime.serverStep] at hstep
    split at hstep
    next => cases hstep
    split at hstep
    next q hq => exact absurd hq (Process.not_goes_of_gone (ServerPc.gone_of_finished hfinished))
    next => cases hstep
  | owner made created call =>
    obtain ⟨⟨m, metricServer, attempted, flag, pc, server⟩, monitor, thread, owner⟩ := l
    obtain rfl : metricServer = false := hunset
    obtain rfl | rfl | ⟨rfl, hmain⟩ := howner
    · cases call with
      | stop =>
        obtain rfl := Outcome.next.inj hstep
        exact ⟨hfinished, rfl, hmonitor, .inr (.inr ⟨rfl, rfl⟩)⟩
      | waitForMetricServerExit =>
        obtain rfl := Outcome.next.inj hstep
        exact ⟨hfinished, rfl, hmonitor, .inr (.inl rfl)⟩
    · simp only [step, Lifetime.ownerStep] at hstep
      split at hstep
      next => cases hstep
      next =>
        cases hstep
        exact ⟨hfinished, rfl, hmonitor, .inl rfl⟩
    · obtain rfl : pc = .testStop := hmain
      obtain rfl := Outcome.next.inj hstep
      exact ⟨hfinished, rfl, hmonitor, .inl rfl⟩

/-- The monitor of a server thread that could not attach, or that ended before `stop` was called,
is never destroyed. -/
theorem never_destroyed (h : Trace (continues (step cfg)) initial moves l)
    (hidle : l.owner = .idle) (hfinished : l.process.server.finished)
    (hflag : l.process._metricServerExitFlag = false) {later : List Move}
    (hlater : Trace (continues (step cfg)) l later l') : l'._metricServerMonitor = .valid := by
  have hsafe := safe_of_trace h
  have hne : l.process.server ≠ .notCreated := fun hnone => by
    rw [hnone] at hfinished
    cases hfinished
  have hI : l.Abandoned := by
    have hsilent := ServerPc.silent_of_finished hfinished
    have hvalid := (monitor_of_idle h hidle).2.1.mpr ⟨hne, by simp [hflag]⟩
    exact ⟨hfinished, hsafe.answered.unset (ServerPc.unset_of_silent hsilent), hvalid, .inl hidle⟩
  exact (hlater.invariant (fun _ _ _ _ hI hstep => hI.kept hstep) hI).monitor

/-- `start`, with a server thread that cannot attach. -/
def unattachedMoves : List Move :=
  movesOf false (.replicate 2 .main ++ .replicate 6 .server ++ .replicate 4 .main)

theorem never_destroyed_sample : ∃ l : Lifetime,
    Trace (continues (step (.sample false))) initial unattachedMoves l ∧
      ∀ later l', Trace (continues (step (.sample false))) l later l' →
        l'._metricServerMonitor = .valid := by
  obtain ⟨l, hl, htest⟩ := Outcome.exists_of_goes
    (o := runs (step (.sample false)) initial unattachedMoves)
    (p := fun l : Lifetime =>
      decide (l.owner = .idle ∧ l.process.server.finished ∧
        l.process._metricServerExitFlag = false))
    (by decide)
  obtain ⟨hidle, hfinished, hflag⟩ := of_decide_eq_true htest
  have htrace := trace_of_runs hl
  exact ⟨l, htrace, fun later l' hlater => never_destroyed htrace hidle hfinished hflag hlater⟩

end Lifetime
end MetricServer
