import MetricServer.Base.Monitor
import MetricServer.Handler.Runs

/-! `TR_MetricServer`: the thread that starts and stops the server, and the thread that
runs it. A step of either is an operation on their monitor or an access to one of the
three fields they share; the steps of `TR_MetricServerHandlerStart` between two reads
of the exit flag are one. The thread that stops the server tests for it before it
enters the monitor, and waits once. -/

namespace MetricServer

open Base LoopState

inductive Thread where
  | main | server
  deriving DecidableEq

/-- The next step of the thread that calls `start` and, some time later, `stop`. -/
inductive MainPc where
  | create | enterStart | testAttachAttempted | callWaitStart | waitStart | exitStart | testStart
  | testStop | enterStop | setExitFlag | callWaitStop | waitStop | exitStop | stopped
  deriving DecidableEq

/-- The next step of `metricServerProc`, which knows whether it could attach, and of the
handler in it. -/
inductive ServerPc where
  | notCreated | attach
  | enterFirst (ok : Bool) | setAttachAttempted (ok : Bool) | setMetricServer (ok : Bool)
  | notifyFirst (ok : Bool) | exitFirst (ok : Bool)
  | handler | loopHead (s : LoopState) | loopBody (s : LoopState)
  | detach | enterLast | clearMetricServer | notifyLast | exitLast | ended | failed

/-- The server thread takes no step any more. -/
def ServerPc.finished : ServerPc → Bool
  | .ended | .failed => true
  | _ => false

/-- The monitor, the fields and the program counters. -/
structure Process where
  monitor : Monitor Thread
  _metricServer : Bool
  _metricServerAttachAttempted : Bool
  _metricServerExitFlag : Bool
  main : MainPc
  server : ServerPc

/-- A step that is not taken: it has to wait for the monitor, its thread has no more, or
it ends the process. -/
inductive Halt where
  | blocked | over | exited

/-- What a step reads from outside: whether the thread could be created; whether it could
attach, and what its handler reads. -/
inductive Action where
  | main (created : Bool)
  | server (attached : Bool) (u : StartUp) (r : Round)

namespace Process

def initial : Process := ⟨.free, false, false, false, .create, .notCreated⟩

/-- An operation on the monitor, and the process after it. -/
def sync (p : Process) : Option (Monitor Thread) → Outcome Process Halt
  | some m => .next { p with monitor := m }
  | none => .done .blocked

/-- `start`, and then `stop`. -/
def mainStep (created : Bool) (p : Process) : Outcome Process Halt :=
  match p.main with
  | .create =>
    .next (if created then { p with main := .enterStart, server := .attach }
      else { p with main := .testStop })
  | .enterStart => sync { p with main := .testAttachAttempted } (p.monitor.enter .main)
  | .testAttachAttempted =>
    .next { p with main := if p._metricServerAttachAttempted then .exitStart else .callWaitStart }
  | .callWaitStart => sync { p with main := .waitStart } (p.monitor.wait .main)
  | .waitStart => sync { p with main := .testAttachAttempted } (p.monitor.resume .main)
  | .exitStart => sync { p with main := .testStart } (p.monitor.exit .main)
  | .testStart => .next { p with main := .testStop }
  | .testStop => .next { p with main := if p._metricServer then .enterStop else .stopped }
  | .enterStop => sync { p with main := .setExitFlag } (p.monitor.enter .main)
  | .setExitFlag => .next { p with main := .callWaitStop, _metricServerExitFlag := true }
  | .callWaitStop => sync { p with main := .waitStop } (p.monitor.wait .main)
  | .waitStop => sync { p with main := .exitStop } (p.monitor.resume .main)
  | .exitStop => sync { p with main := .stopped } (p.monitor.exit .main)
  | .stopped => .done .over

/-- The round as the handler reads it, past its test at the head. -/
def round (p : Process) (r : Round) : Round :=
  { r with exitHead := false, exitPolled := p._metricServerExitFlag }

/-- `metricServerProc`. -/
def serverStep (cfg : Config) (attached : Bool) (u : StartUp) (r : Round) (p : Process) :
    Outcome Process Halt :=
  match p.server with
  | .notCreated => .done .blocked
  | .attach => .next { p with server := .enterFirst attached }
  | .enterFirst ok => sync { p with server := .setAttachAttempted ok } (p.monitor.enter .server)
  | .setAttachAttempted ok =>
    .next { p with server := .setMetricServer ok, _metricServerAttachAttempted := true }
  | .setMetricServer ok =>
    .next { p with server := .notifyFirst ok, _metricServer := ok || p._metricServer }
  | .notifyFirst ok => sync { p with server := .exitFirst ok } (p.monitor.notifyAll .server)
  | .exitFirst ok =>
    sync { p with server := if ok then .handler else .failed } (p.monitor.exit .server)
  | .handler =>
    match startUp cfg u with
    | .next s => .next { p with server := .loopHead s }
    | .done (.returned _) => .next { p with server := .detach }
    | .done (.exited _) => .done .exited
  | .loopHead s =>
    .next { p with server := if p._metricServerExitFlag then .detach else .loopBody s }
  | .loopBody s =>
    match LoopState.loopBody cfg s (p.round r) with
    | .next s => .next { p with server := .loopHead s }
    | .done (.returned _) => .next { p with server := .detach }
    | .done (.exited _) => .done .exited
  | .detach => .next { p with server := .enterLast }
  | .enterLast => sync { p with server := .clearMetricServer } (p.monitor.enter .server)
  | .clearMetricServer => .next { p with server := .notifyLast, _metricServer := false }
  | .notifyLast => sync { p with server := .exitLast } (p.monitor.notifyAll .server)
  | .exitLast => sync { p with server := .ended } (p.monitor.exit .server)
  | .ended => .done .over
  | .failed => .done .over

def step (cfg : Config) (p : Process) : Action → Outcome Process Halt
  | .main created => p.mainStep created
  | .server attached u r => p.serverStep cfg attached u r

end Process

/-! ### Standing to the monitor -/

def MainPc.standing : MainPc → Standing
  | .create | .enterStart | .testStart | .testStop | .enterStop | .stopped => .outside
  | .testAttachAttempted | .callWaitStart | .exitStart | .setExitFlag | .callWaitStop | .exitStop =>
    .holding
  | .waitStart | .waitStop => .waiting

def ServerPc.standing : ServerPc → Standing
  | .setAttachAttempted _ | .setMetricServer _ | .notifyFirst _ | .exitFirst _ => .holding
  | .clearMetricServer | .notifyLast | .exitLast => .holding
  | _ => .outside

def standingOf (main : MainPc) (server : ServerPc) : Thread → Standing
  | .main => main.standing
  | .server => server.standing

section Standing
variable {m m' : Monitor Thread} {main main' : MainPc} {server server' : ServerPc} {w : Standing}

theorem fits_main (h : m.Fits (Function.update (standingOf main server) .main w))
    (hmain : main'.standing = w) : m.Fits (standingOf main' server) := by
  convert h using 1
  funext t
  cases t <;> simp [standingOf, hmain]

theorem fits_server (h : m.Fits (Function.update (standingOf main server) .server w))
    (hserver : server'.standing = w) : m.Fits (standingOf main server') := by
  convert h using 1
  funext t
  cases t <;> simp [standingOf, hserver]

/-- A step that leaves the monitor alone leaves the standing of its thread. -/
theorem fits_of_eq (h : m.Fits (standingOf main server)) (hmain : main'.standing = main.standing)
    (hserver : server'.standing = server.standing) : m.Fits (standingOf main' server') := by
  convert h using 1
  funext t
  cases t <;> simp [standingOf, hmain, hserver]

end Standing

namespace Process

variable {cfg : Config} {p p' : Process} {created attached : Bool} {u : StartUp} {r : Round}

theorem sync_eq_next {m : Option (Monitor Thread)} :
    p.sync m = .next p' ↔ ∃ m', m = some m' ∧ p' = { p with monitor := m' } := by
  cases m <;> simp [sync, eq_comm]

/-- Every step of the main thread keeps the monitor in step with the two threads. -/
theorem mainStep_fits (h : p.monitor.Fits (standingOf p.main p.server))
    (hcreate : p.main = .create → p.server = .notCreated) (hstep : p.mainStep created = .next p') :
    p'.monitor.Fits (standingOf p'.main p'.server) := by
  obtain ⟨m, metricServer, attempted, flag, pc, server⟩ := p
  cases pc with
  | create =>
    obtain rfl := Outcome.next.inj hstep
    obtain rfl : server = .notCreated := hcreate rfl
    cases created <;> exact fits_of_eq h rfl rfl
  | testAttachAttempted =>
    obtain rfl := Outcome.next.inj hstep
    cases attempted <;> exact fits_of_eq h rfl rfl
  | testStop =>
    obtain rfl := Outcome.next.inj hstep
    cases metricServer <;> exact fits_of_eq h rfl rfl
  | testStart | setExitFlag =>
    obtain rfl := Outcome.next.inj hstep
    exact fits_of_eq h rfl rfl
  | enterStart | enterStop =>
    obtain ⟨m', hm, rfl⟩ := sync_eq_next.mp hstep
    exact fits_main (h.enter rfl hm) rfl
  | callWaitStart | callWaitStop =>
    obtain ⟨m', hm, rfl⟩ := sync_eq_next.mp hstep
    exact fits_main (h.wait hm) rfl
  | waitStart | waitStop =>
    obtain ⟨m', hm, rfl⟩ := sync_eq_next.mp hstep
    exact fits_main (h.resume hm) rfl
  | exitStart | exitStop =>
    obtain ⟨m', hm, rfl⟩ := sync_eq_next.mp hstep
    exact fits_main (h.exit hm) rfl
  | stopped => cases hstep

/-- What the handler does leaves the monitor alone. -/
theorem serverStep_fits (h : p.monitor.Fits (standingOf p.main p.server))
    (hstep : p.serverStep cfg attached u r = .next p') :
    p'.monitor.Fits (standingOf p'.main p'.server) := by
  obtain ⟨m, metricServer, attempted, flag, main, pc⟩ := p
  cases pc with
  | notCreated | ended | failed => cases hstep
  | attach | setAttachAttempted ok | setMetricServer ok | detach | clearMetricServer =>
    obtain rfl := Outcome.next.inj hstep
    exact fits_of_eq h rfl rfl
  | enterFirst ok | enterLast =>
    obtain ⟨m', hm, rfl⟩ := sync_eq_next.mp hstep
    exact fits_server (h.enter rfl hm) rfl
  | notifyFirst ok | notifyLast =>
    obtain ⟨m', hm, rfl⟩ := sync_eq_next.mp hstep
    exact fits_of_eq (h.notifyAll hm) rfl rfl
  | exitFirst ok =>
    obtain ⟨m', hm, rfl⟩ := sync_eq_next.mp hstep
    cases ok <;> exact fits_server (h.exit hm) rfl
  | exitLast =>
    obtain ⟨m', hm, rfl⟩ := sync_eq_next.mp hstep
    exact fits_server (h.exit hm) rfl
  | loopHead s =>
    obtain rfl := Outcome.next.inj hstep
    cases flag <;> exact fits_of_eq h rfl rfl
  | handler | loopBody s =>
    simp only [serverStep] at hstep
    split at hstep
    all_goals cases hstep
    all_goals exact fits_of_eq h rfl rfl

end Process

end MetricServer
