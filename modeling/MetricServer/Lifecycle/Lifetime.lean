import MetricServer.Lifecycle.Threads

/-! The life of a `TR_MetricServer` and of its monitor. `start` makes the monitor, and
destroys it again when there is no thread; `stop` destroys it when the server thread has
answered. The owner of the object calls `start` once, and then `stop` and
`waitForMetricServerExit` in any order and as often as it likes, while the server thread
runs. An operation on a monitor that is not there, or a destruction of one that is in use,
is a misuse. -/

namespace MetricServer

open Base

/-- What `_metricServerMonitor` points to. -/
inductive Pointer where
  | null | valid | dangling
  deriving DecidableEq

/-- The next step of the owner; within `start` and `stop` it is that of the main thread. -/
inductive OwnerPc where
  | createMonitor | createThread | destroyUnused | clearUnused | within | destroyStopped
  | clearStopped | waitForExit | idle
  deriving DecidableEq

/-- The calls that the owner chooses from. -/
inductive Call where
  | stop | waitForMetricServerExit

/-- The object: the fields and threads of `Process`, and the two pointers it leaves out. -/
structure Lifetime where
  process : Process
  _metricServerMonitor : Pointer
  _metricServerOSThread : Bool
  owner : OwnerPc

/-- A step that is not taken, or one that misuses the monitor. -/
inductive Fault where
  | halt (h : Halt)
  | misuse

/-- What a step reads from outside: whether the monitor and the thread could be made and which
call comes next; or what the server thread reads. -/
inductive Move where
  | owner (made created : Bool) (call : Call)
  | server (attached : Bool) (u : StartUp) (r : Round)

/-- The steps of the main thread that are operations on the monitor. -/
def MainPc.usesMonitor : MainPc → Bool
  | .enterStart | .callWaitStart | .waitStart | .exitStart => true
  | .enterStop | .callWaitStop | .waitStop | .exitStop => true
  | _ => false

/-- Those of the server thread. -/
def ServerPc.usesMonitor : ServerPc → Bool
  | .enterFirst _ | .notifyFirst _ | .exitFirst _ | .enterLast | .notifyLast | .exitLast => true
  | _ => false

/-- Where the owner is when the main thread has gone from one step to another: `start` comes back
with its last test, and `stop` destroys the monitor when it has waited. -/
def OwnerPc.after (before after : MainPc) : OwnerPc :=
  match before, after with
  | .testStart, _ => .idle
  | .exitStop, _ => .destroyStopped
  | _, .stopped => .idle
  | _, _ => .within

namespace Lifetime

def initial : Lifetime := ⟨.initial, .null, false, .createMonitor⟩

/-- `start` has come back, without a thread. -/
def noThread (l : Lifetime) : Lifetime :=
  { l with process := { l.process with main := .testStop }, owner := .idle }

/-- `TR::Monitor::destroy`. -/
def destroy (l : Lifetime) (owner : OwnerPc) : Outcome Lifetime Fault :=
  if l._metricServerMonitor = .valid ∧ l.process.monitor.owner = none ∧
      l.process.monitor.waiting = [] then
    .next { l with _metricServerMonitor := .dangling, owner := owner }
  else .done .misuse

def ownerStep (made created : Bool) (call : Call) (l : Lifetime) : Outcome Lifetime Fault :=
  match l.owner with
  | .createMonitor =>
    .next (if made then { l with _metricServerMonitor := .valid, owner := .createThread }
      else l.noThread)
  | .createThread =>
    if created then
      match l.process.mainStep true with
      | .next p => .next { l with process := p, _metricServerOSThread := true, owner := .within }
      | .done h => .done (.halt h)
    else .next { l with owner := .destroyUnused }
  | .destroyUnused => l.destroy .clearUnused
  | .clearUnused => .next { l.noThread with _metricServerMonitor := .null }
  | .within =>
    if l.process.main.usesMonitor ∧ l._metricServerMonitor ≠ .valid then .done .misuse
    else
      match l.process.mainStep true with
      | .next p => .next { l with process := p, owner := OwnerPc.after l.process.main p.main }
      | .done h => .done (.halt h)
  | .destroyStopped => l.destroy .clearStopped
  | .clearStopped => .next { l with _metricServerMonitor := .null, owner := .idle }
  | .waitForExit =>
    if l._metricServerOSThread ∧ ¬ l.process.server.finished then .done (.halt .blocked)
    else .next { l with owner := .idle }
  | .idle =>
    match call with
    | .stop => .next { l with process := { l.process with main := .testStop }, owner := .within }
    | .waitForMetricServerExit => .next { l with owner := .waitForExit }

/-- `metricServerProc`, which gets the monitor from the object for every operation. -/
def serverStep (cfg : Config) (attached : Bool) (u : StartUp) (r : Round) (l : Lifetime) :
    Outcome Lifetime Fault :=
  if l.process.server.usesMonitor ∧ l._metricServerMonitor ≠ .valid then .done .misuse
  else
    match l.process.serverStep cfg attached u r with
    | .next p => .next { l with process := p }
    | .done h => .done (.halt h)

def step (cfg : Config) (l : Lifetime) : Move → Outcome Lifetime Fault
  | .owner made created call => l.ownerStep made created call
  | .server attached u r => l.serverStep cfg attached u r

end Lifetime

end MetricServer
