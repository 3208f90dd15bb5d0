import MetricServer.Lifecycle.Threads

/-! Stopping the server. `stop` waits once, without a test in the monitor, so a server
thread that ends by itself between the test of `stop` and its entry leaves it waiting
for good. The one way for that thread to end by itself is a connection over the limit. -/

namespace MetricServer

open Base LoopState

/-- The last `notifyAll` of the server thread is behind it. -/
def ServerPc.silent : ServerPc → Bool
  | .exitFirst ok => !ok
  | .exitLast | .ended | .failed => true
  | _ => false

/-- The server thread has not entered itself in `_metricServer`, or is out of it again. -/
def ServerPc.unset : ServerPc → Bool
  | .notCreated | .attach | .enterFirst _ | .setAttachAttempted _ | .setMetricServer _ => true
  | .notifyFirst ok | .exitFirst ok => !ok
  | .notifyLast | .exitLast | .ended | .failed => true
  | _ => false

theorem ServerPc.unset_of_silent {pc : ServerPc} (h : pc.silent) : pc.unset := by
  cases pc <;> first | exact h | cases h

/-- The server thread is about to clear `_metricServer`. -/
def ServerPc.clearing : ServerPc → Bool
  | .clearMetricServer => true
  | _ => false

theorem ServerPc.eq_of_clearing {pc : ServerPc} (h : pc.clearing) : pc = .clearMetricServer := by
  cases pc <;> first | rfl | cases h

/-- `stop` has found a server thread, and does not wait for it yet. -/
def MainPc.stopping : MainPc → Bool
  | .enterStop | .setExitFlag | .callWaitStop => true
  | _ => false

/-- `stop` has set the exit flag. -/
def MainPc.flagged : MainPc → Bool
  | .callWaitStop | .waitStop | .exitStop | .stopped => true
  | _ => false

/-- The state of the handler in its loop. -/
def ServerPc.loop : ServerPc → Option LoopState
  | .loopHead s | .loopBody s => some s
  | _ => none

/-- The server thread is past its handler, and `_metricServer` not cleared yet. -/
def ServerPc.leaving : ServerPc → Bool
  | .detach | .enterLast | .clearMetricServer => true
  | _ => false

namespace Process

variable {cfg : Config} {p q : Process} {created attached : Bool} {u : StartUp} {r : Round}
  {actions : List Action}

/-- `stop` waits for a notification that does not come. -/
def Hung (p : Process) : Prop :=
  p.main = .waitStop ∧ .main ∈ p.monitor.waiting ∧ p.server.silent

instance (p : Process) : Decidable p.Hung := inferInstanceAs (Decidable (_ ∧ _ ∧ _))

/-- The server thread does not clear `_metricServer` between the test of `stop` and its
entry into the monitor. -/
def Punctual (p : Process) : Action → Prop
  | .main _ => True
  | .server _ _ _ => p.server.clearing → p.main ≠ .enterStop

instance (p : Process) : (action : Action) → Decidable (p.Punctual action)
  | .main _ => inferInstanceAs (Decidable True)
  | .server _ _ _ => inferInstanceAs (Decidable (_ → _))

/-- The handler does not leave its loop over a connection it refuses. -/
def Unrefused (cfg : Config) (p : Process) : Action → Prop
  | .main _ => True
  | .server _ _ r =>
    match p.server with
    | .loopBody s => ∀ a ∈ s.attempts cfg (p.round r), ¬ a.refused cfg
    | _ => True

/-! ### No wait after the last notification -/

structure Heard (p : Process) : Prop where
  fits : p.monitor.Fits (standingOf p.main p.server)
  created : p.main = .create → p.server = .notCreated
  unset : p.server.unset → p._metricServer = false ∧ ¬ p.main.stopping
  silent : p.server.silent → p.main = .waitStop → .main ∉ p.monitor.waiting

theorem Heard.not_hung (h : p.Heard) : ¬ p.Hung :=
  fun ⟨hmain, hwaiting, hsilent⟩ => h.silent hsilent hmain hwaiting

theorem heard_initial : initial.Heard where
  fits := .free fun t => by cases t <;> rfl
  created _ := rfl
  unset _ := ⟨rfl, by decide⟩
  silent := nofun

/-- The main thread finds no server thread that is unset, so it does not come to wait
for it. -/
theorem Heard.mainStep (h : p.Heard) (hstep : p.mainStep created = .next q) : q.Heard := by
  have hfits := mainStep_fits h.fits h.created hstep
  obtain ⟨-, hcreated, hunset, hsilent⟩ := h
  obtain ⟨m, metricServer, attempted, flag, pc, server⟩ := p
  cases pc with
  | create =>
    obtain rfl := Outcome.next.inj hstep
    obtain rfl : server = .notCreated := hcreated rfl
    cases created <;> exact ⟨hfits, nofun, fun _ => ⟨(hunset rfl).1, nofun⟩, nofun⟩
  | testAttachAttempted =>
    obtain rfl := Outcome.next.inj hstep
    cases attempted <;> exact ⟨hfits, nofun, fun h => ⟨(hunset h).1, nofun⟩, nofun⟩
  | testStart =>
    obtain rfl := Outcome.next.inj hstep
    exact ⟨hfits, nofun, fun h => ⟨(hunset h).1, nofun⟩, nofun⟩
  | testStop =>
    obtain rfl := Outcome.next.inj hstep
    cases metricServer with
    | false => exact ⟨hfits, nofun, fun _ => ⟨rfl, nofun⟩, nofun⟩
    | true => exact ⟨hfits, nofun, fun h => (nomatch (hunset h).1), nofun⟩
  | setExitFlag =>
    obtain rfl := Outcome.next.inj hstep
    exact ⟨hfits, nofun, fun h => ((hunset h).2 rfl).elim, nofun⟩
  | enterStart | callWaitStart | waitStart | exitStart | waitStop | exitStop =>
    obtain ⟨m', hm, rfl⟩ := sync_eq_next.mp hstep
    exact ⟨hfits, nofun, fun h => ⟨(hunset h).1, nofun⟩, nofun⟩
  | enterStop =>
    obtain ⟨m', hm, rfl⟩ := sync_eq_next.mp hstep
    exact ⟨hfits, nofun, fun h => ((hunset h).2 rfl).elim, nofun⟩
  | callWaitStop =>
    obtain ⟨m', hm, rfl⟩ := sync_eq_next.mp hstep
    exact ⟨hfits, nofun, fun h => ((hunset h).2 rfl).elim,
      fun h => ((hunset (ServerPc.unset_of_silent h)).2 rfl).elim⟩
  | stopped => cases hstep

/-- While the server thread is entered in `_metricServer` nobody waits in vain. -/
theorem heard_of_set (hfits : q.monitor.Fits (standingOf q.main q.server))
    (hmain : q.main ≠ .create) (hset : q.server.unset = false) : q.Heard where
  fits := hfits
  created h := absurd h hmain
  unset h := absurd (hset.symm.trans h) Bool.false_ne_true
  silent h := absurd (hset.symm.trans (ServerPc.unset_of_silent h)) Bool.false_ne_true

/-- Nor does anybody before its last `notifyAll`. -/
theorem heard_of_loud (hfits : q.monitor.Fits (standingOf q.main q.server))
    (hmain : q.main ≠ .create) (hunset : q._metricServer = false ∧ ¬ q.main.stopping)
    (hloud : q.server.silent = false) : q.Heard where
  fits := hfits
  created h := absurd h hmain
  unset _ := hunset
  silent h := absurd (hloud.symm.trans h) Bool.false_ne_true

/-- The server thread wakes all that wait with its last `notifyAll`, and where it clears
`_metricServer` in time nobody comes to wait after that. -/
theorem Heard.serverStep (h : p.Heard) (hP : p.Punctual (.server attached u r))
    (hstep : p.serverStep cfg attached u r = .next q) : q.Heard := by
  have hfits := serverStep_fits h.fits hstep
  obtain ⟨hold, hcreated, hunset, hsilent⟩ := h
  obtain ⟨m, metricServer, attempted, flag, main, pc⟩ := p
  -- a thread that takes a step has been created
  have hmain : main ≠ .create := by
    intro hmain
    obtain rfl : pc = .notCreated := hcreated hmain
    cases hstep
  cases pc with
  | notCreated | ended | failed => cases hstep
  | attach | setAttachAttempted ok =>
    obtain rfl := Outcome.next.inj hstep
    exact heard_of_loud hfits hmain (hunset rfl) rfl
  | enterFirst ok =>
    obtain ⟨m', hm, rfl⟩ := sync_eq_next.mp hstep
    exact heard_of_loud hfits hmain (hunset rfl) rfl
  | setMetricServer ok =>
    obtain rfl := Outcome.next.inj hstep
    cases ok with
    | false => exact heard_of_loud hfits hmain (hunset rfl) rfl
    | true => exact heard_of_set hfits hmain rfl
  | notifyFirst ok =>
    obtain ⟨m', hm, rfl⟩ := sync_eq_next.mp hstep
    exact ⟨hfits, fun h => absurd h hmain, hunset,
      fun _ _ => by simp [Monitor.waiting_notifyAll hm]⟩
  | exitFirst ok =>
    obtain ⟨m', hm, rfl⟩ := sync_eq_next.mp hstep
    cases ok with
    | false =>
      exact ⟨hfits, fun h => absurd h hmain, fun _ => hunset rfl, fun _ h =>
        Monitor.waiting_exit hm ▸ hsilent rfl h⟩
    | true => exact heard_of_set hfits hmain rfl
  | handler | loopBody s =>
    simp only [Process.serverStep] at hstep
    split at hstep
    all_goals cases hstep
    all_goals exact heard_of_set hfits hmain rfl
  | loopHead s =>
    obtain rfl := Outcome.next.inj hstep
    cases flag <;> exact heard_of_set hfits hmain rfl
  | detach =>
    obtain rfl := Outcome.next.inj hstep
    exact heard_of_set hfits hmain rfl
  | enterLast =>
    obtain ⟨m', hm, rfl⟩ := sync_eq_next.mp hstep
    exact heard_of_set hfits hmain rfl
  | clearMetricServer =>
    obtain rfl := Outcome.next.inj hstep
    -- the server thread holds the monitor, so `stop` is past its entry only if it waits
    have hout (h : main.standing = .holding) : False := by
      have : Thread.main = .server := hold.unique h rfl
      cases this
    refine heard_of_loud hfits hmain ⟨rfl, fun h => ?_⟩ rfl
    cases main with
    | enterStop => exact hP rfl rfl
    | setExitFlag | callWaitStop => exact hout rfl
    | _ => cases h
  | notifyLast =>
    obtain ⟨m', hm, rfl⟩ := sync_eq_next.mp hstep
    exact ⟨hfits, fun h => absurd h hmain, fun _ => hunset rfl,
      fun _ _ => by simp [Monitor.waiting_notifyAll hm]⟩
  | exitLast =>
    obtain ⟨m', hm, rfl⟩ := sync_eq_next.mp hstep
    exact ⟨hfits, fun h => absurd h hmain, fun _ => hunset rfl, fun _ h =>
      Monitor.waiting_exit hm ▸ hsilent rfl h⟩

theorem Heard.kept {action : Action} (h : p.Heard) (hP : p.Punctual action)
    (hstep : p.step cfg action = .next q) : q.Heard := by
  cases action with
  | main created => exact h.mainStep hstep
  | server attached u r => exact h.serverStep hP hstep

theorem heard_of_punctual (h : Trace (when Punctual (continues (step cfg))) initial actions p) :
    p.Heard :=
  h.invariant (fun _ _ _ _ hI hstep => hI.kept hstep.1 hstep.2) heard_initial

/-- A server thread that clears `_metricServer` too early leaves `stop` waiting. -/
theorem Heard.exists_hung (h : p.Heard) (hserver : p.server = .clearMetricServer)
    (hmain : p.main = .enterStop) (attached : Bool) (u : StartUp) (r : Round)
    (hstep : p.step cfg (.server attached u r) = .next q) :
    ∃ actions q', Trace (continues (step cfg)) q actions q' ∧ q'.Hung := by
  obtain ⟨hold, -, -, -⟩ := h
  obtain ⟨⟨owner, waiting⟩, metricServer, attempted, flag, main, pc⟩ := p
  obtain rfl : pc = .clearMetricServer := hserver
  obtain rfl : main = .enterStop := hmain
  obtain rfl : owner = some .server := (hold.holds .server).mpr rfl
  obtain rfl := Outcome.next.inj hstep
  refine ⟨[.server attached u r, .server attached u r, .main true, .main true, .main true], _,
    trace_of_runs rfl, rfl, List.mem_cons_self, rfl⟩

/-! ### The handler ends on the flag -/

/-- The exit flag is set by `stop` alone, and the server thread is past its handler only
when it is set. -/
structure Heeds (cfg : Config) (p : Process) : Prop where
  flag : p._metricServerExitFlag → p.main.flagged
  loop : ∀ s ∈ p.server.loop, ∃ t, Represents cfg s t
  leaving : p.server.leaving → p._metricServerExitFlag

theorem heeds_initial (cfg : Config) : initial.Heeds cfg := ⟨nofun, nofun, nofun⟩

theorem Heeds.mainStep (h : p.Heeds cfg) (hstep : p.mainStep created = .next q) : q.Heeds cfg := by
  obtain ⟨hflag, hloop, hleaving⟩ := h
  obtain ⟨m, metricServer, attempted, flag, pc, server⟩ := p
  cases pc with
  | create =>
    obtain rfl := Outcome.next.inj hstep
    cases created with
    | false => exact ⟨fun h => (nomatch hflag h), hloop, hleaving⟩
    | true => exact ⟨fun h => (nomatch hflag h), nofun, nofun⟩
  | testAttachAttempted | testStart | testStop =>
    obtain rfl := Outcome.next.inj hstep
    exact ⟨fun h => (nomatch hflag h), hloop, hleaving⟩
  | setExitFlag =>
    obtain rfl := Outcome.next.inj hstep
    exact ⟨fun _ => rfl, hloop, fun _ => rfl⟩
  | enterStart | callWaitStart | waitStart | exitStart | enterStop =>
    obtain ⟨m', hm, rfl⟩ := sync_eq_next.mp hstep
    exact ⟨fun h => (nomatch hflag h), hloop, hleaving⟩
  | callWaitStop | waitStop | exitStop =>
    obtain ⟨m', hm, rfl⟩ := sync_eq_next.mp hstep
    exact ⟨fun _ => rfl, hloop, hleaving⟩
  | stopped => cases hstep

/-- An iteration of the handler, past its test at the head. -/
theorem loopBody_round (s : LoopState) :
    LoopState.loopBody cfg s (p.round r) = loopStep cfg s (p.round r) := rfl

/-- Before the handler has left its loop. -/
theorem heeds_of_loop (hflag : q._metricServerExitFlag → q.main.flagged)
    (hloop : ∀ s ∈ q.server.loop, ∃ t, Represents cfg s t) (hleaving : q.server.leaving = false) :
    q.Heeds cfg :=
  ⟨hflag, hloop, fun h => absurd (hleaving.symm.trans h) Bool.false_ne_true⟩

/-- The handler leaves its loop when it finds the flag set, at either place, as long as
it refuses no connection. -/
theorem Heeds.serverStep (h : p.Heeds cfg) (hP : p.Unrefused cfg (.server attached u r))
    (hstep : p.serverStep cfg attached u r = .next q) : q.Heeds cfg := by
  obtain ⟨hflag, hloop, hleaving⟩ := h
  obtain ⟨m, metricServer, attempted, flag, main, pc⟩ := p
  have hnone {s : LoopState} (h : s ∈ (none : Option LoopState)) : ∃ t, Represents cfg s t :=
    absurd h (Option.not_mem_none s)
  cases pc with
  | notCreated | ended | failed => cases hstep
  | attach | setAttachAttempted ok | setMetricServer ok | clearMetricServer =>
    obtain rfl := Outcome.next.inj hstep
    exact heeds_of_loop hflag (fun _ => hnone) rfl
  | enterFirst ok | notifyFirst ok | notifyLast | exitLast =>
    obtain ⟨m', hm, rfl⟩ := sync_eq_next.mp hstep
    exact heeds_of_loop hflag (fun _ => hnone) rfl
  | exitFirst ok =>
    obtain ⟨m', hm, rfl⟩ := sync_eq_next.mp hstep
    cases ok <;> exact heeds_of_loop hflag (fun _ => hnone) rfl
  | detach =>
    obtain rfl := Outcome.next.inj hstep
    exact ⟨hflag, fun _ => hnone, hleaving⟩
  | enterLast =>
    obtain ⟨m', hm, rfl⟩ := sync_eq_next.mp hstep
    exact ⟨hflag, fun _ => hnone, hleaving⟩
  | handler =>
    simp only [Process.serverStep] at hstep
    obtain ⟨s, t, hs, ht, -⟩ | ⟨s, hs, -⟩ := startUp_cases cfg u
    · rw [hs] at hstep
      cases hstep
      exact heeds_of_loop hflag (fun s' hs' => Option.some.inj hs' ▸ ⟨t, ht⟩) rfl
    · rw [hs] at hstep
      cases hstep
  | loopHead s =>
    obtain rfl := Outcome.next.inj hstep
    cases flag with
    | false => exact heeds_of_loop hflag hloop rfl
    | true => exact ⟨hflag, fun _ => hnone, fun _ => rfl⟩
  | loopBody s =>
    obtain ⟨t, ht⟩ := hloop s rfl
    simp only [Process.serverStep, loopBody_round] at hstep
    split at hstep
    next s' hs' =>
      cases hstep
      exact heeds_of_loop hflag (fun s'' h => Option.some.inj h ▸ ht.next hs') rfl
    next s' hs' =>
      cases hstep
      refine ⟨hflag, fun _ => hnone, fun _ => ?_⟩
      obtain hexit | hset := ht.flag_of_returned hs' hP
      · cases hexit
      · exact hset
    next => cases hstep

theorem Heeds.kept {action : Action} (h : p.Heeds cfg) (hP : p.Unrefused cfg action)
    (hstep : p.step cfg action = .next q) : q.Heeds cfg := by
  cases action with
  | main created => exact h.mainStep hstep
  | server attached u r => exact h.serverStep hP hstep

/-- A server thread that ended on the flag comes after `stop`. -/
theorem Heeds.punctual (h : p.Heeds cfg) (action : Action) : p.Punctual action := by
  cases action with
  | main created => trivial
  | server attached u r =>
    intro hclearing hmain
    have hleaving : p.server.leaving := by
      rw [ServerPc.eq_of_clearing hclearing]
      rfl
    have := h.flag (h.leaving hleaving)
    rw [hmain] at this
    cases this

theorem heeds_of_unrefused
    (h : Trace (when (Unrefused cfg) (continues (step cfg))) initial actions p) : p.Heeds cfg :=
  h.invariant (fun _ _ _ _ hI hstep => hI.kept hstep.1 hstep.2) (heeds_initial cfg)

/-- As long as the server thread does not clear `_metricServer` between the test of `stop`
and its entry, `stop` does not wait for a notification that does not come. Once it does, it
can come to that; and it never does in a run that refuses no connection. -/
theorem not_hung_of_punctual
    (h : Trace (when Punctual (continues (step cfg))) initial actions p) :
    ¬ p.Hung ∧ ∀ action q, p.step cfg action = .next q → ¬ p.Punctual action →
      (∃ actions' q', Trace (continues (step cfg)) q actions' q' ∧ q'.Hung) ∧
        ¬ Trace (when (Unrefused cfg) (continues (step cfg))) initial actions p := by
  have hheard := heard_of_punctual h
  refine ⟨hheard.not_hung, fun action q hstep hlate => ⟨?_, fun hunrefused => ?_⟩⟩
  · cases action with
    | main created => exact absurd trivial hlate
    | server attached u r =>
      obtain ⟨hclearing, hmain⟩ : p.server.clearing ∧ ¬ p.main ≠ .enterStop := by
        simpa [Punctual] using hlate
      exact hheard.exists_hung (ServerPc.eq_of_clearing hclearing) (not_not.mp hmain) attached u r
        hstep
  · exact hlate ((heeds_of_unrefused hunrefused).punctual action)

/-- The steps of a run on a server that attaches and reads nothing. -/
def steps (threads : List Thread) : List Action :=
  threads.map fun
    | .main => .main true
    | .server => .server true .sample (.sample [] 5 6 "")

/-- `start`, and a `stop` that the server thread answers. -/
def startAndStop : List Action :=
  steps (.main :: .replicate 7 .server ++ .replicate 8 .main ++ .replicate 6 .server ++
    .replicate 2 .main)

theorem not_hung_of_punctual_sample : ∃ p,
    Trace (when Punctual (continues (step (.sample false)))) initial startAndStop p ∧
      p.main = .stopped ∧ ¬ p.Hung ∧
      ∀ action q, p.step (.sample false) action = .next q → ¬ p.Punctual action →
        (∃ actions' q', Trace (continues (step (.sample false))) q actions' q' ∧ q'.Hung) ∧
          ¬ Trace (when (Unrefused (.sample false)) (continues (step (.sample false)))) initial
            startAndStop p := by
  obtain ⟨p, hp, hmain⟩ := Outcome.exists_of_goes
    (o := runs (step (.sample false)) initial startAndStop)
    (p := fun p : Process => decide (p.main = .stopped)) (by decide)
  have htrace := trace_of_meets (P := Punctual) hp (by decide)
  exact ⟨p, htrace, by simpa using hmain, not_hung_of_punctual htrace⟩

/-- Three clients, where the limit is one, end the server while `stop` is about to enter
the monitor. -/
def stopTooLate : List Action :=
  steps (.main :: .replicate 8 .server) ++
    .server true .sample (.sample [POLLIN, POLLIN] 5 6 "") ::
    steps (.server :: .replicate 5 .main) ++
    .server true .sample (.sample [POLLIN] 7 8 "") ::
    steps (.replicate 5 .server ++ .replicate 3 .main)

theorem exists_hung : ∃ p,
    Trace (continues (step (.sample true))) initial stopTooLate p ∧ p.Hung := by
  obtain ⟨p, hp, hhung⟩ := Outcome.exists_of_goes
    (o := runs (step (.sample true)) initial stopTooLate) (p := fun p : Process => decide p.Hung)
    (by decide)
  exact ⟨p, trace_of_runs hp, by simpa using hhung⟩

end Process

end MetricServer
