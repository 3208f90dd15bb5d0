import MetricServer.Properties.Holdings
import MetricServer.Properties.Sequencing

/-! The handler within the two threads. However their steps are interleaved, those of the
handler are a run of its loop, whose rounds hold the exit flag as it stood when it was
read; so what holds of every run of the loop holds of the loop in the process. When `stop`
has come back the loop has returned, and what it held then is closed. -/

namespace MetricServer

open Base LoopState

variable {cfg : Config} {u : StartUp} {r : Round} {s s' : LoopState} {t : Connections}
  {x : Resource}

/-! ### The end of the loop -/

/-- What was held at the last head has been released when the loop has returned. -/
theorem Represents.released_of_returned (h : Represents cfg s t)
    (hstep : loopStep cfg s r = .done (.returned s')) (hx : t.Holds x) :
    ledger.Released s'.log x := by
  have hclose {t : Connections} (hx : t.Holds x) :
      ledger.Released (t.log ++ t.closing) x :=
    Ledger.released_append.mpr (.inr (Connections.released_closing.mpr hx))
  have hit := loopStep_iterates h r
  rw [hstep] at hit
  cases hit with
  | head => exact h.shutdown.2.2 ▸ hclose hx
  | polled _ _ _ hs => exact hs.shutdown.2.2 ▸ hclose (Connections.holds_report.mpr hx)
  | refused before a s₁ t₁ _ _ _ hadm _ hs =>
    have hheld : t₁.Holds x := (Connections.holds_report.mpr hx).admissions hadm
    exact hs.shutdown.2.2 ▸ hclose (t := t₁.refuse a) hheld

/-! ### What the handler reads -/

/-- The start-up that the handler has read, and the rounds of its loop. -/
structure Script where
  startUp : Option StartUp
  rounds : List Round

namespace Script

/-- After the script the handler is in its loop. -/
def Reaches (cfg : Config) (w : Script) (s : LoopState) : Prop :=
  ∃ u, w.startUp = some u ∧ Running cfg u w.rounds s

/-- With the last round of the script the loop has returned. -/
def Returns (cfg : Config) (w : Script) (u : StartUp) (s s' : LoopState) : Prop :=
  ∃ rounds r, w = ⟨some u, rounds ++ [r]⟩ ∧ Running cfg u rounds s ∧
    loopStep cfg s r = .done (.returned s')

theorem Reaches.returns {w : Script} (h : w.Reaches cfg s)
    (hstep : loopStep cfg s r = .done (.returned s')) :
    ∃ u, Returns cfg { w with rounds := w.rounds ++ [r] } u s s' := by
  obtain ⟨u, hu, hrun⟩ := h
  exact ⟨u, w.rounds, r, by rw [← hu], hrun, hstep⟩

end Script

/-- The server thread is past its handler. -/
def ServerPc.through : ServerPc → Bool
  | .detach | .enterLast | .clearMetricServer | .notifyLast | .exitLast | .ended => true
  | _ => false

namespace Process

variable {p q : Process} {w : Script} {action : Action} {actions : List Action}

/-- What a step adds to the script. -/
def reads (p : Process) : Action → Script → Script
  | .main _, w => w
  | .server _ u r, w =>
    match p.server with
    | .handler => ⟨some u, []⟩
    | .loopHead _ =>
      if p._metricServerExitFlag then { w with rounds := w.rounds ++ [{ r with exitHead := true }] }
      else w
    | .loopBody _ => { w with rounds := w.rounds ++ [p.round r] }
    | _ => w

/-- The script of a run. -/
def script (cfg : Config) : Process → List Action → Script → Script
  | _, [], w => w
  | p, action :: actions, w =>
    match p.step cfg action with
    | .next q => script cfg q actions (p.reads action w)
    | .done _ => w

/-- The handler follows its script. -/
structure Follows (cfg : Config) (p : Process) (w : Script) : Prop where
  reaches : ∀ s, p.server.loop = some s → w.Reaches cfg s
  returns : p.server.through → ∃ u s s', w.Returns cfg u s s'

section
variable {server : ServerPc} (hq : q.server = server)
include hq

theorem follows_of_server (hloop : server.loop = none) (hthrough : server.through = false) :
    q.Follows cfg w := by
  subst hq
  refine ⟨fun s hs => ?_, fun h => ?_⟩
  · cases hloop.symm.trans hs
  · cases hthrough.symm.trans h

theorem follows_of_reaches (hloop : server.loop = some s) (hthrough : server.through = false)
    (h : w.Reaches cfg s) : q.Follows cfg w := by
  subst hq
  refine ⟨fun s' hs' => ?_, fun h => ?_⟩
  · obtain rfl := Option.some.inj (hloop.symm.trans hs')
    exact h
  · cases hthrough.symm.trans h

theorem follows_of_returns (hloop : server.loop = none) (h : ∃ u s s', w.Returns cfg u s s') :
    q.Follows cfg w := by
  subst hq
  refine ⟨fun s hs => ?_, fun _ => h⟩
  cases hloop.symm.trans hs

end

theorem Follows.mainStep {created : Bool} (h : p.Follows cfg w)
    (hstep : p.mainStep created = .next q) : q.Follows cfg w := by
  obtain ⟨m, metricServer, attempted, flag, pc, server⟩ := p
  cases pc with
  | create =>
    obtain rfl := Outcome.next.inj hstep
    cases created with
    | false => exact ⟨h.reaches, h.returns⟩
    | true => exact follows_of_server rfl rfl rfl
  | testAttachAttempted | testStart | testStop | setExitFlag =>
    obtain rfl := Outcome.next.inj hstep
    exact ⟨h.reaches, h.returns⟩
  | enterStart | callWaitStart | waitStart | exitStart | enterStop | callWaitStop | waitStop
  | exitStop =>
    obtain ⟨m', hm, rfl⟩ := sync_eq_next.mp hstep
    exact ⟨h.reaches, h.returns⟩
  | stopped => cases hstep

theorem Follows.serverStep {attached : Bool} (h : p.Follows cfg w)
    (hstep : p.serverStep cfg attached u r = .next q) :
    q.Follows cfg (p.reads (.server attached u r) w) := by
  obtain ⟨m, metricServer, attempted, flag, main, pc⟩ := p
  cases pc with
  | notCreated | ended | failed => cases hstep
  | attach | setAttachAttempted ok | setMetricServer ok =>
    obtain rfl := Outcome.next.inj hstep
    exact follows_of_server rfl rfl rfl
  | enterFirst ok | notifyFirst ok =>
    obtain ⟨m', hm, rfl⟩ := sync_eq_next.mp hstep
    exact follows_of_server rfl rfl rfl
  | exitFirst ok =>
    obtain ⟨m', hm, rfl⟩ := sync_eq_next.mp hstep
    cases ok <;> exact follows_of_server rfl rfl rfl
  | handler =>
    simp only [Process.serverStep] at hstep
    split at hstep
    next s hs =>
      cases hstep
      exact follows_of_reaches rfl rfl rfl ⟨u, rfl, s, hs, .nil s⟩
    next s hs =>
      obtain ⟨s₀, t, hs', -⟩ | ⟨s₀, hs', -⟩ := startUp_cases cfg u
      all_goals cases hs.symm.trans hs'
    next => cases hstep
  | loopHead s =>
    have hreaches := h.reaches s rfl
    obtain rfl := Outcome.next.inj hstep
    cases flag with
    | false => exact follows_of_reaches rfl rfl rfl hreaches
    | true =>
      obtain ⟨u, hreturns⟩ := hreaches.returns (r := { r with exitHead := true }) (if_pos rfl)
      exact follows_of_returns rfl rfl ⟨u, s, _, hreturns⟩
  | loopBody s =>
    have hreaches := h.reaches s rfl
    simp only [Process.serverStep, loopBody_round] at hstep
    split at hstep
    next s' hs' =>
      cases hstep
      obtain ⟨u, hu, hrun⟩ := hreaches
      exact follows_of_reaches rfl rfl rfl ⟨u, hu, hrun.next hs'⟩
    next s' hs' =>
      cases hstep
      obtain ⟨u, hreturns⟩ := hreaches.returns hs'
      exact follows_of_returns rfl rfl ⟨u, s, s', hreturns⟩
    next => cases hstep
  | detach | clearMetricServer =>
    obtain rfl := Outcome.next.inj hstep
    exact follows_of_returns rfl rfl (h.returns rfl)
  | enterLast | notifyLast | exitLast =>
    obtain ⟨m', hm, rfl⟩ := sync_eq_next.mp hstep
    exact follows_of_returns rfl rfl (h.returns rfl)

theorem Follows.script (h : p.Follows cfg w) (htrace : Trace (continues (step cfg)) p actions q) :
    q.Follows cfg (p.script cfg actions w) := by
  induction htrace generalizing w with
  | nil p => exact h
  | @cons p p' q action actions hstep _ ih =>
    have hnext : p.step cfg action = .next p' := hstep
    rw [Process.script, hnext]
    refine ih ?_
    cases action with
    | main created => exact h.mainStep hnext
    | server attached u r => exact h.serverStep hnext

/-! ### After `stop` -/

/-- When `stop` has come back from its wait the server thread has ended. -/
structure Stopped (p : Process) : Prop extends Flagged p where
  ended : p._metricServerExitFlag → p.main = .stopped → p.server = .ended

theorem stopped_initial : initial.Stopped where
  toFlagged := ⟨answered_initial, nofun⟩
  ended _ := nofun

/-- Where the main thread is not through with `stop` there is nothing to show. -/
theorem Flagged.stopped (h : q.Flagged) (hmain : q.main ≠ .stopped) : q.Stopped :=
  ⟨h, fun _ hstopped => absurd hstopped hmain⟩

theorem Stopped.mainStep {created : Bool} (h : p.Stopped) (hq : q.Flagged)
    (hstep : p.mainStep created = .next q) : q.Stopped := by
  have hanswered := h.answered
  have hflagged := h.flagged
  obtain ⟨m, metricServer, attempted, flag, pc, server⟩ := p
  cases pc with
  | testStop =>
    obtain rfl := Outcome.next.inj hstep
    exact ⟨hq, fun hflag => absurd (hflagged hflag).1 (by simp [MainPc.flagged])⟩
  | exitStop =>
    obtain ⟨m', hm, rfl⟩ := sync_eq_next.mp hstep
    exact ⟨hq, fun _ _ => hanswered rfl⟩
  | create =>
    obtain rfl := Outcome.next.inj hstep
    cases created <;> exact hq.stopped (by simp)
  | testAttachAttempted =>
    obtain rfl := Outcome.next.inj hstep
    cases attempted <;> exact hq.stopped (by simp)
  | testStart | setExitFlag =>
    obtain rfl := Outcome.next.inj hstep
    exact hq.stopped (by simp)
  | enterStart | callWaitStart | waitStart | exitStart | enterStop | callWaitStop | waitStop =>
    obtain ⟨m', hm, rfl⟩ := sync_eq_next.mp hstep
    exact hq.stopped (by simp)
  | stopped => cases hstep

theorem Stopped.kept (h : p.Stopped) (hstep : p.step cfg action = .next q) : q.Stopped := by
  have hq : q.Flagged := h.toFlagged.kept hstep
  cases action with
  | main created => exact h.mainStep hq hstep
  | server attached u r =>
    refine ⟨hq, fun hflag hmain => ?_⟩
    have ha := advances hstep
    have hended := h.ended (ha.flag ▸ hflag) (ha.main ▸ hmain)
    obtain ⟨m, metricServer, attempted, flag, pc, server⟩ := p
    obtain rfl : server = .ended := hended
    cases hstep

/-- However the steps of the two threads are interleaved, when `stop` has come back from its wait
the handler has run from its start-up to its return, on what it has read and the exit flag as it
stood; and the listening sockets and all that its clients had then have been closed. -/
theorem closed_of_stopped (h : Trace (continues (step cfg)) initial actions p)
    (hflag : p._metricServerExitFlag) (hmain : p.main = .stopped) :
    ∃ u s s', (initial.script cfg actions ⟨none, []⟩).Returns cfg u s s' ∧
      (∀ d ∈ opening cfg u, 0 < d.num → .close d ∈ s'.log) ∧
      ∀ c ∈ s.clients, 0 < c._sockfd.num → ∀ x, c.owns x → ledger.Released s'.log x := by
  have hstopped : p.Stopped := h.invariant (fun _ _ _ _ hI hstep => hI.kept hstep) stopped_initial
  have hinitial : initial.Follows cfg ⟨none, []⟩ := follows_of_server rfl rfl rfl
  have hfollows := hinitial.script h
  obtain ⟨u, s, s', hreturns⟩ := hfollows.returns (by rw [hstopped.ended hflag hmain]; rfl)
  refine ⟨u, s, s', hreturns, ?_⟩
  obtain ⟨rounds, r, -, hrun, hstep⟩ := hreturns
  obtain ⟨t, ht, hl, -⟩ := hrun.owned
  refine ⟨fun d hd hpos => released_descriptor_iff.mp ?_, fun c hc hpos x hx => ?_⟩
  · exact ht.released_of_returned hstep (.inr ⟨d, hl ▸ hd, hpos, rfl⟩)
  · exact ht.released_of_returned hstep (ht.holds_resource_iff.mpr (.inl ⟨c, hc, hpos, hx⟩))

/-- `start`, a client that connects, and a `stop` that the server thread answers. -/
def connectAndStop : List Action :=
  steps (.main :: .replicate 8 .server) ++
    .server true .sample (.sample [POLLIN] 5 6 "") ::
    steps (.replicate 8 .main ++ .replicate 6 .server ++ .replicate 2 .main)

theorem closed_of_stopped_sample : ∃ (u : StartUp) (s s' : LoopState),
    (initial.script (.sample false) connectAndStop ⟨none, []⟩).Returns (.sample false) u s s' ∧
      (∀ d ∈ opening (.sample false) u, 0 < d.num → .close d ∈ s'.log) ∧
      ∀ c ∈ s.clients, 0 < c._sockfd.num → ∀ x, c.owns x → ledger.Released s'.log x := by
  obtain ⟨p, hp, hend⟩ := Outcome.exists_of_goes
    (o := runs (step (.sample false)) initial connectAndStop)
    (p := fun p : Process => decide (p._metricServerExitFlag ∧ p.main = .stopped)) (by decide)
  obtain ⟨hflag, hmain⟩ := of_decide_eq_true hend
  exact closed_of_stopped (trace_of_runs hp) hflag hmain

end Process

end MetricServer
