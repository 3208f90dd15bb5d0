import MetricServer.Handler.Iteration
import Mathlib.Data.List.Induction

/-! Whole runs: what start-up leaves, what the two ends of the loop do to the
connections, and the rule by which a property of the connections that every
operation keeps holds at every head of the loop. -/

namespace MetricServer

open Base Http LoopState

/-! ### The ends of the loop -/

theorem serverClear_events (s : Server) :
    s.serverClear.2 = Connections.stopListening s._sockfd := by
  simp only [Server.serverClear, Server.serverClose, Connections.stopListening]
  split_ifs <;> rfl

/-- The shutdown loop clears the clients from the last to the first. -/
theorem shutdownLoop_eq (es : List Entry) (s : LoopState) (hfds : s.fds = es.map Entry.pfd)
    (hclients : s.clients = es.map Entry.client) :
    shutdownLoop es.length s =
      { s with
        fds := []
        clients := []
        log := s.log ++ es.reverse.flatMap fun e => e.client.clientClear.2 } := by
  induction es using List.reverseRecOn generalizing s with
  | nil =>
    have h : s.fds = [] ∧ s.clients = [] := ⟨hfds, hclients⟩
    simp [shutdownLoop, ← h.1, ← h.2]
  | append_singleton es e ih =>
    rw [List.length_append, List.length_singleton, shutdownLoop, ih]
    · simp [hclients]
    · simp [hfds, List.eraseIdx_append_of_length_le]
    · simp [hclients, List.eraseIdx_append_of_length_le]

namespace Represents

variable {cfg : Config} {s : LoopState} {t : Connections}

theorem shutdown (h : Represents cfg s t) :
    (s.shutdown cfg).fds = [] ∧ (s.shutdown cfg).clients = [] ∧
      (s.shutdown cfg).log = t.log ++ t.closing := by
  obtain ⟨ls, hs⟩ := h.shows
  have herase : s.fds.drop cfg.listeners = t.entries.map Entry.pfd := by
    rw [hs.fds_eq, ← hs.length_listeners, List.drop_left]
  have hloop := shutdownLoop_eq t.entries { s with fds := t.entries.map Entry.pfd } rfl
    hs.clients_eq
  have hlist := h.listeners_eq
  cases hssl : cfg.sslCtx with
  | false =>
    have hfds : s.fds.eraseIdx 0 = t.entries.map Entry.pfd := by
      simpa [Config.listeners, hssl] using herase
    simp only [LoopState.shutdown, hssl, hfds, Bool.false_eq_true, if_false, List.length_map, hloop]
    simp [clearServer, LoopState.record, serverClear_events, Connections.closing, hlist, listening,
      hssl, h.log_eq]
  | true =>
    have hfds : (s.fds.eraseIdx 0).eraseIdx 0 = t.entries.map Entry.pfd := by
      rw [List.eraseIdx_zero, List.eraseIdx_zero, ← List.drop_one, ← List.drop_one, List.drop_drop]
      simpa [Config.listeners, hssl] using herase
    simp only [LoopState.shutdown, hssl, hfds, if_true, List.length_map, hloop]
    simp [clearServer, clearServerHttps, LoopState.record, serverClear_events, Connections.closing,
      hlist, listening, hssl, h.log_eq]

theorem abort (h : Represents cfg s t) : (s.abort cfg).log = t.log ++ t.aborting := by
  obtain ⟨ls, hs⟩ := h.shows
  cases hssl : cfg.sslCtx <;>
    simp [LoopState.abort, clearServer, clearServerHttps, LoopState.record, serverClear_events,
      Connections.aborting, h.listeners_eq, listening, hssl, h.log_eq, hs.clients_eq,
      List.flatMap_map]

/-- A function that returns without a connection refused has read the exit flag. -/
theorem flag_of_returned (h : Represents cfg s t) {r : Round} {s' : LoopState}
    (hstep : loopStep cfg s r = .done (.returned s'))
    (hno : ∀ a ∈ s.attempts cfg r, ¬ a.refused cfg) : r.exitHead ∨ r.exitPolled := by
  have hit := loopStep_iterates h r
  rw [hstep] at hit
  cases hit with
  | head hflag => exact .inl hflag
  | polled _ _ hflag => exact .inr hflag
  | refused before a _ _ _ has hr => exact absurd hno (not_forall_of_refused has hr)

/-- The connections live on in an iteration that goes on. -/
theorem next (h : Represents cfg s t) {r : Round} {s' : LoopState}
    (hstep : loopStep cfg s r = .next s') : ∃ t', Represents cfg s' t' := by
  have hit := loopStep_iterates h r
  rw [hstep] at hit
  cases hit with
  | idle _ _ _ _ hs => exact ⟨_, hs⟩
  | served _ _ _ _ hs => exact ⟨_, hs⟩

end Represents

/-! ### Start-up -/

/-- A server starts with its socket open, or it fails with the socket closed. -/
theorem serverStart_cases (s : Server) (serial : ℕ) (calls : StartCalls)
    (hs : s._sockfd.num < 0) :
    (∃ s', s.serverStart serial calls = (.success, s', [.socket ⟨calls.socket, serial⟩]) ∧
      0 ≤ calls.socket ∧ s'._sockfd = ⟨calls.socket, serial⟩) ∨
    ∃ rc s' events, s.serverStart serial calls = (rc, s', events) ∧ rc.code < 0 ∧
      s'._sockfd.num < 0 ∧
      (events = [] ∨ events = [.socket ⟨calls.socket, serial⟩, .close ⟨calls.socket, serial⟩]) := by
  unfold Server.serverStart
  simp only
  split_ifs with h₁ h₂
  · exact .inr ⟨_, _, _, rfl, by simp, hs, .inl rfl⟩
  · exact .inr ⟨_, _, _, rfl, by simp, h₂, .inl rfl⟩
  · exact .inr ⟨_, _, _, rfl, by simp, by simp [Descriptor.invalid], .inr rfl⟩
  · exact .inr ⟨_, _, _, rfl, by simp, by simp [Descriptor.invalid], .inr rfl⟩
  · exact .inr ⟨_, _, _, rfl, by simp, by simp [Descriptor.invalid], .inr rfl⟩
  · exact .inr ⟨_, _, _, rfl, by simp, by simp [Descriptor.invalid], .inr rfl⟩
  · exact .inl ⟨_, rfl, not_lt.mp h₂, rfl⟩

/-- The listening sockets that start-up opens. -/
def opening (cfg : Config) (u : StartUp) : List Descriptor :=
  ⟨u.server.socket, 0⟩ :: if cfg.sslCtx then [⟨u.serverHttps.socket, 1⟩] else []

/-- The tables show the listening sockets and no entries. -/
theorem initTables_represents {cfg : Config} {s : LoopState}
    (h : ∀ d ∈ s.listening cfg, 0 ≤ d.num) :
    Represents cfg (s.initTables cfg) ⟨s.listening cfg, [], s.db, s.serial, s.log, h, by simp⟩ := by
  refine ⟨rfl, ⟨(s.initTables cfg).fds, ?_, ?_, rfl⟩, rfl, rfl, rfl⟩
  · cases hssl : cfg.sslCtx <;> simp [initTables, listening, hssl, Server.serverGetSockfd]
  · simp

/-- Start-up leaves the listening sockets and an empty table, or it exits with
everything closed. -/
theorem startUp_cases (cfg : Config) (u : StartUp) :
    (∃ s t, startUp cfg u = .next s ∧ Represents cfg s t ∧ t.listeners = opening cfg u ∧
      t.entries = [] ∧ t.serial = (opening cfg u).length ∧
      t.log = (opening cfg u).map Event.socket) ∨
    ∃ s, startUp cfg u = .done (.exited s) ∧ ledger.Disciplined s.log := by
  have hinvalid (port : ℤ) : (Server.new port)._sockfd.num < 0 := by
    simp [Server.new, Descriptor.invalid]
  have hstop (d : Descriptor) (hd : d.num < 0) : Connections.stopListening d = [] := by
    simp [Connections.stopListening, not_lt.mpr hd.le]
  unfold startUp startServer
  obtain ⟨server, hs, hfd, hsock⟩ | ⟨rc, server, events, hs, hrc, hnum, hev⟩ :=
    serverStart_cases (Server.new cfg.metricPort) 0 u.server (hinvalid _)
  · simp only [initial, hs]
    cases hssl : cfg.sslCtx with
    | false =>
      refine .inl ⟨_, _, rfl, initTables_represents ?_, ?_, rfl, ?_, ?_⟩
      all_goals simp [opening, hssl, hfd, listening, hsock, LoopState.record]
    | true =>
      unfold startServerHttps
      obtain ⟨serverHttps, hs', hfd', hsock'⟩ | ⟨rc, serverHttps, events, hs', hrc, hnum, hev⟩ :=
        serverStart_cases (Server.new cfg.metricHttpsPort) 1 u.serverHttps (hinvalid _)
      · simp only [LoopState.record, hs']
        refine .inl ⟨_, _, rfl, initTables_represents ?_, ?_, rfl, ?_, ?_⟩
        all_goals simp [opening, hssl, hfd, hfd', listening, hsock, hsock']
      · simp only [LoopState.record, hs', hrc, if_true]
        refine .inr ⟨_, rfl, ?_⟩
        simp only [clearServer, clearServerHttps, LoopState.record, serverClear_events, hsock,
          Connections.stopListening, if_neg (not_lt.mpr hnum.le)]
        rcases hev with rfl | rfl <;> split_ifs <;> simp [Ledger.Disciplined, Ledger.touches]
  · simp only [initial, hs, hrc, if_true]
    refine .inr ⟨_, rfl, ?_⟩
    have hhttps := hstop _ (hinvalid cfg.metricHttpsPort)
    rcases hev with rfl | rfl <;> split_ifs <;>
      simp [clearServer, clearServerHttps, LoopState.record, serverClear_events, hstop _ hnum,
        hhttps, Ledger.Disciplined, Ledger.touches]

theorem exists_represents {cfg : Config} {u : StartUp} {s₀ : LoopState}
    (hs : startUp cfg u = .next s₀) :
    ∃ t, Represents cfg s₀ t ∧ t.listeners = opening cfg u ∧ t.entries = [] ∧
      t.serial = (opening cfg u).length ∧ t.log = (opening cfg u).map Event.socket := by
  obtain ⟨s, t, hs', ht⟩ | ⟨s, hs', -⟩ := startUp_cases cfg u
  · obtain rfl := Outcome.next.inj (hs.symm.trans hs')
    exact ⟨t, ht⟩
  · cases hs.symm.trans hs'

/-! ### Invariants of the connections -/

/-- Every operation of an iteration taken where `P` holds keeps `I`. -/
structure Kept (cfg : Config) (P : LoopState → Round → Prop) (I : Connections → Prop) : Prop where
  report : ∀ t p, I t → I (t.report cfg p)
  connect : ∀ s r t a, P s r → a ∈ s.attempts cfg r → ¬ a.refused cfg →
    a.held = t.entries.length → I t → I (t.connect a)
  serve : ∀ s r t₀ t, P s r → Represents cfg s t₀ → s.serves cfg r →
    Trace (Admission cfg) (t₀.report cfg r.poll) (s.attempts cfg r) t → I t →
    I (t.serve cfg (s.serving cfg r))

namespace Kept

variable {cfg : Config} {P : LoopState → Round → Prop} {I : Connections → Prop} {u : StartUp}
  {s s' : LoopState} {t t' : Connections} {r : Round} {rounds : List Round}

theorem and {J : Connections → Prop} (k : Kept cfg P I) (k' : Kept cfg P J) :
    Kept cfg P fun t => I t ∧ J t where
  report t p h := ⟨k.report t p h.1, k'.report t p h.2⟩
  connect s r t a hP ha hr hheld h :=
    ⟨k.connect s r t a hP ha hr hheld h.1, k'.connect s r t a hP ha hr hheld h.2⟩
  serve s r t₀ t hP h₀ hserves hadm h :=
    ⟨k.serve s r t₀ t hP h₀ hserves hadm h.1, k'.serve s r t₀ t hP h₀ hserves hadm h.2⟩

theorem admissions (k : Kept cfg P I) (hP : P s r) {as : List Attempt}
    (has : ∀ a ∈ as, a ∈ s.attempts cfg r) (h : Trace (Admission cfg) t as t') (hI : I t) :
    I t' := by
  refine h.invariant ?_ hI
  rintro a ha t - hI ⟨hr, hheld, rfl⟩
  exact k.connect s r t a hP (has a ha) hr hheld hI

theorem step (k : Kept cfg P I) (h : Represents cfg s t) (hI : I t) (hP : P s r)
    (hstep : loopStep cfg s r = .next s') : ∃ t', Represents cfg s' t' ∧ I t' := by
  have hit := loopStep_iterates h r
  rw [hstep] at hit
  cases hit with
  | idle _ _ _ _ hs => exact ⟨_, hs, k.report t r.poll hI⟩
  | served _ t₁ hserves hadm hs =>
    have h₁ := k.admissions hP (fun _ ha => ha) hadm (k.report t r.poll hI)
    exact ⟨_, hs, k.serve s r t t₁ hP h hserves hadm h₁⟩

/-- What is kept holds as far as the steps meet `P`. -/
theorem trace (k : Kept cfg P I) (htrace : Trace (when P (continues (loopStep cfg))) s rounds s')
    (h : Represents cfg s t) (hI : I t) : ∃ t', Represents cfg s' t' ∧ I t' := by
  refine htrace.invariant (I := fun s => ∃ t, Represents cfg s t ∧ I t) ?_ ⟨t, h, hI⟩
  rintro r - s s' ⟨t, ht, hI⟩ ⟨hP, hstep⟩
  exact k.step ht hI hP hstep

/-- What holds of the connections after start-up and is kept holds at every head. -/
theorem run (k : Kept cfg P I)
    (hstart : ∀ t, t.listeners = opening cfg u → t.entries = [] →
      t.serial = (opening cfg u).length → t.log = (opening cfg u).map Event.socket → I t)
    (h : RunningWhen P cfg u rounds s) : ∃ t, Represents cfg s t ∧ I t := by
  obtain ⟨s₀, hs₀, htrace⟩ := h
  obtain ⟨s₁, t, h₁, ht, hl, he, hn, hlog⟩ | ⟨s₁, h₁, -⟩ := startUp_cases cfg u
  · obtain rfl : s₀ = s₁ := by simpa [hs₀] using h₁
    exact k.trace htrace ht (hstart t hl he hn hlog)
  · simp [hs₀] at h₁

/-- What is kept holds of the connections when the loop ends, a refused attempt
still to come. -/
theorem done (k : Kept cfg P I) (h : Represents cfg s t) (hI : I t) (hP : P s r) {f : Final}
    (hstep : loopStep cfg s r = .done f) :
    (∃ s' t', f = .returned s' ∧ I t' ∧ s'.log = t'.log ++ t'.closing) ∨
    (∃ s' t' a, f = .returned s' ∧ I t' ∧ a ∈ s.attempts cfg r ∧ a.refused cfg ∧
      s'.log = (t'.refuse a).log ++ (t'.refuse a).closing) ∨
    ∃ s' t', f = .exited s' ∧ I t' ∧ s'.log = t'.log ++ t'.aborting := by
  have hit := loopStep_iterates h r
  rw [hstep] at hit
  have hreport := k.report t r.poll hI
  cases hit with
  | head => exact .inl ⟨_, t, rfl, hI, h.shutdown.2.2⟩
  | polled s₁ _ _ hs => exact .inl ⟨_, _, rfl, hreport, hs.shutdown.2.2⟩
  | trouble s₁ _ _ _ hs => exact .inr (.inr ⟨_, _, rfl, hreport, hs.abort⟩)
  | refused before a s₁ t₁ _ has hr hadm _ hs =>
    have h₁ := k.admissions hP (fun b hb => has ▸ List.mem_append_left _ hb) hadm hreport
    refine .inr (.inl ⟨_, t₁, a, rfl, h₁, ?_, hr, hs.shutdown.2.2⟩)
    exact has ▸ List.mem_append_right _ (List.mem_singleton_self a)

end Kept

theorem Running.runningWhen {cfg : Config} {u : StartUp} {rounds : List Round} {s : LoopState}
    (h : Running cfg u rounds s) : RunningWhen (fun _ _ => True) cfg u rounds s :=
  let ⟨s₀, h₀, htrace⟩ := h
  ⟨s₀, h₀, htrace.mono fun _ _ _ h => ⟨trivial, h⟩⟩

end MetricServer
