import MetricServer.Handler.Ownership

/-! The limit on connections. A connection is refused while more clients than the limit
are in the table, so one more than the limit gets in; and the refusal breaks out of
the main loop, so that the server ends over it. -/

namespace MetricServer

open Base Http LoopState

variable {cfg : Config} {u : StartUp} {rounds : List Round} {s : LoopState} {r : Round}

/-! ### The number of clients -/

/-- No connection is accepted while the table is full. -/
def WithinLimit (cfg : Config) (s : LoopState) (r : Round) : Prop :=
  ∀ a ∈ s.attempts cfg r, a.succeeds → a.held < cfg.metricMaxConnections

instance (cfg : Config) (s : LoopState) (r : Round) : Decidable (WithinLimit cfg s r) :=
  inferInstanceAs (Decidable (∀ a ∈ _, _))

theorem WithinLimit.kept (cfg : Config) :
    Kept cfg (WithinLimit cfg) fun t => t.entries.length ≤ cfg.metricMaxConnections := by
  refine ⟨fun t p ht => ?_, fun s r t a hP ha _ hheld ht => ?_, fun s r t₀ t _ _ _ _ ht => ?_⟩
  · rwa [Connections.length_report]
  · rw [Connections.length_connect]
    split_ifs with hok
    · have := hP a ha hok
      omega
    · exact ht
  · have : ((t.entries.mapIdx (Entry.serve cfg (s.serving cfg r))).filter Entry.isOpen).length ≤
        (t.entries.mapIdx (Entry.serve cfg (s.serving cfg r))).length := List.length_filter_le _ _
    rw [List.length_mapIdx] at this
    exact this.trans ht

/-- In a trace of admissions every client that gets in adds to the length. -/
theorem Admission.held_lt {t t' : Connections} {as : List Attempt} {a : Attempt}
    (h : Trace (Admission cfg) t as t') (ha : a ∈ as) (hok : a.succeeds) :
    a.held < t'.entries.length := by
  obtain ⟨before, after, rfl⟩ := List.append_of_mem ha
  obtain ⟨t₁, -, hlast⟩ := h.split
  obtain _ | ⟨⟨-, hheld, rfl⟩, hafter⟩ := hlast
  have := Admission.length hafter
  rw [Connections.length_connect, if_pos hok] at this
  omega

/-- In a run that accepts no connection while the table is full, the number of clients
stays within the limit; and the accept phase that first accepts one goes over it. -/
theorem length_clients_le (h : RunningWhen (WithinLimit cfg) cfg u rounds s) :
    s.clients.length ≤ cfg.metricMaxConnections ∧ ∀ r, s.accepting cfg r →
      (((s.polled r).acceptPhase cfg r).state.clients.length ≤ cfg.metricMaxConnections ↔
        WithinLimit cfg s r) := by
  have hk := WithinLimit.kept cfg
  obtain ⟨t, ht, hlen⟩ := hk.run (fun t _ he _ _ => by simp [he]) h
  refine ⟨ht.length_clients ▸ hlen, fun r hacc => ?_⟩
  have has : s.attempts cfg r = attemptsOn cfg (s.polled r).fds (s.polled r).clients.length r :=
    if_pos hacc
  obtain ⟨s₁, t₁, hno, hadm, hs, hgo⟩ | ⟨before, a, s₁, t₁, hbefore, hadm, hr, hheld, hs, hgo⟩ :=
    (ht.polled r).acceptPhase r
  · rw [← has] at hno hadm
    rw [hgo, Accepted.state, hs.length_clients]
    refine ⟨fun hle a ha hok => ?_, fun hP => ?_⟩
    · have := Admission.held_lt hadm ha hok
      omega
    · exact hk.admissions hP (fun _ ha => ha) hadm (hk.report t r.poll hlen)
  · rw [hgo, Accepted.state, hs.length_clients]
    have hover : cfg.metricMaxConnections < t₁.entries.length := hheld ▸ hr.2
    refine ⟨fun hle => absurd hle (not_le.mpr hover), fun hP => ?_⟩
    have := hP a (has ▸ hbefore ▸ by simp) hr.1
    omega

/-- One connection on the port for HTTP is within a limit of one. -/
theorem length_clients_le_sample : ∃ s,
    RunningWhen (WithinLimit (.sample false)) (.sample false) .sample [.sample [POLLIN] 5 6 ""] s ∧
      s.clients.length ≤ 1 ∧ ∀ r, s.accepting (.sample false) r →
        (((s.polled r).acceptPhase (.sample false) r).state.clients.length ≤ 1 ↔
          WithinLimit (.sample false) s r) := by
  obtain ⟨s, hs, -⟩ := exists_runningWhen (WithinLimit (.sample false)) (.sample false) .sample
    [.sample [POLLIN] 5 6 ""] (fun _ => true) (by decide)
  exact ⟨s, hs, length_clients_le hs⟩

/-- With SSL, one round lets two clients in where the limit is one. -/
theorem exists_length_clients_gt : ∃ s,
    Running (.sample true) .sample [.sample [POLLIN, POLLIN] 5 6 ""] s ∧
      (Config.sample true).metricMaxConnections < s.clients.length := by
  obtain ⟨s, hs, hlen⟩ := exists_running (.sample true) .sample [.sample [POLLIN, POLLIN] 5 6 ""]
    (fun s => decide ((Config.sample true).metricMaxConnections < s.clients.length)) (by decide)
  exact ⟨s, hs, by simpa using hlen⟩

/-! ### The end of the loop -/

/-- When the function returns, it has read the exit flag as set, or it has accepted a
connection over the limit. -/
theorem returned_on_flag_iff {s' : LoopState} (h : Running cfg u rounds s)
    (hstep : loopStep cfg s r = .done (.returned s')) :
    (r.exitHead ∨ r.exitPolled) ↔ ∀ a ∈ s.attempts cfg r, ¬ a.refused cfg := by
  obtain ⟨t, ht, -⟩ := h.owned
  refine ⟨fun hflag => ?_, ht.flag_of_returned hstep⟩
  have hacc : ¬ s.accepting cfg r := fun hacc => hflag.elim hacc.1 hacc.2.1
  simp [attempts_of_not_accepting hacc]

/-- The flag is set when two clients are connected and a third one waits to be accepted. -/
theorem returned_on_flag_iff_sample : ∃ s s',
    Running (.sample true) .sample [.sample [POLLIN, POLLIN] 5 6 ""] s ∧ s.clients.length = 2 ∧
      loopStep (.sample true) s { Round.sample [POLLIN] 7 8 "" with exitPolled := true } =
        .done (.returned s') ∧
      (({ Round.sample [POLLIN] 7 8 "" with exitPolled := true } : Round).exitHead ∨
          ({ Round.sample [POLLIN] 7 8 "" with exitPolled := true } : Round).exitPolled ↔
        ∀ a ∈ s.attempts (.sample true) { Round.sample [POLLIN] 7 8 "" with exitPolled := true },
          ¬ a.refused (.sample true)) := by
  obtain ⟨s, hs, hp⟩ := exists_running (.sample true) .sample [.sample [POLLIN, POLLIN] 5 6 ""]
    (fun s => s.clients.length = 2 && (loopStep (.sample true) s
      { Round.sample [POLLIN] 7 8 "" with exitPolled := true }).ends Final.hasReturned) (by decide)
  obtain ⟨hlen, hf⟩ := Bool.and_eq_true_iff.mp hp
  obtain ⟨f, hf, hret⟩ := Outcome.exists_of_ends hf
  obtain ⟨s', rfl⟩ := Final.exists_of_hasReturned hret
  exact ⟨s, s', hs, of_decide_eq_true hlen, hf, returned_on_flag_iff hs hf⟩

/-- Three clients, where the limit is one, end the server. -/
theorem exists_returned_not_flag : ∃ s s',
    Running (.sample true) .sample [.sample [POLLIN, POLLIN] 5 6 ""] s ∧
      loopStep (.sample true) s (.sample [POLLIN] 7 8 "") = .done (.returned s') ∧
      ¬ ((Round.sample [POLLIN] 7 8 "").exitHead ∨ (Round.sample [POLLIN] 7 8 "").exitPolled) := by
  obtain ⟨s, hs, hf⟩ := exists_running (.sample true) .sample [.sample [POLLIN, POLLIN] 5 6 ""]
    (fun s => (loopStep (.sample true) s (.sample [POLLIN] 7 8 "")).ends Final.hasReturned)
    (by decide)
  obtain ⟨f, hf, hret⟩ := Outcome.exists_of_ends hf
  obtain ⟨s', rfl⟩ := Final.exists_of_hasReturned hret
  exact ⟨s, s', hs, hf, by decide⟩

end MetricServer
