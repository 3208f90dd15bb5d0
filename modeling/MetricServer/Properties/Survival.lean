import MetricServer.Properties.Sessions

/-! Who stays. A round of service drops every client that does not ask something in it, so
that a connection is in the table after any number of rounds exactly if it has made a
request in each round of service since, was answered each time, and asked each time to
be kept. A connection that went does not come back. -/

namespace MetricServer

open Base Http LoopState

variable {cfg : Config} {u : StartUp} {s s' : LoopState} {t : Connections} {r : Round}
  {rounds later : List Round} {i : ℕ} {d : Descriptor}

/-! ### Clients that use SSL -/

theorem ssl_of_mem_attempts {a : Attempt} (ha : a ∈ s.attempts cfg r) (hssl : a.ssl) :
    cfg.sslCtx := by
  have hhttps {fds : List PollFd} {held : ℕ} (ha : a ∈ attemptHttps cfg fds r held) :
      cfg.sslCtx := by
    rw [attemptHttps] at ha
    split_ifs at ha with hcond
    · exact hcond.1
    · cases ha
  rw [attempts] at ha
  split_ifs at ha
  · rw [attemptsOn] at ha
    split_ifs at ha
    · cases hssl.symm.trans (ssl_of_mem_attemptHttp ha)
    · obtain ha | ha := List.mem_append.mp ha
      · cases hssl.symm.trans (ssl_of_mem_attemptHttp ha)
      · exact hhttps ha
  · cases ha

/-- There are clients that use SSL only where the server does. -/
def Secured (cfg : Config) (t : Connections) : Prop :=
  ∀ e ∈ t.entries, 0 < e.client._useSSL → cfg.sslCtx

theorem secured_kept (cfg : Config) : Kept cfg (fun _ _ => True) (Secured cfg) := by
  refine ⟨fun t p h e he huse => ?_, fun s r t a _ ha _ _ h e he huse => ?_,
    fun s r _ t _ _ _ _ h e he huse => ?_⟩
  · obtain ⟨e₀, he₀, hc, -⟩ := Connections.mem_reported he
    exact h e₀ he₀ (hc ▸ huse)
  · obtain he | ⟨rfl, hok⟩ := Connections.mem_connect he
    · exact h e he huse
    · have hclient := (a.client_of_succeeds t.serial hok).2
      cases hssl : a.ssl with
      | false => simp [Attempt.entry, hclient, hssl] at huse
      | true => exact ssl_of_mem_attempts ha hssl
  · obtain ⟨e₀, he₀, buffer, hc⟩ := Connections.mem_serve he
    rw [hc] at huse
    exact h e₀ he₀ huse

/-! ### A connection that went -/

/-- The number was handed out, and no entry has it. -/
def Gone (n : ℕ) (t : Connections) : Prop := n < t.serial ∧ ∀ e ∈ t.entries, e.serial ≠ n

theorem gone_kept (cfg : Config) (n : ℕ) : Kept cfg (fun _ _ => True) (Gone n) := by
  refine ⟨fun t p h => ⟨h.1, fun e he => ?_⟩, fun s r t a _ _ _ _ h => ⟨?_, fun e he => ?_⟩,
    fun s r _ t _ _ _ _ h => ⟨h.1, fun e he => ?_⟩⟩
  · obtain ⟨e₀, he₀, hc, -⟩ := Connections.mem_reported he
    rw [Entry.serial, hc]
    exact h.2 e₀ he₀
  · rw [Connections.connect_serial]
    exact h.1.trans (Nat.lt_succ_self _)
  · obtain he | ⟨rfl, -⟩ := Connections.mem_connect he
    · exact h.2 e he
    · rw [Entry.serial, Attempt.entry, a.client_sockfd]
      exact h.1.ne'
  · obtain ⟨e₀, he₀, buffer, hc⟩ := Connections.mem_serve he
    rw [Entry.serial, hc]
    exact h.2 e₀ he₀

/-- An entry that is not left open in a round of service goes. -/
theorem Owned.gone_serve {v : Serving} (h : Owned t) {i : ℕ} (hi : i < t.entries.length)
    (hclosed : ¬ (t.entries[i].serve cfg v i).isOpen) :
    Gone t.entries[i].serial (t.serve cfg v) := by
  refine ⟨h.given _ (List.mem_append_right _ (List.mem_map_of_mem (List.getElem_mem hi))), ?_⟩
  intro e he heq
  obtain ⟨he, hopen⟩ := List.mem_filter.mp he
  obtain ⟨j, hj, rfl⟩ := List.mem_mapIdx.mp he
  obtain rfl := h.index_eq hj hi ((Entry.serial_serve hopen).symm.trans heq)
  exact hclosed hopen

/-- What holds of the connections at every head. -/
def Steady (cfg : Config) (t : Connections) : Prop := Owned t ∧ Secured cfg t

theorem owned_kept (cfg : Config) : Kept cfg (fun _ _ => True) Owned :=
  ⟨fun _ p h => h.report p, fun _ _ _ a _ _ _ _ h => h.connect a,
    fun _ _ _ _ _ _ _ _ h => h.serve _⟩

theorem steady_kept (cfg : Config) : Kept cfg (fun _ _ => True) (Steady cfg) :=
  (owned_kept cfg).and (secured_kept cfg)

/-! ### One round -/

namespace LoopState

/-- The descriptor is that of a client in the table. -/
def holds (s : LoopState) (d : Descriptor) : Prop := d ∈ s.clients.map (·._sockfd)

/-- In the iteration there is an exchange through the descriptor that runs through, and in it
the client asks for the connection to be kept. -/
def asks (cfg : Config) (s : LoopState) (r : Round) (d : Descriptor) : Prop :=
  ∃ x ∈ s.exchanges cfg r, x.client._sockfd = d ∧ x.client.keepsAlive x.db x.io

/-- `poll` reports something else than data or a hangup alone, which the loop does not look at. -/
def passesOver (cfg : Config) (s : LoopState) (r : Round) (d : Descriptor) : Prop :=
  ∃ i < s.clients.length, (s.client i)._sockfd = d ∧ s.revents cfg r i ≠ 0 ∧
    s.revents cfg r i ≠ POLLIN ∧ s.revents cfg r i ≠ POLLHUP

/-- No client has the number zero or one of the numbers that are accepted. -/
def Numbered (cfg : Config) (s : LoopState) (r : Round) : Prop :=
  ∀ i < s.clients.length, 0 < (s.client i)._sockfd.num ∧
    ∀ ssl, (s.client i)._sockfd.num ≠ accepted ssl (s.attempts cfg r)

instance (s : LoopState) (d : Descriptor) : Decidable (s.holds d) :=
  inferInstanceAs (Decidable (_ ∈ _))

instance (cfg : Config) (s : LoopState) (r : Round) : Decidable (Numbered cfg s r) :=
  inferInstanceAs (Decidable (∀ i < _, _))

theorem exists_of_holds (h : s.holds d) : ∃ i < s.clients.length, (s.client i)._sockfd = d := by
  obtain ⟨c, hc, hd⟩ := List.mem_map.mp h
  obtain ⟨i, hi, rfl⟩ := List.getElem_of_mem hc
  exact ⟨i, hi, by simpa [client, hi] using hd⟩

end LoopState

namespace Represents

theorem holds_iff (h : Represents cfg s t) :
    s.holds d ↔ ∃ e ∈ t.entries, e.client._sockfd = d := by
  obtain ⟨ls, hs⟩ := h.shows
  rw [LoopState.holds, hs.clients_eq, List.map_map, List.mem_map]
  rfl

/-- The number of its descriptor tells the position of a client. -/
theorem position_eq (h : Represents cfg s t) (ho : Owned t) {i j : ℕ} (hi : i < s.clients.length)
    (hj : j < s.clients.length)
    (heq : (s.client i)._sockfd.serial = (s.client j)._sockfd.serial) : i = j := by
  rw [h.length_clients] at hi hj
  rw [h.client_eq hi, h.client_eq hj] at heq
  exact ho.index_eq hi hj heq

theorem asks_iff (h : Represents cfg s t) (ho : Owned t) {i : ℕ} (hi : i < s.clients.length) :
    s.asks cfg r (s.client i)._sockfd ↔
      s.isRead cfg r i ∧ (s.client i).keepsAlive (s.db.update r.snapshot) (r.io i) := by
  constructor
  · rintro ⟨x, hx, hd, hkeeps⟩
    obtain ⟨j, hj, rfl⟩ := List.mem_map.mp hx
    obtain ⟨hj, hread⟩ := List.mem_filter.mp hj
    obtain rfl := h.position_eq ho hi (List.mem_range.mp hj) (congrArg Descriptor.serial hd.symm)
    exact ⟨of_decide_eq_true hread, hkeeps⟩
  · rintro ⟨hread, hkeeps⟩
    refine ⟨_, List.mem_map.mpr ⟨i, List.mem_filter.mpr ⟨List.mem_range.mpr hi, ?_⟩, rfl⟩, rfl,
      hkeeps⟩
    exact decide_eq_true hread

theorem passesOver_iff (h : Represents cfg s t) (ho : Owned t) {i : ℕ} (hi : i < s.clients.length) :
    s.passesOver cfg r (s.client i)._sockfd ↔ s.revents cfg r i ≠ 0 ∧
      s.revents cfg r i ≠ POLLIN ∧ s.revents cfg r i ≠ POLLHUP := by
  constructor
  · rintro ⟨j, hj, hd, hrevents⟩
    obtain rfl := h.position_eq ho hi hj (congrArg Descriptor.serial hd.symm)
    exact hrevents
  · exact fun hrevents => ⟨i, hi, rfl, hrevents⟩

/-- A client with an old number is taken for one that went when it reports nothing. -/
theorem mistaken_iff (h : Represents cfg s t) (hsec : Secured cfg t) (hnum : s.Numbered cfg r)
    {i : ℕ} (hi : i < s.clients.length) (revents : BitVec 16) :
    mistaken cfg (s.serving cfg r) revents (s.client i) ↔ revents = 0 := by
  obtain ⟨hpos, hnew⟩ := hnum i hi
  rw [mistaken, and_iff_right hpos, and_iff_left_iff_imp]
  intro _
  obtain huse | huse := le_or_gt (s.client i).clientGetUseSSL 0
  · exact .inl ⟨hnew false, huse⟩
  · have hi' : i < t.entries.length := h.length_clients ▸ hi
    have hssl : cfg.sslCtx := hsec _ (List.getElem_mem hi') (h.client_eq hi' ▸ huse)
    exact .inr ⟨hssl, hnew true, huse⟩

/-- In a round of service a client stays if it asks something and is kept, or is passed over. -/
theorem holds_served_iff (h : Represents cfg s t) (ho : Owned t) (hsec : Secured cfg t)
    (hnum : s.Numbered cfg r) (hserves : s.serves cfg r) (hstep : loopStep cfg s r = .next s')
    {i : ℕ} (hi : i < s.clients.length) :
    s'.holds (s.client i)._sockfd ↔
      s.asks cfg r (s.client i)._sockfd ∨ s.passesOver cfg r (s.client i)._sockfd := by
  have hit := loopStep_iterates h r
  rw [hstep] at hit
  cases hit with
  | idle _ _ _ hcount => exact absurd hserves.1.2.2.1 hcount
  | served _ t₁ _ hadm hs =>
    obtain ⟨e, calls, hopen, hpfd, hclient, -, hfate⟩ := h.fate ho hadm hs hi
    have hstays := e.isOpen_serve_iff cfg (s.serving cfg r) i hopen
    rw [hpfd, hclient, h.mistaken_iff hsec hnum hi] at hstays
    rw [LoopState.holds, ← hclient, hfate.present, hstays, hclient, h.asks_iff ho hi,
      h.passesOver_iff ho hi, LoopState.isRead, keeps, and_iff_right hserves,
      forall_prop_of_true (hnum i hi).1, and_iff_right (hnum i hi).1]
    show ¬ s.revents cfg r i = 0 ∧ s.revents cfg r i ≠ POLLHUP ∧ (s.revents cfg r i = POLLIN →
      (s.client i).keepsAlive (s.db.update r.snapshot) (r.io i)) ↔ _
    have hzero : POLLIN ≠ 0 := by decide
    have hhup : POLLIN ≠ POLLHUP := by decide
    by_cases hin : s.revents cfg r i = POLLIN
    · rw [hin]
      tauto
    · simp [hin]

/-- In an iteration without service every client stays. -/
theorem holds_of_not_serves (h : Represents cfg s t) (hserves : ¬ s.serves cfg r)
    (hstep : loopStep cfg s r = .next s') (hd : s.holds d) : s'.holds d := by
  have hit := loopStep_iterates h r
  rw [hstep] at hit
  cases hit with
  | idle _ _ _ _ hs =>
    obtain ⟨e, he, hd⟩ := h.holds_iff.mp hd
    obtain ⟨e', he', hc⟩ := Connections.exists_mem_report cfg r.poll he
    exact hs.holds_iff.mpr ⟨e', he', hc ▸ hd⟩
  | served _ _ hs _ _ => exact absurd hs hserves

/-- A connection that is not held any more after an iteration has gone. -/
theorem gone_of_not_holds (h : Represents cfg s t) (ho : Owned t)
    (hstep : loopStep cfg s r = .next s') (hd : s.holds d) (hd' : ¬ s'.holds d) :
    ∃ t', Represents cfg s' t' ∧ Owned t' ∧ Gone d.serial t' := by
  have hit := loopStep_iterates h r
  rw [hstep] at hit
  cases hit with
  | idle _ _ _ hcount =>
    exact absurd (h.holds_of_not_serves (fun hs => hcount hs.1.2.2.1) hstep hd) hd'
  | served _ t₁ _ hadm hs =>
    have ho₁ : Owned t₁ := (ho.report r.poll).admissions hadm
    refine ⟨_, hs, ho₁.serve _, ?_⟩
    obtain ⟨i, hi, rfl⟩ := exists_of_holds hd
    obtain ⟨new, hnew, -⟩ := Admission.entries_eq hadm
    have hi₁ : i < t₁.entries.length := by
      rw [hnew, List.length_append, Connections.length_report, ← h.length_clients]
      omega
    obtain ⟨-, -, hclient⟩ | ⟨hge, -⟩ := h.entry_cases hadm hi₁
    · rw [← hclient] at hd' ⊢
      refine ho₁.gone_serve hi₁ fun hopen => hd' (hs.holds_iff.mpr ?_)
      exact List.mem_map.mp ((ho₁.mem_serve_iff hi₁).mpr hopen)
    · exact absurd hi (not_lt.mpr hge)

end Represents

/-! ### A run -/

/-- In every round of service the connection asks to be kept, or is passed over. -/
def Stays (cfg : Config) (d : Descriptor) : LoopState → List Round → Prop
  | _, [] => True
  | s, r :: rounds =>
    (s.serves cfg r → s.asks cfg r d ∨ s.passesOver cfg r d) ∧
      match loopStep cfg s r with
      | .next s' => Stays cfg d s' rounds
      | .done _ => True

section
variable (hnum : s.Numbered cfg r) (hstep : loopStep cfg s r = .next s')
include hnum hstep

theorem Represents.holds_next_iff (h : Represents cfg s t) (hsteady : Steady cfg t)
    (hd : s.holds d) :
    s'.holds d ↔ (s.serves cfg r → s.asks cfg r d ∨ s.passesOver cfg r d) := by
  by_cases hserves : s.serves cfg r
  · obtain ⟨i, hi, rfl⟩ := exists_of_holds hd
    rw [h.holds_served_iff hsteady.1 hsteady.2 hnum hserves hstep hi, forall_prop_of_true hserves]
  · exact iff_of_true (h.holds_of_not_serves hserves hstep hd) fun hs => absurd hs hserves

end

/-- A connection that went is never held again. -/
theorem Represents.not_holds_of_gone (h : Represents cfg s t) (hgone : Gone d.serial t)
    (htrace : Trace (when (LoopState.Numbered cfg) (continues (loopStep cfg))) s later s') :
    ¬ s'.holds d := by
  obtain ⟨t', h', hgone'⟩ := (gone_kept cfg d.serial).trace
    (htrace.mono fun _ _ _ hstep => ⟨trivial, hstep.2⟩) h hgone
  intro hd
  obtain ⟨e, he, heq⟩ := h'.holds_iff.mp hd
  exact hgone'.2 e he (congrArg Descriptor.serial heq)

theorem Represents.holds_trace_iff (h : Represents cfg s t) (hsteady : Steady cfg t)
    (htrace : Trace (when (LoopState.Numbered cfg) (continues (loopStep cfg))) s later s')
    (hd : s.holds d) : s'.holds d ↔ Stays cfg d s later := by
  induction htrace generalizing t with
  | nil s => exact iff_of_true hd trivial
  | @cons s s₁ s' r later hstep htrace ih =>
    obtain ⟨hnum, hnext⟩ := hstep
    have hrest : Stays cfg d s (r :: later) ↔ s₁.holds d ∧ Stays cfg d s₁ later := by
      rw [Stays, h.holds_next_iff hnum hnext hsteady hd, hnext]
    rw [hrest]
    by_cases hd₁ : s₁.holds d
    · obtain ⟨t₁, h₁, hsteady₁⟩ := (steady_kept cfg).step h hsteady trivial hnext
      rw [ih h₁ hsteady₁ hd₁, and_iff_right hd₁]
    · obtain ⟨t₁, h₁, -, hgone⟩ := h.gone_of_not_holds hsteady.1 hnext hd hd₁
      exact iff_of_false (h₁.not_holds_of_gone hgone htrace) fun hs => hd₁ hs.1

/-- From any head on, as long as the server goes on, a connection of the table is still there
exactly if in every round of service it made a request that was answered in full and asked for the
connection to be kept, or reported something the loop does not look at. -/
theorem holds_iff_stays (h : Running cfg u rounds s)
    (hlater : Trace (when (LoopState.Numbered cfg) (continues (loopStep cfg))) s later s')
    (hd : s.holds d) : s'.holds d ↔ Stays cfg d s later := by
  obtain ⟨t, ht, hsteady⟩ := (steady_kept cfg).run (fun t hl he hn hlog =>
    ⟨.start hl he hn hlog, by simp [Secured, he]⟩) h.runningWhen
  exact ht.holds_trace_iff hsteady hlater hd

/-- A client that connects. -/
def connecting : List Round := [.sample [POLLIN] 5 6 ""]

/-- It asks for the metrics, and for the connection to be kept. -/
def asking : List Round :=
  [.sample [0, POLLIN] 5 6 "GET /metrics HTTP/1.1\r\nConnection: keep-alive\r\n\r\n"]

theorem holds_iff_stays_sample : ∃ s s' : LoopState,
    Running (.sample false) .sample connecting s ∧ s.holds ⟨5, 1⟩ ∧ s'.holds ⟨5, 1⟩ ∧
      Stays (.sample false) ⟨5, 1⟩ s asking := by
  let step := loopStep (.sample false)
  obtain ⟨s, hs, h⟩ := exists_running (.sample false) .sample connecting (fun s : LoopState =>
    decide (s.holds ⟨5, 1⟩) && meets (LoopState.Numbered (.sample false)) step s asking &&
      (runs step s asking).goes fun s' : LoopState => decide (s'.holds ⟨5, 1⟩)) (by decide +kernel)
  obtain ⟨h, hnext⟩ := Bool.and_eq_true_iff.mp h
  obtain ⟨hd, hm⟩ := Bool.and_eq_true_iff.mp h
  obtain ⟨s', hs', hd'⟩ := Outcome.exists_of_goes hnext
  refine ⟨s, s', hs, of_decide_eq_true hd, of_decide_eq_true hd', ?_⟩
  exact (holds_iff_stays hs (trace_of_meets hs' hm) (of_decide_eq_true hd)).mp
    (of_decide_eq_true hd')

end MetricServer
