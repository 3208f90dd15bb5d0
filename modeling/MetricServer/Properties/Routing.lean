import MetricServer.Handler.Transfers

/-! The two vectors and what they are for. At every head of the loop they are the
listening sockets and then, position by position, the clients with their pollfds; so
a response goes out on the channel its request came in on, and the shutdown loop
clears every client. -/

namespace MetricServer

open Base Http LoopState

variable {cfg : Config} {u : StartUp} {rounds : List Round} {s : LoopState}

/-- `fds` is the listening sockets, in their original order, and then an entry for each
client. -/
structure TableInvariant (cfg : Config) (u : StartUp) (s : LoopState) : Prop where
  length_fds : s.fds.length = cfg.listeners + s.clients.length
  listeners : (s.fds.take cfg.listeners).map (·.fd) = (opening cfg u).map (·.num)
  paired : ∀ i < s.clients.length, (s.pfd cfg i).fd = (s.client i)._sockfd.num

theorem Represents.tableInvariant {t : Connections} (h : Represents cfg s t)
    (hl : t.listeners = opening cfg u) : TableInvariant cfg u s := by
  obtain ⟨ls, hs⟩ := h.shows
  have hlen := hs.length_listeners
  refine ⟨h.length_fds, ?_, fun i hi => ?_⟩
  · rw [hs.fds_eq, ← hlen, List.take_left, hs.listeners_eq, ← h.listeners_eq, hl]
  · rw [h.length_clients] at hi
    rw [h.pfd_eq hi, h.client_eq hi]
    exact t.entries[i].same

/-- Entries put behind the others leave the clients of before in front. -/
theorem Represents.clients_prefix {t t₁ : Connections} {s₁ : LoopState} {r : Round}
    {new : List Entry} (h : Represents cfg s t) (h₁ : Represents cfg s₁ t₁)
    (hnew : t₁.entries = (t.report cfg r.poll).entries ++ new) : s.clients <+: s₁.clients := by
  obtain ⟨ls, hs⟩ := (h.polled r).shows
  obtain ⟨ls₁, hs₁⟩ := h₁.shows
  rw [show s.clients = (s.polled r).clients from rfl, hs.clients_eq, hs₁.clients_eq, hnew,
    List.map_append]
  exact List.prefix_append _ _

/-- The calls of an iteration, each write among them explained: it offers a rest of the
response to what came in through its channel, and the channel is that of a client. -/
def Answers (s : LoopState) (r : Round) (calls : List Event) : Prop :=
  ∀ ch data n, .send ch data n ∈ calls →
    ∃ i < s.clients.length, ch = (s.client i).channel ∧
      data <:+ httpErrorCheck
        ((HttpRequest.new (r.io i).memory).parse (cstr (received ch calls))).2
        (s.db.update r.snapshot)

theorem Silent.answers {calls : List Event} (h : Silent calls) (r : Round) : Answers s r calls :=
  fun ch _ _ hsend => absurd rfl (h _ hsend ch)

/-- A round of service answers the requests it receives. -/
theorem answers_served {t t₁ : Connections} {r : Round} (h : Represents cfg s t) (ho : Owned t₁)
    {as : List Attempt} (hadm : Trace (Admission cfg) (t.report cfg r.poll) as t₁)
    {calls : List Event} (hcalls : Silent calls) :
    Answers s r (calls ++ t₁.servedEvents cfg (s.serving cfg r)) := by
  intro ch data n hsend
  obtain hsend | hsend := List.mem_append.mp hsend
  · exact absurd rfl (hcalls _ hsend ch)
  obtain ⟨i, hi, hread, rfl, hmem⟩ := Owned.isTransfer_servedEvents hsend rfl
  obtain ⟨hlt, -, hclient⟩ | ⟨-, hzero⟩ := h.entry_cases hadm hi
  · obtain ⟨hreceived, hdata⟩ := Entry.request_served hmem
    refine ⟨i, hlt, by rw [hclient], ?_⟩
    rw [received_append, received_eq_nil fun ev hev => hcalls ev hev _, List.nil_append,
      ho.received_servedEvents hi, hreceived]
    exact hdata
  · exact absurd (hread.2.symm.trans hzero) (by decide)

theorem loopStep_answers {t : Connections} (h : Represents cfg s t) (ho : Owned t) (r : Round) :
    ∃ calls, logOf (loopStep cfg s r) = s.log ++ calls ∧ Answers s r calls := by
  have hlog : (t.report cfg r.poll).log = s.log := h.log_eq
  have hit := loopStep_iterates h r
  generalize loopStep cfg s r = out at hit
  cases hit with
  | head => exact ⟨t.closing, by rw [logOf, Final.log, h.shutdown.2.2, h.log_eq],
      t.silent_closing.answers r⟩
  | polled s₁ _ _ hs => exact ⟨_, by rw [logOf, Final.log, hs.shutdown.2.2, hlog],
      (t.report cfg r.poll).silent_closing.answers r⟩
  | idle s₁ _ _ _ hs => exact ⟨[], by rw [logOf, ← hs.log_eq, hlog, List.append_nil],
      silent_nil.answers r⟩
  | trouble s₁ _ _ _ hs => exact ⟨_, by rw [logOf, Final.log, hs.abort, hlog],
      (t.report cfg r.poll).silent_aborting.answers r⟩
  | refused before a s₁ t₁ _ _ _ hadm _ hs =>
    obtain ⟨calls, hcalls, hsilent, -⟩ := Admission.log_eq hadm
    refine ⟨calls ++ a.events t₁.serial ++ (t₁.refuse a).closing, ?_, Silent.answers ?_ r⟩
    · rw [logOf, Final.log, hs.shutdown.2.2, Connections.refuse, hcalls, hlog]
      simp
    · have hattempt : Silent (a.events t₁.serial) :=
        Attempt.silent_of_concerns fun _ => Attempt.concerns_of_mem_events
      exact (hsilent.append hattempt).append (t₁.refuse a).silent_closing
  | served s₁ t₁ _ hadm hs =>
    obtain ⟨calls, hcalls, hsilent, -⟩ := Admission.log_eq hadm
    have ho₁ : Owned t₁ := (ho.report r.poll).admissions hadm
    refine ⟨calls ++ t₁.servedEvents cfg (s.serving cfg r), ?_, answers_served h ho₁ hadm hsilent⟩
    rw [logOf, ← hs.log_eq, Connections.serve, hcalls, hlog, List.append_assoc]
    rfl

/-- The shutdown clears the clients from the last to the first, and then the listening
sockets. -/
theorem Represents.shutdown_clears {t : Connections} (h : Represents cfg s t)
    (hl : t.listeners = opening cfg u) :
    (s.shutdown cfg).fds = [] ∧ (s.shutdown cfg).clients = [] ∧
      (s.shutdown cfg).log = s.log ++ s.clients.reverse.flatMap (fun c => c.clientClear.2) ++
        (opening cfg u).flatMap Connections.stopListening := by
  obtain ⟨ls, hs⟩ := h.shows
  obtain ⟨hfds, hclients, hlog⟩ := h.shutdown
  refine ⟨hfds, hclients, ?_⟩
  rw [hlog, Connections.closing, h.log_eq, hl, hs.clients_eq, ← List.map_reverse, List.flatMap_map,
    List.append_assoc]

/-- An iteration that returns shuts down a table with all the clients of the head. -/
theorem loopStep_returned {t : Connections} (h : Represents cfg s t) {r : Round} {s' : LoopState}
    (hstep : loopStep cfg s r = .done (.returned s')) :
    ∃ s₁ t₁, Represents cfg s₁ t₁ ∧ t₁.listeners = t.listeners ∧ s.clients <+: s₁.clients ∧
      s' = s₁.shutdown cfg := by
  have hit := loopStep_iterates h r
  rw [hstep] at hit
  cases hit with
  | head => exact ⟨s, t, h, rfl, List.prefix_rfl, rfl⟩
  | polled s₁ _ _ hs =>
    exact ⟨s₁, _, hs, rfl, h.clients_prefix (r := r) hs (List.append_nil _).symm, rfl⟩
  | refused before a s₁ t₁ _ _ _ hadm _ hs =>
    obtain ⟨new, hnew, -⟩ := Admission.entries_eq hadm
    have hl : t₁.listeners = (t.report cfg r.poll).listeners := Admission.listeners_eq hadm
    exact ⟨s₁, _, hs, hl, h.clients_prefix hs hnew, rfl⟩

/-- At every head of the loop the table invariant holds; in every iteration what goes out
to a client answers what came in from it; and the shutdown clears every client of a
table for which the invariant holds, which has all the clients of the head. -/
theorem table_invariant (h : Running cfg u rounds s) :
    TableInvariant cfg u s ∧
      (∀ r, ∃ calls, logOf (loopStep cfg s r) = s.log ++ calls ∧ Answers s r calls) ∧
      ∀ r s', loopStep cfg s r = .done (.returned s') →
        ∃ s₁, TableInvariant cfg u s₁ ∧ s.clients <+: s₁.clients ∧ s' = s₁.shutdown cfg ∧
          s'.fds = [] ∧ s'.clients = [] ∧
          s'.log = s₁.log ++ s₁.clients.reverse.flatMap (fun c => c.clientClear.2) ++
            (opening cfg u).flatMap Connections.stopListening := by
  obtain ⟨t, ht, hl, ho⟩ := h.owned
  refine ⟨ht.tableInvariant hl, loopStep_answers ht ho, fun r s' hstep => ?_⟩
  obtain ⟨s₁, t₁, h₁, hl₁, hprefix, rfl⟩ := loopStep_returned ht hstep
  rw [hl] at hl₁
  exact ⟨s₁, h₁.tableInvariant hl₁, hprefix, rfl, h₁.shutdown_clears hl₁⟩

/-- A round that lets in a client on either port leaves two of each. -/
theorem table_invariant_sample : ∃ s,
    Running (.sample true) .sample [.sample [POLLIN, POLLIN] 5 6 ""] s ∧ s.clients.length = 2 ∧
      TableInvariant (.sample true) .sample s ∧
      (∀ r, ∃ calls, logOf (loopStep (.sample true) s r) = s.log ++ calls ∧ Answers s r calls) ∧
      ∀ r s', loopStep (.sample true) s r = .done (.returned s') →
        ∃ s₁, TableInvariant (.sample true) .sample s₁ ∧ s.clients <+: s₁.clients ∧
          s' = s₁.shutdown (.sample true) ∧ s'.fds = [] ∧ s'.clients = [] ∧
          s'.log = s₁.log ++ s₁.clients.reverse.flatMap (fun c => c.clientClear.2) ++
            (opening (.sample true) .sample).flatMap Connections.stopListening := by
  obtain ⟨s, hs, hlen⟩ := exists_running (.sample true) .sample [.sample [POLLIN, POLLIN] 5 6 ""]
    (fun s => decide (s.clients.length = 2)) (by decide)
  exact ⟨s, hs, by simpa using hlen, table_invariant hs⟩

end MetricServer
