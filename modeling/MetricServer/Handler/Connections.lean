import MetricServer.Handler.Attempt

/-! The connections of the server, without the vectors. `Connections` is what the two
vectors stand for: the listening sockets and the open entries, in order, with the
metric values and the ledger. An iteration is made of four operations on them: the
events that `poll` reports, the admission of a connection or its refusal, and the
round of service. `Represents` ties them to the state of the loop. -/

namespace MetricServer

open Base Http LoopState

structure Connections where
  listeners : List Descriptor
  entries : List Entry
  db : MetricDatabase
  serial : ℕ
  log : List Event
  listening : ∀ d ∈ listeners, 0 ≤ d.num
  opened : ∀ e ∈ entries, e.isOpen

/-- The entry of a connection that was accepted. -/
def Attempt.entry (a : Attempt) (serial : ℕ) : Entry :=
  ⟨⟨a.calls.fd, POLLIN, 0⟩, a.client serial, by rw [a.client_sockfd]⟩

namespace Connections

/-- The entries with the events `poll` reports for them. -/
def reported (cfg : Config) : PollResult → List Entry → List Entry
  | .failed _, es => es
  | .ready revents, es => es.mapIdx fun i e => e.setRevents (revents (cfg.listeners + i))

theorem mem_reported {cfg : Config} {p : PollResult} {es : List Entry} {e : Entry}
    (h : e ∈ reported cfg p es) : ∃ e₀ ∈ es, e.client = e₀.client ∧ e.pfd.fd = e₀.pfd.fd := by
  cases p with
  | failed errno => exact ⟨e, h, rfl, rfl⟩
  | ready revents =>
    obtain ⟨i, hi, rfl⟩ := List.mem_mapIdx.mp h
    exact ⟨es[i], List.getElem_mem hi, rfl, rfl⟩

def report (cfg : Config) (p : PollResult) (t : Connections) : Connections :=
  { t with
    entries := reported cfg p t.entries
    opened := fun e he => by
      obtain ⟨e₀, h₀, -, hfd⟩ := mem_reported he
      simpa [Entry.isOpen, hfd] using t.opened e₀ h₀ }

/-- A connection that was accepted gets an entry; one that was not leaves its calls. -/
def connect (t : Connections) (a : Attempt) : Connections :=
  if h : a.succeeds then
    { t with
      entries := t.entries ++ [a.entry t.serial]
      serial := t.serial + 1
      log := t.log ++ a.events t.serial
      opened := fun e he => by
        obtain he | rfl := by simpa using he
        · exact t.opened e he
        · exact decide_eq_true h.1 }
  else { t with serial := t.serial + 1, log := t.log ++ a.failedEvents t.serial }

/-- A connection over the limit is accepted and then forgotten. -/
def refuse (t : Connections) (a : Attempt) : Connections :=
  { t with serial := t.serial + 1, log := t.log ++ a.events t.serial }

def serve (cfg : Config) (v : Serving) (t : Connections) : Connections :=
  { t with
    entries := (t.entries.mapIdx (Entry.serve cfg v)).filter Entry.isOpen
    db := v.db
    log := t.log ++ (t.entries.mapIdx fun i e => (e.served cfg v i).events).flatten
    opened := fun _ he => (List.mem_filter.mp he).2 }

/-- The calls that close a listening socket. -/
def stopListening (d : Descriptor) : List Event := if 0 < d.num then [.close d] else []

/-- The calls of the shutdown: the clients from the last to the first, then the
listening sockets. -/
def closing (t : Connections) : List Event :=
  t.entries.reverse.flatMap (fun e => e.client.clientClear.2) ++ t.listeners.flatMap stopListening

/-- The calls before `exit(1)`. -/
def aborting (t : Connections) : List Event :=
  (t.listeners.take 1).flatMap stopListening ++
    t.entries.flatMap (fun e => e.client.clientClear.2) ++
    (t.listeners.drop 1).flatMap stopListening

section
variable (t : Connections) (cfg : Config) (p : PollResult) (a : Attempt) (v : Serving)

@[simp] theorem report_db : (t.report cfg p).db = t.db := rfl

@[simp] theorem report_log : (t.report cfg p).log = t.log := rfl

@[simp] theorem length_report : (t.report cfg p).entries.length = t.entries.length := by
  cases p <;> simp [report, reported]

@[simp] theorem connect_listeners : (t.connect a).listeners = t.listeners := by
  unfold connect
  split_ifs <;> rfl

@[simp] theorem connect_serial : (t.connect a).serial = t.serial + 1 := by
  unfold connect
  split_ifs <;> rfl

@[simp] theorem connect_db : (t.connect a).db = t.db := by
  unfold connect
  split_ifs <;> rfl

theorem length_connect :
    (t.connect a).entries.length = t.entries.length + if a.succeeds then 1 else 0 := by
  unfold connect
  split_ifs <;> simp

end
end Connections

/-! ### Representation -/

/-- The vectors and the other variables of the loop are those of the connections. -/
structure Represents (cfg : Config) (s : LoopState) (t : Connections) : Prop where
  listeners_eq : t.listeners = s.listening cfg
  shows : ∃ ls, s.Shows cfg ls t.entries
  db_eq : t.db = s.db
  serial_eq : t.serial = s.serial
  log_eq : t.log = s.log

namespace Represents

variable {cfg : Config} {s : LoopState} {t : Connections}

theorem length_clients (h : Represents cfg s t) : s.clients.length = t.entries.length := by
  obtain ⟨ls, hs⟩ := h.shows
  rw [hs.clients_eq, List.length_map]

theorem length_fds (h : Represents cfg s t) :
    s.fds.length = cfg.listeners + s.clients.length := by
  obtain ⟨ls, hs⟩ := h.shows
  rw [hs.fds_eq, hs.clients_eq, List.length_append, hs.length_listeners, List.length_map,
    List.length_map]

theorem pfd_eq (h : Represents cfg s t) {i : ℕ} (hi : i < t.entries.length) :
    s.pfd cfg i = t.entries[i].pfd := by
  obtain ⟨ls, hs⟩ := h.shows
  rw [LoopState.pfd, hs.fds_eq, ← hs.length_listeners, List.getD_append_right _ _ _ _ (by omega)]
  simp [hi]

theorem client_eq (h : Represents cfg s t) {i : ℕ} (hi : i < t.entries.length) :
    s.client i = t.entries[i].client := by
  obtain ⟨ls, hs⟩ := h.shows
  rw [LoopState.client, hs.clients_eq]
  simp [hi]

theorem client_mem (h : Represents cfg s t) {i : ℕ} (hi : i < t.entries.length) :
    s.client i ∈ s.clients := by
  obtain ⟨ls, hs⟩ := h.shows
  rw [h.client_eq hi, hs.clients_eq]
  exact List.mem_map_of_mem (List.getElem_mem hi)

/-- `poll` reports events for the entries. -/
theorem polled (h : Represents cfg s t) (r : Round) :
    Represents cfg (s.polled r) (t.report cfg r.poll) := by
  obtain ⟨ls, hs⟩ := h.shows
  refine ⟨h.listeners_eq, ?_, h.db_eq, h.serial_eq, h.log_eq⟩
  rw [LoopState.polled]
  cases r.poll with
  | failed errno => exact ⟨ls, hs⟩
  | ready revents =>
    refine ⟨ls.mapIdx fun i pfd =>
      { pfd with revents := if pfd.fd < 0 then 0 else revents i }, ?_, ?_, ?_⟩
    · refine Eq.trans (List.ext_getElem? fun i => ?_) hs.listeners_eq
      simp [Function.comp_def]
    · have hopen (e : Entry) (he : e ∈ t.entries) : ¬ e.pfd.fd < 0 := by
        simpa [Entry.isOpen] using t.opened e he
      simp only [poll, hs.fds_eq, List.mapIdx_append]
      congr 1
      refine List.ext_getElem (by simp [Connections.report, Connections.reported]) fun i h₁ h₂ => ?_
      have hi : i < t.entries.length := by simpa using h₁
      have := hopen t.entries[i] (List.getElem_mem hi)
      simp [Connections.report, Connections.reported, Entry.setRevents, hs.length_listeners,
        Nat.add_comm i, this]
    · refine hs.clients_eq.trans (List.ext_getElem? fun i => ?_)
      simp [Connections.report, Connections.reported, Function.comp_def]

/-! ### The accept phase -/

/-- Resetting the events of a listener changes nothing the connections show. -/
theorem resetRevents (h : Represents cfg s t) {i : ℕ} (hi : i < cfg.listeners) :
    Represents cfg (s.resetRevents i) t := by
  obtain ⟨ls, hs⟩ := h.shows
  refine ⟨h.listeners_eq, ⟨ls.modify i fun pfd => { pfd with revents := 0 }, ?_, ?_, ?_⟩,
    h.db_eq, h.serial_eq, h.log_eq⟩
  · refine Eq.trans (List.ext_getElem? fun j => ?_) hs.listeners_eq
    rcases eq_or_ne i j with rfl | hij
    · simp [Function.comp_def]
    · simp [List.getElem?_modify_ne, hij]
  · have hi := hs.length_listeners ▸ hi
    simp only [LoopState.resetRevents, hs.fds_eq]
    refine List.ext_getElem? fun j => ?_
    grind
  · exact hs.clients_eq

theorem record (h : Represents cfg s t) {t' : Connections} (events : List Event)
    (hl : t'.listeners = t.listeners) (he : t'.entries = t.entries) (hd : t'.db = t.db)
    (hser : t'.serial = t.serial) (hlog : t'.log = t.log ++ events) :
    Represents cfg (s.record events) t' := by
  obtain ⟨ls, hs⟩ := h.shows
  refine ⟨hl.trans h.listeners_eq, ⟨ls, hs.listeners_eq, he ▸ hs.fds_eq, he ▸ hs.clients_eq⟩,
    hd.trans h.db_eq, hser.trans h.serial_eq, ?_⟩
  rw [hlog, h.log_eq, LoopState.record]

/-- `clientAccept` takes a serial number and makes its calls. -/
theorem refuse (h : Represents cfg s t) (a : Attempt) :
    Represents cfg ({ s with serial := s.serial + 1 }.record (a.events s.serial)) (t.refuse a) := by
  obtain ⟨ls, hs⟩ := h.shows
  refine ⟨h.listeners_eq, ⟨ls, hs.listeners_eq, hs.fds_eq, hs.clients_eq⟩, h.db_eq,
    congrArg (· + 1) h.serial_eq, ?_⟩
  simp only [LoopState.record, Connections.refuse, h.log_eq, h.serial_eq]

/-- The vectors grow by the two halves of a new entry. -/
theorem push (h : Represents cfg s t) {t' : Connections} (e : Entry)
    (hl : t'.listeners = t.listeners) (he : t'.entries = t.entries ++ [e]) (hd : t'.db = t.db)
    (hser : t'.serial = t.serial) (hlog : t'.log = t.log) :
    Represents cfg { s with fds := s.fds ++ [e.pfd], clients := s.clients ++ [e.client] } t' := by
  obtain ⟨ls, hs⟩ := h.shows
  refine ⟨hl.trans h.listeners_eq, ⟨ls, hs.listeners_eq, ?_, ?_⟩, hd.trans h.db_eq,
    hser.trans h.serial_eq, hlog.trans h.log_eq⟩
  · simp [he, hs.fds_eq]
  · simp [he, hs.clients_eq]

/-- An accept branch admits or refuses its connection, or leaves its calls behind. -/
theorem acceptClient (h : Represents cfg s t) (a : Attempt) (hheld : a.held = t.entries.length)
    {l f : ℕ} (hl : l < cfg.listeners) (hf : f < cfg.listeners) :
    (¬ a.refused cfg ∧ ∃ s', s.acceptClient cfg a.ssl l f a.calls =
        .go s' (if a.succeeds then a.calls.fd else 0) ∧ Represents cfg s' (t.connect a)) ∨
    (a.refused cfg ∧ ∃ s', s.acceptClient cfg a.ssl l f a.calls = .leave s' ∧
      Represents cfg s' (t.refuse a)) := by
  have hcall : (Client.new a.calls.memory).clientAccept s.serial a.ssl a.calls =
      ((a.accept s.serial).1, a.client s.serial, a.events s.serial) := rfl
  have hr := h.refuse a
  simp only [LoopState.acceptClient, hcall, Attempt.accept_code]
  by_cases ha : a.succeeds
  · have hlimit : a.refused cfg ↔ cfg.metricMaxConnections < s.clients.length := by
      rw [Attempt.refused, hheld, h.length_clients, and_iff_right ha]
    rw [if_neg (not_not.mpr ha), if_pos ha]
    by_cases hmany : cfg.metricMaxConnections < s.clients.length
    · exact .inr ⟨hlimit.mpr hmany, _, if_pos hmany, hr⟩
    · have hfd : (a.client s.serial).clientGetSockfd = a.calls.fd := by
        rw [Client.clientGetSockfd, a.client_sockfd]
      have hpush : Represents cfg _ (t.connect a) := hr.push (a.entry s.serial)
        (by simp [Connections.refuse])
        (by simp [Connections.connect, Connections.refuse, ha, h.serial_eq])
        (by simp [Connections.connect, Connections.refuse, ha]) (by simp [Connections.refuse])
        (by simp [Connections.connect, Connections.refuse, ha])
      refine .inl ⟨fun h => hmany (hlimit.mp h), _, (if_neg hmany).trans ?_, hpush.resetRevents hl⟩
      simp only [hfd, Attempt.entry]
  · have hclear : Represents cfg _ (t.connect a) :=
      (hr.resetRevents hf).record (a.client s.serial).clientClear.2
        (by simp [Connections.refuse]) (by simp [Connections.connect, Connections.refuse, ha])
        (by simp [Connections.connect, Connections.refuse, ha]) (by simp [Connections.refuse])
        (by simp [Connections.connect, Connections.refuse, ha, Attempt.failedEvents, h.serial_eq])
    refine .inl ⟨fun h => ha h.1, _, ?_, hclear⟩
    rw [if_pos ha, if_neg ha]

end Represents

end MetricServer
