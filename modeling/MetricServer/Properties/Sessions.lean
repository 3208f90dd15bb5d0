import MetricServer.Handler.Numbers
import MetricServer.Properties.Pipelining

/-! The conversation of the server with its clients. Over a whole run the reads and writes
of the log are those of its exchanges, one after another: a client that is read is sent
its response before any other client is read. So each connection carries the requests it
brought and the responses to these, and nothing else, as long as no number is handed out
while the table holds it. -/

namespace MetricServer

open Base Http LoopState

/-- A client that is read, the values that are published then, and the results of the calls. -/
structure Exchange where
  client : Client
  db : MetricDatabase
  io : ClientIO

namespace Exchange

def channel (x : Exchange) : Channel := x.client.channel

/-- The bytes that come in. -/
def request (x : Exchange) : Bytes := x.client.receivedBytes x.io.errno x.io.reads

/-- The bytes that go out: as much of the response as the calls take, if the request is complete. -/
def reply (x : Exchange) : Bytes :=
  if x.client.answered x.io then
    (httpErrorCheck (x.client.request x.io) x.db).take (Client.taken x.io.sends)
  else []

/-- The reads, and then the writes. -/
def calls (x : Exchange) : List Event :=
  x.client.receiveCalls x.io.errno x.io.reads ++ x.client.answer x.db x.io

theorem calls_transfers (x : Exchange) : ∀ e ∈ x.calls, e.isTransfer x.channel := by
  intro e he
  obtain he | he := List.mem_append.mp he
  · exact x.client.receiveCalls_transfers _ _ e he
  · obtain ⟨data, n, rfl, -⟩ := x.client.answer_send _ _ e he
    rfl

theorem received_calls (x : Exchange) : received x.channel x.calls = x.request := by
  have hsent : received x.channel (x.client.answer x.db x.io) = [] := by
    refine List.flatMap_eq_nil_iff.mpr fun ev hev => ?_
    obtain ⟨data, n, rfl, -⟩ := x.client.answer_send _ _ ev hev
    rfl
  rw [calls, received_append, hsent, List.append_nil]
  rfl

theorem delivered_calls (x : Exchange) : delivered x.channel x.calls = x.reply := by
  have hread : delivered x.channel (x.client.receiveCalls x.io.errno x.io.reads) = [] := by
    refine List.flatMap_eq_nil_iff.mpr fun ev hev => ?_
    obtain ⟨off, got, -, rfl⟩ := x.client.receiveCalls_recv _ _ ev hev
    rfl
  rw [calls, delivered_append, hread, List.nil_append, Client.answer, reply]
  split_ifs
  · rw [Client.sendCalls, channel, Client.delivered_sendLoop, List.drop_zero]
  · rfl

end Exchange

/-! ### The exchanges of a run -/

/-- The exchanges of an iteration, in the order of the table. -/
def LoopState.exchanges (cfg : Config) (s : LoopState) (r : Round) : List Exchange :=
  ((List.range s.clients.length).filter (s.isRead cfg r ·)).map fun i =>
    ⟨s.client i, s.db.update r.snapshot, r.io i⟩

/-- The exchanges of a run. -/
def conversation (cfg : Config) : LoopState → List Round → List Exchange
  | _, [] => []
  | s, r :: rounds =>
    match loopStep cfg s r with
    | .next s' => s.exchanges cfg r ++ conversation cfg s' rounds
    | .done _ => s.exchanges cfg r

theorem LoopState.exchanges_of_not_serves {cfg : Config} {s : LoopState} {r : Round}
    (h : ¬ s.serves cfg r) : s.exchanges cfg r = [] := by
  rw [exchanges, List.filter_eq_nil_iff.mpr fun i _ hread => h (of_decide_eq_true hread).1]
  rfl

/-! ### Reads and writes -/

/-- The event is a read or a write. -/
def Event.transfers : Event → Bool
  | .recv _ _ _ _ => true
  | .send _ _ _ => true
  | _ => false

/-- The reads and writes of a log. -/
def transfers (log : List Event) : List Event := log.filter Event.transfers

@[simp] theorem transfers_append {log log' : List Event} :
    transfers (log ++ log') = transfers log ++ transfers log' := List.filter_append ..

theorem Event.transfers_iff {e : Event} : e.transfers ↔ ∃ ch, e.isTransfer ch := by
  cases e <;> simp [Event.transfers]

theorem Silent.transfers_eq {log : List Event} (h : Silent log) : transfers log = [] := by
  refine List.filter_eq_nil_iff.mpr fun e he htransfers => ?_
  obtain ⟨ch, hch⟩ := Event.transfers_iff.mp htransfers
  exact h e he ch hch

theorem Exchange.transfers_calls (x : Exchange) : transfers x.calls = x.calls :=
  List.filter_eq_self.mpr fun e he => Event.transfers_iff.mpr ⟨_, x.calls_transfers e he⟩

/-- What comes in or goes out is told by the reads and writes. -/
theorem flatMap_transfers {g : Event → Bytes} (hg : ∀ e : Event, ¬ e.transfers → g e = [])
    (log : List Event) : (transfers log).flatMap g = log.flatMap g := by
  induction log with
  | nil => rfl
  | cons e log ih =>
    rw [transfers, List.filter_cons, List.flatMap_cons]
    split_ifs with he
    · rw [List.flatMap_cons, ← ih]
      rfl
    · rw [hg e he, List.nil_append, ← ih]
      rfl

theorem received_transfers (ch : Channel) (log : List Event) :
    received ch (transfers log) = received ch log :=
  flatMap_transfers
    (fun _ he => Event.received_eq_nil fun h => he (Event.transfers_iff.mpr ⟨ch, h⟩)) log

theorem delivered_transfers (ch : Channel) (log : List Event) :
    delivered ch (transfers log) = delivered ch log :=
  flatMap_transfers
    (fun _ he => Event.delivered_eq_nil fun h => he (Event.transfers_iff.mpr ⟨ch, h⟩)) log

section
variable {ch : Channel} (xs : List Exchange)

/-- The exchanges with one client carry what goes through its channel. -/
theorem received_exchanges :
    received ch (xs.flatMap Exchange.calls) =
      (xs.filter (·.channel = ch)).flatMap Exchange.request := by
  induction xs with
  | nil => rfl
  | cons x xs ih =>
    rw [List.flatMap_cons, received_append, ih, List.filter_cons]
    split_ifs with hx
    · rw [List.flatMap_cons, ← x.received_calls, of_decide_eq_true hx]
    · rw [received_eq_nil fun e he hch => hx (decide_eq_true (channel_unique
        (x.calls_transfers e he) hch)), List.nil_append]

theorem delivered_exchanges :
    delivered ch (xs.flatMap Exchange.calls) =
      (xs.filter (·.channel = ch)).flatMap Exchange.reply := by
  induction xs with
  | nil => rfl
  | cons x xs ih =>
    rw [List.flatMap_cons, delivered_append, ih, List.filter_cons]
    split_ifs with hx
    · rw [List.flatMap_cons, ← x.delivered_calls, of_decide_eq_true hx]
    · rw [delivered_eq_nil fun e he hch => hx (decide_eq_true (channel_unique
        (x.calls_transfers e he) hch)), List.nil_append]

end

/-! ### One iteration -/

/-- An indexed concatenation over a list is one over its positions. -/
theorem flatten_mapIdx {α β : Type*} {f : ℕ → α → List β} {g : ℕ → List β} {l : List α}
    (h : ∀ i, ∀ hi : i < l.length, f i l[i] = g i) :
    (l.mapIdx f).flatten = (List.range l.length).flatMap g := by
  refine congrArg List.flatten (List.ext_getElem (by simp) fun i h₁ h₂ => ?_)
  rw [List.length_mapIdx] at h₁
  simp [h i h₁]

/-- A concatenation over the positions that pass a test, none of which is beyond `n`. -/
theorem flatMap_range_filter {β : Type*} {p : ℕ → Bool} {g : ℕ → List β} {n m : ℕ} (hle : n ≤ m)
    (h : ∀ i, n ≤ i → p i = false) :
    (List.range m).flatMap (fun i => if p i then g i else []) =
      ((List.range n).filter p).flatMap g := by
  obtain ⟨k, rfl⟩ := Nat.exists_eq_add_of_le hle
  have hrest : ((List.range k).map (n + ·)).flatMap (fun i => if p i then g i else []) = [] := by
    refine List.flatMap_eq_nil_iff.mpr fun i hi => ?_
    obtain ⟨j, -, rfl⟩ := List.mem_map.mp hi
    rw [h (n + j) (Nat.le_add_right n j)]
    rfl
  rw [List.range_add, List.flatMap_append, hrest, List.append_nil]
  induction List.range n with
  | nil => rfl
  | cons i is ih =>
    rw [List.flatMap_cons, ih, List.filter_cons]
    split_ifs <;> simp

theorem Entry.transfers_served (cfg : Config) (v : Serving) (i : ℕ) (e : Entry) :
    transfers (e.served cfg v i).events =
      if 0 < e.pfd.fd ∧ e.pfd.revents = POLLIN then (⟨e.client, v.db, v.io i⟩ : Exchange).calls
      else [] := by
  split_ifs with h
  · obtain ⟨rest, hevents, hrest⟩ := handleRequest_transfers v.db (v.io i) e.pfd e.client
    rw [served_of_isReadable cfg v i h, hevents, transfers_append, hrest.transfers_eq,
      List.append_nil]
    exact Exchange.transfers_calls ⟨e.client, v.db, v.io i⟩
  · exact (silent_served h).transfers_eq

section
variable {cfg : Config} {s s₁ : LoopState} {t t₁ : Connections} {r : Round}

/-- A round of service makes the exchanges of the iteration. -/
theorem Represents.transfers_servedEvents (h : Represents cfg s t) (hserves : s.serves cfg r)
    {as : List Attempt} (hadm : Trace (Admission cfg) (t.report cfg r.poll) as t₁) :
    transfers (t₁.servedEvents cfg (s.serving cfg r)) =
      (s.exchanges cfg r).flatMap Exchange.calls := by
  let exchange (i : ℕ) : Exchange := ⟨s.client i, s.db.update r.snapshot, r.io i⟩
  let read (i : ℕ) : Bool := i < s.clients.length ∧ s.isRead cfg r i
  have hlen : s.clients.length ≤ t₁.entries.length := by
    obtain ⟨new, hnew, -⟩ := Admission.entries_eq hadm
    rw [hnew, List.length_append, Connections.length_report, h.length_clients]
    exact Nat.le_add_right _ _
  have hentry (i : ℕ) (hi : i < t₁.entries.length) :
      transfers (t₁.entries[i].served cfg (s.serving cfg r) i).events =
        if read i then (exchange i).calls else [] := by
    rw [Entry.transfers_served]
    obtain ⟨hlt, hpfd, hclient⟩ | ⟨hge, hzero⟩ := h.entry_cases hadm hi
    · have hfd : ((s.polled r).pfd cfg i).fd = (s.client i)._sockfd.num := by
        rw [← hpfd, t₁.entries[i].same, hclient]
      have hread : (0 < t₁.entries[i].pfd.fd ∧ t₁.entries[i].pfd.revents = POLLIN) ↔ read i := by
        simp only [read, LoopState.isRead, decide_eq_true_eq, hlt, hserves, true_and, hpfd, hfd,
          LoopState.revents]
      simp only [hread, hclient]
      rfl
    · have hread : ¬ read i := by simp [read, not_lt.mpr hge]
      have hzero : ¬ t₁.entries[i].pfd.revents = POLLIN := by
        rw [hzero]
        decide
      rw [if_neg fun hin => hzero hin.2, if_neg hread]
  calc transfers (t₁.servedEvents cfg (s.serving cfg r))
      = (t₁.entries.mapIdx fun i e =>
          transfers (e.served cfg (s.serving cfg r) i).events).flatten := by
        rw [transfers, Connections.servedEvents, List.filter_flatten]
        exact congrArg List.flatten (List.ext_getElem (by simp) fun i h₁ h₂ => by simp [transfers])
    _ = (List.range t₁.entries.length).flatMap fun i =>
          if read i then (exchange i).calls else [] := flatten_mapIdx hentry
    _ = ((List.range s.clients.length).filter read).flatMap fun i => (exchange i).calls :=
        flatMap_range_filter hlen fun i hi => by simp [read, not_lt.mpr hi]
    _ = (s.exchanges cfg r).flatMap Exchange.calls := by
        rw [LoopState.exchanges, List.flatMap_map]
        congr 1
        refine List.filter_congr fun i hi => ?_
        simp [read, List.mem_range.mp hi]

/-- The reads and writes of an iteration, whether or not it is the last one. -/
theorem Represents.transfers_loopStep (h : Represents cfg s t) (r : Round) :
    transfers (logOf (loopStep cfg s r)) =
      transfers s.log ++ (s.exchanges cfg r).flatMap Exchange.calls := by
  have hit := loopStep_iterates h r
  have hquiet {log : List Event} (hlog : ∃ calls, log = s.log ++ calls ∧ Silent calls)
      (hserves : ¬ s.serves cfg r) :
      transfers log = transfers s.log ++ (s.exchanges cfg r).flatMap Exchange.calls := by
    obtain ⟨calls, rfl, hcalls⟩ := hlog
    rw [LoopState.exchanges_of_not_serves hserves, transfers_append, hcalls.transfers_eq]
    rfl
  generalize loopStep cfg s r = out at hit
  cases hit with
  | head hflag =>
    refine hquiet ⟨t.closing, ?_, t.silent_closing⟩ fun hs => hs.1.1 hflag
    rw [← h.log_eq]
    exact h.shutdown.2.2
  | polled s₁ _ hflag hs =>
    refine hquiet ⟨_, ?_, (t.report cfg r.poll).silent_closing⟩ fun hs => hs.1.2.1 hflag
    rw [← h.log_eq]
    exact hs.shutdown.2.2
  | idle s₁ _ _ hcount hs =>
    refine hquiet ⟨[], ?_, silent_nil⟩ fun hs => hcount hs.1.2.2.1
    rw [logOf, ← hs.log_eq, Connections.report_log, h.log_eq, List.append_nil]
  | trouble s₁ _ hacc _ hs =>
    refine hquiet ⟨_, ?_, (t.report cfg r.poll).silent_aborting⟩ fun hs => hacc hs.1
    rw [← h.log_eq]
    exact hs.abort
  | refused before a s₁ t₁ _ has hr hadm _ hs =>
    obtain ⟨calls, hlog, hsilent, -⟩ := Admission.log_eq hadm
    have hevents : Silent (a.events t₁.serial) :=
      Attempt.silent_of_concerns fun _ => Attempt.concerns_of_mem_events
    refine hquiet ⟨calls ++ a.events t₁.serial ++ (t₁.refuse a).closing, ?_,
      (hsilent.append hevents).append (Connections.silent_closing _)⟩
      fun hs => not_forall_of_refused has hr hs.2
    have hall : (s₁.shutdown cfg).log = (t₁.refuse a).log ++ (t₁.refuse a).closing :=
      hs.shutdown.2.2
    rw [logOf, Final.log, hall, Connections.refuse, hlog, Connections.report_log, h.log_eq]
    simp only [List.append_assoc]
  | served s₁ t₁ hserves hadm hs =>
    obtain ⟨calls, hlog, hsilent, -⟩ := Admission.log_eq hadm
    have hall : s₁.log = s.log ++ calls ++ t₁.servedEvents cfg (s.serving cfg r) := by
      rw [← hs.log_eq, Connections.serve, hlog, Connections.report_log, h.log_eq]
      rfl
    rw [logOf, hall, transfers_append, transfers_append, hsilent.transfers_eq, List.append_nil,
      h.transfers_servedEvents hserves hadm]

end

/-! ### A run -/

/-- From a head on, to the next head or to the end of the function. -/
theorem Represents.transfers_runs {cfg : Config} {s : LoopState} {t : Connections}
    (h : Represents cfg s t) (rounds : List Round) :
    transfers (logOf (runs (loopStep cfg) s rounds)) =
      transfers s.log ++ (conversation cfg s rounds).flatMap Exchange.calls := by
  induction rounds generalizing s t with
  | nil => exact (List.append_nil _).symm
  | cons r rounds ih =>
    have hstep := h.transfers_loopStep r
    rw [runs, conversation]
    cases hout : loopStep cfg s r with
    | next s' =>
      obtain ⟨t', ht'⟩ := h.next hout
      rw [hout] at hstep
      simp only [ih ht', List.flatMap_append, ← List.append_assoc]
      rw [← hstep]
      rfl
    | done f =>
      rw [hout] at hstep
      exact hstep

section
variable {cfg : Config} {u : StartUp} {s₀ : LoopState} (hs : startUp cfg u = .next s₀)
  (rounds : List Round)
include hs

theorem transfers_runs_startUp :
    transfers (logOf (runs (loopStep cfg) s₀ rounds)) =
      (conversation cfg s₀ rounds).flatMap Exchange.calls := by
  obtain ⟨t, ht, -, -, -, hlog⟩ := exists_represents hs
  have hopening : Silent s₀.log := by
    rw [← ht.log_eq, hlog]
    intro e he ch
    obtain ⟨d, -, rfl⟩ := List.mem_map.mp he
    simp
  have hall := ht.transfers_runs rounds
  rwa [hopening.transfers_eq, List.nil_append] at hall

theorem delivered_runs_startUp (ch : Channel) :
    delivered ch (logOf (runs (loopStep cfg) s₀ rounds)) =
      ((conversation cfg s₀ rounds).filter (·.channel = ch)).flatMap Exchange.reply := by
  rw [← delivered_transfers, transfers_runs_startUp hs rounds, delivered_exchanges]

end

/-- As long as no number is handed out while the table holds it, the reads and writes of a run reach
the connections of its exchanges, one exchange after another; and what comes in and goes out through
a channel are the requests and replies of the exchanges with its client. -/
theorem conversed {cfg : Config} {u : StartUp} {s₀ : LoopState} {rounds : List Round}
    (hs : startUp cfg u = .next s₀) (hu : Unshared cfg u rounds) :
    transfers (resolved (logOf (runs (loopStep cfg) s₀ rounds))) =
        (conversation cfg s₀ rounds).flatMap Exchange.calls ∧
      ∀ ch, received ch (resolved (logOf (runs (loopStep cfg) s₀ rounds))) =
          ((conversation cfg s₀ rounds).filter (·.channel = ch)).flatMap Exchange.request ∧
        delivered ch (resolved (logOf (runs (loopStep cfg) s₀ rounds))) =
          ((conversation cfg s₀ rounds).filter (·.channel = ch)).flatMap Exchange.reply := by
  have hall := transfers_runs_startUp hs rounds
  rw [resolved_runs hs hu]
  refine ⟨hall, fun ch => ⟨?_, delivered_runs_startUp hs rounds ch⟩⟩
  rw [← received_transfers, hall, received_exchanges]

/-- A client that connects, and then asks for the metrics. -/
def scrapingRounds : List Round :=
  [.sample [POLLIN] 5 6 "", .sample [0, POLLIN] 5 6 "GET /metrics HTTP/1.1\r\n\r\n"]

theorem conversed_sample : ∃ s₀, startUp (.sample false) .sample = .next s₀ ∧
    Unshared (.sample false) .sample scrapingRounds ∧
    transfers (resolved (logOf (runs (loopStep (.sample false)) s₀ scrapingRounds))) =
        (conversation (.sample false) s₀ scrapingRounds).flatMap Exchange.calls ∧
      ∀ ch, received ch (resolved (logOf (runs (loopStep (.sample false)) s₀ scrapingRounds))) =
          ((conversation (.sample false) s₀ scrapingRounds).filter (·.channel = ch)).flatMap
            Exchange.request ∧
        delivered ch (resolved (logOf (runs (loopStep (.sample false)) s₀ scrapingRounds))) =
          ((conversation (.sample false) s₀ scrapingRounds).filter (·.channel = ch)).flatMap
            Exchange.reply := by
  obtain ⟨s₀, hs₀, -⟩ := Outcome.exists_of_goes
    (o := startUp (.sample false) .sample) (p := fun _ => true) (by decide)
  have hu : Unshared (.sample false) .sample scrapingRounds := by decide
  exact ⟨s₀, hs₀, hu, conversed hs₀ hu⟩

end MetricServer
