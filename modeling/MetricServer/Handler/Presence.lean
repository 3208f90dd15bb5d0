import MetricServer.Handler.Transfers

/-! What becomes of one client in an iteration. It stays when its own events and its
own exchange keep it and the test for killed connections does not take it for one
that went; the rounds of service of the other clients do not matter. -/

namespace MetricServer

open Base Http LoopState

/-! ### One entry -/

/-- The exchange with a client that is read runs through, and the client asks for the
connection to be kept. -/
def Client.keepsAlive (c : Client) (db : MetricDatabase) (io : ClientIO) : Prop :=
  let received := c.clientReceive io.errno io.reads
  let parsed := (HttpRequest.new io.memory).parse (cstr received.2.1.clientGetRecvMsg.1)
  let sent := received.2.1.clientSend (httpErrorCheck parsed.2 db) io.sends
  ¬ received.1.code < 0 ∧ ¬ parsed.1.code < 0 ∧ ¬ sent.1.code < 0 ∧
    parsed.2.getConnection = ascii "keep-alive"

instance (c : Client) (db : MetricDatabase) (io : ClientIO) : Decidable (c.keepsAlive db io) :=
  inferInstanceAs (Decidable (_ ∧ _))

/-- The decision to keep a connection rests on what was received. -/
theorem Client.keepsAlive_iff (c : Client) (db : MetricDatabase) (io : ClientIO) :
    c.keepsAlive db io ↔ c.answered io ∧
      ¬ (c.clientSend (httpErrorCheck (c.request io) db) io.sends).1.code < 0 ∧
      (c.request io).getConnection = ascii "keep-alive" := by
  unfold keepsAlive answered
  have hparse := HttpRequest.parse_fails_iff (HttpRequest.new io.memory)
    (cstr (c.receivedBytes io.errno io.reads))
  obtain ⟨hf, buffer, h⟩ | ⟨hf, hnil, buffer, h⟩ | ⟨hf, -, buffer, hbuffer, h⟩ :=
    c.clientReceive_cases io.errno io.reads
  · simp [h, hf]
  · rw [h, hnil]
    exact iff_of_false (by simp) fun hcome => absurd hcome.1.2 (by decide)
  · have hbytes : cstr (c.withBuffer buffer).clientGetRecvMsg.1 =
        cstr (c.receivedBytes io.errno io.reads) := hbuffer
    simp only [h, hbytes]
    rw [← request, withBuffer_clientSend, hparse, not_not, and_iff_right (by decide),
      and_iff_right (show ¬ readsFail 0 io.errno io.reads from hf)]

theorem handleRequest_open_iff (db : MetricDatabase) (io : ClientIO) {pfd : PollFd} (c : Client)
    (hpos : 0 < pfd.fd) : 0 ≤ (handleRequest db io pfd c).pfd.fd ↔ c.keepsAlive db io := by
  have hdrop (c : Client) (events : BitVec 16) (log : List Event) :
      ¬ 0 ≤ (dropClient c events log).pfd.fd := by simp [dropClient]
  unfold handleRequest respond Client.keepsAlive
  simp only
  split_ifs with hreceive hparse hsend hkeep
  · exact iff_of_false (hdrop _ _ _) fun h => h.1 hreceive
  · exact iff_of_false (hdrop _ _ _) fun h => h.2.1 hparse
  · exact iff_of_false (hdrop _ _ _) fun h => h.2.2.1 hsend
  · exact iff_of_true hpos.le ⟨hreceive, hparse, hsend, hkeep⟩
  · exact iff_of_false (hdrop _ _ _) fun h => hkeep h.2.2.2

/-- The client reports nothing, and its number is not the one that was accepted: to the
test for killed connections it is one of them. -/
def mistaken (cfg : Config) (v : Serving) (revents : BitVec 16) (c : Client) : Prop :=
  0 < c._sockfd.num ∧ revents = 0 ∧
    ((c._sockfd.num ≠ v.newfd ∧ c.clientGetUseSSL ≤ 0) ∨
      (cfg.sslCtx ∧ c._sockfd.num ≠ v.newfdHttps ∧ 0 < c.clientGetUseSSL))

/-- Neither the events of the client nor its exchange end the connection. -/
def keeps (db : MetricDatabase) (io : ClientIO) (revents : BitVec 16) (c : Client) : Prop :=
  0 < c._sockfd.num → revents ≠ POLLHUP ∧ (revents = POLLIN → c.keepsAlive db io)

section
variable (cfg : Config) (v : Serving) (db : MetricDatabase) (io : ClientIO) (revents : BitVec 16)
  (c : Client)

instance : Decidable (mistaken cfg v revents c) := inferInstanceAs (Decidable (_ ∧ _))

instance : Decidable (keeps db io revents c) := inferInstanceAs (Decidable (_ → _))

end

namespace Entry

variable {cfg : Config} {v : Serving} {i : ℕ} {e : Entry}

theorem killed_iff (cfg : Config) (v : Serving) (hpos : 0 < e.pfd.fd) :
    killed cfg v.newfd v.newfdHttps e.pfd e.client ↔
      e.pfd.revents = POLLHUP ∨ mistaken cfg v e.pfd.revents e.client := by
  unfold killed mistaken
  rw [← e.same]
  tauto

theorem isOpen_serve_iff (cfg : Config) (v : Serving) (i : ℕ) (hopen : e.isOpen) :
    (e.serve cfg v i).isOpen ↔
      ¬ mistaken cfg v e.pfd.revents e.client ∧ keeps v.db (v.io i) e.pfd.revents e.client := by
  rw [isOpen_iff] at hopen ⊢
  show 0 ≤ (serveClient cfg v.newfd v.newfdHttps v.db (v.io i) e.pfd e.client).pfd.fd ↔ _
  by_cases hpos : 0 < e.pfd.fd
  · have hkilled := e.killed_iff cfg v hpos
    rw [serveClient]
    simp only [hpos, true_and, keeps, ← e.same, forall_const]
    split_ifs with hread hkill
    · have hzero : ¬ POLLIN = 0 := by decide
      have hhup : POLLIN ≠ POLLHUP := by decide
      rw [handleRequest_open_iff v.db (v.io i) e.client hpos, mistaken, hread]
      simp only [hzero, hhup, false_and, and_false, not_false_iff, true_and, ne_eq, forall_const]
    · refine iff_of_false (by simp [dropClient]) fun h => ?_
      exact (hkilled.mp hkill).elim h.2.1 h.1
    · obtain ⟨hhup, hmistaken⟩ := not_or.mp (mt hkilled.mpr hkill)
      exact iff_of_true hpos.le ⟨hmistaken, hhup, fun h => absurd h hread⟩
  · rw [serveClient_of_not_pos _ _ _ _ _ _ hpos]
    rw [e.same] at hpos
    exact iff_of_true hopen ⟨fun h => hpos h.1, fun h => absurd h hpos⟩

end Entry

/-! ### One round of service -/

namespace Owned

variable {cfg : Config} {v : Serving} {t : Connections} {i : ℕ}

/-- The descriptor of an entry is in the table after a round of service exactly when the
entry was left open. -/
theorem mem_serve_iff (h : Owned t) (hi : i < t.entries.length) :
    t.entries[i].client._sockfd ∈ (t.serve cfg v).entries.map (·.client._sockfd) ↔
      (t.entries[i].serve cfg v i).isOpen := by
  constructor
  · intro hmem
    obtain ⟨e, he, hfd⟩ := List.mem_map.mp hmem
    obtain ⟨he, hopen⟩ := List.mem_filter.mp he
    obtain ⟨j, hj, rfl⟩ := List.mem_mapIdx.mp he
    have hserial := (Entry.serial_serve hopen).symm.trans (congrArg Descriptor.serial hfd)
    obtain rfl := h.index_eq hj hi hserial
    exact hopen
  · intro hopen
    obtain ⟨buffer, hc⟩ := Entry.client_of_isOpen hopen
    refine List.mem_map.mpr ⟨t.entries[i].serve cfg v i, List.mem_filter.mpr ⟨?_, hopen⟩, ?_⟩
    · exact List.mem_mapIdx.mpr ⟨i, hi, rfl⟩
    · rw [hc]
      rfl

/-- Its descriptor is closed exactly when it was not. -/
theorem close_mem_servedEvents_iff (h : Owned t) (hi : i < t.entries.length) :
    .close t.entries[i].client._sockfd ∈ t.servedEvents cfg v ↔
      ¬ (t.entries[i].serve cfg v i).isOpen := by
  constructor
  · intro hmem hopen
    obtain ⟨l, hl, hmem⟩ := List.mem_flatten.mp hmem
    obtain ⟨j, hj, rfl⟩ := List.mem_mapIdx.mp hl
    have hreleased := released_descriptor_iff.mpr hmem
    obtain ⟨hpos, hown⟩ := Entry.touched_served hreleased.touched
    obtain rfl := h.index_eq hi hj (h.serial_mem (List.getElem_mem hj) hown).1
    obtain ⟨hclosed, -⟩ | ⟨-, hnot⟩ := Entry.released_served cfg v i hpos
    · exact hclosed hopen
    · exact hnot _ hreleased
  · intro hclosed
    have hpos : 0 < t.entries[i].pfd.fd := by
      by_contra hpos
      refine hclosed ((Entry.isOpen_serve_iff cfg v i (t.opened _ (List.getElem_mem hi))).mpr ?_)
      rw [Entry.same] at hpos
      exact ⟨fun h => hpos h.1, fun h => absurd h hpos⟩
    obtain ⟨-, hall⟩ | ⟨hopen, -⟩ := Entry.released_served cfg v i hpos
    · have hclose := released_descriptor_iff.mp (hall _ (.inl rfl))
      exact List.mem_flatten.mpr ⟨_, List.mem_mapIdx.mpr ⟨i, hi, rfl⟩, hclose⟩
    · exact absurd hopen hclosed

/-- Its channel is read exactly when it was to be read. -/
theorem recv_mem_servedEvents_iff (h : Owned t) (hi : i < t.entries.length) :
    (∃ off len got, .recv t.entries[i].client.channel off len got ∈ t.servedEvents cfg v) ↔
      t.entries[i].isReadable := by
  constructor
  · rintro ⟨off, len, got, hmem⟩
    obtain ⟨j, hj, hread, hch, -⟩ := Owned.isTransfer_servedEvents hmem rfl
    obtain rfl := h.index_eq_of_channel hi hj hch
    exact hread
  · intro hread
    obtain ⟨off, len, got, hmem⟩ :=
      t.entries[i].client.exists_recv (v.io i).errno (v.io i).reads
    obtain ⟨rest, hevents, -⟩ :=
      handleRequest_transfers v.db (v.io i) t.entries[i].pfd t.entries[i].client
    refine ⟨off, len, got, List.mem_flatten.mpr ⟨_, List.mem_mapIdx.mpr ⟨i, hi, rfl⟩, ?_⟩⟩
    rw [Entry.served_of_isReadable cfg v i hread, hevents]
    simp [hmem]

end Owned

/-! ### One iteration -/

/-- The events that `poll` reports for the client at position `i`. -/
def LoopState.revents (cfg : Config) (s : LoopState) (r : Round) (i : ℕ) : BitVec 16 :=
  ((s.polled r).pfd cfg i).revents

/-- What a round of service does to the client of an entry, given the calls and the clients
after it. -/
structure Entry.Fate (cfg : Config) (v : Serving) (i : ℕ) (e : Entry) (calls : List Event)
    (clients : List Client) : Prop where
  present : e.client._sockfd ∈ clients.map (·._sockfd) ↔ (e.serve cfg v i).isOpen
  closed : .close e.client._sockfd ∈ calls ↔ ¬ (e.serve cfg v i).isOpen
  read : (∃ off len got, .recv e.client.channel off len got ∈ calls) ↔ e.isReadable
  delivered : delivered e.client.channel calls =
    delivered e.client.channel (e.served cfg v i).events

/-- A round of service is fate for every client of the head. -/
theorem Represents.fate {cfg : Config} {s s₁ : LoopState} {t t₁ : Connections} {r : Round} {i : ℕ}
    {as : List Attempt} {v : Serving} (h : Represents cfg s t) (ho : Owned t)
    (hadm : Trace (Admission cfg) (t.report cfg r.poll) as t₁)
    (hs : Represents cfg s₁ (t₁.serve cfg v)) (hi : i < s.clients.length) :
    ∃ (e : Entry) (calls : List Event), e.isOpen ∧ e.pfd = (s.polled r).pfd cfg i ∧
      e.client = s.client i ∧ s₁.log = s.log ++ calls ∧ e.Fate cfg v i calls s₁.clients := by
  have ho₁ : Owned t₁ := (ho.report r.poll).admissions hadm
  obtain ⟨new, hnew, -⟩ := Admission.entries_eq hadm
  obtain ⟨calls, hlog, hsilent, hfresh⟩ := Admission.log_eq hadm
  have hi₁ : i < t₁.entries.length := by
    rw [hnew, List.length_append, Connections.length_report, ← h.length_clients]
    omega
  obtain ⟨-, hpfd, hclient⟩ | ⟨hge, -⟩ := h.entry_cases hadm hi₁
  · have hi₀ : i < t.entries.length := h.length_clients ▸ hi
    have hold : t₁.entries[i].client._sockfd.serial < t.serial := by
      rw [hclient, h.client_eq hi₀]
      exact ho.given _ (List.mem_append_right _ (List.mem_map_of_mem (List.getElem_mem hi₀)))
    refine ⟨t₁.entries[i], calls ++ t₁.servedEvents cfg v, t₁.opened _ (List.getElem_mem hi₁), hpfd,
      hclient, ?_, ?_, ?_, ?_, ?_⟩
    · rw [← hs.log_eq, Connections.serve, hlog, Connections.report_log, h.log_eq, List.append_assoc]
      rfl
    · obtain ⟨ls, hshows⟩ := hs.shows
      rw [hshows.clients_eq, List.map_map]
      exact ho₁.mem_serve_iff hi₁
    · rw [List.mem_append, ho₁.close_mem_servedEvents_iff hi₁, or_iff_right]
      exact fun hmem => absurd (hfresh (.descriptor _) ⟨_, hmem, .inr rfl⟩) (not_le.mpr hold)
    · simp only [List.mem_append]
      rw [← ho₁.recv_mem_servedEvents_iff hi₁]
      refine exists₃_congr fun off len got => or_iff_right fun hmem => ?_
      exact hsilent _ hmem _ rfl
    · rw [delivered_append, delivered_eq_nil fun ev hev => hsilent ev hev _, List.nil_append,
        ho₁.delivered_servedEvents hi₁]
  · exact absurd hi (not_lt.mpr hge)

section
variable {cfg : Config} {u : StartUp} {rounds : List Round} {s : LoopState} {r : Round} {i : ℕ}

/-- The server goes on, the client at position `i` is in its table, and the iteration has
not closed its descriptor. -/
def StillOpen (cfg : Config) (s : LoopState) (r : Round) (i : ℕ) : Prop :=
  ∃ s' calls, loopStep cfg s r = .next s' ∧ s'.log = s.log ++ calls ∧
    (s.client i)._sockfd ∈ s'.clients.map (·._sockfd) ∧ .close (s.client i)._sockfd ∉ calls

/-- The server is not stopping, and `poll` does not fail. -/
def Undisturbed (r : Round) : Prop :=
  ¬ r.exitHead ∧ ¬ r.exitPolled ∧ ∃ revents, r.poll = .ready revents

namespace LoopState

/-- The others spare the client: when there is an event, no listening socket reports
trouble, no connection is refused, and the client is not taken for one that went. -/
def spares (cfg : Config) (s : LoopState) (r : Round) (i : ℕ) : Prop :=
  0 < (poll r.poll s.fds).1 →
    s.serves cfg r ∧ ¬ mistaken cfg (s.serving cfg r) (s.revents cfg r i) (s.client i)

/-- Neither the events of the client nor its exchange end the connection. -/
def remains (cfg : Config) (s : LoopState) (r : Round) (i : ℕ) : Prop :=
  keeps (s.db.update r.snapshot) (r.io i) (s.revents cfg r i) (s.client i)

instance : Decidable (s.spares cfg r i) := inferInstanceAs (Decidable (_ → _))

instance : Decidable (s.remains cfg r i) :=
  inferInstanceAs (Decidable (keeps _ _ _ _))

end LoopState

/-- A client with events makes the count positive. -/
theorem count_pos_of_revents {revents : ℕ → BitVec 16} (hready : r.poll = .ready revents)
    (hrevents : s.revents cfg r i ≠ 0) : 0 < (poll r.poll s.fds).1 := by
  simp only [LoopState.revents, LoopState.pfd, LoopState.polled] at hrevents
  have hlt : cfg.listeners + i < (poll r.poll s.fds).2.length := by
    by_contra hge
    rw [List.getD_eq_default _ _ (not_lt.mp hge)] at hrevents
    exact hrevents rfl
  rw [List.getD_eq_getElem _ _ hlt] at hrevents
  have hcount : 0 < (poll r.poll s.fds).2.countP (·.revents ≠ 0) := by
    exact List.countP_pos_iff.mpr ⟨_, List.getElem_mem hlt, by simpa using hrevents⟩
  rw [hready] at hcount ⊢
  exact Int.natCast_pos.mpr hcount

theorem stillOpen_iff (h : Running cfg u rounds s) (hi : i < s.clients.length)
    (hr : Undisturbed r) : StillOpen cfg s r i ↔ s.spares cfg r i ∧ s.remains cfg r i := by
  obtain ⟨hhead, hpolled, revents, hready⟩ := hr
  obtain ⟨t, ht, -, ho⟩ := h.owned
  have hit := loopStep_iterates ht r
  have hnonneg : 0 ≤ (poll r.poll s.fds).1 := by
    rw [hready]
    exact Int.natCast_nonneg _
  unfold StillOpen
  generalize loopStep cfg s r = out at hit
  cases hit with
  | head hflag => exact absurd hflag hhead
  | polled _ _ hflag _ => exact absurd hflag hpolled
  | idle s₁ _ _ hcount hs =>
    have hquiet : s.revents cfg r i = 0 := by
      by_contra hrevents
      exact hcount (count_pos_of_revents hready hrevents)
    refine iff_of_true ⟨s₁, [], rfl, ?_, ?_, by simp⟩ ⟨fun hpos => absurd hpos hcount, fun _ => ?_⟩
    · rw [← hs.log_eq, Connections.report_log, ht.log_eq, List.append_nil]
    · have hi₁ : i < (t.report cfg r.poll).entries.length := by
        rwa [Connections.length_report, ← ht.length_clients]
      have hsame : s₁.client i = s.client i :=
        (hs.client_eq hi₁).trans ((ht.polled r).client_eq hi₁).symm
      rw [← hsame]
      exact List.mem_map_of_mem (hs.client_mem hi₁)
    · rw [hquiet]
      exact ⟨by decide, fun hread => absurd hread (by decide)⟩
  | trouble s₁ _ hacc hcount _ =>
    refine iff_of_false (by simp) fun hcome => ?_
    exact hacc (hcome.1 (by omega)).1.1
  | refused before a _ _ hacc has hr =>
    refine iff_of_false (by simp) fun hcome => ?_
    exact not_forall_of_refused has hr (hcome.1 hacc.2.2.1).1.2
  | served s₁ t₁ hserves hadm hs =>
    obtain ⟨e, calls, hopen, hpfd, hclient, hlog, hfate⟩ := ht.fate ho hadm hs hi
    have hstays := e.isOpen_serve_iff cfg (s.serving cfg r) i hopen
    have hspares : s.spares cfg r i ↔ ¬ mistaken cfg (s.serving cfg r) e.pfd.revents e.client := by
      rw [LoopState.spares, LoopState.revents, hpfd, hclient, and_iff_right hserves]
      exact forall_prop_of_true hserves.1.2.2.1
    rw [hspares, LoopState.remains, LoopState.revents, ← hpfd, ← hclient]
    constructor
    · rintro ⟨s', calls', hs', -, hmem, -⟩
      obtain rfl : s₁ = s' := by simpa using hs'
      exact hstays.mp (hfate.present.mp hmem)
    · intro hcome
      have hopen := hstays.mpr hcome
      exact ⟨s₁, calls, rfl, hlog, hfate.present.mpr hopen, fun hmem => hfate.closed.mp hmem hopen⟩

/-! ### One exchange -/

/-- The bytes that an iteration sends to the client at position `i`. -/
def LoopState.sentBack (cfg : Config) (s : LoopState) (r : Round) (i : ℕ) : Bytes :=
  delivered (s.client i).channel ((stateOf (loopStep cfg s r)).log.drop s.log.length)

/-- In the iteration the client at position `i` is read. -/
def LoopState.isRead (cfg : Config) (s : LoopState) (r : Round) (i : ℕ) : Prop :=
  s.serves cfg r ∧ 0 < (s.client i)._sockfd.num ∧ s.revents cfg r i = POLLIN

instance : Decidable (s.isRead cfg r i) := inferInstanceAs (Decidable (_ ∧ _))

theorem undisturbed_of_serves (h : s.serves cfg r) : Undisturbed r := by
  obtain ⟨⟨hhead, hpolled, hcount, -⟩, -⟩ := h
  refine ⟨hhead, hpolled, ?_⟩
  cases hpoll : r.poll with
  | failed errno =>
    simp [poll, hpoll] at hcount
  | ready revents => exact ⟨revents, rfl⟩

/-- What a client is sent that is read, and whether it is kept. -/
theorem outcome_of_isRead (h : Running cfg u rounds s) (hi : i < s.clients.length)
    (hr : s.isRead cfg r i) :
    s.sentBack cfg r i =
        delivered (s.client i).channel ((s.client i).answer (s.db.update r.snapshot) (r.io i)) ∧
      (StillOpen cfg s r i ↔ (s.client i).keepsAlive (s.db.update r.snapshot) (r.io i)) := by
  obtain ⟨hserves, hpos, hrevents⟩ := hr
  obtain ⟨t, ht, -, ho⟩ := h.owned
  have hundisturbed := undisturbed_of_serves hserves
  constructor
  · have hit := loopStep_iterates ht r
    rw [LoopState.sentBack]
    generalize loopStep cfg s r = out at hit
    cases hit with
    | head hflag => exact absurd hflag hundisturbed.1
    | polled _ _ hflag _ => exact absurd hflag hundisturbed.2.1
    | idle _ _ _ hnone _ => exact absurd hserves.1.2.2.1 hnone
    | trouble _ _ hacc _ _ => exact absurd hserves.1 hacc
    | refused before a _ _ _ has hr => exact absurd hserves.2 (not_forall_of_refused has hr)
    | served s₁ t₁ _ hadm hs =>
      obtain ⟨e, calls, -, hpfd, hclient, hlog, hfate⟩ := ht.fate ho hadm hs hi
      have hread : e.isReadable := by
        refine ⟨?_, ?_⟩
        · rwa [e.same, hclient]
        · rwa [hpfd]
      rw [stateOf, hlog, List.drop_left, ← hclient, hfate.delivered,
        (e.transferred_served cfg (s.serving cfg r) i hread).2]
      rfl
  · rw [stillOpen_iff h hi hundisturbed]
    constructor
    · exact fun hcome => (hcome.2 hpos).2 hrevents
    · intro hkeeps
      refine ⟨fun _ => ⟨hserves, fun hmistaken => ?_⟩, fun _ => ⟨?_, fun _ => hkeeps⟩⟩
      · exact absurd (hrevents.symm.trans hmistaken.2.1) (by decide)
      · rw [hrevents]
        decide

end

end MetricServer
