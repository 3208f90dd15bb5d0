import MetricServer.Client.Outcomes
import MetricServer.Handler.Loop
import Mathlib.Data.List.GetD

/-! The connection table. The source keeps two parallel vectors with an offset; an
`Entry` is a pair of their elements that agree on the descriptor, and a state
shows a list of entries when its vectors are the listeners followed by the two
halves of that list. Serving is then a map over the entries and compaction a
filter: the index loops of the source are proved to be these. -/

namespace MetricServer

open Base Http LoopState

/-- A pollfd and a client on the same descriptor. -/
structure Entry where
  pfd : PollFd
  client : Client
  same : pfd.fd = client._sockfd.num

namespace Entry

def setRevents (e : Entry) (revents : BitVec 16) : Entry :=
  ⟨{ e.pfd with revents := revents }, e.client, e.same⟩

@[simp] theorem setRevents_client (e : Entry) (v : BitVec 16) :
    (e.setRevents v).client = e.client := rfl

@[simp] theorem setRevents_revents (e : Entry) (v : BitVec 16) :
    (e.setRevents v).pfd.revents = v := rfl

end Entry

/-! ### Serving one entry -/

/-- The ways in which serving an entry with a positive number can end. Every one
that drops the client closes its descriptor and frees its BIO; after a failed
read it does so twice. -/
inductive ServedAs (io : ClientIO) (pfd : PollFd) (c : Client) : Served → Prop
  | failed (calls twice : List Event) (events : BitVec 16) (c' : Client)
      (hread : pfd.revents = POLLIN) (hfail : Client.readsFail 0 io.errno io.reads)
      (hcalls : ∀ e ∈ calls, e.isTransfer c.channel)
      (htwice : ∀ e ∈ twice, ∃ b, c._bio = some b ∧ e = .bioFree b)
      (hc : c'._sockfd = .invalid) :
      ServedAs io pfd c
        ⟨⟨-1, events, 0⟩, c', calls ++ .close c._sockfd :: twice ++ c.release⟩
  | dropped (calls : List Event) (events : BitVec 16) (c' : Client)
      (hread : pfd.revents = POLLIN → ¬ Client.readsFail 0 io.errno io.reads)
      (hcalls : ∀ e ∈ calls, e.isTransfer c.channel) (hc : c'._sockfd = .invalid) :
      ServedAs io pfd c ⟨⟨-1, events, 0⟩, c', calls ++ c.release⟩
  | kept (calls : List Event) (buffer : List.Vector Byte 4096)
      (hread : ¬ Client.readsFail 0 io.errno io.reads)
      (hcalls : ∀ e ∈ calls, e.isTransfer c.channel) :
      ServedAs io pfd c
        ⟨{ pfd with revents := 0 }, c.withBuffer buffer, calls⟩
  | untouched (hread : pfd.revents ≠ POLLIN) : ServedAs io pfd c ⟨pfd, c, []⟩

section Drop
variable {io : ClientIO} {pfd : PollFd} {c c' : Client} {calls : List Event}

/-- Dropping an open client after transfers that did not fail. -/
theorem dropClient_servedAs (events : BitVec 16) (hc : c'._sockfd = c._sockfd)
    (hb : c'._bio = c._bio) (hpos : 0 < c._sockfd.num)
    (hread : pfd.revents = POLLIN → ¬ Client.readsFail 0 io.errno io.reads)
    (hcalls : ∀ e ∈ calls, e.isTransfer c.channel) :
    ServedAs io pfd c (dropClient c' events calls) := by
  have h := Client.clientClear_of_pos (hc ▸ hpos)
  have hr : c'.release = c.release := by rw [Client.release, Client.release, hc, hb]
  rw [dropClient, h.2, hr]
  exact .dropped _ _ _ hread hcalls h.1

/-- Dropping a client that is closed already. -/
theorem dropClient_closed_servedAs (events : BitVec 16) (hc : c'._sockfd = .invalid)
    (hread : pfd.revents = POLLIN → ¬ Client.readsFail 0 io.errno io.reads)
    (hcalls : ∀ e ∈ calls, e.isTransfer c.channel) :
    ServedAs io pfd c (dropClient c' events (calls ++ c.release)) := by
  have h := Client.clientClear_of_invalid hc
  rw [dropClient, h.2, List.append_nil]
  exact .dropped _ _ _ hread hcalls h.1

end Drop

theorem respond_servedAs (db : MetricDatabase) {io : ClientIO} {pfd : PollFd} {c : Client}
    (buffer : List.Vector Byte 4096) (req : HttpRequest) {log : List Event}
    (hpos : 0 < c._sockfd.num) (hread : ¬ Client.readsFail 0 io.errno io.reads)
    (hlog : ∀ e ∈ log, e.isTransfer c.channel) :
    ServedAs io pfd c (respond db io.sends pfd (c.withBuffer buffer) req log) := by
  have hcalls : ∀ e ∈ log ++ (c.withBuffer buffer).sendCalls (httpErrorCheck req db) io.sends,
      e.isTransfer c.channel := by
    have := (c.withBuffer buffer).sendCalls_transfers (httpErrorCheck req db) io.sends
    simpa only [List.mem_append, or_imp, forall_and] using ⟨hlog, this⟩
  unfold respond
  obtain h | h := (c.withBuffer buffer).clientSend_cases (httpErrorCheck req db) io.sends
  · simp only [h, ReturnCodes.code, Int.reduceNeg, Int.reduceLT, ↓reduceIte,
      Client.withBuffer_release, ← List.append_assoc]
    exact dropClient_closed_servedAs _ rfl (fun _ => hread) hcalls
  · simp only [h, ReturnCodes.code, lt_self_iff_false, ↓reduceIte]
    split_ifs
    · exact .kept _ _ hread hcalls
    · exact dropClient_servedAs _ rfl rfl hpos (fun _ => hread) hcalls

theorem handleRequest_servedAs (db : MetricDatabase) (io : ClientIO) (pfd : PollFd) (c : Client)
    (hpos : 0 < c._sockfd.num) (hread : pfd.revents = POLLIN) :
    ServedAs io pfd c (handleRequest db io pfd c) := by
  have hr := c.receiveCalls_transfers io.errno io.reads
  unfold handleRequest
  obtain ⟨hf, buffer, h⟩ | ⟨hf, -, buffer, h⟩ | ⟨hf, -, buffer, -, h⟩ :=
    c.clientReceive_cases io.errno io.reads
  · have hclear := Client.clientClear_of_pos (c := c.withBuffer buffer) hpos
    simp only [h, ReturnCodes.code, Int.reduceNeg, Int.reduceLT, ↓reduceIte]
    rw [dropClient, hclear.2]
    refine .failed _ _ _ _ hread hf hr ?_ hclear.1
    intro e he
    split at he
    · simpa [eq_comm] using he
    · cases he
  · simp only [h, ReturnCodes.code, Int.reduceNeg, Int.reduceLT, ↓reduceIte]
    exact dropClient_closed_servedAs _ rfl (fun _ => hf) hr
  · simp only [h, ReturnCodes.code, lt_self_iff_false, ↓reduceIte]
    split_ifs with hparse
    · exact dropClient_servedAs _ rfl rfl hpos (fun _ => hf) hr
    · exact respond_servedAs db buffer _ hpos hf hr

theorem serveClient_servedAs (cfg : Config) (newfd newfdHttps : ℤ) (db : MetricDatabase)
    (io : ClientIO) {pfd : PollFd} {c : Client} (same : pfd.fd = c._sockfd.num)
    (hpos : 0 < pfd.fd) :
    ServedAs io pfd c (serveClient cfg newfd newfdHttps db io pfd c) := by
  unfold serveClient
  simp only [hpos, true_and]
  have hpos' : 0 < c._sockfd.num := same ▸ hpos
  split_ifs with hread hkill
  · exact handleRequest_servedAs db io pfd c hpos' hread
  · exact dropClient_servedAs _ rfl rfl hpos' (fun h => absurd h hread) (by simp)
  · exact .untouched hread

theorem serveClient_of_not_pos (cfg : Config) (newfd newfdHttps : ℤ) (db : MetricDatabase)
    (io : ClientIO) {pfd : PollFd} (c : Client) (hpos : ¬ 0 < pfd.fd) :
    serveClient cfg newfd newfdHttps db io pfd c = ⟨pfd, c, []⟩ := by
  simp [serveClient, hpos]

/-- Serving leaves a pair that agrees on the descriptor. -/
theorem serveClient_same (cfg : Config) (newfd newfdHttps : ℤ) (db : MetricDatabase)
    (io : ClientIO) {pfd : PollFd} {c : Client} (same : pfd.fd = c._sockfd.num) :
    (serveClient cfg newfd newfdHttps db io pfd c).pfd.fd =
      (serveClient cfg newfd newfdHttps db io pfd c).client._sockfd.num := by
  by_cases hpos : 0 < pfd.fd
  · have h := serveClient_servedAs cfg newfd newfdHttps db io same hpos
    generalize serveClient cfg newfd newfdHttps db io pfd c = out at h ⊢
    cases h with
    | failed _ _ _ _ _ _ _ _ hc => simp [hc, Descriptor.invalid]
    | dropped _ _ _ _ _ hc => simp [hc, Descriptor.invalid]
    | kept => exact same
    | untouched => exact same
  · rw [serveClient_of_not_pos cfg newfd newfdHttps db io c hpos]
    exact same

/-! ### Tables -/

/-- The parameters of the serving loop of one iteration. -/
structure Serving where
  newfd : ℤ
  newfdHttps : ℤ
  db : MetricDatabase
  io : ℕ → ClientIO

namespace Entry

/-- Serving the entry at position `i`. -/
def served (cfg : Config) (v : Serving) (i : ℕ) (e : Entry) : Served :=
  serveClient cfg v.newfd v.newfdHttps v.db (v.io i) e.pfd e.client

def serve (cfg : Config) (v : Serving) (i : ℕ) (e : Entry) : Entry :=
  ⟨(e.served cfg v i).pfd, (e.served cfg v i).client, serveClient_same _ _ _ _ _ e.same⟩

/-- The entry is to stay in the table. -/
def isOpen (e : Entry) : Bool := 0 ≤ e.pfd.fd

theorem isOpen_iff {e : Entry} : e.isOpen ↔ 0 ≤ e.pfd.fd := decide_eq_true_iff

end Entry

namespace LoopState

/-- The pollfd that belongs to a position in `clients`. -/
def pfd (cfg : Config) (s : LoopState) (i : ℕ) : PollFd := s.fds.getD (cfg.listeners + i) default

def client (s : LoopState) (i : ℕ) : Client := s.clients.getD i default

/-- The listening sockets, in their order in `fds`. -/
def listening (cfg : Config) (s : LoopState) : List Descriptor :=
  s.server._sockfd :: if cfg.sslCtx then [s.serverHttps._sockfd] else []

theorem length_listening (cfg : Config) (s : LoopState) :
    (s.listening cfg).length = cfg.listeners := by
  cases h : cfg.sslCtx <;> simp [listening, Config.listeners, h]

/-- The vectors are the listeners, with the given pollfds, and then the halves of
the given entries. -/
structure Shows (cfg : Config) (s : LoopState) (ls : List PollFd) (es : List Entry) : Prop where
  listeners_eq : ls.map (·.fd) = (s.listening cfg).map (·.num)
  fds_eq : s.fds = ls ++ es.map Entry.pfd
  clients_eq : s.clients = es.map Entry.client

theorem Shows.length_listeners {cfg : Config} {s : LoopState} {ls : List PollFd} {es : List Entry}
    (h : s.Shows cfg ls es) : ls.length = cfg.listeners := by
  simpa [length_listening] using congrArg List.length h.listeners_eq

/-! ### The index loops -/

/-- The serving loop, `before` being the entries it has been through. -/
theorem serveLoop_eq (cfg : Config) (v : Serving) (ls : List PollFd)
    (hls : ls.length = cfg.listeners) (before es : List Entry) (s : LoopState)
    (hdb : s.db = v.db) (hfds : s.fds = ls ++ (before ++ es).map Entry.pfd)
    (hclients : s.clients = (before ++ es).map Entry.client) :
    serveLoop cfg v.newfd v.newfdHttps v.io (cfg.listeners + before.length) es.length s =
      { s with
        fds := ls ++ (before ++ es.mapIdx fun i => Entry.serve cfg v (before.length + i)).map
          Entry.pfd
        clients := (before ++ es.mapIdx fun i => Entry.serve cfg v (before.length + i)).map
          Entry.client
        log := s.log ++ (es.mapIdx fun i e =>
          (e.served cfg v (before.length + i)).events).flatten } := by
  induction es generalizing before s with
  | nil =>
    simp only [List.append_nil] at hfds hclients
    simp [serveLoop, ← hfds, ← hclients]
  | cons e es ih =>
    have hpfd : s.fds.getD (cfg.listeners + before.length) default = e.pfd := by
      rw [hfds, ← hls, List.getD_append_right _ _ _ _ (by omega)]
      simp
    have hclient : s.clients.getD before.length default = e.client := by
      rw [hclients]
      simp
    have hserved : serveClient cfg v.newfd v.newfdHttps s.db (v.io before.length) e.pfd e.client =
        e.served cfg v before.length := by rw [Entry.served, hdb]
    have hindex : cfg.listeners + before.length - cfg.listeners = before.length := by omega
    rw [List.length_cons, serveLoop, hindex, hpfd, hclient, hserved]
    have hlen : cfg.listeners + before.length + 1 =
        cfg.listeners + (before ++ [e.serve cfg v before.length]).length := by simp; omega
    rw [hlen, ih (before ++ [e.serve cfg v before.length])]
    · simp [List.mapIdx_cons, Entry.serve, Nat.add_assoc, Nat.add_comm 1]
    · exact hdb
    · rw [hfds, ← hls]
      simp [Entry.serve]
    · rw [hclients]
      simp [Entry.serve]

/-- Compaction passes over entries that are open. -/
theorem compactLoop_skip (cfg : Config) (before ls rest : List PollFd) (fuel : ℕ) (s : LoopState)
    (hfds : s.fds = before ++ ls ++ rest) (hls : ∀ pfd ∈ ls, 0 ≤ pfd.fd) :
    compactLoop cfg (ls.length + fuel) before.length s =
      compactLoop cfg fuel (before.length + ls.length) s := by
  induction ls generalizing before with
  | nil => simp
  | cons pfd ls ih =>
    have hget : s.fds.getD before.length default = pfd := by
      rw [hfds, List.append_assoc, List.getD_append_right _ _ _ _ le_rfl]
      simp
    have hlt : before.length ≤ s.fds.length - 1 := by
      rw [hfds]
      simp only [List.length_append, List.length_cons]
      omega
    have hpos : ¬ pfd.fd < 0 := not_lt.mpr (hls pfd (by simp))
    have hfuel : (pfd :: ls).length + fuel = ls.length + fuel + 1 := by
      rw [List.length_cons]
      omega
    rw [hfuel, compactLoop, if_pos hlt, hget, if_neg hpos]
    have := ih (before ++ [pfd]) (by simpa using hfds) fun p hp => hls p (by simp [hp])
    simpa [Nat.add_assoc, Nat.add_comm 1] using this

/-- The compaction loop past the listeners, `before` being the entries it has kept. -/
theorem compactLoop_eq (cfg : Config) (ls : List PollFd) (hls : ls.length = cfg.listeners)
    (before es : List Entry) (fuel : ℕ) (s : LoopState) (hfuel : es.length ≤ fuel)
    (hfds : s.fds = ls ++ (before ++ es).map Entry.pfd)
    (hclients : s.clients = (before ++ es).map Entry.client) :
    compactLoop cfg fuel (cfg.listeners + before.length) s =
      { s with
        fds := ls ++ (before ++ es.filter Entry.isOpen).map Entry.pfd
        clients := (before ++ es.filter Entry.isOpen).map Entry.client } := by
  have hpos := cfg.listeners_pos
  induction es generalizing before fuel s with
  | nil =>
    simp only [List.append_nil] at hfds hclients
    have hend : ¬ cfg.listeners + before.length ≤ s.fds.length - 1 := by
      rw [hfds]
      simp only [List.length_append, List.length_map]
      omega
    cases fuel with
    | zero => simp [compactLoop, ← hfds, ← hclients]
    | succ fuel =>
      rw [compactLoop, if_neg hend]
      simp [← hfds, ← hclients]
  | cons e es ih =>
    obtain ⟨fuel, rfl⟩ : ∃ n, fuel = n + 1 := ⟨fuel - 1, by simp at hfuel; omega⟩
    have hlt : cfg.listeners + before.length ≤ s.fds.length - 1 := by
      rw [hfds]
      simp only [List.length_append, List.length_map, List.length_cons]
      omega
    have hget : s.fds.getD (cfg.listeners + before.length) default = e.pfd := by
      rw [hfds, ← hls, List.getD_append_right _ _ _ _ (by omega)]
      simp
    have hindex : cfg.listeners + before.length - cfg.listeners = before.length := by omega
    rw [compactLoop, if_pos hlt, hget, hindex]
    split_ifs with hneg
    · have hopen : e.isOpen = false := by simpa [Entry.isOpen] using hneg
      rw [ih before]
      · simp [hopen]
      · simpa using hfuel
      · rw [hfds, ← hls]
        simp [List.eraseIdx_append_of_length_le]
      · rw [hclients]
        simp [List.eraseIdx_append_of_length_le]
    · have hopen : e.isOpen = true := by simpa [Entry.isOpen] using hneg
      have hlen : cfg.listeners + before.length + 1 =
          cfg.listeners + (before ++ [e]).length := by simp; omega
      rw [hlen, ih (before ++ [e])]
      · simp [hopen]
      · simpa using hfuel
      · simpa using hfds
      · simpa using hclients

/-- One iteration after its accept phase: the entries are served and those still
open kept. -/
theorem Shows.serve {cfg : Config} {s : LoopState} {ls : List PollFd} {es : List Entry}
    (h : s.Shows cfg ls es) (hopen : ∀ pfd ∈ ls, 0 ≤ pfd.fd) (r : Round) (newfd newfdHttps : ℤ) :
    let v : Serving := ⟨newfd, newfdHttps, s.db.update r.snapshot, r.io⟩
    let es' := es.mapIdx (Entry.serve cfg v)
    s.serve cfg r newfd newfdHttps =
      { s with
        fds := ls ++ (es'.filter Entry.isOpen).map Entry.pfd
        clients := (es'.filter Entry.isOpen).map Entry.client
        db := s.db.update r.snapshot
        log := s.log ++ (es.mapIdx fun i e => (e.served cfg v i).events).flatten } := by
  intro v es'
  have hls := h.length_listeners
  have hn : s.fds.length - cfg.listeners = es.length := by
    rw [h.fds_eq, List.length_append, List.length_map]
    omega
  have hserve := serveLoop_eq cfg v ls hls [] es { s with db := s.db.update r.snapshot } rfl
    h.fds_eq h.clients_eq
  simp only [List.length_nil, Nat.add_zero, Nat.zero_add, List.nil_append] at hserve
  rw [LoopState.serve]
  simp only [hn]
  rw [show newfd = v.newfd from rfl, show newfdHttps = v.newfdHttps from rfl,
    show r.io = v.io from rfl, hserve]
  have hskip := compactLoop_skip cfg [] ls (es'.map Entry.pfd) es'.length
    { s with
      fds := ls ++ es'.map Entry.pfd
      clients := es'.map Entry.client
      db := s.db.update r.snapshot
      log := s.log ++ (es.mapIdx fun i e => (e.served cfg v i).events).flatten } rfl hopen
  have hcompact := compactLoop_eq cfg ls hls [] es' es'.length
    { s with
      fds := ls ++ es'.map Entry.pfd
      clients := es'.map Entry.client
      db := s.db.update r.snapshot
      log := s.log ++ (es.mapIdx fun i e => (e.served cfg v i).events).flatten } le_rfl rfl rfl
  simp only [List.length_nil, Nat.zero_add, Nat.add_zero, List.nil_append] at hskip hcompact
  rw [← hls] at hcompact
  have hlen : (ls ++ es'.map Entry.pfd).length = ls.length + es'.length := by simp
  exact (congrArg (fun n => compactLoop cfg n 0 _) hlen).trans (hskip.trans hcompact)

end LoopState

end MetricServer
