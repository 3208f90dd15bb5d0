import MetricServer.Base.Trace
import MetricServer.Client.Client
import MetricServer.Handler.Server
import MetricServer.Http.Response

/-! `TR_MetricServerHandlerStart`: start-up, the main loop, and its ends. A round
holds what one iteration of the loop reads: the exit flag at its two places, the
result of `poll`, the results of the calls on the two listeners and on every
client of the table, and the metric values. `loopStep` is one iteration; it goes
on, or the function returns after its shutdown loop, or the process exits. The
vectors `fds` and `clients` are two lists, accessed by the indices the source
uses. -/

namespace MetricServer

open Base Http

/-! ### Poll -/

def POLLIN : BitVec 16 := 0x001

def POLLHUP : BitVec 16 := 0x010

structure PollFd where
  fd : ℤ
  events : BitVec 16
  revents : BitVec 16

instance : Inhabited PollFd := ⟨⟨-1, 0, 0⟩⟩

instance : Inhabited Client := ⟨Client.new (zeros Byte 4096)⟩

/-- `poll` fails, or it reports events for the entries of its table; a timeout
reports none. -/
inductive PollResult where
  | failed (errno : ℕ)
  | ready (revents : ℕ → BitVec 16)

/-- The value `poll` returns and the table it leaves: the number of entries with
events, and no events at an entry with a negative number. -/
def poll : PollResult → List PollFd → ℤ × List PollFd
  | .failed _, fds => (-1, fds)
  | .ready revents, fds =>
    let fds := fds.mapIdx fun i pfd => { pfd with revents := if pfd.fd < 0 then 0 else revents i }
    (fds.countP (·.revents ≠ 0), fds)

/-! ### Configuration and state -/

/-- The values the options leave, checked. -/
structure Config where
  metricPort : ℤ
  metricHttpsPort : ℤ
  metricMaxConnections : ℕ
  sslCtx : Bool
  maxConnections_pos : 0 < metricMaxConnections

/-- The integers given on the command line. -/
structure Arguments where
  metricPort : Option ℤ
  metricTimeout : Option ℤ
  metricMaxConnections : Option ℤ
  metricHttpsPort : Option ℤ

/-- A positive integer given, or the default; any other integer ends the process. -/
def intOption (default : ℤ) (given : Option ℤ) : Option ℤ :=
  match given with
  | none => some default
  | some n => if n ≤ 0 then none else some n

theorem intOption_pos {default n : ℤ} {given : Option ℤ} (hd : 0 < default)
    (h : intOption default given = some n) : 0 < n := by
  cases given with
  | none =>
    obtain rfl : default = n := by simpa [intOption] using h
    exact hd
  | some m =>
    rw [intOption] at h
    split at h
    next => cases h
    next hm => cases h; omega

/-- The options of the function, or nothing when it ends with `exit(1)` over one. -/
def readArguments (args : Arguments) (sslCtx : Bool) : Option Config :=
  match intOption 7390 args.metricPort, intOption 100 args.metricTimeout,
    h : intOption 10 args.metricMaxConnections, intOption 7391 args.metricHttpsPort with
  | some port, some _, some n, some httpsPort =>
    some ⟨port, httpsPort, n.toNat, sslCtx, by
      have := intOption_pos (by omega) h
      omega⟩
  | _, _, _, _ => none

/-- The number of listening sockets, which come first in `fds`. -/
def Config.listeners (cfg : Config) : ℕ := if cfg.sslCtx then 2 else 1

theorem Config.listeners_pos (cfg : Config) : 0 < cfg.listeners := by
  unfold listeners
  split <;> omega

theorem Config.one_lt_listeners {cfg : Config} (h : cfg.sslCtx) : 1 < cfg.listeners := by
  simp [listeners, h]

/-- What start-up reads: the calls of the two servers and the first metric values. -/
structure StartUp where
  server : StartCalls
  serverHttps : StartCalls
  snapshot : Snapshot

structure LoopState where
  server : Server
  serverHttps : Server
  fds : List PollFd
  clients : List Client
  db : MetricDatabase
  serial : ℕ
  log : List Event

/-- The results of the calls on one client in a round: what was left in `errno`
before it was read, what the slot of its `HttpRequest` held, and the results of
its reads and writes. -/
structure ClientIO where
  errno : ℕ
  memory : HttpRequest
  reads : List ReadResult
  sends : List SendResult

/-- What one iteration reads. `io` is indexed by the position in `clients`. -/
structure Round where
  exitHead : Bool
  poll : PollResult
  exitPolled : Bool
  accept : AcceptCalls
  acceptHttps : AcceptCalls
  snapshot : Snapshot
  io : ℕ → ClientIO

/-- The ends of the function: it returns, or the process exits. -/
inductive Final where
  | returned (s : LoopState)
  | exited (s : LoopState)

namespace LoopState

def record (s : LoopState) (events : List Event) : LoopState := { s with log := s.log ++ events }

/-- `fds[i].revents = 0`. -/
def resetRevents (s : LoopState) (i : ℕ) : LoopState :=
  { s with fds := s.fds.modify i fun pfd => { pfd with revents := 0 } }

/-! ### Ends of the loop -/

def clearServer (s : LoopState) : LoopState :=
  { s with server := s.server.serverClear.1 }.record s.server.serverClear.2

def clearServerHttps (s : LoopState) : LoopState :=
  { s with serverHttps := s.serverHttps.serverClear.1 }.record s.serverHttps.serverClear.2

/-- The shutdown loop, from the last entry down, of which `n` are left. -/
def shutdownLoop : ℕ → LoopState → LoopState
  | 0, s => s
  | i + 1, s =>
    let events := (s.clients.getD i default).clientClear.2
    shutdownLoop i
      { s with fds := s.fds.eraseIdx i, clients := s.clients.eraseIdx i, log := s.log ++ events }

/-- What follows the main loop. -/
def shutdown (cfg : Config) (s : LoopState) : LoopState :=
  let s := { s with fds := s.fds.eraseIdx 0 }
  let s := if cfg.sslCtx then { s with fds := s.fds.eraseIdx 0 } else s
  let s := shutdownLoop s.fds.length s
  let s := s.clearServer
  if cfg.sslCtx then s.clearServerHttps else s

/-- What the loop does before `exit(1)`. -/
def abort (cfg : Config) (s : LoopState) : LoopState :=
  let s := s.clearServer
  let s := s.record (s.clients.flatMap fun c => c.clientClear.2)
  let s := { s with fds := [], clients := [] }
  if cfg.sslCtx then s.clearServerHttps else s

/-! ### The accept phase -/

/-- An accept branch goes on, with the number of the descriptor it accepted or
`0`, or breaks out of the main loop. The accept phase goes on with two numbers. -/
inductive Accepted (α : Type) where
  | go (s : LoopState) (newfd : α)
  | leave (s : LoopState)

/-- The state an accept branch leaves. -/
def Accepted.state {α : Type} : Accepted α → LoopState
  | .go s _ => s
  | .leave s => s

/-- Both accept branches: `listener` is the listener's entry, and `failedReset` the
entry whose events are reset when the connection could not be set up. -/
def acceptClient (cfg : Config) (sslCtx : Bool) (listener failedReset : ℕ) (calls : AcceptCalls)
    (s : LoopState) : Accepted ℤ :=
  let (rc, client, events) := (Client.new calls.memory).clientAccept s.serial sslCtx calls
  let s := { s with serial := s.serial + 1 }.record events
  if rc.code < 0 then
    let events := client.clientClear.2
    .go ((s.resetRevents failedReset).record events) 0
  else if cfg.metricMaxConnections < s.clients.length then .leave s
  else
    let pfd : PollFd := ⟨client.clientGetSockfd, POLLIN, 0⟩
    let s := { s with fds := s.fds ++ [pfd], clients := s.clients ++ [client] }
    .go (s.resetRevents listener) pfd.fd

def acceptHttp (cfg : Config) (calls : AcceptCalls) (s : LoopState) : Accepted ℤ :=
  if (s.fds.getD 0 default).revents = POLLIN then acceptClient cfg false 0 0 calls s else .go s 0

/-- A connection that fails here resets the events of the other listener. -/
def acceptHttps (cfg : Config) (calls : AcceptCalls) (s : LoopState) : Accepted ℤ :=
  if cfg.sslCtx ∧ (s.fds.getD 1 default).revents = POLLIN then acceptClient cfg true 1 0 calls s
  else .go s 0

def acceptPhase (cfg : Config) (r : Round) (s : LoopState) : Accepted (ℤ × ℤ) :=
  match s.acceptHttp cfg r.accept with
  | .leave s => .leave s
  | .go s newfd =>
    match s.acceptHttps cfg r.acceptHttps with
    | .leave s => .leave s
    | .go s newfdHttps => .go s (newfd, newfdHttps)

/-! ### Serving the clients -/

/-- What serving one entry leaves of it, and the calls it made. -/
structure Served where
  pfd : PollFd
  client : Client
  events : List Event

/-- `clientClear` and the reset of the entry that follows it everywhere. -/
def dropClient (c : Client) (events : BitVec 16) (log : List Event) : Served :=
  ⟨⟨-1, events, 0⟩, c.clientClear.1, log ++ c.clientClear.2⟩

/-- Sending the response to a request that was parsed, `log` being the calls so far. -/
def respond (db : MetricDatabase) (sends : List SendResult) (pfd : PollFd) (c : Client)
    (req : HttpRequest) (log : List Event) : Served :=
  let sendBuffer := httpErrorCheck req db
  let (rc, c, log') := c.clientSend sendBuffer sends
  let log := log ++ log'
  if rc.code < 0 then dropClient c POLLIN log
  else if req.getConnection = ascii "keep-alive" then ⟨{ pfd with revents := 0 }, c, log⟩
  else dropClient c POLLIN log

/-- The branch for an entry with incoming data. -/
def handleRequest (db : MetricDatabase) (io : ClientIO) (pfd : PollFd) (c : Client) : Served :=
  let req := HttpRequest.new io.memory
  let (rc, c, log) := c.clientReceive io.errno io.reads
  if rc.code < 0 then dropClient c 0 log
  else
    let data := cstr c.clientGetRecvMsg.1
    let (rc, req) := req.parse data
    if rc.code < 0 then dropClient c POLLIN log
    else respond db io.sends pfd c req log

/-- The test for a connection that was killed. -/
def killed (cfg : Config) (newfd newfdHttps : ℤ) (pfd : PollFd) (c : Client) : Prop :=
  pfd.revents = POLLHUP ∨
    (pfd.fd ≠ newfd ∧ pfd.revents = 0 ∧ c.clientGetUseSSL ≤ 0) ∨
    (cfg.sslCtx ∧ pfd.fd ≠ newfdHttps ∧ pfd.revents = 0 ∧ 0 < c.clientGetUseSSL)

instance (cfg : Config) (newfd newfdHttps : ℤ) (pfd : PollFd) (c : Client) :
    Decidable (killed cfg newfd newfdHttps pfd c) :=
  inferInstanceAs (Decidable (_ ∨ _ ∨ _))

def serveClient (cfg : Config) (newfd newfdHttps : ℤ) (db : MetricDatabase) (io : ClientIO)
    (pfd : PollFd) (c : Client) : Served :=
  if 0 < pfd.fd ∧ pfd.revents = POLLIN then handleRequest db io pfd c
  else if 0 < pfd.fd ∧ killed cfg newfd newfdHttps pfd c then dropClient c POLLIN []
  else ⟨pfd, c, []⟩

/-- The loop over the entries from index `i` on, of which `n` are left. -/
def serveLoop (cfg : Config) (newfd newfdHttps : ℤ) (io : ℕ → ClientIO) :
    ℕ → ℕ → LoopState → LoopState
  | _, 0, s => s
  | i, n + 1, s =>
    let served := serveClient cfg newfd newfdHttps s.db (io (i - cfg.listeners))
      (s.fds.getD i default) (s.clients.getD (i - cfg.listeners) default)
    serveLoop cfg newfd newfdHttps io (i + 1) n
      { s with
        fds := s.fds.set i served.pfd
        clients := s.clients.set (i - cfg.listeners) served.client
        log := s.log ++ served.events }

/-- The loop that removes the entries with a negative number, on fuel: every turn
shortens the rest of `fds` by one. -/
def compactLoop (cfg : Config) : ℕ → ℕ → LoopState → LoopState
  | 0, _, s => s
  | fuel + 1, idx, s =>
    if idx ≤ s.fds.length - 1 then
      if (s.fds.getD idx default).fd < 0 then
        compactLoop cfg fuel idx
          { s with fds := s.fds.eraseIdx idx, clients := s.clients.eraseIdx (idx - cfg.listeners) }
      else compactLoop cfg fuel (idx + 1) s
    else s

/-- The part of an iteration after the accept phase. -/
def serve (cfg : Config) (r : Round) (newfd newfdHttps : ℤ) (s : LoopState) : LoopState :=
  let s := { s with db := s.db.update r.snapshot }
  let s := serveLoop cfg newfd newfdHttps r.io cfg.listeners (s.fds.length - cfg.listeners) s
  compactLoop cfg s.fds.length 0 s

/-! ### The main loop -/

/-- A listener that reports anything but a connection. -/
def listenerTrouble (cfg : Config) (fds : List PollFd) : Prop :=
  ((fds.getD 0 default).revents ≠ POLLIN ∧ (fds.getD 0 default).revents ≠ 0) ∨
    (cfg.sslCtx ∧ (fds.getD 1 default).revents ≠ POLLIN ∧ (fds.getD 1 default).revents ≠ 0)

instance (cfg : Config) (fds : List PollFd) : Decidable (listenerTrouble cfg fds) :=
  inferInstanceAs (Decidable (_ ∨ _))

/-- The accept phase and all that follows it in an iteration. -/
def acceptAndServe (cfg : Config) (r : Round) (s : LoopState) : Outcome LoopState Final :=
  match s.acceptPhase cfg r with
  | .leave s => .done (.returned (s.shutdown cfg))
  | .go s (newfd, newfdHttps) => .next (s.serve cfg r newfd newfdHttps)

/-- The state after the call of `poll`. -/
def polled (r : Round) (s : LoopState) : LoopState := { s with fds := (poll r.poll s.fds).2 }

/-- The body of the loop. -/
def loopBody (cfg : Config) (s : LoopState) (r : Round) : Outcome LoopState Final :=
  let check := (poll r.poll s.fds).1
  let s := s.polled r
  if r.exitPolled then .done (.returned (s.shutdown cfg))
  else if check = 0 then .next s
  else if check < 0 then
    match r.poll with
    | .failed errno => if errno = EINTR then .next s else .done (.exited (s.abort cfg))
    | .ready _ => .next s
  else if listenerTrouble cfg s.fds then .done (.exited (s.abort cfg))
  else s.acceptAndServe cfg r

/-- One iteration, its test of the exit flag included. -/
def loopStep (cfg : Config) (s : LoopState) (r : Round) : Outcome LoopState Final :=
  if r.exitHead then .done (.returned (s.shutdown cfg)) else s.loopBody cfg r

/-! ### Start-up and runs -/

/-- The tables the loop starts with. -/
def initTables (cfg : Config) (s : LoopState) : LoopState :=
  let fds : List PollFd := [⟨s.server.serverGetSockfd, POLLIN, 0⟩]
  { s with
    fds := if cfg.sslCtx then fds ++ [⟨s.serverHttps.serverGetSockfd, POLLIN, 0⟩] else fds
    clients := [] }

/-- The state in which the first server is started. -/
def initial (cfg : Config) (u : StartUp) : LoopState where
  server := .new cfg.metricPort
  serverHttps := .new cfg.metricHttpsPort
  fds := []
  clients := []
  db := MetricDatabase.new.update u.snapshot
  serial := 0
  log := []

def startServer (s : LoopState) (calls : StartCalls) : ServerCodes × LoopState :=
  let (rc, server, events) := s.server.serverStart s.serial calls
  (rc, { s with server := server, serial := s.serial + 1 }.record events)

def startServerHttps (s : LoopState) (calls : StartCalls) : ServerCodes × LoopState :=
  let (rc, server, events) := s.serverHttps.serverStart s.serial calls
  (rc, { s with serverHttps := server, serial := s.serial + 1 }.record events)

/-- What the function does before its loop. -/
def startUp (cfg : Config) (u : StartUp) : Outcome LoopState Final :=
  let (rc, s) := (initial cfg u).startServer u.server
  if rc.code < 0 then
    let s := s.clearServer
    .done (.exited (if cfg.sslCtx then s.clearServerHttps else s))
  else if cfg.sslCtx then
    let (rc, s) := s.startServerHttps u.serverHttps
    if rc.code < 0 then .done (.exited s.clearServer.clearServerHttps)
    else .next (s.initTables cfg)
  else .next (s.initTables cfg)

end LoopState

open LoopState

/-- After start-up and the given rounds, taken from states and under inputs that meet
`P`, the function is at the head of its loop. -/
def RunningWhen (P : LoopState → Round → Prop) (cfg : Config) (u : StartUp) (rounds : List Round)
    (s : LoopState) : Prop :=
  ∃ s₀, startUp cfg u = .next s₀ ∧ Trace (when P (continues (loopStep cfg))) s₀ rounds s

def Running (cfg : Config) (u : StartUp) (rounds : List Round) (s : LoopState) : Prop :=
  ∃ s₀, startUp cfg u = .next s₀ ∧ Trace (continues (loopStep cfg)) s₀ rounds s

theorem Running.next {cfg : Config} {u : StartUp} {rounds : List Round} {r : Round}
    {s s' : LoopState} (h : Running cfg u rounds s) (hstep : loopStep cfg s r = .next s') :
    Running cfg u (rounds ++ [r]) s' := by
  obtain ⟨s₀, h₀, htrace⟩ := h
  exact ⟨s₀, h₀, htrace.append (.cons hstep (.nil s'))⟩

/-- A run whose steps meet a condition is found by evaluation. -/
theorem exists_runningWhen (P : LoopState → Round → Prop) [∀ s r, Decidable (P s r)] (cfg : Config)
    (u : StartUp) (rounds : List Round) (p : LoopState → Bool)
    (h : (startUp cfg u).goes fun s =>
      meets P (loopStep cfg) s rounds && (runs (loopStep cfg) s rounds).goes p) :
    ∃ s, RunningWhen P cfg u rounds s ∧ p s := by
  obtain ⟨s₀, h₀, h⟩ := Outcome.exists_of_goes h
  obtain ⟨hm, h⟩ := Bool.and_eq_true_iff.mp h
  obtain ⟨s, hs, hp⟩ := Outcome.exists_of_goes h
  exact ⟨s, ⟨s₀, h₀, trace_of_meets hs hm⟩, hp⟩

theorem exists_running (cfg : Config) (u : StartUp) (rounds : List Round) (p : LoopState → Bool)
    (h : (startUp cfg u).goes fun s => (runs (loopStep cfg) s rounds).goes p) :
    ∃ s, Running cfg u rounds s ∧ p s := by
  obtain ⟨s₀, h₀, h⟩ := Outcome.exists_of_goes h
  obtain ⟨s, hs, hp⟩ := Outcome.exists_of_goes h
  exact ⟨s, ⟨s₀, h₀, trace_of_runs hs⟩, hp⟩

@[simp] def Final.log : Final → List Event
  | .returned s => s.log
  | .exited s => s.log

/-- The log after an iteration. -/
def logOf : Outcome LoopState Final → List Event
  | .next s => s.log
  | .done f => f.log

def Final.state : Final → LoopState
  | .returned s => s
  | .exited s => s

/-- The state after an iteration. -/
def stateOf : Outcome LoopState Final → LoopState
  | .next s => s
  | .done f => f.state

def Final.hasReturned : Final → Bool
  | .returned _ => true
  | .exited _ => false

/-- It returns with a log that passes the test. -/
def Final.returnsLog (p : List Event → Bool) : Final → Bool
  | .returned s => p s.log
  | .exited _ => false

theorem Final.exists_of_returnsLog {p : List Event → Bool} {f : Final} (h : f.returnsLog p) :
    ∃ s, f = .returned s ∧ p s.log := by
  cases f with
  | returned s => exact ⟨s, rfl, h⟩
  | exited s => cases h

theorem Final.exists_of_hasReturned {f : Final} (h : f.hasReturned) : ∃ s, f = .returned s := by
  cases f with
  | returned s => exact ⟨s, rfl⟩
  | exited s => cases h

/-! ### Inputs to try the loop on -/

/-- At most one client, on the default ports. -/
def Config.sample (sslCtx : Bool) : Config := ⟨7390, 7391, 1, sslCtx, by decide⟩

/-- The listening sockets get the numbers 3 and 4. -/
def StartUp.sample : StartUp where
  server := ⟨3, 0, 0, 0, 0⟩
  serverHttps := ⟨4, 0, 0, 0, 0⟩
  snapshot := ⟨0, 0, 0, 0, 0, 0, false, 0, 0, 0, none, none⟩

/-- An accept whose calls all succeed. -/
def AcceptCalls.sample (fd : ℤ) : AcceptCalls := ⟨fd, 0, 0, true, 1, 1, 1, zeros Byte 4096⟩

/-- A client that sends a request and takes the response. -/
def ClientIO.sample (request : String) : ClientIO where
  errno := 0
  memory := ⟨.httpNa, zeros Byte 16, zeros Byte 16⟩
  reads := [.data (ascii request)]
  sends := [.sent 4096]

/-- A round in which `poll` reports `revents`, and the accepts return `fd` and
`fdHttps`. -/
def Round.sample (revents : List (BitVec 16)) (fd fdHttps : ℤ) (request : String) : Round where
  exitHead := false
  poll := .ready fun i => revents.getD i 0
  exitPolled := false
  accept := .sample fd
  acceptHttps := .sample fdHttps
  snapshot := StartUp.sample.snapshot
  io := fun _ => .sample request

end MetricServer
