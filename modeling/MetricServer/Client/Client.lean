import MetricServer.Client.Calls

/-! `Client`: one connection, with or without SSL. Every member function returns the
object it leaves and the events it caused. The reading and sending loops recurse
on the results of their calls; where the list of results ends, the next call
would block. -/

namespace MetricServer

open Base Http

inductive ReturnCodes where
  | success | acceptFailed | timeoutFailed | receiveFailed | sendFailed
  deriving DecidableEq

@[simp] def ReturnCodes.code : ReturnCodes → ℤ
  | .success => 0
  | .acceptFailed => -1
  | .timeoutFailed => -2
  | .receiveFailed => -3
  | .sendFailed => -4

structure Client where
  _sockfd : Descriptor
  _recvBuffer : List.Vector Byte 4096
  _bio : Option ℕ
  _sslCtx : Bool
  _useSSL : ℤ

namespace Client

/-- `Client::Client` on the memory of its object. -/
def new (memory : List.Vector Byte 4096) : Client where
  _sockfd := .invalid
  _recvBuffer := setNul memory 0 (by omega)
  _bio := none
  _sslCtx := false
  _useSSL := 0

def withBuffer (c : Client) (buffer : List.Vector Byte 4096) : Client :=
  { c with _recvBuffer := buffer }

/-- `_sockfd = -1` and `_bio = NULL`. -/
def closed (c : Client) : Client := { c with _sockfd := .invalid, _bio := none }

/-! ### Accepting -/

/-- The shape of both timeout setters: when `setsockopt` fails the socket is
closed, and `_sockfd` keeps its number. -/
def setTimeout (c : Client) (setsockopt : ℤ) : ReturnCodes × List Event :=
  if setsockopt < 0 then (.timeoutFailed, [.close c._sockfd]) else (.success, [])

def clientSetRecvTimeout (c : Client) (setsockopt : ℤ) : ReturnCodes × List Event :=
  c.setTimeout setsockopt

def clientSetSendTimeout (c : Client) (setsockopt : ℤ) : ReturnCodes × List Event :=
  c.setTimeout setsockopt

/-- The BIO is passed by reference: the pointer it leaves is part of the result. -/
def handleOpenSSLConnectionError (connfd : Descriptor) (bio : Option ℕ) :
    Bool × Option ℕ × List Event :=
  match bio with
  | none => (false, none, [.close connfd])
  | some b => (false, none, [.close connfd, .bioFree b])

/-- `fresh` is the BIO that `BIO_new_ssl` makes. -/
def acceptOpenSSLConnection (connfd : Descriptor) (fresh : ℕ) (calls : AcceptCalls) :
    Bool × Option ℕ × List Event :=
  if ¬ calls.bioNew then handleOpenSSLConnectionError connfd none
  else
    let bio := some fresh
    if calls.bioGetSSL ≠ 1 ∨ calls.sslSetFd ≠ 1 ∨ calls.sslAccept ≤ 0 then
      let (ok, bio, events) := handleOpenSSLConnectionError connfd bio
      (ok, bio, .bioNew fresh :: events)
    else (true, bio, [.bioNew fresh])

/-- The results of the timeout setters are not looked at. -/
def clientAccept (c : Client) (serial : ℕ) (sslCtx : Bool) (calls : AcceptCalls) :
    ReturnCodes × Client × List Event :=
  let c := { c with _sslCtx := sslCtx, _sockfd := ⟨calls.fd, serial⟩ }
  if c._sockfd.num < 0 then (.acceptFailed, c, [])
  else
    let (_, events₁) := c.clientSetRecvTimeout calls.setRecvTimeout
    let (_, events₂) := c.clientSetSendTimeout calls.setSendTimeout
    let events := .accept c._sockfd :: events₁ ++ events₂
    if sslCtx then
      let (ok, bio, events₃) := acceptOpenSSLConnection c._sockfd serial calls
      let c := { c with _bio := bio }
      if ¬ ok then (.acceptFailed, c, events ++ events₃)
      else (.success, { c with _useSSL := 1 }, events ++ events₃)
    else (.success, c, events)

/-! ### Receiving -/

/-- What the calls of the client's loops go through. -/
def channel (c : Client) : Channel :=
  if c._useSSL = 0 then .socket c._sockfd else .bio c._bio

/-- The variables of `clientReceive` after its loop, and the calls it made. -/
structure Received where
  numBytes : ℤ
  errno : ℕ
  totalBytes : ℕ
  buffer : List.Vector Byte 4096
  events : List Event
  totalBytes_le : totalBytes ≤ 4095

/-- Reading from offset `total` on. A full buffer ends the loop with `numBytes` set
to `-1` by hand and `errno` as it was. -/
def receiveLoop (ch : Channel) : (total : ℕ) → total ≤ 4095 → List.Vector Byte 4096 → ℕ →
    List ReadResult → Received
  | total, h, buffer, _, [] => ⟨-1, EAGAIN, total, buffer, [.recv ch total (4095 - total) []], h⟩
  | total, h, buffer, _, .error e :: _ =>
    ⟨-1, e, total, buffer, [.recv ch total (4095 - total) []], h⟩
  | total, h, buffer, errno, .data chunk :: rest =>
    let got := chunk.take (4095 - total)
    have hgot : total + got.length ≤ 4095 := by
      have : got.length ≤ 4095 - total := List.length_take_le _ _
      omega
    let call := .recv ch total (4095 - total) got
    if got = [] then ⟨0, errno, total, buffer, [call], h⟩
    else
      let buffer := store buffer total got (by omega)
      if 4095 ≤ total + got.length then
        ⟨-1, errno, total + got.length, buffer, [call], hgot⟩
      else
        let r := receiveLoop ch (total + got.length) hgot buffer errno rest
        { r with events := call :: r.events }

/-- The test for a failed receive. -/
def Received.failed (r : Received) : Prop :=
  r.numBytes < 0 ∧ ¬ (r.errno = EAGAIN ∨ r.errno = EWOULDBLOCK)

instance (r : Received) : Decidable r.failed := inferInstanceAs (Decidable (_ ∧ _))

/-- `errno` is what the last failing call before this one left there. -/
def clientReceive (c : Client) (errno : ℕ) (reads : List ReadResult) :
    ReturnCodes × Client × List Event :=
  let r := receiveLoop c.channel 0 (by omega) (zeros Byte 4096) errno reads
  let c := c.withBuffer r.buffer
  if r.failed then
    (.receiveFailed, c,
      r.events ++ .close c._sockfd ::
        if 0 < c._useSSL then (c._bio.map Event.bioFree).toList else [])
  else if r.totalBytes = 0 then
    (.receiveFailed, c.closed,
      r.events ++ .close c._sockfd :: (c._bio.map Event.bioFree).toList)
  else
    (.success, c.withBuffer (setNul r.buffer r.totalBytes (Nat.lt_succ_of_le r.totalBytes_le)),
      r.events)

/-! ### Sending -/

/-- The variables of `clientSend` after its loop, and the calls it made. -/
structure Sent where
  numBytes : ℤ
  errno : ℕ
  totalBytes : ℕ
  events : List Event

/-- Sending from offset `total` on. -/
def sendLoop (ch : Channel) (sendBuffer : Bytes) : ℕ → List SendResult → Sent
  | total, [] => ⟨-1, EAGAIN, total, [.send ch (sendBuffer.drop total) 0]⟩
  | total, .error e :: _ => ⟨-1, e, total, [.send ch (sendBuffer.drop total) 0]⟩
  | total, .sent n :: rest =>
    let n := min n (sendBuffer.length - total)
    let call := .send ch (sendBuffer.drop total) n
    if n = 0 then ⟨0, 0, total, [call]⟩
    else
      let r := sendLoop ch sendBuffer (total + n) rest
      { r with events := call :: r.events }

def clientSend (c : Client) (sendBuffer : Bytes) (sends : List SendResult) :
    ReturnCodes × Client × List Event :=
  let r := sendLoop c.channel sendBuffer 0 sends
  if r.numBytes < 0 ∧ ¬ (r.errno = EAGAIN ∨ r.errno = EWOULDBLOCK) then
    (.sendFailed, c.closed,
      r.events ++ .close c._sockfd :: (c._bio.map Event.bioFree).toList)
  else (.success, c, r.events)

/-! ### The rest -/

def clientGetRecvMsg (c : Client) : List.Vector Byte 4096 := c._recvBuffer

def clientGetSockfd (c : Client) : ℤ := c._sockfd.num

def clientGetUseSSL (c : Client) : ℤ := c._useSSL

def clientClose (c : Client) : Client × List Event :=
  (c.closed, .close c._sockfd :: (c._bio.map Event.bioFree).toList)

def clientClear (c : Client) : Client × List Event :=
  let (c, events) := if 0 < c._sockfd.num then c.clientClose else (c, [])
  ({ c with _sslCtx := false, _useSSL := 0, _recvBuffer := zeros Byte 4096 }, events)

end Client

end MetricServer
