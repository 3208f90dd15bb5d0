import MetricServer.Client.Calls

/-! `Server`: a listening socket. Its start closes the socket again on every error
after `socket` succeeded; clearing it closes a socket with a positive number. -/

namespace MetricServer

inductive ServerCodes where
  | success | invalidPort | socketCreationFailed | socketOptionFailed | bindingFailed
  | listeningFailed
  deriving DecidableEq

@[simp] def ServerCodes.code : ServerCodes → ℤ
  | .success => 0
  | .invalidPort => -1
  | .socketCreationFailed => -2
  | .socketOptionFailed => -3
  | .bindingFailed => -4
  | .listeningFailed => -5

/-- The results of the calls `serverStart` makes. -/
structure StartCalls where
  socket : ℤ
  setReuseAddr : ℤ
  setKeepAlive : ℤ
  bind : ℤ
  listen : ℤ

structure Server where
  _port : ℤ
  _sockfd : Descriptor

namespace Server

def new (port : ℤ) : Server := ⟨port, .invalid⟩

def serverStart (s : Server) (serial : ℕ) (calls : StartCalls) :
    ServerCodes × Server × List Event :=
  if s._port < 1024 ∨ 65535 < s._port then (.invalidPort, s, [])
  else
    let fd : Descriptor := ⟨calls.socket, serial⟩
    let s := { s with _sockfd := fd }
    let closed := { s with _sockfd := .invalid }
    if s._sockfd.num < 0 then (.socketCreationFailed, s, [])
    else if calls.setReuseAddr < 0 then (.socketOptionFailed, closed, [.socket fd, .close fd])
    else if calls.setKeepAlive < 0 then (.socketOptionFailed, closed, [.socket fd, .close fd])
    else if calls.bind ≠ 0 then (.bindingFailed, closed, [.socket fd, .close fd])
    else if calls.listen < 0 then (.listeningFailed, closed, [.socket fd, .close fd])
    else (.success, s, [.socket fd])

def serverGetSockfd (s : Server) : ℤ := s._sockfd.num

def serverClose (s : Server) : Server × List Event :=
  ({ s with _sockfd := .invalid }, if 0 < s._sockfd.num then [.close s._sockfd] else [])

def serverClear (s : Server) : Server × List Event :=
  let (s, events) := if 0 < s._sockfd.num then s.serverClose else (s, [])
  ({ s with _port := -1 }, events)

end Server

end MetricServer
