import MetricServer.Base.CString
import MetricServer.Base.Ledger
import MetricServer.Http.Bytes
import Mathlib.Tactic.Simps.Basic

/-! The system and library calls of the server, as its code sees them: what each
call returned is an input, and what was called goes into a log of events. A
descriptor is the number the code holds together with the serial number of the
call that handed it out, so that a number used again is another descriptor. The
calls themselves name the number only: what they reach is the descriptor that the
number stands for by then, which `Handler.Numbers` works out from the log. -/

namespace MetricServer

open Base Http

/-- Two descriptors can have one number; the calls by this number reach the later one. -/
structure Descriptor where
  num : ℤ
  serial : ℕ
  deriving DecidableEq

/-- The value a socket field holds before and after its use. -/
def Descriptor.invalid : Descriptor := ⟨-1, 0⟩

/-- What a read or a write goes through: a socket, or the BIO a pointer names. -/
inductive Channel where
  | socket (d : Descriptor)
  | bio (b : Option ℕ)
  deriving DecidableEq

inductive Resource where
  | descriptor (d : Descriptor)
  | bio (b : ℕ)
  deriving DecidableEq

/-- The calls that the log records. `recv` and `send` stand for `BIO_read` and
`BIO_write` on a BIO; `recv` was offered `len` bytes from offset `off` of the
buffer and stored `got`, `send` was offered `data` and took `sent` bytes of it. -/
inductive Event where
  | socket (d : Descriptor)
  | accept (d : Descriptor)
  | bioNew (b : ℕ)
  | recv (ch : Channel) (off len : ℕ) (got : Bytes)
  | send (ch : Channel) (data : Bytes) (sent : ℕ)
  | close (d : Descriptor)
  | bioFree (b : ℕ)
  deriving DecidableEq

/-- The resource behind a channel. -/
@[simp] def Channel.goesThrough : Channel → Resource → Prop
  | .socket d, r => r = .descriptor d
  | .bio b, r => ∃ n, b = some n ∧ r = .bio n

namespace Event

@[simp] def acquires : Event → Resource → Prop
  | .socket d, r => r = .descriptor d
  | .accept d, r => r = .descriptor d
  | .bioNew b, r => r = .bio b
  | _, _ => False

@[simp] def uses : Event → Resource → Prop
  | .recv ch _ _ _, r => ch.goesThrough r
  | .send ch _ _, r => ch.goesThrough r
  | _, _ => False

@[simp] def releases : Event → Resource → Prop
  | .close d, r => r = .descriptor d
  | .bioFree b, r => r = .bio b
  | _, _ => False

/-- The event is a read or a write through `ch`. -/
@[simp] def isTransfer (ch : Channel) : Event → Prop
  | .recv ch' _ _ _ => ch' = ch
  | .send ch' _ _ => ch' = ch
  | _ => False

end Event

/-- The ledger of descriptors and BIOs: live from the call that returned them to
the call that closes or frees them. -/
@[simps] def ledger : Ledger Event Resource where
  acquires := Event.acquires
  uses := Event.uses
  releases := Event.releases

/-! ### Transfers -/

section Transfers
variable {ch : Channel} {calls : List Event} {r : Resource}

theorem released_descriptor_iff {log : List Event} {d : Descriptor} :
    ledger.Released log (.descriptor d) ↔ .close d ∈ log := by
  constructor
  · rintro ⟨e, he, hr⟩
    cases e <;> simp_all
  · exact fun h => ⟨_, h, rfl⟩

theorem not_acquired_of_transfers (h : ∀ e ∈ calls, e.isTransfer ch) :
    ¬ ledger.Acquired calls r := by
  rintro ⟨e, he, hr⟩
  have := h e he
  cases e <;> simp_all

theorem not_released_of_transfers (h : ∀ e ∈ calls, e.isTransfer ch) :
    ¬ ledger.Released calls r := by
  rintro ⟨e, he, hr⟩
  have := h e he
  cases e <;> simp_all

theorem goesThrough_of_transfers (h : ∀ e ∈ calls, e.isTransfer ch)
    (hr : ledger.Touched calls r) : ch.goesThrough r := by
  obtain ⟨e, he, hr⟩ := hr
  have := h e he
  cases e <;> simp_all [Ledger.touches]

end Transfers

/-! ### What was received and sent -/

/-- The bytes an event received through `ch`. -/
def Event.received (ch : Channel) : Event → Bytes
  | .recv ch' _ _ got => if ch' = ch then got else []
  | _ => []

/-- The bytes an event sent through `ch`. -/
def Event.delivered (ch : Channel) : Event → Bytes
  | .send ch' data n => if ch' = ch then data.take n else []
  | _ => []

/-- The bytes received through `ch` in a log, in order. -/
def received (ch : Channel) (log : List Event) : Bytes := log.flatMap (Event.received ch)

/-- The bytes sent through `ch` in a log, in order. -/
def delivered (ch : Channel) (log : List Event) : Bytes := log.flatMap (Event.delivered ch)

section Transferred
variable {ch ch' : Channel} {log log' : List Event} {e : Event}

@[simp] theorem received_nil : received ch [] = [] := rfl

@[simp] theorem received_cons : received ch (e :: log) = e.received ch ++ received ch log := rfl

@[simp] theorem received_append : received ch (log ++ log') = received ch log ++ received ch log' :=
  List.flatMap_append

@[simp] theorem delivered_append :
    delivered ch (log ++ log') = delivered ch log ++ delivered ch log' :=
  List.flatMap_append

theorem Event.received_eq_nil (h : ¬ e.isTransfer ch) : e.received ch = [] := by
  cases e <;> simp_all [Event.received]

theorem Event.delivered_eq_nil (h : ¬ e.isTransfer ch) : e.delivered ch = [] := by
  cases e <;> simp_all [Event.delivered]

theorem received_eq_nil (h : ∀ e ∈ log, ¬ e.isTransfer ch) : received ch log = [] :=
  List.flatMap_eq_nil_iff.mpr fun e he => Event.received_eq_nil (h e he)

theorem delivered_eq_nil (h : ∀ e ∈ log, ¬ e.isTransfer ch) : delivered ch log = [] :=
  List.flatMap_eq_nil_iff.mpr fun e he => Event.delivered_eq_nil (h e he)

theorem channel_unique (h : e.isTransfer ch) (h' : e.isTransfer ch') : ch = ch' := by
  cases e <;> simp_all

end Transferred

/-! ### Results of calls -/

def EINTR : ℕ := 4

def EAGAIN : ℕ := 11

def EWOULDBLOCK : ℕ := 11

/-- The results of the calls `clientAccept` makes, and what the memory of the new
`Client` object held before. -/
structure AcceptCalls where
  fd : ℤ
  setRecvTimeout : ℤ
  setSendTimeout : ℤ
  bioNew : Bool
  bioGetSSL : ℤ
  sslSetFd : ℤ
  sslAccept : ℤ
  memory : List.Vector Byte 4096

/-- One result of `recv` or `BIO_read`: bytes, none at the end of the stream, or a
failure with the error number it sets. A call gets no more bytes than it asked
for. -/
inductive ReadResult where
  | data (chunk : Bytes)
  | error (errno : ℕ)

/-- One result of `send` or `BIO_write`: a number of bytes, of those offered, or a
failure. -/
inductive SendResult where
  | sent (n : ℕ)
  | error (errno : ℕ)

end MetricServer
