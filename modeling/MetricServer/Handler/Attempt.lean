import MetricServer.Handler.Table

/-! Attempts to accept a connection. An attempt is a call of `clientAccept` in an
iteration, with the number of clients in the table when its limit is looked at.
What an attempt does to the ledger is said here for all of them: it concerns the
one descriptor and the one BIO that carry its serial number. -/

namespace MetricServer

open Base Http LoopState

/-- The number of the call that handed a resource out. -/
@[simp] def Resource.serial : Resource → ℕ
  | .descriptor d => d.serial
  | .bio b => b

structure Attempt where
  ssl : Bool
  calls : AcceptCalls
  held : ℕ

namespace Attempt

/-- The calls that set up SSL all succeed. -/
def sslOk (a : Attempt) : Prop :=
  a.calls.bioNew ∧ a.calls.bioGetSSL = 1 ∧ a.calls.sslSetFd = 1 ∧ 0 < a.calls.sslAccept

instance (a : Attempt) : Decidable a.sslOk := inferInstanceAs (Decidable (_ ∧ _))

/-- `clientAccept` succeeds. -/
def succeeds (a : Attempt) : Prop := 0 ≤ a.calls.fd ∧ (a.ssl → a.sslOk)

instance (a : Attempt) : Decidable a.succeeds := inferInstanceAs (Decidable (_ ∧ _))

/-- A connection is accepted while more clients than the limit are in the table. -/
def refused (cfg : Config) (a : Attempt) : Prop := a.succeeds ∧ cfg.metricMaxConnections < a.held

instance (cfg : Config) (a : Attempt) : Decidable (a.refused cfg) :=
  inferInstanceAs (Decidable (_ ∧ _))

/-- The number of timeouts that could not be set. -/
def timeouts (a : Attempt) : ℕ :=
  (if a.calls.setRecvTimeout < 0 then 1 else 0) + if a.calls.setSendTimeout < 0 then 1 else 0

/-- The result of `clientAccept` when `serial` descriptors have been handed out. -/
def accept (a : Attempt) (serial : ℕ) : ReturnCodes × Client × List Event :=
  (Client.new a.calls.memory).clientAccept serial a.ssl a.calls

def client (a : Attempt) (serial : ℕ) : Client := (a.accept serial).2.1

def events (a : Attempt) (serial : ℕ) : List Event := (a.accept serial).2.2

/-- The calls of an attempt that fails, with the `clientClear` that follows. -/
def failedEvents (a : Attempt) (serial : ℕ) : List Event :=
  a.events serial ++ (a.client serial).clientClear.2

/-- The calls that set up SSL, or fail to. -/
def sslEvents (a : Attempt) (serial : ℕ) : List Event :=
  if ¬ a.ssl then []
  else if a.sslOk then [.bioNew serial]
  else if a.calls.bioNew then
    [.bioNew serial, .close ⟨a.calls.fd, serial⟩, .bioFree serial]
  else [.close ⟨a.calls.fd, serial⟩]

section
variable (a : Attempt) (serial : ℕ)

/-- Setting up SSL ends in one of three ways. -/
theorem acceptOpenSSLConnection_eq (d : Descriptor) :
    Client.acceptOpenSSLConnection d serial a.calls =
      if a.sslOk then (true, some serial, [.bioNew serial])
      else if a.calls.bioNew then (false, none, [.bioNew serial, .close d, .bioFree serial])
      else (false, none, [.close d]) := by
  unfold Client.acceptOpenSSLConnection sslOk Client.handleOpenSSLConnectionError
  by_cases h₁ : a.calls.bioNew
  · by_cases h₂ : a.calls.bioGetSSL ≠ 1 ∨ a.calls.sslSetFd ≠ 1 ∨ a.calls.sslAccept ≤ 0
    · have h₃ : ¬ (a.calls.bioGetSSL = 1 ∧ a.calls.sslSetFd = 1 ∧ 0 < a.calls.sslAccept) := by omega
      simp [h₁, h₃]
    · have h₃ : a.calls.bioGetSSL = 1 ∧ a.calls.sslSetFd = 1 ∧ 0 < a.calls.sslAccept := by omega
      simp [h₁, h₃]
  · simp [h₁]

theorem accept_code : (a.accept serial).1.code < 0 ↔ ¬ a.succeeds := by
  unfold accept Client.clientAccept succeeds
  simp only [acceptOpenSSLConnection_eq, ← not_lt]
  split_ifs <;> simp_all

theorem client_sockfd : (a.client serial)._sockfd = ⟨a.calls.fd, serial⟩ := by
  unfold client accept Client.clientAccept
  simp only
  split_ifs <;> rfl

/-- A client that was accepted has a BIO exactly when it uses SSL. -/
theorem client_of_succeeds (h : a.succeeds) :
    (a.client serial)._bio = (if a.ssl then some serial else none) ∧
      (a.client serial)._useSSL = if a.ssl then 1 else 0 := by
  unfold client accept Client.clientAccept
  simp only [acceptOpenSSLConnection_eq, not_lt.mpr h.1, if_false]
  cases hs : a.ssl with
  | false => simp [Client.new]
  | true => simp [h.2 hs]

theorem client_bio_of_not_succeeds (h : ¬ a.succeeds) : (a.client serial)._bio = none := by
  unfold client accept Client.clientAccept
  unfold succeeds at h
  simp only [acceptOpenSSLConnection_eq, ← not_lt] at h ⊢
  split_ifs <;> simp_all [Client.new]

theorem events_of_neg (h : a.calls.fd < 0) : a.events serial = [] := by
  unfold events accept Client.clientAccept
  simp [h]

theorem events_eq (h : 0 ≤ a.calls.fd) :
    a.events serial = .accept ⟨a.calls.fd, serial⟩ ::
      (List.replicate a.timeouts (.close ⟨a.calls.fd, serial⟩) ++ a.sslEvents serial) := by
  have htimers (c : Client) : (c.setTimeout a.calls.setRecvTimeout).2 ++
      (c.setTimeout a.calls.setSendTimeout).2 = List.replicate a.timeouts (.close c._sockfd) := by
    unfold Client.setTimeout timeouts
    split_ifs <;> rfl
  unfold events accept Client.clientAccept sslEvents
  simp only [not_lt.mpr h, if_false, Client.clientSetRecvTimeout, Client.clientSetSendTimeout,
    List.cons_append, htimers, acceptOpenSSLConnection_eq]
  split_ifs <;> simp_all

theorem failedEvents_eq (h : ¬ a.succeeds) :
    a.failedEvents serial = a.events serial ++
      List.replicate (if 0 < a.calls.fd then 1 else 0) (.close ⟨a.calls.fd, serial⟩) := by
  have hnum : (a.client serial)._sockfd.num = a.calls.fd := by rw [client_sockfd]
  rw [failedEvents]
  split_ifs with hfd
  · rw [(Client.clientClear_of_pos (hnum ▸ hfd)).2, Client.release, client_sockfd,
      client_bio_of_not_succeeds a serial h]
    rfl
  · rw [(Client.clientClear_of_not_pos (hnum ▸ hfd)).2]
    rfl

end

/-! ### The ledger of an attempt -/

section
variable {a : Attempt} {serial : ℕ} {r : Resource} {d : Descriptor} {n : ℕ}

@[simp] theorem acquired_closes : ¬ ledger.Acquired (List.replicate n (.close d)) r := by
  simp [Ledger.Acquired]

@[simp] theorem released_closes :
    ledger.Released (List.replicate n (.close d)) r ↔ n ≠ 0 ∧ r = .descriptor d := by
  simp [Ledger.Released]

/-- The event is about the descriptor or the BIO of the attempt. -/
def Concerns (a : Attempt) (serial : ℕ) (e : Event) : Prop :=
  e = .accept ⟨a.calls.fd, serial⟩ ∨ e = .close ⟨a.calls.fd, serial⟩ ∨ e = .bioNew serial ∨
    e = .bioFree serial

theorem concerns_of_mem_events {e : Event} (h : e ∈ a.events serial) : a.Concerns serial e := by
  unfold Concerns
  rcases lt_or_ge a.calls.fd 0 with hfd | hfd
  · simp [events_of_neg a serial hfd] at h
  · rw [events_eq a serial hfd, sslEvents] at h
    split_ifs at h <;> simp_all <;> tauto

theorem concerns_of_mem_failedEvents (hf : ¬ a.succeeds) {e : Event}
    (h : e ∈ a.failedEvents serial) : a.Concerns serial e := by
  rw [failedEvents_eq a serial hf, List.mem_append] at h
  rcases h with h | h
  · exact concerns_of_mem_events h
  · exact .inr (.inl (List.eq_of_mem_replicate h))

/-- What the events of an attempt acquire or touch carries its serial number. -/
theorem serial_of_concerns {log : List Event} (h : ∀ e ∈ log, a.Concerns serial e)
    (hr : ledger.Acquired log r ∨ ledger.Touched log r) : r.serial = serial := by
  obtain ⟨e, he, hr⟩ | ⟨e, he, hr⟩ := hr
  all_goals
    obtain rfl | rfl | rfl | rfl := h e he <;> simp [Ledger.touches] at hr <;> simp [hr]

/-- An attempt that succeeds acquires what its client owns. -/
theorem acquired_events (h : a.succeeds) :
    ledger.Acquired (a.events serial) r ↔ (a.client serial).owns r := by
  rw [events_eq a serial h.1, sslEvents, Client.owns, client_sockfd,
    (client_of_succeeds a serial h).1]
  cases hs : a.ssl with
  | false => simp
  | true => simp [h.2 hs]

theorem released_events (h : a.succeeds) :
    ledger.Released (a.events serial) r ↔
      a.timeouts ≠ 0 ∧ r = .descriptor ⟨a.calls.fd, serial⟩ := by
  rw [events_eq a serial h.1, sslEvents]
  cases hs : a.ssl with
  | false => simp
  | true => simp [h.2 hs]

/-- An attempt that fails leaves nothing open. -/
theorem settled_failedEvents (h : ¬ a.succeeds) : ledger.Settled (a.failedEvents serial) := by
  intro r
  rw [failedEvents_eq a serial h]
  rcases lt_or_ge a.calls.fd 0 with hfd | hfd
  · simp [events_of_neg a serial hfd]
  · have hssl : a.ssl ∧ ¬ a.sslOk := by simpa [succeeds, hfd] using h
    rw [events_eq a serial hfd, sslEvents]
    by_cases hb : a.calls.bioNew <;> simp [hssl, hb] <;> tauto

theorem disciplined_events (h : a.succeeds) (ht : a.timeouts ≤ 1) :
    ledger.Disciplined (a.events serial) := by
  rw [events_eq a serial h.1, sslEvents]
  obtain ht | ht : a.timeouts = 0 ∨ a.timeouts = 1 := by omega
  all_goals cases hs : a.ssl with
  | false => simp [Ledger.Disciplined, ht]
  | true => simp [Ledger.Disciplined, Ledger.touches, ht, h.2 hs]

theorem disciplined_failedEvents (h : ¬ a.succeeds)
    (hfd : a.calls.fd < 0 ∨ a.calls.fd = 0 ∧ a.timeouts = 0) :
    ledger.Disciplined (a.failedEvents serial) := by
  rw [failedEvents_eq a serial h]
  obtain hfd | ⟨hfd, ht⟩ := hfd
  · simp [events_of_neg a serial hfd, not_lt.mpr hfd.le]
  · have hssl : a.ssl ∧ ¬ a.sslOk := by simpa [succeeds, hfd] using h
    rw [events_eq a serial hfd.ge, sslEvents]
    by_cases hb : a.calls.bioNew <;>
      simp [Ledger.Disciplined, Ledger.touches, hssl, hb, hfd, ht]

end
end Attempt
end MetricServer
