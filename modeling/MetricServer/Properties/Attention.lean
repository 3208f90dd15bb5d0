import MetricServer.Handler.Presence

/-! Events that `poll` reports for clients. `revents` is a set of bits, and the handler
compares it as a whole: it attends to a client that reports incoming data and nothing
else, or a hang-up and nothing else. -/

namespace MetricServer

open Base Http LoopState

variable {cfg : Config} {u : StartUp} {rounds : List Round} {s : LoopState} {r : Round} {i : ℕ}

/-- The client at position `i` was read on the way to the state `s'`, or it was closed and
is in neither vector any more. -/
def Handled (cfg : Config) (s : LoopState) (i : ℕ) (s' : LoopState) : Prop :=
  ∃ calls, s'.log = s.log ++ calls ∧
    ((∃ off len got, .recv (s.client i).channel off len got ∈ calls) ∨
      (.close (s.client i)._sockfd ∈ calls ∧
        (s.client i)._sockfd ∉ s'.clients.map (·._sockfd) ∧
        s'.fds.length ≤ cfg.listeners + s'.clients.length))

/-- The calls are what the log has more. -/
theorem handled_iff {s' : LoopState} {calls : List Event} (h : s'.log = s.log ++ calls) :
    Handled cfg s i s' ↔
      (∃ off len got, .recv (s.client i).channel off len got ∈ calls) ∨
        (.close (s.client i)._sockfd ∈ calls ∧
          (s.client i)._sockfd ∉ s'.clients.map (·._sockfd) ∧
          s'.fds.length ≤ cfg.listeners + s'.clients.length) := by
  constructor
  · rintro ⟨calls', h', hcalls⟩
    obtain rfl : calls = calls' := List.append_cancel_left (h.symm.trans h')
    exact hcalls
  · exact fun hcalls => ⟨calls, h, hcalls⟩

/-- The shutdown closes the clients with a positive number. -/
theorem Connections.close_mem_closing_iff {t : Connections} {e : Entry} (he : e ∈ t.entries) :
    .close e.client._sockfd ∈ t.closing ↔ 0 < e.pfd.fd := by
  rw [← released_descriptor_iff, released_closing]
  constructor
  · rintro (⟨e', -, hpos, hown⟩ | ⟨d, -, hpos, hd⟩)
    · obtain hd | ⟨b, -, hb⟩ := hown
      · rwa [e.same, Resource.descriptor.inj hd, ← e'.same]
      · cases hb
    · rwa [e.same, Resource.descriptor.inj hd]
  · exact fun hpos => .inl ⟨e, he, hpos, .inl rfl⟩

/-- An entry with events is read or dropped exactly when they are `POLLIN` or `POLLHUP`. -/
theorem Entry.attended_iff {e : Entry} (cfg : Config) (v : Serving) (i : ℕ) (hopen : e.isOpen)
    (hrevents : e.pfd.revents ≠ 0) :
    (e.isReadable ∨ ¬ (e.serve cfg v i).isOpen) ↔
      0 < e.pfd.fd ∧ (e.pfd.revents = POLLIN ∨ e.pfd.revents = POLLHUP) := by
  rw [e.isOpen_serve_iff cfg v i hopen]
  have hmistaken : ¬ mistaken cfg v e.pfd.revents e.client := fun h => hrevents h.2.1
  simp only [isReadable, hmistaken, keeps, ← e.same]
  tauto

/-- There are events, the listening sockets report connections at most, and the accept phase
does not leave the loop. -/
def Regular (cfg : Config) (s : LoopState) (r : Round) : Prop :=
  ¬ r.exitHead ∧ 0 < (poll r.poll s.fds).1 ∧ ¬ listenerTrouble cfg (s.polled r).fds ∧
    ∀ a ∈ s.attempts cfg r, ¬ a.refused cfg

instance (cfg : Config) (s : LoopState) (r : Round) : Decidable (Regular cfg s r) :=
  inferInstanceAs (Decidable (_ ∧ _))

/-- In a regular iteration a client with events is handled exactly when its number is
positive and its events are `POLLIN` alone or `POLLHUP` alone, or the server is
stopping. -/
theorem handled_iff_of_revents (h : Running cfg u rounds s) (hi : i < s.clients.length)
    (hr : Regular cfg s r) (hrevents : s.revents cfg r i ≠ 0) :
    Handled cfg s i (stateOf (loopStep cfg s r)) ↔
      0 < (s.client i)._sockfd.num ∧
        (s.revents cfg r i = POLLIN ∨ s.revents cfg r i = POLLHUP ∨ r.exitPolled) := by
  obtain ⟨hhead, hcount, htrouble, hno⟩ := hr
  obtain ⟨t, ht, -, ho⟩ := h.owned
  have hit := loopStep_iterates ht r
  generalize loopStep cfg s r = out at hit
  cases hit with
  | head hflag => exact absurd hflag hhead
  | polled s₁ _ hflag hs =>
    obtain ⟨hfds, hclients, hlog⟩ := hs.shutdown
    rw [Connections.report_log, ht.log_eq] at hlog
    have hi₁ : i < (t.report cfg r.poll).entries.length := by
      rwa [Connections.length_report, ← ht.length_clients]
    have hsame : (s.client i)._sockfd = (t.report cfg r.poll).entries[i].client._sockfd :=
      congrArg Client._sockfd ((ht.polled r).client_eq hi₁)
    have hclose := Connections.close_mem_closing_iff (List.getElem_mem hi₁)
    rw [Entry.same, ← hsame] at hclose
    have hread : ¬ ∃ off len got, .recv (s.client i).channel off len got ∈
        (t.report cfg r.poll).closing := by
      rintro ⟨off, len, got, hmem⟩
      exact Connections.silent_closing _ _ hmem _ rfl
    rw [stateOf, Final.state, handled_iff hlog, hfds, hclients, hclose, or_iff_right hread]
    simp [hflag]
  | idle _ _ _ hnone => exact absurd hcount hnone
  | trouble s₁ hflag hacc _ _ => exact absurd ⟨hhead, hflag, hcount, htrouble⟩ hacc
  | refused before a _ _ _ has hr => exact absurd hno (not_forall_of_refused has hr)
  | served s₁ t₁ hserves hadm hs =>
    obtain ⟨e, calls, hopen, hpfd, hclient, hlog, hfate⟩ := ht.fate ho hadm hs hi
    have hflag : ¬ r.exitPolled := hserves.1.2.1
    rw [stateOf, handled_iff hlog, LoopState.revents, ← hpfd, ← hclient, hfate.read, hfate.closed,
      hfate.present, ← e.same, or_iff_left (a := e.pfd.revents = POLLHUP) hflag]
    rw [LoopState.revents, ← hpfd] at hrevents
    have hattended := Entry.attended_iff cfg (s.serving cfg r) i hopen hrevents
    simpa only [hs.length_fds.le, and_true, and_self] using hattended

/-- A round in which the one client there is reports `revents`. -/
def Round.reporting (revents : BitVec 16) : Round := .sample [0, revents] 5 6 ""

/-- A client that hangs up is closed. -/
theorem handled_iff_of_revents_sample : ∃ s,
    Running (.sample false) .sample [.sample [POLLIN] 5 6 ""] s ∧
      Handled (.sample false) s 0 (stateOf (loopStep (.sample false) s (.reporting POLLHUP))) := by
  obtain ⟨s, hs, hp⟩ := exists_running (.sample false) .sample [.sample [POLLIN] 5 6 ""]
    (fun s => decide (0 < s.clients.length ∧ Regular (.sample false) s (.reporting POLLHUP) ∧
      s.revents (.sample false) (.reporting POLLHUP) 0 = POLLHUP ∧
      0 < (s.client 0)._sockfd.num)) (by decide)
  obtain ⟨hi, hr, hrevents, hpos⟩ := of_decide_eq_true hp
  have hnone : s.revents (.sample false) (.reporting POLLHUP) 0 ≠ 0 := by
    rw [hrevents]
    decide
  exact ⟨s, hs, (handled_iff_of_revents hs hi hr hnone).mpr ⟨hpos, .inr (.inl hrevents)⟩⟩

/-- A client that sends and hangs up is neither read nor closed. -/
theorem exists_not_handled : ∃ s,
    Running (.sample false) .sample [.sample [POLLIN] 5 6 ""] s ∧ 0 < s.clients.length ∧
      Regular (.sample false) s (.reporting (POLLIN ||| POLLHUP)) ∧
      s.revents (.sample false) (.reporting (POLLIN ||| POLLHUP)) 0 ≠ 0 ∧
      ¬ Handled (.sample false) s 0
        (stateOf (loopStep (.sample false) s (.reporting (POLLIN ||| POLLHUP)))) := by
  obtain ⟨s, hs, hp⟩ := exists_running (.sample false) .sample [.sample [POLLIN] 5 6 ""]
    (fun s => decide (0 < s.clients.length ∧
      Regular (.sample false) s (.reporting (POLLIN ||| POLLHUP)) ∧
      s.revents (.sample false) (.reporting (POLLIN ||| POLLHUP)) 0 ≠ 0 ∧
      (stateOf (loopStep (.sample false) s (.reporting (POLLIN ||| POLLHUP)))).log = s.log))
    (by decide)
  obtain ⟨hi, hr, hrevents, hlog⟩ := of_decide_eq_true hp
  refine ⟨s, hs, hi, hr, hrevents, ?_⟩
  rw [handled_iff (hlog.trans (List.append_nil _).symm)]
  simp

end MetricServer
