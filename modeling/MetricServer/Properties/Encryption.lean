import MetricServer.Properties.Survival
import MetricServer.Properties.Usage

/-! Plain and encrypted traffic. A connection that comes in with SSL is given a BIO when
it is accepted, and it is read and written through this BIO alone; one without SSL is
read and written through its socket alone, and a BIO is never made for it. Nothing is
read or written on what was not accepted before. All this is by the numbers that the calls
name, in runs in which none is handed out while the table holds it. -/

namespace MetricServer

open Base Http LoopState

variable {cfg : Config} {u : StartUp} {t : Connections} {ch : Channel}
  {d : Descriptor}
  {before before' log new : List Event}

/-- The channel is that of a connection accepted before: it is its BIO, made before by a server that
uses SSL, or its socket, and the whole log makes no BIO for it. -/
def Sealed (cfg : Config) (before log : List Event) (d : Descriptor) (ch : Channel) : Prop :=
  .accept d ∈ before ∧
    (ch = .socket d ∧ .bioNew d.serial ∉ log ∨
      ch = .bio (some d.serial) ∧ .bioNew d.serial ∈ before ∧ cfg.sslCtx)

/-- A log goes on, without a BIO for a connection accepted before. -/
theorem Sealed.extend (h : Sealed cfg before log d ch) (hbefore : before ⊆ before')
    (hnew : ∀ d, .accept d ∈ before → .bioNew d.serial ∉ new) :
    Sealed cfg before' (log ++ new) d ch := by
  obtain ⟨hd, ⟨hch, hnone⟩ | ⟨hch, hmade, hssl⟩⟩ := h
  · refine ⟨hbefore hd, .inl ⟨hch, ?_⟩⟩
    rw [List.mem_append, not_or]
    exact ⟨hnone, hnew d hd⟩
  · exact ⟨hbefore hd, .inr ⟨hch, hbefore hmade, hssl⟩⟩

/-- A client is given a BIO exactly when it is accepted with SSL. -/
theorem Attempt.sealed {a : Attempt} {n : ℕ} (hok : a.succeeds) (hssl : a.ssl → cfg.sslCtx)
    (hlog : .bioNew n ∉ log) :
    Sealed cfg (log ++ a.events n) (log ++ a.events n) ⟨a.calls.fd, n⟩ (a.client n).channel := by
  obtain ⟨hbio, huse⟩ := a.client_of_succeeds n hok
  have hevents := a.events_eq n hok.1
  refine ⟨List.mem_append_right _ (hevents ▸ List.mem_cons_self), ?_⟩
  cases hs : a.ssl with
  | false =>
    refine .inl ⟨?_, ?_⟩
    · simp [Client.channel, huse, hs, a.client_sockfd]
    · simp [hevents, Attempt.sslEvents, hs, hlog]
  | true =>
    refine .inr ⟨?_, ?_, hssl hs⟩
    · simp [Client.channel, huse, hbio, hs]
    · simp [hevents, Attempt.sslEvents, hs, hok.2 hs]

/-- What goes through the channels, now and so far, is sealed. -/
structure Encrypted (cfg : Config) (t : Connections) : Prop extends Owned t where
  channels : ∀ e ∈ t.entries, ∃ d, Sealed cfg t.log t.log d e.client.channel
  transfers : Past (fun before e => ∀ ch, e.isTransfer ch → ∃ d, Sealed cfg before t.log d ch) t.log

namespace Encrypted

theorem report (h : Encrypted cfg t) (p : PollResult) : Encrypted cfg (t.report cfg p) := by
  refine ⟨h.toOwned.report p, fun e he => ?_, h.transfers⟩
  obtain ⟨e₀, he₀, hc, -⟩ := Connections.mem_reported he
  exact hc ▸ h.channels e₀ he₀

/-- The calls of an attempt make no BIO for an earlier connection. -/
theorem not_bioNew_next (h : Encrypted cfg t) {a : Attempt}
    (hnew : ∀ e ∈ new, a.Concerns t.serial e) (d : Descriptor) (hd : .accept d ∈ t.log) :
    .bioNew d.serial ∉ new := by
  intro hmem
  have hserial := Attempt.serial_of_concerns hnew
    (.inl (show ledger.Acquired new (.bio d.serial) from ⟨_, hmem, rfl⟩))
  have hpast := h.past (.descriptor d) (.inl ⟨_, hd, rfl⟩)
  simp only [Resource.serial] at hserial hpast
  omega

/-- The log goes on with what is read and written on sealed channels. -/
theorem more (h : Encrypted cfg t) (hnew : ∀ d, .accept d ∈ t.log → .bioNew d.serial ∉ new)
    (hsealed : ∀ e ∈ new, ∀ ch, e.isTransfer ch → ∃ d, Sealed cfg t.log t.log d ch) :
    Past (fun before e => ∀ ch, e.isTransfer ch → ∃ d, Sealed cfg before (t.log ++ new) d ch)
      (t.log ++ new) := by
  refine past_append.mpr ⟨?_, past_of_forall fun before e he ch hch => ?_⟩
  · refine h.transfers.mono fun before e hearlier hold ch hch => ?_
    obtain ⟨d, hd⟩ := hold ch hch
    exact ⟨d, hd.extend (List.Subset.refl _) fun d hd => hnew d (hearlier.subset hd)⟩
  · obtain ⟨d, hd⟩ := hsealed e he ch hch
    exact ⟨d, hd.extend (List.subset_append_left _ _) hnew⟩

theorem more_silent (h : Encrypted cfg t) (hsilent : Silent new)
    (hnew : ∀ d, .accept d ∈ t.log → .bioNew d.serial ∉ new) :
    Past (fun before e => ∀ ch, e.isTransfer ch → ∃ d, Sealed cfg before (t.log ++ new) d ch)
      (t.log ++ new) :=
  h.more hnew fun e he ch hch => absurd hch (hsilent e he ch)

theorem connect (h : Encrypted cfg t) (a : Attempt) (hssl : a.ssl → cfg.sslCtx) :
    Encrypted cfg (t.connect a) := by
  obtain ⟨new, hlog, hconcerns, hevents⟩ := t.exists_connect_log a
  have hnew := h.not_bioNew_next hconcerns
  refine ⟨h.toOwned.connect a, fun e he => ?_, ?_⟩
  · rw [hlog]
    obtain he | ⟨rfl, hok⟩ := Connections.mem_connect he
    · obtain ⟨d, hd⟩ := h.channels e he
      exact ⟨d, hd.extend (List.subset_append_left _ _) hnew⟩
    · rw [hevents hok]
      refine ⟨_, Attempt.sealed hok hssl fun hmem => ?_⟩
      exact lt_irrefl _ (h.past (.bio t.serial) (.inl ⟨_, hmem, rfl⟩))
  · rw [hlog]
    exact h.more_silent (Attempt.silent_of_concerns hconcerns) hnew

theorem serve (h : Encrypted cfg t) (v : Serving) : Encrypted cfg (t.serve cfg v) := by
  have hlog : (t.serve cfg v).log = t.log ++ t.servedEvents cfg v := rfl
  have hnew (d : Descriptor) (_ : .accept d ∈ t.log) : .bioNew d.serial ∉ t.servedEvents cfg v := by
    intro hmem
    obtain ⟨l, hl, hmem⟩ := List.mem_flatten.mp hmem
    obtain ⟨i, hi, rfl⟩ := List.mem_mapIdx.mp hl
    exact Entry.not_acquired_served (r := .bio d.serial) ⟨_, hmem, rfl⟩
  refine ⟨h.toOwned.serve v, fun e he => ?_, ?_⟩
  · obtain ⟨e₀, he₀, buffer, hc⟩ := Connections.mem_serve he
    obtain ⟨d, hd⟩ := h.channels e₀ he₀
    rw [hc, hlog]
    exact ⟨d, hd.extend (List.subset_append_left _ _) hnew⟩
  · rw [hlog]
    refine h.more hnew fun e he ch hch => ?_
    obtain ⟨i, hi, -, rfl, -⟩ := Owned.isTransfer_servedEvents he hch
    exact h.channels _ (List.getElem_mem hi)

theorem kept (cfg : Config) : Kept cfg (fun _ _ => True) (Encrypted cfg) :=
  ⟨fun _ p h => h.report p, fun _ _ _ a _ ha _ _ h => h.connect a (ssl_of_mem_attempts ha),
    fun _ _ _ _ _ _ _ _ h => h.serve _⟩

theorem start (hl : t.listeners = opening cfg u) (he : t.entries = [])
    (hn : t.serial = (opening cfg u).length) (hlog : t.log = (opening cfg u).map Event.socket) :
    Encrypted cfg t := by
  refine ⟨.start hl he hn hlog, by simp [he], past_of_forall fun before e hmem ch hch => ?_⟩
  rw [hlog] at hmem
  obtain ⟨d, -, rfl⟩ := List.mem_map.mp hmem
  exact absurd hch (by simp)

end Encrypted

/-! ### Whole runs -/

theorem Connections.bioNew_notMem_closers (t : Connections) {logs : List (List Event)}
    (h : logs.Perm t.closers) (n : ℕ) : .bioNew n ∉ logs.flatten := by
  intro hmem
  obtain ⟨l, hl, hmem⟩ := List.mem_flatten.mp hmem
  exact t.not_acquired_closers (r := .bio n) l (h.mem_iff.mp hl) ⟨_, hmem, rfl⟩

/-- Each read and each write of a run is meant for the BIO of a connection that was accepted with
SSL, or for the socket of one that was not. -/
theorem sealed_runs {s₀ : LoopState} (hs : startUp cfg u = .next s₀) (rounds : List Round) :
    Past (fun before e => ∀ ch, e.isTransfer ch →
        ∃ d, Sealed cfg before (logOf (runs (loopStep cfg) s₀ rounds)) d ch)
      (logOf (runs (loopStep cfg) s₀ rounds)) := by
  obtain ⟨s, t, hout, ht, hI⟩ | ⟨f, t, calls, ends, hout, hI, hall, hcalls, logs, rfl, hperm⟩ :=
    (Encrypted.kept cfg).outcome (fun _ hl he hn hlog => Encrypted.start hl he hn hlog) hs rounds
  · rw [hout, logOf, ← ht.log_eq]
    exact hI.transfers
  · have hsilent : Silent calls ∧ ∀ d, .accept d ∈ t.log → .bioNew d.serial ∉ calls := by
      obtain rfl | ⟨a, -, rfl⟩ := hcalls
      · exact ⟨silent_nil, fun _ _ => List.not_mem_nil⟩
      · have hconcerns : ∀ e ∈ a.events t.serial, a.Concerns t.serial e :=
          fun _ => Attempt.concerns_of_mem_events
        exact ⟨Attempt.silent_of_concerns hconcerns, hI.not_bioNew_next hconcerns⟩
    have hnew (d : Descriptor) (hd : .accept d ∈ t.log) :
        .bioNew d.serial ∉ calls ++ logs.flatten := by
      rw [List.mem_append, not_or]
      exact ⟨hsilent.2 d hd, t.bioNew_notMem_closers hperm d.serial⟩
    rw [hout, logOf, hall]
    exact hI.more_silent (hsilent.1.append (t.silent_closers hperm)) hnew

/-- The connection of a channel is the one whose number the channel goes by. -/
theorem Sealed.eq_of_goesBy (h : Sealed cfg before log d ch) (hdirect : Direct before)
    {d' : Descriptor} {e : Event} (hd' : standsFor before d'.num = some d')
    (hch : e.isTransfer ch) (hgoes : e.goesBy d') : d' = d := by
  rw [Event.goesBy_iff hch] at hgoes
  obtain ⟨hd, ⟨rfl, -⟩ | ⟨rfl, -⟩⟩ := h
  · simpa [eq_comm] using hgoes
  · have hserial : d'.serial = d.serial := by simpa [eq_comm] using hgoes
    have hfound := under_eq hdirect.once (mem_of_standsFor hd')
    rw [hserial, under_eq hdirect.once (mem_handed.mpr ⟨_, hd, rfl⟩)] at hfound
    exact (Option.some.inj hfound).symm

/-- Whatever the clients do and whatever calls fail, as long as no number is handed out while the
table holds it, each read and each write reaches a connection that was accepted with SSL through its
BIO, or one that was not through its socket. -/
theorem sealed_of_transfer {s₀ : LoopState} {rounds : List Round} {after : List Event} {e : Event}
    (hs : startUp cfg u = .next s₀) (hu : Unshared cfg u rounds)
    (hlog : resolved (logOf (runs (loopStep cfg) s₀ rounds)) = before ++ e :: after)
    (htransfer : e.isTransfer ch) :
    ∃ d, standsFor before d.num = some d ∧
      Sealed cfg before (resolved (logOf (runs (loopStep cfg) s₀ rounds))) d ch := by
  have hdirect := direct_runs hs hu
  have hnum : e.byNumber := by cases e <;> trivial
  rw [resolved_runs hs hu] at hlog ⊢
  obtain ⟨d, hd⟩ := sealed_runs hs rounds before e after hlog ch htransfer
  obtain ⟨d', hd', hgoes⟩ := hdirect.past before e after hlog hnum
  rw [hlog] at hdirect
  obtain rfl := hd.eq_of_goesBy hdirect.of_append hd' htransfer hgoes
  exact ⟨d', hd', hd⟩

/-- A client of the port for SSL, and a request from it. -/
def secureClient : List Round :=
  [.sample [0, POLLIN] 5 6 "", .sample [0, 0, POLLIN] 5 6 "GET /liveness HTTP/1.1\r\n\r\n"]

theorem sealed_of_transfer_sample : ∃ s₀, startUp (.sample true) .sample = .next s₀ ∧
    Unshared (.sample true) .sample secureClient ∧
    ∃ before e after, resolved (logOf (runs (loopStep (.sample true)) s₀ secureClient)) =
        before ++ e :: after ∧
      e.isTransfer (.bio (some 2)) ∧ ∃ d, standsFor before d.num = some d ∧
        Sealed (.sample true) before
          (resolved (logOf (runs (loopStep (.sample true)) s₀ secureClient))) d
          (.bio (some 2)) := by
  obtain ⟨s₀, hs₀, hread⟩ := Outcome.exists_of_goes (o := startUp (.sample true) .sample)
    (p := fun s₀ => decide (.recv (.bio (some 2)) 0 4095 (ascii "GET /liveness HTTP/1.1\r\n\r\n") ∈
      resolved (logOf (runs (loopStep (.sample true)) s₀ secureClient)))) (by decide)
  have hu : Unshared (.sample true) .sample secureClient := by decide
  obtain ⟨before, after, hlog⟩ := List.append_of_mem (of_decide_eq_true hread)
  exact ⟨s₀, hs₀, hu, before, _, after, hlog, rfl, sealed_of_transfer hs₀ hu hlog rfl⟩

end MetricServer
