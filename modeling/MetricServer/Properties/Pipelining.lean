import MetricServer.Http.Leftover
import MetricServer.Properties.Segments
import MetricServer.Properties.Transmission

/-! Requests that arrive together. A client that is read is sent one response in a round,
whatever it was read: of several requests the first is answered, and the others are gone
with the next read of the buffer. -/

namespace MetricServer

open Base Http LoopState HttpRequest

variable {cfg : Config} {u : StartUp} {rounds later : List Round} {s s' s₁ s₂ : LoopState}
  {r : Round} {i : ℕ} {first : Bytes}

/-! ### The first request -/

/-- What the server makes of a request of the client at position `i` in the round. -/
def LoopState.parsed (r : Round) (i : ℕ) (req : Bytes) : HttpRequest :=
  parsedOn (r.io i).memory req

/-- The response to it. -/
def LoopState.response (s : LoopState) (r : Round) (i : ℕ) (req : Bytes) : Bytes :=
  httpErrorCheck (parsed r i req) (s.db.update r.snapshot)

/-- A receive that succeeds does not fail. -/
theorem Client.not_readsFail_of_success {c : Client} {errno : ℕ} {reads : List ReadResult}
    (h : (c.clientReceive errno reads).1 = .success) : ¬ readsFail 0 errno reads := by
  obtain ⟨-, buffer, hcase⟩ | ⟨hok, -⟩ | ⟨hok, -⟩ := c.clientReceive_cases errno reads
  · rw [hcase] at h
    cases h
  · exact hok
  · exact hok

/-- The object that has parsed what was received answers as one that has parsed the first
request alone. -/
theorem Client.answer_first (c : Client) {io : ClientIO} {rest : Bytes} (hfirst : Complete first)
    (hreceive : (c.clientReceive io.errno io.reads).1 = .success)
    (hbytes : c.receivedBytes io.errno io.reads = first ++ rest) :
    c.answered io ∧
      (∀ db, httpErrorCheck (c.request io) db = httpErrorCheck (parsedOn io.memory first) db) ∧
      ((c.request io).getConnection = ascii "keep-alive" ↔
        (parsedOn io.memory first).getConnection = ascii "keep-alive") := by
  have hcut : cstr (c.receivedBytes io.errno io.reads) = first ++ cstr rest := by
    rw [hbytes, cstr_append_of_notMem rest hfirst.1]
  have hrequest : c.request io = parsedOn io.memory (first ++ cstr rest) := by
    rw [request, hcut, parsedOn]
  rw [hrequest, answered, hcut]
  refine ⟨⟨not_readsFail_of_success hreceive, ?_⟩,
    parsedOn_append hfirst (zero_notMem_cstr rest) io.memory⟩
  rw [← strstr_ne_none_iff, strstr_append _ hfirst.2]
  exact Option.some_ne_none _

/-- What the client is sent in the round, and whether its connection is kept. -/
theorem outcome_of_first (h : Running cfg u rounds s) (hi : i < s.clients.length)
    (hr : s.isRead cfg r i) (hfirst : Complete first) {rest : Bytes}
    (hreceive : ((s.client i).clientReceive (r.io i).errno (r.io i).reads).1 = .success)
    (hbytes : (s.client i).receivedBytes (r.io i).errno (r.io i).reads = first ++ rest) :
    s.sentBack cfg r i = (s.response r i first).take (Client.taken (r.io i).sends) ∧
      (StillOpen cfg s r i ↔
        ¬ ((s.client i).clientSend (s.response r i first) (r.io i).sends).1.code < 0 ∧
          (parsed r i first).getConnection = ascii "keep-alive") := by
  obtain ⟨hsent, hopen⟩ := outcome_of_isRead h hi hr
  obtain ⟨hanswered, hresponse, hkeep⟩ := (s.client i).answer_first hfirst hreceive hbytes
  constructor
  · rw [hsent, Client.answer, if_pos hanswered, hresponse, Client.sendCalls,
      Client.delivered_sendLoop, List.drop_zero]
    rfl
  · rw [hopen, Client.keepsAlive_iff, hresponse, hkeep, and_iff_right hanswered]
    rfl

/-! ### The others -/

/-- A round of service sends nothing through a channel that brings nothing. -/
theorem Owned.delivered_eq_nil {v : Serving} {t : Connections} (h : Owned t) {ch : Channel}
    (hnone : received ch (t.servedEvents cfg v) = []) :
    delivered ch (t.servedEvents cfg v) = [] := by
  apply List.flatMap_eq_nil_iff.mpr
  intro ev hev
  by_contra hne
  obtain ⟨j, hj, hread, rfl, -⟩ :=
    isTransfer_servedEvents hev (not_not.mp (mt Event.delivered_eq_nil hne))
  obtain ⟨hreceived, hdelivered⟩ := Entry.transferred_served cfg v j hread
  rw [h.received_servedEvents hj, hreceived] at hnone
  have hsilent : t.entries[j].client.answer v.db (v.io j) = [] := by
    refine if_neg fun hanswered => absurd hanswered.2 ?_
    rw [hnone]
    decide
  have hall : delivered t.entries[j].client.channel (t.servedEvents cfg v) = _ :=
    h.delivered_servedEvents hj
  rw [hdelivered, hsilent] at hall
  exact hne (List.flatMap_eq_nil_iff.mp hall ev hev)

/-- Nothing is sent in an iteration to a client that nothing comes in from. -/
theorem loopStep_unread (h : Running cfg u rounds s) (hstep : loopStep cfg s r = .next s') :
    ∃ calls, s'.log = s.log ++ calls ∧ ∀ ch, received ch calls = [] → delivered ch calls = [] := by
  obtain ⟨t, ht, -, ho⟩ := h.owned
  have hit := loopStep_iterates ht r
  rw [hstep] at hit
  cases hit with
  | idle _ _ _ _ hs =>
    refine ⟨[], ?_, fun _ _ => rfl⟩
    rw [← hs.log_eq, Connections.report_log, ht.log_eq, List.append_nil]
  | served _ t₁ _ hadm hs =>
    obtain ⟨calls, hlog, hsilent, -⟩ := Admission.log_eq hadm
    have ho₁ : Owned t₁ := (ho.report r.poll).admissions hadm
    refine ⟨calls ++ t₁.servedEvents cfg (s.serving cfg r), ?_, fun ch hnone => ?_⟩
    · rw [← hs.log_eq, Connections.serve, hlog, Connections.report_log, ht.log_eq,
        List.append_assoc]
      rfl
    · rw [received_append, received_eq_nil fun ev hev => hsilent ev hev _, List.nil_append] at hnone
      rw [delivered_append, delivered_eq_nil fun ev hev => hsilent ev hev _, List.nil_append,
        ho₁.delivered_eq_nil hnone]

/-- Nor is anything in any number of iterations. -/
theorem trace_unread (h : Running cfg u rounds s)
    (htrace : Trace (continues (loopStep cfg)) s later s') :
    ∃ calls, s'.log = s.log ++ calls ∧ ∀ ch, received ch calls = [] → delivered ch calls = [] := by
  suffices hall : (∃ rounds, Running cfg u rounds s') ∧ ∃ calls, s'.log = s.log ++ calls ∧
      ∀ ch, received ch calls = [] → delivered ch calls = [] from hall.2
  refine htrace.invariant (I := fun s' => (∃ rounds, Running cfg u rounds s') ∧
    ∃ calls, s'.log = s.log ++ calls ∧ ∀ ch, received ch calls = [] → delivered ch calls = []) ?_
    ⟨⟨rounds, h⟩, [], by simp, fun _ _ => rfl⟩
  rintro r - t t' ⟨⟨rounds, ht⟩, calls, hcalls, hunread⟩ hstep
  obtain ⟨calls', hcalls', hunread'⟩ := loopStep_unread ht hstep
  refine ⟨⟨_, ht.next hstep⟩, calls ++ calls', by rw [hcalls', hcalls, List.append_assoc], ?_⟩
  intro ch hnone
  obtain ⟨hnil, hnil'⟩ := List.append_eq_nil_iff.mp (received_append.symm.trans hnone)
  rw [delivered_append, hunread ch hnil, hunread' ch hnil', List.append_nil]

/-- Until something else comes in from a client, it has been sent what the round sent it. -/
theorem delivered_since (h : Running cfg u rounds s) (hstep : loopStep cfg s r = .next s₁)
    (htrace : Trace (continues (loopStep cfg)) s₁ later s₂)
    (hnone : received (s.client i).channel (s₂.log.drop s₁.log.length) = []) :
    delivered (s.client i).channel (s₂.log.drop s.log.length) = s.sentBack cfg r i := by
  obtain ⟨calls, hcalls, -⟩ := loopStep_unread h hstep
  obtain ⟨calls', hcalls', hunread⟩ := trace_unread (h.next hstep) htrace
  rw [hcalls', List.drop_left] at hnone
  rw [LoopState.sentBack, hstep, stateOf, hcalls', hcalls, List.append_assoc, List.drop_left,
    List.drop_left, delivered_append, hunread _ hnone, List.append_nil]

/-- Of requests that arrive together the first is answered, as if it had come alone, and no
other one is, in this round or later. -/
theorem first_answered (h : Running cfg u rounds s) (hi : i < s.clients.length)
    (hr : s.isRead cfg r i) (hfirst : Complete first) {others : List Bytes}
    (hreceive : ((s.client i).clientReceive (r.io i).errno (r.io i).reads).1 = .success)
    (hbytes : (s.client i).receivedBytes (r.io i).errno (r.io i).reads =
      (first :: others).flatten) :
    s.sentBack cfg r i = (s.response r i first).take (Client.taken (r.io i).sends) ∧
      (StillOpen cfg s r i ↔
        ¬ ((s.client i).clientSend (s.response r i first) (r.io i).sends).1.code < 0 ∧
          (parsed r i first).getConnection = ascii "keep-alive") ∧
      ∀ later s₁ s₂, loopStep cfg s r = .next s₁ →
        Trace (continues (loopStep cfg)) s₁ later s₂ →
        received (s.client i).channel (s₂.log.drop s₁.log.length) = [] →
        delivered (s.client i).channel (s₂.log.drop s.log.length) =
          (s.response r i first).take (Client.taken (r.io i).sends) := by
  obtain ⟨hsent, hopen⟩ := outcome_of_first h hi hr hfirst hreceive hbytes
  refine ⟨hsent, hopen, fun later s₁ s₂ hstep htrace hnone => ?_⟩
  rw [delivered_since h hstep htrace hnone, hsent]

/-! ### Two requests -/

/-- A probe that asks for the connection to be kept. -/
def probe : Bytes := ascii "GET /liveness HTTP/1.1\r\nConnection: keep-alive\r\n\r\n"

/-- Two of them are there when the client is read. -/
def Round.twoProbes : Round := .pieces (.sample false) [probe ++ probe]

/-- They are received, and the calls of the round would take a response to each. -/
def ReadsBoth (s : LoopState) : Prop :=
  0 < s.clients.length ∧ s.isRead (.sample false) .twoProbes 0 ∧
    ((s.client 0).clientReceive (Round.twoProbes.io 0).errno (Round.twoProbes.io 0).reads).1 =
      .success ∧
    (s.client 0).receivedBytes (Round.twoProbes.io 0).errno (Round.twoProbes.io 0).reads =
      [probe, probe].flatten ∧
    s.response .twoProbes 0 probe ≠ [] ∧
    ([probe, probe].flatMap (s.response .twoProbes 0)).length ≤
      Client.taken (Round.twoProbes.io 0).sends

instance (s : LoopState) : Decidable (ReadsBoth s) := inferInstanceAs (Decidable (_ ∧ _))

theorem exists_readsBoth :
    ∃ s, Running (.sample false) .sample [.sample [POLLIN] 5 6 ""] s ∧ ReadsBoth s := by
  obtain ⟨s, hs, hp⟩ := exists_running (.sample false) .sample [.sample [POLLIN] 5 6 ""]
    (fun s => decide (ReadsBoth s)) (by decide +kernel)
  exact ⟨s, hs, of_decide_eq_true hp⟩

theorem complete_probe : Complete probe := by decide +kernel

theorem first_answered_twoProbes : ∃ s,
    Running (.sample false) .sample [.sample [POLLIN] 5 6 ""] s ∧
      s.sentBack (.sample false) .twoProbes 0 =
        (s.response .twoProbes 0 probe).take (Client.taken (Round.twoProbes.io 0).sends) ∧
      (StillOpen (.sample false) s .twoProbes 0 ↔
        ¬ ((s.client 0).clientSend (s.response .twoProbes 0 probe)
            (Round.twoProbes.io 0).sends).1.code < 0 ∧
          (parsed .twoProbes 0 probe).getConnection = ascii "keep-alive") ∧
      ∀ later s₁ s₂, loopStep (.sample false) s .twoProbes = .next s₁ →
        Trace (continues (loopStep (.sample false))) s₁ later s₂ →
        received (s.client 0).channel (s₂.log.drop s₁.log.length) = [] →
        delivered (s.client 0).channel (s₂.log.drop s.log.length) =
          (s.response .twoProbes 0 probe).take (Client.taken (Round.twoProbes.io 0).sends) := by
  obtain ⟨s, hs, hi, hr, hreceive, hbytes, -⟩ := exists_readsBoth
  exact ⟨s, hs, first_answered hs hi hr complete_probe hreceive hbytes⟩

/-- Until something else comes in from the client, it is sent the responses to the requests,
one after another. -/
def EachAnswered (cfg : Config) (s : LoopState) (r : Round) (i : ℕ) (requests : List Bytes) :
    Prop :=
  ∃ later s₁ s₂, loopStep cfg s r = .next s₁ ∧ Trace (continues (loopStep cfg)) s₁ later s₂ ∧
    received (s.client i).channel (s₂.log.drop s₁.log.length) = [] ∧
    delivered (s.client i).channel (s₂.log.drop s.log.length) = requests.flatMap (s.response r i)

/-- The second probe is not answered, although all that is sent is taken. -/
theorem not_eachAnswered :
    ¬ ∀ (cfg : Config) (u : StartUp) (rounds : List Round) (s : LoopState) (r : Round) (i : ℕ)
      (requests : List Bytes), Running cfg u rounds s → i < s.clients.length →
      s.isRead cfg r i → requests ≠ [] →
      (∀ q ∈ requests, Complete q ∧ (parsed r i q).getType = .httpGet ∧
        (parsed r i q).getConnection = ascii "keep-alive") →
      requests.flatten.length ≤ 4094 →
      ((s.client i).clientReceive (r.io i).errno (r.io i).reads).1 = .success →
      (s.client i).receivedBytes (r.io i).errno (r.io i).reads = requests.flatten →
      (requests.flatMap (s.response r i)).length ≤ Client.taken (r.io i).sends →
      EachAnswered cfg s r i requests := by
  intro h
  obtain ⟨s, hs, hi, hr, hreceive, hbytes, hresponse, htaken⟩ := exists_readsBoth
  have hprobe : ∀ q ∈ [probe, probe], Complete q ∧ (parsed .twoProbes 0 q).getType = .httpGet ∧
      (parsed .twoProbes 0 q).getConnection = ascii "keep-alive" := by
    decide +kernel
  obtain ⟨later, s₁, s₂, hstep, htrace, hnone, hall⟩ := h (.sample false) .sample _ s .twoProbes 0
    [probe, probe] hs hi hr (by simp) hprobe (by decide +kernel) hreceive hbytes htaken
  obtain ⟨hsent, -⟩ := outcome_of_first hs hi hr complete_probe hreceive hbytes
  rw [delivered_since hs hstep htrace hnone, hsent] at hall
  have hlen := congrArg List.length hall
  have hpos := List.length_pos_iff.mpr hresponse
  simp only [List.flatMap_cons, List.flatMap_nil, List.append_nil, List.length_append,
    List.length_take] at hlen
  omega

end MetricServer
