import MetricServer.Handler.Presence

/-! Requests that arrive in pieces. The pieces that are there when a client is read are put
together; a request of which only a part is there is malformed, and its client is
dropped without an answer. Nothing of a request is kept from one round to the next. -/

namespace MetricServer

open Base Http LoopState

variable {cfg : Config} {u : StartUp} {rounds : List Round} {s : LoopState} {r r' : Round} {i : ℕ}

/-! ### Pieces in one round -/

/-- Pieces that fit into the buffer are read without a failure. -/
theorem Client.not_readsFail_pieces {pieces : List Bytes} (hne : ∀ b ∈ pieces, b ≠ [])
    (total errno : ℕ) (hlen : total + pieces.flatten.length ≤ 4094) :
    ¬ readsFail total errno (pieces.map .data) := by
  induction pieces generalizing total with
  | nil => simp [readsFail]
  | cons b pieces ih =>
    have hb : 0 < b.length := List.length_pos_iff.mpr (hne b (by simp))
    rw [List.flatten_cons, List.length_append] at hlen
    have hmin : min b.length (4095 - total) = b.length := by omega
    simp only [List.map_cons, readsFail, hmin]
    rw [if_neg (by omega), if_neg (by omega)]
    exact ih (fun c hc => hne c (by simp [hc])) (total + b.length) (by omega)

theorem Client.receiveLoop_pieces (ch : Channel) {pieces : List Bytes} (hne : ∀ b ∈ pieces, b ≠ [])
    (total : ℕ) (h : total ≤ 4095) (buffer : List.Vector Byte 4096) (errno : ℕ)
    (hlen : total + pieces.flatten.length ≤ 4094) :
    received ch (receiveLoop ch total h buffer errno (pieces.map .data)).events =
      pieces.flatten := by
  induction pieces generalizing total buffer with
  | nil => simp [receiveLoop, Event.received]
  | cons b pieces ih =>
    have hb : b ≠ [] := hne b (by simp)
    rw [List.flatten_cons, List.length_append] at hlen
    have htake : b.take (4095 - total) = b := List.take_of_length_le (by omega)
    have hroom : ¬ 4095 ≤ total + b.length := by omega
    have hrest := ih (fun c hc => hne c (by simp [hc])) (total + b.length) (by omega)
    simp only [List.map_cons, receiveLoop, htake, hb, if_false, hroom]
    rw [received_cons, hrest _ (by omega), List.flatten_cons]
    simp [Event.received]

/-- What is received of them is the bytes put together. -/
theorem Client.receivedBytes_pieces (c : Client) {pieces : List Bytes} (hne : ∀ b ∈ pieces, b ≠ [])
    (errno : ℕ) (hlen : pieces.flatten.length ≤ 4094) :
    c.receivedBytes errno (pieces.map .data) = pieces.flatten :=
  receiveLoop_pieces c.channel hne 0 _ _ errno (by omega)

/-! ### A round for one client -/

/-- In the round nothing happens but that the client at position `i` can be read. -/
def Alone (cfg : Config) (r : Round) (i : ℕ) : Prop :=
  ¬ r.exitHead ∧ ¬ r.exitPolled ∧
    r.poll = .ready fun j => if j = cfg.listeners + i then POLLIN else 0

theorem Alone.revents_eq (h : Alone cfg r i) {t : Connections} (ht : Represents cfg s t)
    (hi : i < s.clients.length) : s.revents cfg r i = POLLIN := by
  have hi₁ : i < (t.report cfg r.poll).entries.length := by
    rwa [Connections.length_report, ← ht.length_clients]
  rw [LoopState.revents, (ht.polled r).pfd_eq hi₁]
  simp [Connections.report, Connections.reported, h.2.2]

/-- The listening sockets report nothing. -/
theorem Alone.revents_listener (h : Alone cfg r i) (s : LoopState) {k : ℕ}
    (hk : k < cfg.listeners) :
    ((s.polled r).fds.getD k default).revents = 0 := by
  rcases lt_or_ge k (s.polled r).fds.length with hlt | hge
  · rw [List.getD_eq_getElem _ _ hlt]
    simp only [LoopState.polled, poll, h.2.2, List.getElem_mapIdx]
    rw [if_neg (show ¬ k = cfg.listeners + i by omega), ite_self]
  · rw [List.getD_eq_default _ _ hge]
    rfl

theorem Alone.serves (h : Alone cfg r i) {t : Connections} (ht : Represents cfg s t)
    (hi : i < s.clients.length) : s.serves cfg r := by
  have hin : ¬ (0 : BitVec 16) = POLLIN := by decide
  have hrevents : s.revents cfg r i ≠ 0 := by
    rw [h.revents_eq ht hi]
    decide
  have hcount := count_pos_of_revents h.2.2 hrevents
  have hfirst : ((s.polled r).fds.getD 0 default).revents = 0 :=
    h.revents_listener s cfg.listeners_pos
  have hsecond (hssl : cfg.sslCtx) : ((s.polled r).fds.getD 1 default).revents = 0 :=
    h.revents_listener s (Config.one_lt_listeners hssl)
  have hattempts : s.attempts cfg r = [] := by
    have hhttp : attemptHttp (s.polled r).fds r s.clients.length = [] :=
      if_neg fun hread => hin (hfirst.symm.trans hread)
    have hhttps (held : ℕ) : attemptHttps cfg (s.polled r).fds r held = [] :=
      if_neg fun hread => hin ((hsecond hread.1).symm.trans hread.2)
    unfold attempts
    split_ifs
    · simp [attemptsOn, hhttp, hhttps]
    · rfl
  refine ⟨⟨h.1, h.2.1, hcount, ?_⟩, by simp [hattempts]⟩
  rintro (⟨-, hne⟩ | ⟨hssl, -, hne⟩)
  · exact hne hfirst
  · exact hne (hsecond hssl)

/-- What a client is sent that is read in such a round, and whether it is kept. -/
theorem Alone.outcome (h : Running cfg u rounds s) (hi : i < s.clients.length)
    (hpos : 0 < (s.client i)._sockfd.num) (hr : Alone cfg r i) :
    s.sentBack cfg r i =
        delivered (s.client i).channel ((s.client i).answer (s.db.update r.snapshot) (r.io i)) ∧
      (StillOpen cfg s r i ↔ (s.client i).keepsAlive (s.db.update r.snapshot) (r.io i)) := by
  obtain ⟨t, ht, -, -⟩ := h.owned
  exact outcome_of_isRead h hi ⟨hr.serves ht hi, hpos, hr.revents_eq ht hi⟩

/-! ### Pieces -/

section Pieces
variable {request : Bytes} {pieces : List Bytes}

/-- A request that is there as a whole is received as it is, in whatever pieces. -/
theorem Client.answered_pieces (c : Client) (hlen : request.length ≤ 4094)
    (hne : ∀ b ∈ pieces, b ≠ []) (hcut : pieces.flatten = request) {io : ClientIO}
    (hreads : io.reads = pieces.map .data) :
    ¬ readsFail 0 io.errno io.reads ∧ c.receivedBytes io.errno io.reads = request := by
  rw [hreads]
  refine ⟨not_readsFail_pieces hne 0 io.errno (by rw [hcut]; omega), ?_⟩
  rw [c.receivedBytes_pieces hne io.errno (by rw [hcut]; omega), hcut]

/-- What is made of a request depends on how it is received no further. -/
theorem Client.congr_received (c : Client) (db : MetricDatabase) {io io' : ClientIO}
    (hfail : ¬ readsFail 0 io.errno io.reads) (hfail' : ¬ readsFail 0 io'.errno io'.reads)
    (hbytes : c.receivedBytes io.errno io.reads = c.receivedBytes io'.errno io'.reads)
    (hsends : io.sends = io'.sends) (hmemory : io.memory = io'.memory) :
    c.answer db io = c.answer db io' ∧ (c.keepsAlive db io ↔ c.keepsAlive db io') := by
  have hrequest : c.request io = c.request io' := by rw [request, request, hbytes, hmemory]
  have hanswered : c.answered io ↔ c.answered io' := by
    rw [answered, answered, hbytes]
    exact and_congr_left fun _ => iff_of_true hfail hfail'
  refine ⟨?_, ?_⟩
  · rw [answer, answer, hrequest, hsends]
    exact if_congr hanswered rfl rfl
  · rw [c.keepsAlive_iff, c.keepsAlive_iff, hrequest, hsends, hanswered]

/-- A part of a request is none. -/
theorem not_blank_of_part {first rest : Bytes}
    (hend : strstr (first ++ rest) (ascii "\r\n\r\n") = some ((first ++ rest).length - 4))
    (hrest : rest ≠ []) : ¬ ascii "\r\n\r\n" <:+: first := by
  intro hblank
  obtain ⟨n, hn⟩ := exists_strstr hblank
  have hlen : n + 4 ≤ first.length := length_le_of_strstr hn
  have heq := Option.some.inj ((strstr_append rest hn).symm.trans hend)
  have hpos := List.length_pos_iff.mpr hrest
  rw [List.length_append] at heq
  omega

/-- A request comes out alike in whatever pieces it arrives, when they all are there in one
round; when only some of the pieces are there, the client is sent nothing and its
connection is closed. -/
theorem pieces_alike (h : Running cfg u rounds s) (hi : i < s.clients.length)
    (hpos : 0 < (s.client i)._sockfd.num) (hr : Alone cfg r i) (hr' : Alone cfg r' i)
    (hreq : (0 : Byte) ∉ request) (hlen : request.length ≤ 4094)
    (hend : strstr request (ascii "\r\n\r\n") = some (request.length - 4))
    (hne : ∀ b ∈ pieces, b ≠ []) (hcut : pieces.flatten = request) :
    ((r.io i).reads = pieces.map .data → (r'.io i).reads = [.data request] →
      (r.io i).sends = (r'.io i).sends → (r.io i).memory = (r'.io i).memory →
      r.snapshot = r'.snapshot →
      s.sentBack cfg r i = s.sentBack cfg r' i ∧ (StillOpen cfg s r i ↔ StillOpen cfg s r' i)) ∧
    ∀ before after, pieces = before ++ after → after ≠ [] → (r.io i).reads = before.map .data →
      s.sentBack cfg r i = [] ∧ ¬ StillOpen cfg s r i := by
  obtain ⟨hsent, hopen⟩ := hr.outcome h hi hpos
  obtain ⟨hsent', hopen'⟩ := hr'.outcome h hi hpos
  constructor
  · intro hreads hreads' hsends hmemory hsnapshot
    have hnil : request ≠ [] := by
      rintro rfl
      cases hend
    obtain ⟨hfail, hbytes⟩ := (s.client i).answered_pieces hlen hne hcut hreads
    obtain ⟨hfail', hbytes'⟩ := (s.client i).answered_pieces hlen
      (show ∀ b ∈ [request], b ≠ [] by simpa using hnil) (by simp) hreads'
    obtain ⟨hanswer, hkeeps⟩ := (s.client i).congr_received (s.db.update r.snapshot) hfail hfail'
      (hbytes.trans hbytes'.symm) hsends hmemory
    rw [hsent, hsent', hopen, hopen', hanswer, hkeeps, hsnapshot]
    exact ⟨rfl, Iff.rfl⟩
  · rintro before after rfl hafter hreads
    obtain rfl : before.flatten ++ after.flatten = request := by rw [← hcut, List.flatten_append]
    have hafter' : after.flatten ≠ [] := by
      obtain ⟨b, after, rfl⟩ := List.exists_cons_of_ne_nil hafter
      exact fun h => hne b (by simp) (List.flatten_eq_nil_iff.mp h b (by simp))
    rw [List.length_append] at hlen
    obtain ⟨-, hbytes⟩ := (s.client i).answered_pieces (by omega)
      (fun b hb => hne b (List.mem_append_left _ hb)) rfl hreads
    have hanswered : ¬ (s.client i).answered (r.io i) := by
      rintro ⟨-, hblank⟩
      rw [hbytes, cstr_eq_self fun hzero => hreq (List.mem_append_left _ hzero)] at hblank
      exact not_blank_of_part hend hafter' hblank
    rw [hsent, hopen, Client.answer, if_neg hanswered, (s.client i).keepsAlive_iff]
    exact ⟨rfl, fun hkeeps => hanswered hkeeps.1⟩

end Pieces

/-! ### A request in two pieces -/

/-- A round in which the first client sends these pieces and nothing else happens. -/
def Round.pieces (cfg : Config) (pieces : List Bytes) : Round :=
  { Round.sample [] 5 6 "" with
    poll := .ready fun j => if j = cfg.listeners + 0 then POLLIN else 0
    io := fun _ => { ClientIO.sample "" with reads := pieces.map .data } }

theorem Round.alone_pieces (cfg : Config) (pieces : List Bytes) :
    Alone cfg (.pieces cfg pieces) 0 :=
  ⟨Bool.false_ne_true, Bool.false_ne_true, rfl⟩

/-- Two pieces of a request, which asks for the connection to be kept. -/
def firstPiece : Bytes := ascii "GET / HTTP/1.1\r\nConnec"

def secondPiece : Bytes := ascii "tion: keep-alive\r\n\r\n"

theorem pieces_alike_sample : ∃ s,
    Running (.sample false) .sample [.sample [POLLIN] 5 6 ""] s ∧
      (s.sentBack (.sample false) (.pieces (.sample false) [firstPiece, secondPiece]) 0 =
        s.sentBack (.sample false) (.pieces (.sample false) [firstPiece ++ secondPiece]) 0) ∧
      s.sentBack (.sample false) (.pieces (.sample false) [firstPiece]) 0 = [] := by
  obtain ⟨s, hs, hp⟩ := exists_running (.sample false) .sample [.sample [POLLIN] 5 6 ""]
    (fun s => decide (0 < s.clients.length ∧ 0 < (s.client 0)._sockfd.num)) (by decide)
  obtain ⟨hi, hpos⟩ := of_decide_eq_true hp
  have halike (pieces : List Bytes) := pieces_alike hs hi hpos
    (Round.alone_pieces _ pieces) (Round.alone_pieces _ [firstPiece ++ secondPiece])
    (by decide +kernel) (by decide +kernel) (by decide +kernel) (by decide +kernel)
    (show [firstPiece, secondPiece].flatten = firstPiece ++ secondPiece by simp)
  refine ⟨s, hs, ((halike [firstPiece, secondPiece]).1 rfl rfl rfl rfl rfl).1, ?_⟩
  exact ((halike [firstPiece]).2 [firstPiece] [secondPiece] rfl (by simp) rfl).1

/-- The request is answered and its connection kept when it arrives as a whole; of its first
piece nothing comes. -/
theorem exists_pieces_not_alike : ∃ s,
    Running (.sample false) .sample [.sample [POLLIN] 5 6 ""] s ∧ 0 < s.clients.length ∧
      s.sentBack (.sample false) (.pieces (.sample false) [firstPiece ++ secondPiece]) 0 ≠ [] ∧
      StillOpen (.sample false) s (.pieces (.sample false) [firstPiece ++ secondPiece]) 0 ∧
      s.sentBack (.sample false) (.pieces (.sample false) [firstPiece]) 0 = [] ∧
      ¬ StillOpen (.sample false) s (.pieces (.sample false) [firstPiece]) 0 := by
  obtain ⟨s, hs, hp⟩ := exists_running (.sample false) .sample [.sample [POLLIN] 5 6 ""]
    (fun s =>
      let whole := (Round.pieces (.sample false) [firstPiece ++ secondPiece]).io 0
      let part := (Round.pieces (.sample false) [firstPiece]).io 0
      let db := s.db.update StartUp.sample.snapshot
      decide (0 < s.clients.length ∧ 0 < (s.client 0)._sockfd.num ∧
        delivered (s.client 0).channel ((s.client 0).answer db whole) ≠ [] ∧
        (s.client 0).keepsAlive db whole ∧ ¬ (s.client 0).answered part)) (by decide +kernel)
  obtain ⟨hi, hpos, hsent, hkeeps, hnot⟩ := of_decide_eq_true hp
  obtain ⟨hwhole, hopen⟩ := (Round.alone_pieces _ [firstPiece ++ secondPiece]).outcome hs hi hpos
  obtain ⟨hpart, hclosed⟩ := (Round.alone_pieces _ [firstPiece]).outcome hs hi hpos
  refine ⟨s, hs, hi, hwhole ▸ hsent, hopen.mpr hkeeps, ?_, fun h => ?_⟩
  · rw [hpart, Client.answer, if_neg hnot]
    rfl
  · exact hnot ((Client.keepsAlive_iff _ _ _).mp (hclosed.mp h)).1

end MetricServer
