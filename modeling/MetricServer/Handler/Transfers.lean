import MetricServer.Handler.Ownership

/-! The reads and writes of an iteration. A client that is read is sent, if anything,
the response to the bytes it was read; both go through the channel of that client,
and no two entries share a channel. -/

namespace MetricServer

open Base Http LoopState

/-! ### One request -/

/-- No event of the log is a read or a write. -/
def Silent (log : List Event) : Prop := ∀ e ∈ log, ∀ ch, ¬ e.isTransfer ch

theorem silent_nil : Silent [] := by simp [Silent]

theorem Silent.append {log log' : List Event} (h : Silent log) (h' : Silent log') :
    Silent (log ++ log') := by
  intro e he
  exact (List.mem_append.mp he).elim (h e) (h' e)

namespace Client

variable {c : Client} {errno : ℕ} {reads : List ReadResult}

theorem silent_release (c : Client) : Silent c.release := by
  cases h : c._bio <;> simp [Silent, release, h]

theorem silent_clientClear (c : Client) : Silent c.clientClear.2 := by
  by_cases h : 0 < c._sockfd.num
  · rw [(clientClear_of_pos h).2]
    exact c.silent_release
  · rw [(clientClear_of_not_pos h).2]
    exact silent_nil

/-- A read comes first in a receive. -/
theorem exists_recv (c : Client) (errno : ℕ) (reads : List ReadResult) :
    ∃ off len got, .recv c.channel off len got ∈ c.receiveCalls errno reads := by
  refine ⟨0, 4095, ?_⟩
  rw [receiveCalls]
  cases reads with
  | nil => exact ⟨[], by simp [receiveLoop]⟩
  | cons read reads =>
    cases read with
    | error e => exact ⟨[], by simp [receiveLoop]⟩
    | data chunk =>
      refine ⟨chunk.take 4095, ?_⟩
      simp only [receiveLoop]
      split_ifs <;> simp

/-- The request that a client is read as, parsed into an object on the given memory. -/
def request (c : Client) (io : ClientIO) : HttpRequest :=
  ((HttpRequest.new io.memory).parse (cstr (c.receivedBytes io.errno io.reads))).2

/-- The client is read, and its bytes are a request. -/
def answered (c : Client) (io : ClientIO) : Prop :=
  ¬ readsFail 0 io.errno io.reads ∧
    ascii "\r\n\r\n" <:+: cstr (c.receivedBytes io.errno io.reads)

instance (c : Client) (io : ClientIO) : Decidable (c.answered io) :=
  inferInstanceAs (Decidable (_ ∧ _))

/-- The calls that send the answer, if there is one. -/
def answer (c : Client) (db : MetricDatabase) (io : ClientIO) : List Event :=
  if c.answered io then c.sendCalls (httpErrorCheck (c.request io) db) io.sends else []

theorem answer_send (c : Client) (db : MetricDatabase) (io : ClientIO) :
    ∀ e ∈ c.answer db io, ∃ data n, e = .send c.channel data n ∧
      data <:+ httpErrorCheck (c.request io) db := by
  rw [answer]
  split_ifs
  · exact c.sendCalls_send _ _
  · simp

end Client

/-- What answers a request is the calls that send the response, and closing calls. -/
theorem respond_transfers (db : MetricDatabase) (sends : List SendResult) (pfd : PollFd)
    (c : Client) (req : HttpRequest) (log : List Event) :
    ∃ rest, (respond db sends pfd c req log).events =
        log ++ c.sendCalls (httpErrorCheck req db) sends ++ rest ∧ Silent rest := by
  unfold respond
  obtain h | h := c.clientSend_cases (httpErrorCheck req db) sends
  · simp only [h, ReturnCodes.code, Int.reduceNeg, Int.reduceLT, ↓reduceIte]
    exact ⟨c.release ++ c.closed.clientClear.2, by simp [dropClient],
      c.silent_release.append c.closed.silent_clientClear⟩
  · simp only [h, ReturnCodes.code, lt_self_iff_false, ↓reduceIte]
    split_ifs
    · exact ⟨[], by simp, silent_nil⟩
    · exact ⟨c.clientClear.2, rfl, c.silent_clientClear⟩

/-- A client that is read is read to the end, then sent its answer, and nothing else is
read or sent. -/
theorem handleRequest_transfers (db : MetricDatabase) (io : ClientIO) (pfd : PollFd) (c : Client) :
    ∃ rest, (handleRequest db io pfd c).events =
        c.receiveCalls io.errno io.reads ++ c.answer db io ++ rest ∧ Silent rest := by
  unfold handleRequest
  obtain ⟨hf, buffer, h⟩ | ⟨-, hnil, buffer, h⟩ | ⟨hf, -, buffer, hbuffer, h⟩ :=
    c.clientReceive_cases io.errno io.reads
  · have hanswer : c.answer db io = [] := if_neg fun ha => ha.1 hf
    simp only [h, ReturnCodes.code, Int.reduceNeg, Int.reduceLT, ↓reduceIte, hanswer]
    refine ⟨.close c._sockfd :: (if 0 < c._useSSL then (c._bio.map Event.bioFree).toList else []) ++
      (c.withBuffer buffer).clientClear.2, by simp [dropClient], Silent.append ?_ ?_⟩
    · intro e he ch
      obtain rfl | he := List.mem_cons.mp he
      · simp
      · split at he
        · cases hb : c._bio <;> simp_all
        · cases he
    · exact (c.withBuffer buffer).silent_clientClear
  · have hanswer : c.answer db io = [] := by
      refine if_neg fun ha => absurd ha.2 ?_
      rw [hnil]
      decide
    simp only [h, ReturnCodes.code, Int.reduceNeg, Int.reduceLT, ↓reduceIte, hanswer]
    exact ⟨c.release ++ (c.withBuffer buffer).closed.clientClear.2, by simp [dropClient],
      c.silent_release.append (c.withBuffer buffer).closed.silent_clientClear⟩
  · have hparse := HttpRequest.parse_fails_iff (HttpRequest.new io.memory)
      (cstr (c.receivedBytes io.errno io.reads))
    rw [← hbuffer] at hparse
    simp only [h, ReturnCodes.code, lt_self_iff_false, ↓reduceIte]
    split_ifs with hfails
    · have hanswer : c.answer db io = [] := if_neg fun ha => hparse.mp hfails (hbuffer ▸ ha.2)
      exact ⟨(c.withBuffer buffer).clientClear.2, by simp [dropClient, hanswer],
        (c.withBuffer buffer).silent_clientClear⟩
    · have hanswered : c.answered io := ⟨hf, hbuffer ▸ not_not.mp (mt hparse.mpr hfails)⟩
      have hreq : ((HttpRequest.new io.memory).parse
          (cstr (c.withBuffer buffer).clientGetRecvMsg.1)).2 = c.request io := by
        rw [Client.request, ← hbuffer]
        rfl
      rw [hreq, Client.answer, if_pos hanswered]
      exact respond_transfers db io.sends pfd (c.withBuffer buffer) (c.request io) _

/-! ### One entry -/

/-- A client without SSL reads and writes through its socket, one with SSL through its
BIO, and either tells its number. -/
theorem Client.Wired.serial_of_channel {c c' : Client} (h : c.Wired) (h' : c'.Wired)
    (hch : c.channel = c'.channel) : c._sockfd.serial = c'._sockfd.serial := by
  obtain ⟨huse, hbio⟩ | ⟨huse, hbio⟩ := h <;> obtain ⟨huse', hbio'⟩ | ⟨huse', hbio'⟩ := h' <;>
    simp_all [Client.channel]

namespace Entry

variable {cfg : Config} {v : Serving} {i : ℕ} {e : Entry} {ch : Channel} {ev : Event}

/-- The entry is to be read. -/
def isReadable (e : Entry) : Prop := 0 < e.pfd.fd ∧ e.pfd.revents = POLLIN

theorem served_of_isReadable (cfg : Config) (v : Serving) (i : ℕ) (h : e.isReadable) :
    e.served cfg v i = handleRequest v.db (v.io i) e.pfd e.client := if_pos h

theorem silent_served (h : ¬ e.isReadable) : Silent (e.served cfg v i).events := by
  rw [isReadable] at h
  rw [served, serveClient, if_neg h]
  split_ifs
  · exact e.client.silent_clientClear
  · exact silent_nil

theorem isTransfer_served (hev : ev ∈ (e.served cfg v i).events) (hch : ev.isTransfer ch) :
    e.isReadable ∧ ch = e.client.channel := by
  by_cases h : e.isReadable
  · refine ⟨h, ?_⟩
    obtain ⟨rest, hevents, hrest⟩ := handleRequest_transfers v.db (v.io i) e.pfd e.client
    rw [served_of_isReadable cfg v i h, hevents, List.mem_append, List.mem_append] at hev
    obtain (hev | hev) | hev := hev
    · exact channel_unique hch (e.client.receiveCalls_transfers _ _ ev hev)
    · obtain ⟨data, n, rfl, -⟩ := e.client.answer_send _ _ ev hev
      exact hch.symm
    · exact absurd hch (hrest ev hev ch)
  · exact absurd hch (silent_served h ev hev ch)

/-- What comes in from a client that is read, and what goes out to it. -/
theorem transferred_served (cfg : Config) (v : Serving) (i : ℕ) (h : e.isReadable) :
    received e.client.channel (e.served cfg v i).events =
        e.client.receivedBytes (v.io i).errno (v.io i).reads ∧
      delivered e.client.channel (e.served cfg v i).events =
        delivered e.client.channel (e.client.answer v.db (v.io i)) := by
  obtain ⟨rest, hevents, hrest⟩ := handleRequest_transfers v.db (v.io i) e.pfd e.client
  have hsent : received e.client.channel (e.client.answer v.db (v.io i)) = [] := by
    refine List.flatMap_eq_nil_iff.mpr fun ev hev => ?_
    obtain ⟨data, n, rfl, -⟩ := e.client.answer_send _ _ ev hev
    rfl
  have hread : delivered e.client.channel
      (e.client.receiveCalls (v.io i).errno (v.io i).reads) = [] := by
    refine List.flatMap_eq_nil_iff.mpr fun ev hev => ?_
    obtain ⟨off, got, -, rfl⟩ := e.client.receiveCalls_recv _ _ ev hev
    rfl
  rw [served_of_isReadable cfg v i h, hevents]
  simp [hsent, hread, received_eq_nil fun ev hev => hrest ev hev _,
    delivered_eq_nil fun ev hev => hrest ev hev _, Client.receivedBytes]

/-- What goes out to a client is the response to what came in from it. -/
theorem request_served {data : Bytes} {n : ℕ} (hev : .send ch data n ∈ (e.served cfg v i).events) :
    received ch (e.served cfg v i).events =
        e.client.receivedBytes (v.io i).errno (v.io i).reads ∧
      data <:+ httpErrorCheck (e.client.request (v.io i)) v.db := by
  obtain ⟨h, rfl⟩ := isTransfer_served hev rfl
  refine ⟨(transferred_served cfg v i h).1, ?_⟩
  obtain ⟨rest, hevents, hrest⟩ := handleRequest_transfers v.db (v.io i) e.pfd e.client
  rw [served_of_isReadable cfg v i h, hevents] at hev
  simp only [List.mem_append] at hev
  obtain (hev | hev) | hev := hev
  · obtain ⟨off, got, -, heq⟩ := e.client.receiveCalls_recv _ _ _ hev
    cases heq
  · obtain ⟨data', n', heq, hsuffix⟩ := e.client.answer_send _ _ _ hev
    cases heq
    exact hsuffix
  · exact absurd rfl (hrest _ hev e.client.channel)

end Entry

/-! ### One iteration -/

theorem Attempt.silent_of_concerns {a : Attempt} {serial : ℕ} {log : List Event}
    (h : ∀ e ∈ log, a.Concerns serial e) : Silent log := by
  intro e he ch
  obtain rfl | rfl | rfl | rfl := h e he <;> simp

/-- Admissions read and write nothing, and what they touch has a number of their own. -/
theorem Admission.log_eq {cfg : Config} {t t' : Connections} {as : List Attempt}
    (h : Trace (Admission cfg) t as t') :
    ∃ calls, t'.log = t.log ++ calls ∧ Silent calls ∧
      ∀ r, ledger.Touched calls r → t.serial ≤ r.serial := by
  suffices hall : ∃ calls, t'.log = t.log ++ calls ∧ Silent calls ∧ t.serial ≤ t'.serial ∧
      ∀ r, ledger.Touched calls r → t.serial ≤ r.serial by
    obtain ⟨calls, hlog, hsilent, -, htouched⟩ := hall
    exact ⟨calls, hlog, hsilent, htouched⟩
  refine h.invariant (I := fun t' => ∃ calls, t'.log = t.log ++ calls ∧ Silent calls ∧
    t.serial ≤ t'.serial ∧ ∀ r, ledger.Touched calls r → t.serial ≤ r.serial) ?_
    ⟨[], by simp, silent_nil, le_rfl, by simp⟩
  rintro a - s t' ⟨calls, hs, hcalls, hle, htouched⟩ ⟨-, -, rfl⟩
  have hstep (log : List Event) (hlog : ∀ e ∈ log, a.Concerns s.serial e) :
      Silent (calls ++ log) ∧ ∀ r, ledger.Touched (calls ++ log) r → t.serial ≤ r.serial := by
    refine ⟨hcalls.append (Attempt.silent_of_concerns hlog), fun r hr => ?_⟩
    obtain hr | hr := Ledger.touched_append.mp hr
    · exact htouched r hr
    · exact hle.trans (Attempt.serial_of_concerns hlog (.inr hr)).ge
  have hle' : t.serial ≤ (s.connect a).serial := by
    rw [Connections.connect_serial]
    exact hle.trans (Nat.le_succ _)
  by_cases ha : a.succeeds
  · obtain ⟨hsilent, hr⟩ := hstep (a.events s.serial) fun _ => Attempt.concerns_of_mem_events
    exact ⟨_, by simp [Connections.connect, ha, hs], hsilent, hle', hr⟩
  · obtain ⟨hsilent, hr⟩ := hstep (a.failedEvents s.serial)
      fun _ => Attempt.concerns_of_mem_failedEvents ha
    exact ⟨_, by simp [Connections.connect, ha, hs], hsilent, hle', hr⟩

namespace Connections

theorem silent_stopListening (d : Descriptor) : Silent (stopListening d) := by
  rw [stopListening]
  split_ifs <;> simp [Silent]

theorem silent_closers (t : Connections) {logs : List (List Event)} (h : logs.Perm t.closers) :
    Silent logs.flatten := by
  intro ev hev
  obtain ⟨l, hl, hev⟩ := List.mem_flatten.mp hev
  obtain hl | hl := List.mem_append.mp (h.mem_iff.mp hl)
  · obtain ⟨e, -, rfl⟩ := List.mem_map.mp hl
    exact e.client.silent_clientClear ev hev
  · obtain ⟨d, -, rfl⟩ := List.mem_map.mp hl
    exact silent_stopListening d ev hev

theorem silent_closing (t : Connections) : Silent t.closing := by
  obtain ⟨logs, h, hperm⟩ := t.closing_perm
  exact h ▸ t.silent_closers hperm

theorem silent_aborting (t : Connections) : Silent t.aborting := by
  obtain ⟨logs, h, hperm⟩ := t.aborting_perm
  exact h ▸ t.silent_closers hperm

/-- The calls of a round of service. -/
def servedEvents (cfg : Config) (v : Serving) (t : Connections) : List Event :=
  (t.entries.mapIdx fun i e => (e.served cfg v i).events).flatten

end Connections

/-- What the events of a concatenation amount to is what those of the one log amount to that
has any that count. -/
theorem flatMap_flatten_mapIdx (g : Event → Bytes) (f : ℕ → Entry → List Event) (es : List Entry)
    (j : ℕ) (hj : j < es.length)
    (h : ∀ i, ∀ hi : i < es.length, i ≠ j → ∀ ev ∈ f i es[i], g ev = []) :
    (es.mapIdx f).flatten.flatMap g = (f j es[j]).flatMap g := by
  induction es generalizing f j with
  | nil => simp at hj
  | cons e es ih =>
    rw [List.mapIdx_cons, List.flatten_cons, List.flatMap_append]
    cases j with
    | zero =>
      have hrest : (es.mapIdx fun i => f (i + 1)).flatten.flatMap g = [] := by
        refine List.flatMap_eq_nil_iff.mpr fun ev hev => ?_
        obtain ⟨l, hl, hev⟩ := List.mem_flatten.mp hev
        obtain ⟨i, hi, rfl⟩ := List.mem_mapIdx.mp hl
        exact h (i + 1) (by simpa using hi) (by omega) ev hev
      simp [hrest]
    | succ j =>
      have hfirst : (f 0 e).flatMap g = [] :=
        List.flatMap_eq_nil_iff.mpr (h 0 (by simp) (by omega))
      rw [hfirst, List.nil_append]
      refine ih (fun i => f (i + 1)) j (by simpa using hj) fun i hi hij => ?_
      exact h (i + 1) (by simpa using hi) (by omega)

namespace Owned

variable {cfg : Config} {v : Serving} {t : Connections} {i j : ℕ} {ch : Channel} {ev : Event}

/-- No two entries share a channel. -/
theorem index_eq_of_channel (h : Owned t) (hi : i < t.entries.length) (hj : j < t.entries.length)
    (heq : t.entries[i].client.channel = t.entries[j].client.channel) : i = j :=
  h.index_eq hi hj (Client.Wired.serial_of_channel (h.wired _ (List.getElem_mem hi))
    (h.wired _ (List.getElem_mem hj)) heq)

theorem isTransfer_servedEvents (hev : ev ∈ t.servedEvents cfg v) (hch : ev.isTransfer ch) :
    ∃ i, ∃ hi : i < t.entries.length, t.entries[i].isReadable ∧
      ch = t.entries[i].client.channel ∧ ev ∈ (t.entries[i].served cfg v i).events := by
  obtain ⟨l, hl, hev⟩ := List.mem_flatten.mp hev
  obtain ⟨i, hi, rfl⟩ := List.mem_mapIdx.mp hl
  obtain ⟨hread, hch⟩ := Entry.isTransfer_served hev hch
  exact ⟨i, hi, hread, hch, hev⟩

/-- Another entry's events are not about the channel of an entry. -/
theorem not_isTransfer_served (h : Owned t) (hi : i < t.entries.length) (hj : j < t.entries.length)
    (hij : j ≠ i) :
    ∀ ev ∈ (t.entries[j].served cfg v j).events, ¬ ev.isTransfer t.entries[i].client.channel := by
  intro ev hev hch
  exact hij (h.index_eq_of_channel hj hi (Entry.isTransfer_served hev hch).2.symm)

/-- What comes through the channel of an entry comes when that entry is served. -/
theorem received_servedEvents (h : Owned t) (hi : i < t.entries.length) :
    received t.entries[i].client.channel (t.servedEvents cfg v) =
      received t.entries[i].client.channel (t.entries[i].served cfg v i).events :=
  flatMap_flatten_mapIdx _ _ _ i hi fun _ hj hji _ hev =>
    Event.received_eq_nil (h.not_isTransfer_served hi hj hji _ hev)

theorem delivered_servedEvents (h : Owned t) (hi : i < t.entries.length) :
    delivered t.entries[i].client.channel (t.servedEvents cfg v) =
      delivered t.entries[i].client.channel (t.entries[i].served cfg v i).events :=
  flatMap_flatten_mapIdx _ _ _ i hi fun _ hj hji _ hev =>
    Event.delivered_eq_nil (h.not_isTransfer_served hi hj hji _ hev)

end Owned

end MetricServer
