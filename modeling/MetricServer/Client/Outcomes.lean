import MetricServer.Client.Client

/-! What the member functions of a client can do, once for all: which object they
leave and which calls they make. A client owns the descriptor and the BIO its
fields name; reading and writing touch nothing else. Whether reading fails is a
matter of the results of the calls and, when the buffer fills up, of the `errno`
left over from before. -/

namespace MetricServer

open Base Http

namespace Client

/-- The resources the fields name. -/
def owns (c : Client) (r : Resource) : Prop :=
  r = .descriptor c._sockfd ∨ ∃ b, c._bio = some b ∧ r = .bio b

/-- The calls that give both back. -/
def release (c : Client) : List Event := .close c._sockfd :: (c._bio.map Event.bioFree).toList

section WithBuffer
variable (c : Client) (buffer : List.Vector Byte 4096)

@[simp] theorem withBuffer_release : (c.withBuffer buffer).release = c.release := rfl

@[simp] theorem closed_sockfd : c.closed._sockfd = .invalid := rfl

end WithBuffer

theorem owns_of_channel {c : Client} {r : Resource} (h : c.channel.goesThrough r) : c.owns r := by
  rw [channel] at h
  split at h
  next => exact .inl h
  next => exact .inr h

@[simp] theorem released_release {c : Client} {r : Resource} :
    ledger.Released c.release r ↔ c.owns r := by
  cases h : c._bio <;> simp [release, owns, h]

@[simp] theorem touched_release {c : Client} {r : Resource} :
    ledger.Touched c.release r ↔ c.owns r := by
  cases h : c._bio <;> simp [release, owns, h, Ledger.touches]

@[simp] theorem not_acquired_release {c : Client} {r : Resource} :
    ¬ ledger.Acquired c.release r := by
  cases h : c._bio <;> simp [release, h]

theorem disciplined_release (c : Client) : ledger.Disciplined c.release := by
  cases h : c._bio <;> simp [release, h, Ledger.Disciplined, Ledger.touches]

/-! ### Clearing -/

theorem clientClear_of_pos {c : Client} (h : 0 < c._sockfd.num) :
    c.clientClear.1._sockfd = .invalid ∧ c.clientClear.2 = c.release := by
  simp [clientClear, clientClose, h, release]

theorem clientClear_of_not_pos {c : Client} (h : ¬ 0 < c._sockfd.num) :
    c.clientClear.1._sockfd = c._sockfd ∧ c.clientClear.2 = [] := by
  simp [clientClear, h]

theorem clientClear_of_invalid {c : Client} (h : c._sockfd = .invalid) :
    c.clientClear.1._sockfd = .invalid ∧ c.clientClear.2 = [] := by
  have := clientClear_of_not_pos (c := c) (by simp [h, Descriptor.invalid])
  rwa [h] at this

/-! ### Receiving -/

/-- Reading fails, `total` bytes being in the buffer: a call fails for another
reason than having to wait, or the buffer is full and `errno` holds another
reason. -/
def readsFail : ℕ → ℕ → List ReadResult → Bool
  | _, _, [] => false
  | _, _, .error e :: _ => e != EAGAIN
  | total, errno, .data chunk :: rest =>
    let n := min chunk.length (4095 - total)
    if n = 0 then false
    else if 4095 ≤ total + n then errno != EAGAIN
    else readsFail (total + n) errno rest

theorem receiveLoop_failed_iff (ch : Channel) (total : ℕ) (h : total ≤ 4095)
    (buffer : List.Vector Byte 4096) (errno : ℕ) (reads : List ReadResult) :
    (receiveLoop ch total h buffer errno reads).failed ↔ readsFail total errno reads := by
  induction reads generalizing total buffer with
  | nil => simp [receiveLoop, Received.failed, readsFail]
  | cons read reads ih =>
    cases read with
    | error e => simp [receiveLoop, Received.failed, readsFail, EWOULDBLOCK, EAGAIN]
    | data chunk =>
      have hn : min chunk.length (4095 - total) = (chunk.take (4095 - total)).length := by
        rw [List.length_take, Nat.min_comm]
      simp only [receiveLoop, readsFail, hn, List.length_eq_zero_iff]
      split_ifs with h₁ h₂
      · simp [Received.failed]
      · simp [Received.failed, EWOULDBLOCK, EAGAIN]
      · exact ih _ _ _

/-- The calls of the loop are reads, each into what is left of the buffer. -/
theorem receiveLoop_recv (ch : Channel) {total : ℕ} (h : total < 4095)
    (buffer : List.Vector Byte 4096) (errno : ℕ) (reads : List ReadResult) :
    ∀ e ∈ (receiveLoop ch total h.le buffer errno reads).events,
      ∃ off got, off < 4095 ∧ e = .recv ch off (4095 - off) got := by
  have hcall (got : Bytes) : ∃ off got', off < 4095 ∧
      Event.recv ch total (4095 - total) got = .recv ch off (4095 - off) got' :=
    ⟨total, got, h, rfl⟩
  induction reads generalizing total buffer with
  | nil => exact List.forall_mem_singleton.mpr (hcall _)
  | cons read reads ih =>
    cases read with
    | error e => exact List.forall_mem_singleton.mpr (hcall _)
    | data chunk =>
      simp only [receiveLoop]
      split_ifs with hnil hfull
      · exact List.forall_mem_singleton.mpr (hcall _)
      · exact List.forall_mem_singleton.mpr (hcall _)
      · have hmore := not_le.mp hfull
        exact List.forall_mem_cons.mpr ⟨hcall _, ih hmore _ fun got => ⟨_, got, hmore, rfl⟩⟩

/-- The buffer holds what was there before the loop and what the loop received, and
zeros after it. -/
theorem receiveLoop_buffer (ch : Channel) (total : ℕ) (h : total ≤ 4095)
    (buffer : List.Vector Byte 4096) (errno : ℕ) (reads : List ReadResult) (before : Bytes)
    (hlen : before.length = total)
    (hbuffer : buffer.1 = before ++ List.replicate (4096 - total) 0) :
    let r := receiveLoop ch total h buffer errno reads
    (before ++ received ch r.events).length = r.totalBytes ∧
      r.buffer.1 = before ++ received ch r.events ++ List.replicate (4096 - r.totalBytes) 0 := by
  induction reads generalizing total buffer before with
  | nil => simp [receiveLoop, Event.received, hlen, hbuffer]
  | cons read reads ih =>
    cases read with
    | error e => simp [receiveLoop, Event.received, hlen, hbuffer]
    | data chunk =>
      have hgot : (chunk.take (4095 - total)).length ≤ 4095 - total := List.length_take_le _ _
      have hlen' : (before ++ chunk.take (4095 - total)).length =
          total + (chunk.take (4095 - total)).length := by rw [List.length_append, hlen]
      have hstore : (store buffer total (chunk.take (4095 - total)) (by omega)).1 =
          before ++ chunk.take (4095 - total) ++
            List.replicate (4096 - (total + (chunk.take (4095 - total)).length)) 0 := by
        simp only [store, hbuffer, ← hlen, List.take_left, List.drop_append, List.drop_replicate]
        simp [Nat.sub_sub]
      simp only [receiveLoop]
      split_ifs with hnil hfull
      · simp [Event.received, hlen, hbuffer, hnil]
      · simp [Event.received, hlen, hstore]
      · have hrest := ih _ (by omega) _ _ hlen' hstore
        simpa [Event.received, List.append_assoc] using hrest

/-- A receive starts at the beginning of the buffer. -/
theorem start_le : 0 ≤ 4095 := Nat.zero_le _

/-- The calls of a receive. -/
def receiveCalls (c : Client) (errno : ℕ) (reads : List ReadResult) : List Event :=
  (receiveLoop c.channel 0 start_le (zeros Byte 4096) errno reads).events

theorem receiveCalls_recv (c : Client) (errno : ℕ) (reads : List ReadResult) :
    ∀ e ∈ c.receiveCalls errno reads,
      ∃ off got, off < 4095 ∧ e = .recv c.channel off (4095 - off) got :=
  receiveLoop_recv _ (show 0 < 4095 by omega) _ _ _

theorem receiveCalls_transfers (c : Client) (errno : ℕ) (reads : List ReadResult) :
    ∀ e ∈ c.receiveCalls errno reads, e.isTransfer c.channel := by
  intro e he
  obtain ⟨off, got, -, rfl⟩ := c.receiveCalls_recv errno reads e he
  rfl

/-- The bytes of a receive. -/
def receivedBytes (c : Client) (errno : ℕ) (reads : List ReadResult) : Bytes :=
  received c.channel (c.receiveCalls errno reads)

/-- A receive fails with the client closed and its fields left as they were, or it
finds the stream at its end and closes the client, or it leaves the bytes in the
buffer. -/
theorem clientReceive_cases (c : Client) (errno : ℕ) (reads : List ReadResult) :
    (readsFail 0 errno reads ∧ ∃ buffer,
      c.clientReceive errno reads =
        (.receiveFailed, c.withBuffer buffer,
          c.receiveCalls errno reads ++ .close c._sockfd ::
            if 0 < c._useSSL then (c._bio.map Event.bioFree).toList else [])) ∨
    (¬ readsFail 0 errno reads ∧ c.receivedBytes errno reads = [] ∧ ∃ buffer,
      c.clientReceive errno reads =
        (.receiveFailed, (c.withBuffer buffer).closed,
          c.receiveCalls errno reads ++ c.release)) ∨
    (¬ readsFail 0 errno reads ∧ c.receivedBytes errno reads ≠ [] ∧ ∃ buffer,
      cstr buffer.1 = cstr (c.receivedBytes errno reads) ∧
        c.clientReceive errno reads =
          (.success, c.withBuffer buffer, c.receiveCalls errno reads)) := by
  obtain ⟨hlen, hbuffer⟩ :=
    receiveLoop_buffer c.channel 0 (by omega) (zeros Byte 4096) errno reads [] rfl rfl
  rw [List.nil_append] at hlen hbuffer
  rw [← receiveLoop_failed_iff c.channel 0 (by omega) (zeros Byte 4096), clientReceive]
  rw [← receiveCalls, ← receivedBytes] at hlen hbuffer
  by_cases h₁ : (receiveLoop c.channel 0 (by omega) (zeros Byte 4096) errno reads).failed
  · exact .inl ⟨h₁, _, if_pos h₁⟩
  rw [if_neg h₁]
  by_cases h₂ : (receiveLoop c.channel 0 (by omega) (zeros Byte 4096) errno reads).totalBytes = 0
  · exact .inr (.inl ⟨h₁, List.eq_nil_of_length_eq_zero (hlen.trans h₂), _, if_pos h₂⟩)
  · refine .inr (.inr ⟨h₁, fun h => h₂ (by rw [← hlen, h]; rfl), _, ?_, if_neg h₂⟩)
    have hle := (receiveLoop c.channel 0 (by omega) (zeros Byte 4096) errno reads).totalBytes_le
    obtain ⟨k, hk⟩ : ∃ k, 4096 - (c.receivedBytes errno reads).length = k + 1 :=
      ⟨4095 - (c.receivedBytes errno reads).length, by omega⟩
    simp only [setNul, hbuffer, ← hlen, hk, List.replicate_succ]
    rw [List.set_append_right _ _ le_rfl, Nat.sub_self, List.set_cons_zero, cstr_append_zero]

/-! ### Sending -/

/-- The calls of the loop are writes, and every one offers a rest of the buffer. -/
theorem sendLoop_send (ch : Channel) (sendBuffer : Bytes) (total : ℕ) (sends : List SendResult) :
    ∀ e ∈ (sendLoop ch sendBuffer total sends).events,
      ∃ data n, e = .send ch data n ∧ data <:+ sendBuffer := by
  induction sends generalizing total with
  | nil => simp [sendLoop, List.drop_suffix]
  | cons send sends ih =>
    cases send with
    | error e => simp [sendLoop, List.drop_suffix]
    | sent n =>
      simp only [sendLoop]
      split_ifs
      · simp [List.drop_suffix]
      · simpa [List.drop_suffix] using ih _

/-- The calls of a send. -/
def sendCalls (c : Client) (sendBuffer : Bytes) (sends : List SendResult) : List Event :=
  (sendLoop c.channel sendBuffer 0 sends).events

theorem sendCalls_send (c : Client) (sendBuffer : Bytes) (sends : List SendResult) :
    ∀ e ∈ c.sendCalls sendBuffer sends,
      ∃ data n, e = .send c.channel data n ∧ data <:+ sendBuffer :=
  sendLoop_send _ _ _ _

theorem sendCalls_transfers (c : Client) (sendBuffer : Bytes) (sends : List SendResult) :
    ∀ e ∈ c.sendCalls sendBuffer sends, e.isTransfer c.channel := by
  intro e he
  obtain ⟨data, n, rfl, -⟩ := c.sendCalls_send sendBuffer sends e he
  rfl

/-- A send fails with the client closed, or it leaves the client as it was. -/
theorem clientSend_cases (c : Client) (sendBuffer : Bytes) (sends : List SendResult) :
    c.clientSend sendBuffer sends =
      (.sendFailed, c.closed, c.sendCalls sendBuffer sends ++ c.release) ∨
    c.clientSend sendBuffer sends = (.success, c, c.sendCalls sendBuffer sends) := by
  simp only [clientSend, sendCalls, release]
  split_ifs
  · exact .inl rfl
  · exact .inr rfl

/-- The buffer does not matter to a send. -/
theorem withBuffer_clientSend (c : Client) (buffer : List.Vector Byte 4096) (sendBuffer : Bytes)
    (sends : List SendResult) :
    ((c.withBuffer buffer).clientSend sendBuffer sends).1 = (c.clientSend sendBuffer sends).1 := by
  by_cases h : (sendLoop c.channel sendBuffer 0 sends).numBytes < 0 ∧
      ¬ ((sendLoop c.channel sendBuffer 0 sends).errno = EAGAIN ∨
        (sendLoop c.channel sendBuffer 0 sends).errno = EWOULDBLOCK)
  · have hsend (c' : Client) (hc : c'.channel = c.channel) :
        (c'.clientSend sendBuffer sends).1 = .sendFailed := by
      rw [← hc] at h
      exact congrArg Prod.fst (if_pos h)
    rw [hsend c rfl, hsend (c.withBuffer buffer) rfl]
  · have hsend (c' : Client) (hc : c'.channel = c.channel) :
        (c'.clientSend sendBuffer sends).1 = .success := by
      rw [← hc] at h
      exact congrArg Prod.fst (if_neg h)
    rw [hsend c rfl, hsend (c.withBuffer buffer) rfl]

end Client

end MetricServer
