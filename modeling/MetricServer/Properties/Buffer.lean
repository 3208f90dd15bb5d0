import MetricServer.Client.Outcomes

/-! What a receive does to its buffer, whatever its calls return. Every call is offered
what is left of the first 4095 bytes, which is never nothing, so that 4095 calls are the
most there can be and the terminator has a place; what the calls brought stands in the
buffer in their order, and the `memset` before them leaves nothing else there. -/

namespace MetricServer

open Base Http

namespace Client

variable {ch : Channel} {total : ℕ} {buffer : List.Vector Byte 4096} {errno : ℕ}

/-- The chunks before the first call that brings none, one after another. -/
def arrived : List ReadResult → Bytes
  | [] => []
  | .error _ :: _ => []
  | .data chunk :: rest => if chunk = [] then [] else chunk ++ arrived rest

/-! ### The calls -/

/-- Every call but the last one leaves less to be offered. -/
theorem receiveLoop_length_le (h : total < 4095) (reads : List ReadResult) :
    (receiveLoop ch total h.le buffer errno reads).events.length ≤ 4095 - total := by
  induction reads generalizing total buffer with
  | nil =>
    simp only [receiveLoop, List.length_singleton]
    omega
  | cons read reads ih =>
    cases read with
    | error e =>
      simp only [receiveLoop, List.length_singleton]
      omega
    | data chunk =>
      simp only [receiveLoop]
      split_ifs with hnil hfull
      · simp only [List.length_singleton]
        omega
      · simp only [List.length_singleton]
        omega
      · have hpos := List.length_pos_iff.mpr hnil
        rw [List.length_cons]
        refine (Nat.succ_le_succ (ih (not_le.mp hfull))).trans ?_
        omega

/-- The loop asks for no more results than there are bytes in the buffer. -/
theorem receiveLoop_append (h : total < 4095) {reads : List ReadResult}
    (hlong : 4095 ≤ total + reads.length) (more : List ReadResult) :
    receiveLoop ch total h.le buffer errno (reads ++ more) =
      receiveLoop ch total h.le buffer errno reads := by
  induction reads generalizing total buffer with
  | nil =>
    rw [List.length_nil] at hlong
    omega
  | cons read reads ih =>
    cases read with
    | error e => rfl
    | data chunk =>
      rw [List.length_cons] at hlong
      simp only [List.cons_append, receiveLoop]
      split_ifs with hnil hfull
      · rfl
      · rfl
      · have hpos := List.length_pos_iff.mpr hnil
        rw [ih (by omega) (by omega)]

theorem clientReceive_append (c : Client) (errno : ℕ) {reads : List ReadResult}
    (hlong : 4095 ≤ reads.length) (more : List ReadResult) :
    c.clientReceive errno (reads ++ more) = c.clientReceive errno reads := by
  simp only [clientReceive,
    receiveLoop_append (show 0 < 4095 by omega) (show 4095 ≤ 0 + reads.length by omega)]

/-! ### The buffer -/

/-- The loop takes the chunks that its calls bring, as far as they fit. -/
theorem received_receiveLoop (h : total ≤ 4095) (reads : List ReadResult) :
    received ch (receiveLoop ch total h buffer errno reads).events =
      (arrived reads).take (4095 - total) := by
  induction reads generalizing total buffer with
  | nil => simp [receiveLoop, arrived, Event.received]
  | cons read reads ih =>
    cases read with
    | error e => simp [receiveLoop, arrived, Event.received]
    | data chunk =>
      have hlen : (chunk.take (4095 - total)).length = min (4095 - total) chunk.length :=
        List.length_take
      simp only [receiveLoop, arrived]
      split_ifs with hnil hchunk hfull hchunk hchunk
      · simp [Event.received, hchunk]
      · -- no room is left
        have hzero : 4095 - total = 0 := by
          have := List.length_pos_iff.mpr hchunk
          rw [hnil, List.length_nil] at hlen
          omega
        simp [Event.received, hzero]
      · simp [hchunk] at hnil
      · have hle : 4095 - total ≤ chunk.length := by omega
        simp [Event.received, List.take_append_of_le_length hle]
      · simp [hchunk] at hnil
      · have hle : chunk.length ≤ 4095 - total := by omega
        have htake : chunk.take (4095 - total) = chunk := List.take_of_length_le hle
        rw [received_cons, ih, htake, List.take_append, htake, Nat.sub_sub]
        simp [Event.received]

theorem receivedBytes_eq (c : Client) (errno : ℕ) (reads : List ReadResult) :
    c.receivedBytes errno reads = (arrived reads).take 4095 :=
  received_receiveLoop (by omega) reads

/-- A success leaves the bytes received, one at least, and zeros after them. -/
theorem clientReceive_success {c : Client} {errno : ℕ} {reads : List ReadResult}
    (h : (c.clientReceive errno reads).1 = .success) :
    (c.clientReceive errno reads).2.2 = c.receiveCalls errno reads ∧
      0 < (c.receivedBytes errno reads).length ∧
      (c.clientReceive errno reads).2.1.clientGetRecvMsg.1 =
        c.receivedBytes errno reads ++
          List.replicate (4096 - (c.receivedBytes errno reads).length) 0 := by
  obtain ⟨hlen, hbuffer⟩ :=
    receiveLoop_buffer c.channel 0 (by omega) (zeros Byte 4096) errno reads [] rfl rfl
  rw [List.nil_append, ← receiveCalls, ← receivedBytes] at hlen hbuffer
  simp only [clientReceive] at h ⊢
  split_ifs at h ⊢ with hfailed hzero
  refine ⟨rfl, by omega, ?_⟩
  have hle := (receiveLoop c.channel 0 (by omega) (zeros Byte 4096) errno reads).totalBytes_le
  -- the terminator is written over the first of the zeros
  have hset : List.replicate (4096 - (c.receivedBytes errno reads).length) (0 : Byte) =
      0 :: List.replicate (4095 - (c.receivedBytes errno reads).length) 0 := by
    rw [← List.replicate_succ]
    congr 1
    omega
  simp only [clientGetRecvMsg, withBuffer, setNul, hbuffer, ← hlen]
  rw [hset, List.set_append_right _ _ le_rfl, Nat.sub_self, List.set_cons_zero]

/-- A receive keeps to its buffer, ends after 4095 calls at most, and when it succeeds the
buffer holds what it received and nothing else. -/
theorem clientReceive_spec (c : Client) (errno : ℕ) (reads : List ReadResult) :
    (∀ ch off len got, .recv ch off len got ∈ (c.clientReceive errno reads).2.2 →
        0 < len ∧ off + len ≤ 4095) ∧
      (c.receiveCalls errno reads).length ≤ 4095 ∧
      (4095 ≤ reads.length →
        ∀ more, c.clientReceive errno (reads ++ more) = c.clientReceive errno reads) ∧
      ((c.clientReceive errno reads).1 = .success →
        ∃ got, got = received c.channel (c.clientReceive errno reads).2.2 ∧
          got = (arrived reads).take 4095 ∧ 1 ≤ got.length ∧ got.length ≤ 4095 ∧
          (c.clientReceive errno reads).2.1.clientGetRecvMsg.1 =
            got ++ List.replicate (4096 - got.length) 0) := by
  refine ⟨fun ch off len got he => ?_, receiveLoop_length_le (by omega) reads,
    fun hlong more => clientReceive_append c errno hlong more, fun h => ?_⟩
  · have hcalls : .recv ch off len got ∈ c.receiveCalls errno reads := by
      obtain ⟨-, _, heq⟩ | ⟨-, -, _, heq⟩ | ⟨-, -, _, -, heq⟩ := c.clientReceive_cases errno reads
      · rw [heq] at he
        cases hbio : c._bio <;> simpa [hbio] using he
      · rw [heq] at he
        cases hbio : c._bio <;> simpa [release, hbio] using he
      · rwa [heq] at he
    obtain ⟨off', got', hoff, heq⟩ := c.receiveCalls_recv errno reads _ hcalls
    cases heq
    omega
  · obtain ⟨hcalls, hpos, hbuffer⟩ := clientReceive_success h
    have hgot := c.receivedBytes_eq errno reads
    refine ⟨c.receivedBytes errno reads, ?_, hgot, hpos, ?_, hbuffer⟩
    · rw [hcalls, receivedBytes]
    · rw [hgot]
      exact List.length_take_le _ _

end Client

end MetricServer
