import MetricServer.Client.Outcomes

/-! What a finished loop says about the bytes it moved. Sending stops at the first call
that takes nothing, and the code after the loop calls it a success unless that call failed
for another reason than having to wait; receiving stops on its own at a full buffer, and
the code after the loop asks `errno` why, which no call of this receive has set. -/

namespace MetricServer

open Base Http

namespace Client

variable {c : Client} {sendBuffer : Bytes} {sends : List SendResult} {reads : List ReadResult}

/-! ### Sending the whole buffer -/

/-- The bytes the calls take before the first one that takes none. -/
def taken : List SendResult → ℕ
  | [] => 0
  | .error _ :: _ => 0
  | .sent n :: rest => if n = 0 then 0 else n + taken rest

/-- The first call that takes nothing fails, and not for having to wait. -/
def breaksOff : List SendResult → Bool
  | [] => false
  | .error e :: _ => e != EAGAIN
  | .sent n :: rest => n != 0 && breaksOff rest

/-- A send that reports success has sent the buffer. -/
def SendsWhole (c : Client) (sendBuffer : Bytes) (sends : List SendResult) : Prop :=
  (c.clientSend sendBuffer sends).1 = .success →
    delivered c.channel (c.clientSend sendBuffer sends).2.2 = sendBuffer

/-- The loop sends what its calls take, from its offset on. -/
theorem delivered_sendLoop (ch : Channel) (sendBuffer : Bytes) (total : ℕ)
    (sends : List SendResult) :
    delivered ch (sendLoop ch sendBuffer total sends).events =
      (sendBuffer.drop total).take (taken sends) := by
  induction sends generalizing total with
  | nil => simp [sendLoop, taken, delivered, Event.delivered]
  | cons send sends ih =>
    cases send with
    | error e => simp [sendLoop, taken, delivered, Event.delivered]
    | sent n =>
      have hlen : (sendBuffer.drop total).length = sendBuffer.length - total := List.length_drop
      rw [sendLoop, taken]
      split_ifs with hnone hn
      · simp [hn, delivered, Event.delivered]
      · have hnil : sendBuffer.drop total = [] := List.eq_nil_of_length_eq_zero (by omega)
        simp [hnil, delivered, Event.delivered]
      · omega
      · have htake : (sendBuffer.drop total).take (min n (sendBuffer.length - total)) =
            (sendBuffer.drop total).take n := by
          rw [← hlen, ← List.take_eq_take_min]
        have hdrop : sendBuffer.drop (total + min n (sendBuffer.length - total)) =
            sendBuffer.drop (total + n) := by
          by_cases hle : n ≤ sendBuffer.length - total
          · rw [Nat.min_eq_left hle]
          · rw [List.drop_of_length_le (by omega), List.drop_of_length_le (by omega)]
        have hcall := ih (total + min n (sendBuffer.length - total))
        rw [hdrop] at hcall
        rw [List.take_add, List.drop_drop, ← hcall, ← htake]
        simp [delivered, Event.delivered]

/-- Until all is sent, the loop ends as the first call that takes nothing does. -/
theorem sendLoop_fails_iff (ch : Channel) (sendBuffer : Bytes) (total : ℕ)
    {sends : List SendResult} (h : total + taken sends < sendBuffer.length) :
    ((sendLoop ch sendBuffer total sends).numBytes < 0 ∧
      ¬ ((sendLoop ch sendBuffer total sends).errno = EAGAIN ∨
        (sendLoop ch sendBuffer total sends).errno = EWOULDBLOCK)) ↔ breaksOff sends := by
  induction sends generalizing total with
  | nil => simp [sendLoop, breaksOff, EAGAIN]
  | cons send sends ih =>
    cases send with
    | error e => simp [sendLoop, breaksOff, EAGAIN, EWOULDBLOCK]
    | sent n =>
      rw [taken] at h
      by_cases hn : n = 0
      · simp [sendLoop, breaksOff, hn]
      · rw [if_neg hn] at h
        have hmin : min n (sendBuffer.length - total) = n := by omega
        have := ih (total + n) (by omega)
        simpa [sendLoop, breaksOff, hmin, hn] using this

/-- A send that reports success has sent the buffer exactly when its calls took all of it,
or the first of them that took nothing failed for good. -/
theorem sendsWhole_iff (c : Client) (sendBuffer : Bytes) (sends : List SendResult) :
    c.SendsWhole sendBuffer sends ↔ sendBuffer.length ≤ taken sends ∨ breaksOff sends := by
  have hsent := delivered_sendLoop c.channel sendBuffer 0 sends
  rw [List.drop_zero] at hsent
  by_cases hall : sendBuffer.length ≤ taken sends
  · rw [List.take_of_length_le hall] at hsent
    refine iff_of_true (fun h => ?_) (.inl hall)
    obtain hfailed | hsuccess := c.clientSend_cases sendBuffer sends
    · rw [hfailed] at h
      cases h
    · rw [hsuccess]
      exact hsent
  · have hfails := sendLoop_fails_iff c.channel sendBuffer 0 (show 0 + taken sends < _ by omega)
    rw [or_iff_right hall, SendsWhole, clientSend]
    by_cases hbreaks : breaksOff sends
    · rw [if_pos (hfails.mpr hbreaks)]
      refine iff_of_true (fun h => ?_) hbreaks
      cases h
    · rw [if_neg fun h => hbreaks (hfails.mp h)]
      refine iff_of_false (fun h => ?_) hbreaks
      -- what was sent is shorter than the buffer
      have hlen := congrArg List.length (hsent.symm.trans (h rfl))
      rw [List.length_take] at hlen
      omega

/-- A client on a plain socket. -/
def sample : Client := { Client.new (zeros Byte 4096) with _sockfd := ⟨7, 1⟩ }

theorem not_sendsWhole_sample :
    ¬ sample.SendsWhole (ascii "HTTP/1.1 404 Not Found\r\n\r\n") [.sent 10, .error EAGAIN] := by
  intro h
  exact absurd (h rfl) (by decide +kernel)

/-! ### What is received -/

/-- The bytes the calls bring before the first one that brings none. -/
def brought : List ReadResult → ℕ
  | [] => 0
  | .error _ :: _ => 0
  | .data chunk :: rest => if chunk = [] then 0 else chunk.length + brought rest

/-- The return code and the buffer of a receive are those that any other value of `errno`
before it would have given. -/
def ReceivesAlone (c : Client) (reads : List ReadResult) : Prop :=
  ∀ errno errno',
    (c.clientReceive errno reads).1 = (c.clientReceive errno' reads).1 ∧
      (c.clientReceive errno reads).2.1.clientGetRecvMsg =
        (c.clientReceive errno' reads).2.1.clientGetRecvMsg

/-- What the loop brings does not depend on `errno`. -/
theorem receiveLoop_congr (ch : Channel) (total : ℕ) (h : total ≤ 4095)
    (buffer : List.Vector Byte 4096) (errno errno' : ℕ) (reads : List ReadResult) :
    let r := receiveLoop ch total h buffer errno reads
    let r' := receiveLoop ch total h buffer errno' reads
    r.totalBytes = r'.totalBytes ∧ r.buffer = r'.buffer := by
  induction reads generalizing total buffer with
  | nil => exact ⟨rfl, rfl⟩
  | cons read reads ih =>
    cases read with
    | error e => exact ⟨rfl, rfl⟩
    | data chunk =>
      simp only [receiveLoop]
      split_ifs
      · exact ⟨rfl, rfl⟩
      · exact ⟨rfl, rfl⟩
      · exact ih _ _ _

/-- A buffer that fills up is judged by the `errno` of before. -/
theorem readsFail_of_full {total : ℕ} (errno : ℕ) {reads : List ReadResult} (h : total < 4095)
    (hfull : 4095 ≤ total + brought reads) : readsFail total errno reads = (errno != EAGAIN) := by
  induction reads generalizing total with
  | nil => exact absurd hfull (by simp only [brought]; omega)
  | cons read reads ih =>
    cases read with
    | error e => exact absurd hfull (by simp only [brought]; omega)
    | data chunk =>
      rw [brought] at hfull
      split_ifs at hfull with hchunk
      · omega
      · have hpos : 0 < chunk.length := List.length_pos_iff.mpr hchunk
        simp only [readsFail]
        split_ifs with hzero hlast
        · omega
        · rfl
        · exact ih (by omega) (by omega)

/-- Any other outcome is judged by the call that ended it. -/
theorem readsFail_of_short {total : ℕ} (errno errno' : ℕ) {reads : List ReadResult}
    (hshort : total + brought reads < 4095) :
    readsFail total errno reads = readsFail total errno' reads := by
  induction reads generalizing total with
  | nil => rfl
  | cons read reads ih =>
    cases read with
    | error e => rfl
    | data chunk =>
      simp only [readsFail]
      by_cases hchunk : chunk = []
      · simp [hchunk]
      · rw [brought, if_neg hchunk] at hshort
        split_ifs with hzero hlast
        · rfl
        · omega
        · exact ih (by omega)

/-- The loop counts what its calls bring, up to a full buffer. -/
theorem receiveLoop_totalBytes (ch : Channel) (total : ℕ) (h : total ≤ 4095)
    (buffer : List.Vector Byte 4096) (errno : ℕ) (reads : List ReadResult) :
    (receiveLoop ch total h buffer errno reads).totalBytes = min 4095 (total + brought reads) := by
  induction reads generalizing total buffer with
  | nil => simp [receiveLoop, brought, h]
  | cons read reads ih =>
    cases read with
    | error e => simp [receiveLoop, brought, h]
    | data chunk =>
      have hlen : (chunk.take (4095 - total)).length = min (4095 - total) chunk.length :=
        List.length_take
      have htake : chunk.take (4095 - total) = [] ↔ min (4095 - total) chunk.length = 0 := by
        rw [← hlen, List.length_eq_zero_iff]
      simp only [receiveLoop, brought, htake, ← List.length_eq_zero_iff]
      split_ifs with hnone hchunk hfull hchunk hchunk
      · show total = _
        omega
      · show total = _
        omega
      · omega
      · show total + _ = _
        omega
      · omega
      · rw [ih]
        omega

/-- A full buffer is a success or a failure as `errno` had it before. -/
theorem clientReceive_of_full (c : Client) {errno : ℕ} {reads : List ReadResult}
    (hfull : 4095 ≤ brought reads) :
    (c.clientReceive errno reads).1 = if errno = EAGAIN then .success else .receiveFailed := by
  have hfails : readsFail 0 errno reads = (errno != EAGAIN) :=
    readsFail_of_full errno (by omega) (by omega)
  have htotal := receiveLoop_totalBytes c.channel 0 (by omega) (zeros Byte 4096) errno reads
  have hfailed := receiveLoop_failed_iff c.channel 0 (by omega) (zeros Byte 4096) errno reads
  rw [hfails, bne_iff_ne] at hfailed
  simp only [clientReceive]
  by_cases h : errno = EAGAIN
  · rw [if_neg fun h' => hfailed.mp h' h, if_neg (by omega), if_pos h]
  · rw [if_pos (hfailed.mpr h), if_neg h]

/-- The outcome of a receive is decided by its calls alone exactly when they do not fill the
buffer. -/
theorem receivesAlone_iff (c : Client) (reads : List ReadResult) :
    c.ReceivesAlone reads ↔ brought reads < 4095 := by
  constructor
  · intro h
    by_contra hfull
    have hcode := (h EAGAIN (EAGAIN + 1)).1
    rw [clientReceive_of_full c (by omega), clientReceive_of_full c (by omega)] at hcode
    cases hcode
  · intro hshort errno errno'
    have hfailed : (receiveLoop c.channel 0 (by omega) (zeros Byte 4096) errno reads).failed ↔
        (receiveLoop c.channel 0 (by omega) (zeros Byte 4096) errno' reads).failed := by
      rw [receiveLoop_failed_iff, receiveLoop_failed_iff,
        readsFail_of_short errno errno' (by omega)]
    obtain ⟨htotal, hbuffer⟩ :=
      receiveLoop_congr c.channel 0 (by omega) (zeros Byte 4096) errno errno' reads
    simp only [clientReceive]
    by_cases h₁ : (receiveLoop c.channel 0 (by omega) (zeros Byte 4096) errno' reads).failed
    · rw [if_pos (hfailed.mpr h₁), if_pos h₁]
      exact ⟨rfl, hbuffer⟩
    rw [if_neg fun h => h₁ (hfailed.mp h), if_neg h₁]
    by_cases h₂ : (receiveLoop c.channel 0 (by omega) (zeros Byte 4096) errno' reads).totalBytes = 0
    · rw [if_pos (htotal.trans h₂), if_pos h₂]
      exact ⟨rfl, hbuffer⟩
    · rw [if_neg fun h => h₂ (htotal.symm.trans h), if_neg h₂]
      simp only [clientGetRecvMsg, withBuffer, htotal, hbuffer, and_self]

/-- A client that sends as many bytes as the buffer takes fails after a broken connection
elsewhere, and does not after a wait. -/
theorem not_receivesAlone_sample :
    ¬ sample.ReceivesAlone [.data (List.replicate 4095 71)] := by
  intro h
  have hne : List.replicate 4095 (71 : Byte) ≠ [] :=
    List.length_pos_iff.mp (by rw [List.length_replicate]; omega)
  have hfull : 4095 ≤ brought [.data (List.replicate 4095 71)] := by
    rw [brought, if_neg hne, List.length_replicate]
    omega
  have hcode := (h EAGAIN 104).1
  rw [clientReceive_of_full sample hfull, clientReceive_of_full sample hfull] at hcode
  cases hcode

end Client

end MetricServer
