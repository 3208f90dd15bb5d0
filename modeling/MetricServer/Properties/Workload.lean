import MetricServer.Properties.Dialogues
import Mathlib.Algebra.Order.BigOperators.Group.List
import Mathlib.Algebra.Order.Group.Nat

/-! What a turn of the loop can cost. The server has one thread, so that a client which is
served keeps all others waiting, for as long as its calls go on. They do not go on for ever:
a read that gets nothing is the last one, and so is a write that takes nothing; and no more
clients than one over the limit are in the table. -/

namespace MetricServer

open Base Http LoopState

variable {cfg : Config} {u : StartUp} {s s₀ : LoopState} {t : Connections}

/-! ### The calls of an exchange -/

namespace Client

/-- Each call of the loop but the last one takes up a byte of the buffer. -/
theorem length_receiveLoop (ch : Channel) {total : ℕ} (h : total < 4095)
    (buffer : List.Vector Byte 4096) (errno : ℕ) (reads : List ReadResult) :
    (receiveLoop ch total h.le buffer errno reads).events.length ≤ 4095 - total := by
  have hone : 1 ≤ 4095 - total := by omega
  induction reads generalizing total buffer with
  | nil => exact hone
  | cons read reads ih =>
    cases read with
    | error e => exact hone
    | data chunk =>
      simp only [receiveLoop]
      split_ifs with hnil hfull
      · exact hone
      · exact hone
      · have hpos := List.length_pos_of_ne_nil hnil
        have hmore := not_le.mp hfull
        have hle : (chunk.take (4095 - total)).length ≤ 4095 - total := List.length_take_le _ _
        have hrest := ih hmore (store buffer total (chunk.take (4095 - total)) (by omega))
          (by omega)
        rw [List.length_cons]
        omega

/-- Each call of the loop but the last one takes a byte of what is sent. -/
theorem length_sendLoop (ch : Channel) (sendBuffer : Bytes) (total : ℕ)
    (sends : List SendResult) :
    (sendLoop ch sendBuffer total sends).events.length ≤ sendBuffer.length - total + 1 := by
  have hone : 1 ≤ sendBuffer.length - total + 1 := Nat.le_add_left 1 _
  induction sends generalizing total with
  | nil => exact hone
  | cons send sends ih =>
    cases send with
    | error e => exact hone
    | sent n =>
      simp only [sendLoop]
      split_ifs with hzero
      · exact hone
      · have hrest := ih (total + min n (sendBuffer.length - total)) (Nat.le_add_left 1 _)
        rw [List.length_cons]
        omega

end Client

namespace Event

def isRead : Event → Bool
  | .recv _ _ _ _ => true
  | _ => false

def isWrite : Event → Bool
  | .send _ _ _ => true
  | _ => false

theorem transfers_of_isRead (e : Event) (h : e.isRead) : e.transfers := by
  cases e with
  | recv ch off len got => rfl
  | _ => cases h

theorem transfers_of_isWrite (e : Event) (h : e.isWrite) : e.transfers := by
  cases e with
  | send ch data sent => rfl
  | _ => cases h

end Event

namespace Exchange

theorem countP_isRead (x : Exchange) : x.calls.countP Event.isRead ≤ 4095 := by
  have hanswer : (x.client.answer x.db x.io).countP Event.isRead = 0 := by
    refine List.countP_eq_zero.mpr fun e he => ?_
    obtain ⟨data, n, rfl, -⟩ := x.client.answer_send _ _ e he
    simp [Event.isRead]
  rw [calls, List.countP_append, hanswer, Nat.add_zero]
  exact List.countP_le_length.trans (Client.length_receiveLoop _ (by omega) _ _ _)

theorem countP_isWrite (x : Exchange) : x.calls.countP Event.isWrite ≤ x.response.length + 1 := by
  have hreads : (x.client.receiveCalls x.io.errno x.io.reads).countP Event.isWrite = 0 := by
    refine List.countP_eq_zero.mpr fun e he => ?_
    obtain ⟨off, got, -, rfl⟩ := x.client.receiveCalls_recv _ _ e he
    simp [Event.isWrite]
  rw [calls, List.countP_append, hreads, Nat.zero_add]
  refine List.countP_le_length.trans ?_
  rw [Client.answer]
  split_ifs
  · exact Client.length_sendLoop _ _ 0 _
  · exact Nat.zero_le _

end Exchange

/-! ### The number of exchanges -/

theorem LoopState.length_exchanges (cfg : Config) (s : LoopState) (r : Round) :
    (s.exchanges cfg r).length ≤ s.clients.length := by
  rw [exchanges, List.length_map]
  exact (List.length_filter_le _ _).trans List.length_range.le

/-- One client over the limit gets in, and no more. -/
theorem crowded_kept (cfg : Config) :
    Kept cfg (fun _ _ => True) fun t => t.entries.length ≤ cfg.metricMaxConnections + 1 := by
  refine ⟨fun t p ht => ?_, fun s r t a _ _ hr hheld ht => ?_, fun s r _ t _ _ _ _ ht => ?_⟩
  · rwa [Connections.length_report]
  · rw [Connections.length_connect]
    split_ifs with hok
    · have hle := not_lt.mp fun hlt => hr ⟨hok, hlt⟩
      omega
    · exact ht
  · have hle := List.length_filter_le Entry.isOpen
      (t.entries.mapIdx (Entry.serve cfg (s.serving cfg r)))
    rw [List.length_mapIdx] at hle
    exact hle.trans ht

theorem Represents.length_conversation (h : Represents cfg s t)
    (hlen : t.entries.length ≤ cfg.metricMaxConnections + 1) (rounds : List Round) :
    (conversation cfg s rounds).length ≤ rounds.length * (cfg.metricMaxConnections + 1) := by
  induction rounds generalizing s t with
  | nil => exact Nat.zero_le _
  | cons r rounds ih =>
    have hround : (s.exchanges cfg r).length ≤ cfg.metricMaxConnections + 1 :=
      (s.length_exchanges cfg r).trans (h.length_clients ▸ hlen)
    rw [conversation, List.length_cons, Nat.succ_mul, Nat.add_comm]
    cases hstep : loopStep cfg s r with
    | next s' =>
      obtain ⟨t', ht', hlen'⟩ := (crowded_kept cfg).step h hlen trivial hstep
      simp only [List.length_append]
      exact Nat.add_le_add hround (ih ht' hlen')
    | done f => exact hround.trans (Nat.le_add_right _ _)

/-! ### A run -/

theorem countP_transfers {p : Event → Bool} (hp : ∀ e, p e → e.transfers) (log : List Event) :
    (transfers log).countP p = log.countP p := by
  rw [transfers, List.countP_filter]
  refine List.countP_congr fun e _ => ?_
  simpa using hp e

/-- In every run there are at most as many exchanges in a round as the limit and one more, the
reads of each fill its buffer at most, and its writes are at most one more than the response has
bytes, whatever results the calls still have. -/
theorem workload_le (hs : startUp cfg u = .next s₀) (rounds : List Round) :
    (conversation cfg s₀ rounds).length ≤ rounds.length * (cfg.metricMaxConnections + 1) ∧
      (logOf (runs (loopStep cfg) s₀ rounds)).countP Event.isRead ≤
        (conversation cfg s₀ rounds).length * 4095 ∧
      (logOf (runs (loopStep cfg) s₀ rounds)).countP Event.isWrite ≤
        ((conversation cfg s₀ rounds).map fun x => x.response.length + 1).sum := by
  have hcalls {p : Event → Bool} (hp : ∀ e, p e → e.transfers) :
      (logOf (runs (loopStep cfg) s₀ rounds)).countP p =
        ((conversation cfg s₀ rounds).map fun x => x.calls.countP p).sum := by
    rw [← countP_transfers hp, transfers_runs_startUp hs, List.countP_flatMap]
    rfl
  obtain ⟨t, ht, -, he, -⟩ := exists_represents hs
  refine ⟨ht.length_conversation (by simp [he]) rounds, ?_, ?_⟩
  · rw [hcalls Event.transfers_of_isRead]
    have hsum := List.sum_le_card_nsmul
      ((conversation cfg s₀ rounds).map fun x => x.calls.countP Event.isRead) 4095
      (List.forall_mem_map.mpr fun x _ => x.countP_isRead)
    simpa using hsum
  · rw [hcalls Event.transfers_of_isWrite]
    exact List.sum_le_sum fun x _ => x.countP_isWrite

/-- A client, and a request from it. -/
def oneRequest : List Round :=
  [.sample [POLLIN] 5 6 "", .sample [0, POLLIN] 5 6 "GET /liveness HTTP/1.1\r\n\r\n"]

theorem workload_le_sample : ∃ s₀, startUp (.sample false) .sample = .next s₀ ∧
    (conversation (.sample false) s₀ oneRequest).length = 1 ∧
    (conversation (.sample false) s₀ oneRequest).length ≤
        oneRequest.length * ((Config.sample false).metricMaxConnections + 1) ∧
      (logOf (runs (loopStep (.sample false)) s₀ oneRequest)).countP Event.isRead ≤
        (conversation (.sample false) s₀ oneRequest).length * 4095 ∧
      (logOf (runs (loopStep (.sample false)) s₀ oneRequest)).countP Event.isWrite ≤
        ((conversation (.sample false) s₀ oneRequest).map fun x => x.response.length + 1).sum := by
  obtain ⟨s₀, hs₀, hone⟩ := Outcome.exists_of_goes (o := startUp (.sample false) .sample)
    (p := fun s₀ => decide ((conversation (.sample false) s₀ oneRequest).length = 1)) (by decide)
  exact ⟨s₀, hs₀, of_decide_eq_true hone, workload_le hs₀ oneRequest⟩

end MetricServer
