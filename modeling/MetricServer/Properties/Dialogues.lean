import MetricServer.Properties.Survival

/-! What one connection sees of a run. A connection whose exchange did not run through, or
did not ask for the connection to be kept, is closed in the same iteration, so that all
exchanges of a connection but the last one ran through: its client reads one response after
another, and at most the last one is cut short, unless a client that was closed at once is
taken for it by its number. -/

namespace MetricServer

open Base Http LoopState

variable {cfg : Config} {u : StartUp} {s₀ s s' : LoopState} {t : Connections} {r : Round}
  {x : Exchange} {n : ℕ}

namespace Exchange

/-- The number of the connection. -/
def serial (x : Exchange) : ℕ := x.client._sockfd.serial

/-- The exchange runs through, and the client asks for the connection to be kept. -/
def isKept (x : Exchange) : Prop := x.client.keepsAlive x.db x.io

/-- The response to what came in. -/
def response (x : Exchange) : Bytes := httpErrorCheck (x.client.request x.io) x.db

/-- The calls take a part of the response, and the rest would have to wait. -/
def waits (x : Exchange) : Prop :=
  Client.taken x.io.sends < x.response.length ∧ ¬ Client.breaksOff x.io.sends

/-- Where a client is kept the response has gone out, unless its rest had to wait. -/
theorem reply_eq (hkept : x.isKept) (hwaits : ¬ x.waits) : x.reply = x.response := by
  obtain ⟨hanswered, hsent, -⟩ := (x.client.keepsAlive_iff x.db x.io).mp hkept
  rw [reply, if_pos hanswered]
  refine List.take_of_length_le (not_lt.mp fun hlt => hwaits ⟨hlt, fun hbreaks => hsent ?_⟩)
  rw [← Nat.zero_add (Client.taken _)] at hlt
  rw [Client.clientSend, if_pos ((Client.sendLoop_fails_iff x.client.channel _ 0 hlt).mpr hbreaks)]
  exact show ReturnCodes.sendFailed.code < 0 by decide

end Exchange

/-! ### One iteration -/

theorem exists_position (hx : x ∈ s.exchanges cfg r) :
    ∃ i < s.clients.length, s.isRead cfg r i ∧
      x = ⟨s.client i, s.db.update r.snapshot, r.io i⟩ := by
  obtain ⟨i, hi, rfl⟩ := List.mem_map.mp hx
  obtain ⟨hi, hread⟩ := List.mem_filter.mp hi
  exact ⟨i, List.mem_range.mp hi, of_decide_eq_true hread, rfl⟩

namespace Represents

/-- An exchange is with the client of an entry. -/
theorem exists_entry (h : Represents cfg s t) (hx : x ∈ s.exchanges cfg r) :
    ∃ e ∈ t.entries, x.client = e.client := by
  obtain ⟨i, hi, -, rfl⟩ := exists_position hx
  rw [h.length_clients] at hi
  exact ⟨t.entries[i], List.getElem_mem hi, h.client_eq hi⟩

/-- An iteration has one exchange with a client at most. -/
theorem pairwise_exchanges (h : Represents cfg s t) (ho : Owned t) (r : Round) :
    (s.exchanges cfg r).Pairwise fun x y => x.serial ≠ y.serial := by
  refine List.pairwise_map.mpr ((List.nodup_range.filter _).imp_of_mem ?_)
  intro i j hi hj hne heq
  exact hne (h.position_eq ho (List.mem_range.mp (List.mem_filter.mp hi).1)
    (List.mem_range.mp (List.mem_filter.mp hj).1) heq)

/-- A client that is read and not kept has gone after the iteration. -/
theorem gone_of_exchange (h : Represents cfg s t) (ho : Owned t)
    (hstep : loopStep cfg s r = .next s') (hx : x ∈ s.exchanges cfg r) (hkept : ¬ x.isKept) :
    ∃ t', Represents cfg s' t' ∧ Owned t' ∧ Gone x.serial t' := by
  obtain ⟨i, hi, hread, rfl⟩ := exists_position hx
  refine h.gone_of_not_holds ho hstep ?_ fun hmem => hkept ?_
  · exact List.mem_map_of_mem (h.client_mem (h.length_clients ▸ hi))
  have hit := loopStep_iterates h r
  rw [hstep] at hit
  cases hit with
  | idle _ _ _ hcount => exact absurd hread.1.1.2.2.1 hcount
  | served _ t₁ _ hadm hs =>
    obtain ⟨e, calls, hopen, hpfd, hclient, -, hfate⟩ := h.fate ho hadm hs hi
    rw [LoopState.holds, ← hclient, hfate.present,
      e.isOpen_serve_iff cfg (s.serving cfg r) i hopen, hpfd, hclient] at hmem
    exact (hmem.2 hread.2.1).2 hread.2.2

end Represents

/-! ### A run -/

section
variable {I : Connections → Prop} (k : Kept cfg (fun _ _ => True) I)
include k

/-- What holds of the exchanges of an iteration, by what is kept, holds of those of a run. -/
theorem Kept.forall_conversation {p : Exchange → Prop}
    (hp : ∀ s t r, Represents cfg s t → I t → ∀ x ∈ s.exchanges cfg r, p x)
    (h : Represents cfg s t) (hI : I t) (rounds : List Round) :
    ∀ x ∈ conversation cfg s rounds, p x := by
  induction rounds generalizing s t with
  | nil => exact fun x hx => by cases hx
  | cons r rounds ih =>
    rw [conversation]
    cases hstep : loopStep cfg s r with
    | next s' =>
      obtain ⟨t', h', hI'⟩ := k.step h hI trivial hstep
      intro x hx
      obtain hx | hx := List.mem_append.mp hx
      · exact hp s t r h hI x hx
      · exact ih h' hI' x hx
    | done f => exact hp s t r h hI

end

namespace Represents

/-- A connection that went has no exchange. -/
theorem serial_ne_of_gone (h : Represents cfg s t) (hgone : Gone n t) (rounds : List Round) :
    ∀ x ∈ conversation cfg s rounds, x.serial ≠ n := by
  refine (gone_kept cfg n).forall_conversation (fun s t r h hgone x hx => ?_) h hgone rounds
  obtain ⟨e, he, hc⟩ := h.exists_entry hx
  rw [Exchange.serial, hc]
  exact hgone.2 e he

theorem wired_conversation (h : Represents cfg s t) (ho : Owned t) (rounds : List Round) :
    ∀ x ∈ conversation cfg s rounds, x.client.Wired := by
  refine (owned_kept cfg).forall_conversation (fun s t r h ho x hx => ?_) h ho rounds
  obtain ⟨e, he, hc⟩ := h.exists_entry hx
  exact hc ▸ ho.wired e he

/-- Of two exchanges with one client the earlier one ran through, and the client was kept. -/
theorem pairwise_conversation (h : Represents cfg s t) (ho : Owned t) (rounds : List Round) :
    (conversation cfg s rounds).Pairwise fun x y => x.serial = y.serial → x.isKept := by
  have hone {s : LoopState} {t : Connections} (h : Represents cfg s t) (ho : Owned t) (r : Round) :
      (s.exchanges cfg r).Pairwise fun x y => x.serial = y.serial → x.isKept :=
    (h.pairwise_exchanges ho r).imp fun hne heq => absurd heq hne
  induction rounds generalizing s t with
  | nil => exact .nil
  | cons r rounds ih =>
    rw [conversation]
    cases hstep : loopStep cfg s r with
    | next s' =>
      obtain ⟨t', h', ho'⟩ := (owned_kept cfg).step h ho trivial hstep
      refine List.pairwise_append.mpr ⟨hone h ho r, ih h' ho', fun x hx y hy heq => ?_⟩
      by_contra hkept
      obtain ⟨t', h', -, hgone⟩ := h.gone_of_exchange ho hstep hx hkept
      exact h'.serial_ne_of_gone hgone rounds y hy heq.symm
    | done f => exact hone h ho r

end Represents

/-- As long as no number is handed out while the table holds it, every exchange through a channel
but the last one ran through and asked for the connection to be kept; and if none of these left a
rest of its response to wait, then what goes out on the connection is their responses, in order, and
what the last exchange sends. -/
theorem answered_in_turn {rounds : List Round} {ch : Channel} {before : List Exchange}
    {last : Exchange} (hs : startUp cfg u = .next s₀) (hu : Unshared cfg u rounds)
    (hxs : (conversation cfg s₀ rounds).filter (·.channel = ch) = before ++ [last]) :
    (∀ x ∈ before, x.isKept) ∧ ((∀ x ∈ before, ¬ x.waits) →
      delivered ch (resolved (logOf (runs (loopStep cfg) s₀ rounds))) =
        before.flatMap Exchange.response ++ last.reply) := by
  obtain ⟨t, ht, -, ho⟩ := Running.owned ⟨s₀, hs, .nil s₀⟩
  have hmem {x : Exchange} (hx : x ∈ before ++ [last]) :
      x ∈ conversation cfg s₀ rounds ∧ x.channel = ch := by
    rw [← hxs] at hx
    exact ⟨(List.mem_filter.mp hx).1, of_decide_eq_true (List.mem_filter.mp hx).2⟩
  have hlast := hmem (List.mem_append_right before (List.mem_singleton_self last))
  have hkept : ∀ x ∈ before, x.isKept := by
    intro x hx
    have hpair := (ht.pairwise_conversation ho rounds).filter (·.channel = ch)
    rw [hxs] at hpair
    obtain ⟨hx', hch⟩ := hmem (List.mem_append_left [last] hx)
    refine (List.pairwise_append.mp hpair).2.2 x hx last (List.mem_singleton_self last) ?_
    exact Client.Wired.serial_of_channel (ht.wired_conversation ho rounds x hx')
      (ht.wired_conversation ho rounds last hlast.1) (hch.trans hlast.2.symm)
  refine ⟨hkept, fun hwaits => ?_⟩
  rw [resolved_runs hs hu, delivered_runs_startUp hs, hxs, List.flatMap_append,
    List.flatMap_singleton]
  congr 1
  exact List.flatMap_congr fun x hx => Exchange.reply_eq (hkept x hx) (hwaits x hx)

/-- A client that asks twice. -/
def askingTwice : List Round := connecting ++ asking ++ asking

theorem answered_in_turn_sample : ∃ (s₀ : LoopState) (x last : Exchange),
    startUp (.sample false) .sample = .next s₀ ∧ Unshared (.sample false) .sample askingTwice ∧
      (conversation (.sample false) s₀ askingTwice).filter (·.channel = .socket ⟨5, 1⟩) =
        [x] ++ [last] ∧
      (∀ y ∈ [x], y.isKept) ∧ ((∀ y ∈ [x], ¬ y.waits) →
        delivered (.socket ⟨5, 1⟩)
            (resolved (logOf (runs (loopStep (.sample false)) s₀ askingTwice))) =
          [x].flatMap Exchange.response ++ last.reply) := by
  obtain ⟨s₀, hs₀, h⟩ := Outcome.exists_of_goes (o := startUp (.sample false) .sample)
    (p := fun s₀ => ((conversation (.sample false) s₀ askingTwice).filter
      (·.channel = .socket ⟨5, 1⟩)).length = 2) (by decide +kernel)
  have hu : Unshared (.sample false) .sample askingTwice := by decide +kernel
  obtain ⟨x, last, hxs⟩ := List.length_eq_two.mp (of_decide_eq_true h)
  exact ⟨s₀, x, last, hs₀, hu, hxs, answered_in_turn hs₀ hu hxs⟩

end MetricServer
