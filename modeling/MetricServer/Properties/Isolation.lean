import MetricServer.Handler.Presence

/-! What the other clients and the listening sockets can do to one client. Two rounds
that are alike to a client differ in what becomes of it when the others end the
server, or when the client reports nothing and only one of the rounds has an event:
a positive count makes the handler take a client without events for one that went. -/

namespace MetricServer

open Base Http LoopState

variable {cfg : Config} {u : StartUp} {rounds : List Round} {s : LoopState} {r₁ r₂ : Round}
  {i : ℕ}

/-- The rounds are the same as far as the client goes: its events, the results of its reads
and writes, and the metric values. -/
structure Alike (cfg : Config) (s : LoopState) (i : ℕ) (r₁ r₂ : Round) : Prop where
  revents : s.revents cfg r₁ i = s.revents cfg r₂ i
  reads : (r₁.io i).reads = (r₂.io i).reads
  sends : (r₁.io i).sends = (r₂.io i).sends
  snapshot : r₁.snapshot = r₂.snapshot

/-- If the client is to be read, what earlier calls and requests have left in `errno` and in
the memory of its request is the same too. -/
def SameResidue (cfg : Config) (s : LoopState) (i : ℕ) (r₁ r₂ : Round) : Prop :=
  s.revents cfg r₁ i = POLLIN →
    (r₁.io i).errno = (r₂.io i).errno ∧ (r₁.io i).memory = (r₂.io i).memory

theorem Alike.remains_iff (hr : Alike cfg s i r₁ r₂) (hres : SameResidue cfg s i r₁ r₂) :
    s.remains cfg r₁ i ↔ s.remains cfg r₂ i := by
  simp only [LoopState.remains, keeps, ← hr.revents, ← hr.snapshot]
  refine imp_congr_right fun _ => and_congr_right fun _ => forall_congr' fun hread => ?_
  obtain ⟨herrno, hmemory⟩ := hres hread
  have hio : r₁.io i = r₂.io i := by
    cases hio₁ : r₁.io i
    cases hio₂ : r₂.io i
    have hreads := hr.reads
    have hsends := hr.sends
    simp_all
  rw [hio]

/-- A client fares alike in two rounds exactly when it comes through both or neither: the
others spare it, and its own events and exchange leave it open. Unless they differ in what
earlier calls have left, the latter is the same in both rounds, and what counts is
whether the others spare it. -/
theorem isolated_iff (h : Running cfg u rounds s) (hi : i < s.clients.length)
    (h₁ : Undisturbed r₁) (h₂ : Undisturbed r₂) (hr : Alike cfg s i r₁ r₂) :
    ((StillOpen cfg s r₁ i ↔ StillOpen cfg s r₂ i) ↔
      (s.spares cfg r₁ i ∧ s.remains cfg r₁ i ↔ s.spares cfg r₂ i ∧ s.remains cfg r₂ i)) ∧
    (SameResidue cfg s i r₁ r₂ →
      ((StillOpen cfg s r₁ i ↔ StillOpen cfg s r₂ i) ↔
        (s.remains cfg r₁ i → (s.spares cfg r₁ i ↔ s.spares cfg r₂ i)))) := by
  rw [stillOpen_iff h hi h₁, stillOpen_iff h hi h₂]
  refine ⟨Iff.rfl, fun hres => ?_⟩
  rw [← hr.remains_iff hres]
  exact and_congr_left_iff

/-- The first client sends a request and asks to be kept, and the second one reports `revents`. -/
def Round.asked (revents : BitVec 16) : Round :=
  .sample [0, 0, POLLIN, revents] 7 8 "GET /metrics HTTP/1.1\r\nConnection: keep-alive\r\n\r\n"

/-- The first client fares alike whether the second one hangs up or sends a request too. -/
theorem isolated_iff_sample : ∃ s,
    Running (.sample true) .sample [.sample [POLLIN, POLLIN] 5 6 ""] s ∧ s.clients.length = 2 ∧
      s.revents (.sample true) (.asked POLLHUP) 0 = POLLIN ∧
      s.revents (.sample true) (.asked POLLHUP) 1 = POLLHUP ∧
      s.revents (.sample true) (.asked POLLIN) 1 = POLLIN ∧
      ((StillOpen (.sample true) s (.asked POLLHUP) 0 ↔
          StillOpen (.sample true) s (.asked POLLIN) 0) ↔
        (s.spares (.sample true) (.asked POLLHUP) 0 ∧ s.remains (.sample true) (.asked POLLHUP) 0 ↔
          s.spares (.sample true) (.asked POLLIN) 0 ∧
            s.remains (.sample true) (.asked POLLIN) 0)) ∧
      (StillOpen (.sample true) s (.asked POLLHUP) 0 ↔
        StillOpen (.sample true) s (.asked POLLIN) 0) := by
  obtain ⟨s, hs, hp⟩ := exists_running (.sample true) .sample [.sample [POLLIN, POLLIN] 5 6 ""]
    (fun s => decide (s.clients.length = 2 ∧
      s.revents (.sample true) (.asked POLLHUP) 0 = POLLIN ∧
      s.revents (.sample true) (.asked POLLIN) 0 = POLLIN ∧
      s.revents (.sample true) (.asked POLLHUP) 1 = POLLHUP ∧
      s.revents (.sample true) (.asked POLLIN) 1 = POLLIN ∧
      s.spares (.sample true) (.asked POLLHUP) 0 ∧
      s.spares (.sample true) (.asked POLLIN) 0)) (by decide)
  obtain ⟨hlen, hrevents, hrevents', hother, hother', hspares, hspares'⟩ := of_decide_eq_true hp
  have hi : 0 < s.clients.length := by omega
  have hisolated := isolated_iff hs hi ⟨by decide, by decide, _, rfl⟩ ⟨by decide, by decide, _, rfl⟩
    ⟨hrevents.trans hrevents'.symm, rfl, rfl, rfl⟩
  exact ⟨s, hs, hlen, hrevents, hother, hother', hisolated.1,
    (hisolated.2 fun _ => ⟨rfl, rfl⟩).mpr fun _ => iff_of_true hspares hspares'⟩

/-- The next round of a server with two clients, the second of which reports `revents`. -/
def Round.next (revents : BitVec 16) : Round :=
  .sample [0, 0, 0, revents] 7 8 "GET / HTTP/1.1\r\n\r\n"

/-- A client that reports nothing is left open when nothing happens, and closed when
another client sends a request. -/
theorem exists_not_isolated : ∃ s,
    Running (.sample true) .sample [.sample [POLLIN, POLLIN] 5 6 ""] s ∧ s.clients.length = 2 ∧
      Alike (.sample true) s 0 (.next 0) (.next POLLIN) ∧
      s.revents (.sample true) (.next 0) 0 = 0 ∧
      StillOpen (.sample true) s (.next 0) 0 ∧ ¬ StillOpen (.sample true) s (.next POLLIN) 0 := by
  obtain ⟨s, hs, hp⟩ := exists_running (.sample true) .sample [.sample [POLLIN, POLLIN] 5 6 ""]
    (fun s => decide (s.clients.length = 2 ∧ s.revents (.sample true) (.next 0) 0 = 0 ∧
      s.revents (.sample true) (.next POLLIN) 0 = 0 ∧ s.spares (.sample true) (.next 0) 0 ∧
      ¬ s.spares (.sample true) (.next POLLIN) 0)) (by decide)
  obtain ⟨hlen, hrevents, hrevents', hspares, hnot⟩ := of_decide_eq_true hp
  have hi : 0 < s.clients.length := by omega
  have hremains : s.remains (.sample true) (.next 0) 0 := fun _ => by
    rw [hrevents]
    exact ⟨by decide, fun hread => absurd hread (by decide)⟩
  refine ⟨s, hs, hlen, ⟨hrevents.trans hrevents'.symm, rfl, rfl, rfl⟩, hrevents, ?_, ?_⟩
  · rw [stillOpen_iff hs hi ⟨by decide, by decide, _, rfl⟩]
    exact ⟨hspares, hremains⟩
  · rw [stillOpen_iff hs hi ⟨by decide, by decide, _, rfl⟩]
    exact fun hcome => hnot hcome.1

end MetricServer
