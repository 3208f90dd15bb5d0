import MetricServer.Properties.Custody
import MetricServer.Properties.Settlement

/-! What is open while the server runs. Where no step closes anything twice and none leaves
anything behind, the descriptors and BIOs that are open at a head of the loop are those of
the listening sockets and of the clients in the table, and no others; and nothing is open
when the function ends the process. -/

namespace MetricServer

open Base LoopState

variable {cfg : Config} {u : StartUp} {rounds : List Round} {s : LoopState} {t t' : Connections}
  {x : Resource}

/-! ### What is held -/

namespace Connections

theorem holds_report {p : PollResult} : (t.report cfg p).Holds x ↔ t.Holds x := by
  refine or_congr_left ⟨?_, ?_⟩
  · rintro ⟨e, he, hpos, hown⟩
    obtain ⟨e₀, he₀, hc, hfd⟩ := mem_reported he
    exact ⟨e₀, he₀, hfd ▸ hpos, hc ▸ hown⟩
  · rintro ⟨e, he, hpos, hown⟩
    obtain ⟨e', he', hc⟩ := exists_mem_report cfg p he
    refine ⟨e', he', ?_, hc ▸ hown⟩
    rwa [e'.same, hc, ← e.same]

theorem Holds.admissions (h : t.Holds x) {as : List Attempt}
    (hadm : Trace (Admission cfg) t as t') : t'.Holds x := by
  obtain ⟨new, hnew, -⟩ := Admission.entries_eq hadm
  obtain ⟨e, he, hpos, hown⟩ | hlisten := h
  · exact .inl ⟨e, hnew ▸ List.mem_append_left new he, hpos, hown⟩
  · exact .inr (Admission.listeners_eq hadm ▸ hlisten)

end Connections

theorem Represents.holds_resource_iff (h : Represents cfg s t) :
    t.Holds x ↔ (∃ c ∈ s.clients, 0 < c._sockfd.num ∧ c.owns x) ∨
      ∃ d ∈ s.listening cfg, 0 < d.num ∧ x = .descriptor d := by
  obtain ⟨ls, hs⟩ := h.shows
  simp [Connections.Holds, h.listeners_eq, hs.clients_eq, Entry.same]

/-- No call handed out a descriptor with the number zero. -/
def NonZero (log : List Event) : Prop := ∀ d, ledger.Acquired log (.descriptor d) → d.num ≠ 0

theorem NonZero.of_append {log log' : List Event} (h : NonZero (log ++ log')) : NonZero log :=
  fun d hd => h d (Ledger.acquired_append.mpr (.inl hd))

/-- Where no number is zero, what was acquired is released or held. -/
def Accounted (t : Connections) : Prop := Owned t ∧ (NonZero t.log → ¬ t.Strands)

namespace Accounted

theorem connect (h : Accounted t) (a : Attempt) : Accounted (t.connect a) := by
  obtain ⟨howned, haccounted⟩ := h
  refine ⟨howned.connect a, fun hnum ⟨x, hx⟩ => ?_⟩
  obtain ⟨log, hlog, -, hevents⟩ := t.exists_connect_log a
  rw [hlog] at hnum
  have hnone := haccounted hnum.of_append
  by_cases hok : a.succeeds
  · obtain hx | ⟨hzero, -⟩ := (howned.stranded_connect hok).mp hx
    · exact hnone ⟨x, hx⟩
    · refine hnum ⟨a.calls.fd, t.serial⟩ (Ledger.acquired_append.mpr (.inr ?_)) hzero
      rw [hevents hok, Attempt.acquired_events hok]
      exact .inl (by rw [a.client_sockfd])
  · exact hnone ⟨x, (howned.stranded_connect_of_not hok).mp hx⟩

theorem kept (cfg : Config) : Kept cfg (fun _ _ => True) Accounted := by
  refine ⟨fun t p h => ⟨h.1.report p, fun hnum ⟨x, hx⟩ => ?_⟩,
    fun _ _ _ a _ _ _ _ h => h.connect a,
    fun _ _ _ t _ _ _ _ h => ⟨h.1.serve _, fun hnum ⟨x, hx⟩ => ?_⟩⟩
  · exact h.2 hnum ⟨x, (Owned.stranded_report p).mp hx⟩
  · exact h.2 hnum.of_append ⟨x, (Owned.stranded_serve _).mp hx⟩

theorem start (hl : t.listeners = opening cfg u) (he : t.entries = [])
    (hn : t.serial = (opening cfg u).length) (hlog : t.log = (opening cfg u).map Event.socket) :
    Accounted t := by
  refine ⟨.start hl he hn hlog, fun hnum => (strands_start hl he hlog).mpr fun d hd => hnum d ?_⟩
  rw [hlog]
  exact ⟨.socket d, List.mem_map_of_mem hd, rfl⟩

end Accounted

end MetricServer
