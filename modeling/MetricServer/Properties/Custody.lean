import MetricServer.Handler.Ownership

/-! Custody of descriptors and BIOs. The code closes what it closed before when a timeout
could not be set, when SSL could not be set up, and when a receive failed: the fields
keep the number, and `clientClear` closes it again. Without these a run uses nothing
after its release. -/

namespace MetricServer

open Base Http LoopState

variable {cfg : Config} {u : StartUp} {rounds : List Round} {s : LoopState} {r : Round}

/-! ### No double release -/

/-- The attempt and what follows from it close its descriptor once at most: it is closed
by no failing timeout, and by the failing SSL setup only where `clientClear` skips it;
or by one failing timeout only, and nothing looks at the client again. -/
def Attempt.careful (cfg : Config) (a : Attempt) : Prop :=
  0 ≤ a.calls.fd →
    (a.timeouts = 0 ∧ (a.succeeds ∨ a.calls.fd = 0)) ∨
      (a.timeouts = 1 ∧ a.succeeds ∧ (a.calls.fd = 0 ∨ a.refused cfg))

instance (cfg : Config) (a : Attempt) : Decidable (a.careful cfg) :=
  inferInstanceAs (Decidable (_ → _))

theorem Attempt.careful.timeouts_le {a : Attempt} (ha : a.careful cfg) (hok : a.succeeds) :
    a.timeouts ≤ 1 := by
  obtain ⟨h, -⟩ | ⟨h, -⟩ := ha hok.1 <;> omega

namespace LoopState

/-- The client at position `i` is read in the iteration. -/
def reads (cfg : Config) (s : LoopState) (r : Round) (i : ℕ) : Prop :=
  s.serves cfg r ∧ 0 < ((s.polled r).pfd cfg i).fd ∧ ((s.polled r).pfd cfg i).revents = POLLIN

instance (cfg : Config) (s : LoopState) (r : Round) (i : ℕ) : Decidable (s.reads cfg r i) :=
  inferInstanceAs (Decidable (_ ∧ _))

end LoopState

/-- The attempts of the iteration are careful, and no client is read whose reads fail. -/
def Careful (cfg : Config) (s : LoopState) (r : Round) : Prop :=
  (∀ a ∈ s.attempts cfg r, a.careful cfg) ∧
    ∀ i < s.clients.length, s.reads cfg r i →
      ¬ Client.readsFail 0 (r.io i).errno (r.io i).reads

instance (cfg : Config) (s : LoopState) (r : Round) : Decidable (Careful cfg s r) :=
  inferInstanceAs (Decidable (_ ∧ _))

/-- Nothing was used or released after its release, and what is open was not released. -/
structure Custody (t : Connections) : Prop extends Owned t where
  disciplined : ledger.Disciplined t.log
  listening : ∀ d ∈ t.listeners, ¬ ledger.Released t.log (.descriptor d)
  live : ∀ e ∈ t.entries, 0 < e.pfd.fd → ∀ r, e.client.owns r → ¬ ledger.Released t.log r

namespace Custody

variable {t : Connections}

/-- What carries a number given was not touched by the events of the next one. -/
theorem not_released_append (h : Custody t) {a : Attempt} {log : List Event}
    (hlog : ∀ e ∈ log, a.Concerns t.serial e) {r : Resource} (hr : r.serial ∈ t.numbers)
    (hnot : ¬ ledger.Released t.log r) : ¬ ledger.Released (t.log ++ log) r := by
  rw [Ledger.released_append, not_or]
  refine ⟨hnot, fun hrel => ?_⟩
  have := Attempt.serial_of_concerns hlog (.inr hrel.touched)
  exact absurd (h.given _ hr) (by omega)

/-- The events of the next number after the past. -/
theorem disciplined_append (h : Custody t) {a : Attempt} {log : List Event}
    (hlog : ∀ e ∈ log, a.Concerns t.serial e) (hd : ledger.Disciplined log) :
    ledger.Disciplined (t.log ++ log) := by
  refine Ledger.disciplined_append.mpr ⟨h.disciplined, hd, fun r hr ht => ?_⟩
  have hpast := h.past r (.inr hr.touched)
  rw [Attempt.serial_of_concerns hlog (.inr ht)] at hpast
  exact lt_irrefl _ hpast

/-- Events of the next number keep custody, if what is new in the table is not released. -/
theorem extend (h : Custody t) {t' : Connections} (howned : Owned t') {a : Attempt}
    {log : List Event} (hlog : t'.log = t.log ++ log) (hevents : ∀ e ∈ log, a.Concerns t.serial e)
    (hd : ledger.Disciplined log) (hlisteners : t'.listeners = t.listeners)
    (hnew : ∀ e ∈ t'.entries, e ∉ t.entries → 0 < e.pfd.fd →
      ∀ r, e.client.owns r → ¬ ledger.Released t'.log r) : Custody t' := by
  refine ⟨howned, ?_, fun d hd => ?_, fun e he hpos r hown => ?_⟩
  · rw [hlog]
    exact h.disciplined_append hevents hd
  · rw [hlisteners] at hd
    rw [hlog]
    exact h.not_released_append hevents (List.mem_append_left _ (List.mem_map_of_mem hd))
      (h.listening d hd)
  · by_cases hold : e ∈ t.entries
    · rw [hlog]
      exact h.not_released_append hevents (h.serial_mem hold hown).2 (h.live e hold hpos r hown)
    · exact hnew e he hold hpos r hown

theorem report (h : Custody t) (p : PollResult) : Custody (t.report cfg p) := by
  refine ⟨h.toOwned.report p, h.disciplined, h.listening, fun e he hpos => ?_⟩
  obtain ⟨e₀, he₀, hc, hfd⟩ := Connections.mem_reported he
  exact hc ▸ h.live e₀ he₀ (hfd ▸ hpos)

theorem connect_of_succeeds (h : Custody t) {a : Attempt} (ha : a.careful cfg)
    (hr : ¬ a.refused cfg) (hok : a.succeeds) : Custody (t.connect a) := by
  have hlog : (t.connect a).log = t.log ++ a.events t.serial := by
    simp [Connections.connect, hok]
  have hentries : (t.connect a).entries = t.entries ++ [a.entry t.serial] := by
    simp [Connections.connect, hok]
  have hevents : ∀ e ∈ a.events t.serial, a.Concerns t.serial e :=
    fun _ => Attempt.concerns_of_mem_events
  refine h.extend (h.toOwned.connect a) hlog hevents
    (Attempt.disciplined_events hok (ha.timeouts_le hok)) (Connections.connect_listeners t a) ?_
  intro e he hnew hpos r hown
  rw [hentries] at he
  obtain rfl : e = a.entry t.serial := by simpa [hnew] using he
  have hnone : a.timeouts = 0 := by
    obtain ⟨h, -⟩ | ⟨-, -, hfd | hr'⟩ := ha hok.1
    · exact h
    · exact absurd hfd (ne_of_gt hpos)
    · exact absurd hr' hr
  have hserial : r.serial = t.serial :=
    Attempt.serial_of_concerns hevents (.inl ((Attempt.acquired_events hok).mpr hown))
  rw [hlog, Ledger.released_append, Attempt.released_events hok, not_or]
  refine ⟨fun hrel => ?_, fun hrel => hrel.1 hnone⟩
  have := h.past r (.inr hrel.touched)
  omega

theorem connect_of_not_succeeds (h : Custody t) {a : Attempt} (ha : a.careful cfg)
    (hok : ¬ a.succeeds) : Custody (t.connect a) := by
  have hlog : (t.connect a).log = t.log ++ a.failedEvents t.serial := by
    simp [Connections.connect, hok]
  have hentries : (t.connect a).entries = t.entries := by simp [Connections.connect, hok]
  have hfd : a.calls.fd < 0 ∨ a.calls.fd = 0 ∧ a.timeouts = 0 := by
    rcases lt_or_ge a.calls.fd 0 with hfd | hfd
    · exact .inl hfd
    · obtain ⟨ht, hok' | hfd⟩ | ⟨-, hok', -⟩ := ha hfd
      · exact absurd hok' hok
      · exact .inr ⟨hfd, ht⟩
      · exact absurd hok' hok
  refine h.extend (h.toOwned.connect a) hlog (fun _ => Attempt.concerns_of_mem_failedEvents hok)
    (Attempt.disciplined_failedEvents hok hfd) (Connections.connect_listeners t a) ?_
  intro e he hnew
  exact absurd (hentries ▸ he) hnew

theorem connect (h : Custody t) {a : Attempt} (ha : a.careful cfg) (hr : ¬ a.refused cfg) :
    Custody (t.connect a) := by
  by_cases hok : a.succeeds
  · exact h.connect_of_succeeds ha hr hok
  · exact h.connect_of_not_succeeds ha hok

theorem refuse (h : Custody t) {a : Attempt} (ha : a.careful cfg) (hr : a.refused cfg) :
    Custody (t.refuse a) :=
  h.extend (h.toOwned.refuse a) rfl (fun _ => Attempt.concerns_of_mem_events)
    (Attempt.disciplined_events hr.1 (ha.timeouts_le hr.1)) rfl fun _ he hnew => absurd he hnew

/-- What serving releases belongs to an entry that goes. -/
theorem released_serve {v : Serving} {r : Resource}
    (hr : ledger.Released (t.entries.mapIdx fun i e => (e.served cfg v i).events).flatten r) :
    ∃ i, ∃ hi : i < t.entries.length, t.entries[i].client.owns r ∧ 0 < t.entries[i].pfd.fd ∧
      ¬ (t.entries[i].serve cfg v i).isOpen := by
  obtain ⟨l, hl, hr⟩ := Ledger.released_flatten.mp hr
  obtain ⟨i, hi, rfl⟩ := List.mem_mapIdx.mp hl
  obtain ⟨hpos, hown⟩ := Entry.touched_served hr.touched
  refine ⟨i, hi, hown, hpos, ?_⟩
  obtain ⟨hopen, -⟩ | ⟨-, hnot⟩ := Entry.released_served cfg v i hpos
  · exact hopen
  · exact absurd hr (hnot r)

theorem serve (h : Custody t) {v : Serving}
    (hread : ∀ i, ∀ hi : i < t.entries.length, 0 < t.entries[i].pfd.fd →
      t.entries[i].pfd.revents = POLLIN → ¬ Client.readsFail 0 (v.io i).errno (v.io i).reads) :
    Custody (t.serve cfg v) := by
  refine ⟨h.toOwned.serve v, Ledger.disciplined_append.mpr ⟨h.disciplined, ?_, ?_⟩, ?_, ?_⟩
  · refine Ledger.disciplined_flatten (fun l hl => ?_) (List.pairwise_iff_getElem.mpr ?_)
    · obtain ⟨i, hi, rfl⟩ := List.mem_mapIdx.mp hl
      exact Entry.disciplined_served (hread i hi)
    · intro i j hi hj hij r hr hr'
      rw [List.length_mapIdx] at hi hj
      rw [List.getElem_mapIdx] at hr hr'
      have h₁ := h.serial_mem (List.getElem_mem hi) (Entry.touched_served hr).2
      have h₂ := h.serial_mem (List.getElem_mem hj) (Entry.touched_served hr').2
      exact hij.ne (h.index_eq hi hj (h₁.1.symm.trans h₂.1))
  · intro r hr ht
    obtain ⟨l, hl, ht⟩ := Ledger.touched_flatten.mp ht
    obtain ⟨i, hi, rfl⟩ := List.mem_mapIdx.mp hl
    obtain ⟨hpos, hown⟩ := Entry.touched_served ht
    exact h.live _ (List.getElem_mem hi) hpos r hown hr
  · intro d hd
    rw [Connections.serve, Ledger.released_append, not_or]
    refine ⟨h.listening d hd, fun hr => ?_⟩
    obtain ⟨i, hi, hown, -, -⟩ := released_serve hr
    exact h.serial_ne hd (List.getElem_mem hi) (h.serial_mem (List.getElem_mem hi) hown).1
  · intro e he hpos r hown
    obtain ⟨he, hopen⟩ := List.mem_filter.mp he
    obtain ⟨i, hi, rfl⟩ := List.mem_mapIdx.mp he
    obtain ⟨buffer, hc⟩ := Entry.client_of_isOpen hopen
    rw [hc] at hown
    rw [Entry.fd_serve hopen] at hpos
    rw [Connections.serve, Ledger.released_append, not_or]
    refine ⟨h.live _ (List.getElem_mem hi) hpos r hown, fun hr => ?_⟩
    obtain ⟨j, hj, hown', -, hgone⟩ := released_serve hr
    obtain rfl : i = j := h.index_eq hi hj
      ((h.serial_mem (List.getElem_mem hi) hown).1.symm.trans
        (h.serial_mem (List.getElem_mem hj) hown').1)
    exact hgone hopen

/-- Closing everything, in whatever order, is disciplined. -/
theorem disciplined_closers (h : Custody t) {logs : List (List Event)}
    (hperm : logs.Perm t.closers) : ledger.Disciplined (t.log ++ logs.flatten) := by
  refine Ledger.disciplined_append.mpr ⟨h.disciplined, ?_, fun r hr ht => ?_⟩
  · exact Ledger.disciplined_flatten_of_perm t.disciplined_closers h.closers_apart hperm
  · obtain ⟨l, hl, ht⟩ := Ledger.touched_flatten.mp ht
    obtain ⟨e, he, hpos, hown⟩ | ⟨d, hd, -, rfl⟩ :=
      Connections.touched_closers.mp ⟨l, hperm.mem_iff.mp hl, ht⟩
    · exact h.live e he hpos r hown hr
    · exact h.listening d hd hr

theorem kept (cfg : Config) : Kept cfg (Careful cfg) Custody := by
  refine ⟨fun _ p h => h.report p, fun s r t a hP ha hr _ h => h.connect (hP.1 a ha) hr, ?_⟩
  intro s r t₀ t hP ht₀ hserves hadm h
  refine h.serve fun i hi hpos hin => ?_
  obtain ⟨hlt, hpfd, -⟩ | ⟨-, hzero⟩ := ht₀.entry_cases hadm hi
  · rw [hpfd] at hpos hin
    exact hP.2 i hlt ⟨hserves, hpos, hin⟩
  · rw [hzero] at hin
    exact absurd hin (by decide)

theorem start {u : StartUp} (hl : t.listeners = opening cfg u) (he : t.entries = [])
    (hn : t.serial = (opening cfg u).length) (hlog : t.log = (opening cfg u).map Event.socket) :
    Custody t := by
  have hnot (r : Resource) : ¬ ledger.Released t.log r := by
    rw [hlog]
    rintro ⟨e, he, hr⟩
    obtain ⟨d, -, rfl⟩ := List.mem_map.mp he
    simp at hr
  exact ⟨.start hl he hn hlog, Ledger.disciplined_of_not_released hnot, fun d _ => hnot _,
    fun e _ _ r _ => hnot r⟩

end Custody

/-- In a run whose steps are careful nothing is used or released after its release: not
up to a head of the loop, and not up to the end of the function. -/
theorem disciplined_of_careful (cfg : Config) (u : StartUp) :
    (∀ f, startUp cfg u = .done f → ledger.Disciplined f.log) ∧
      ∀ rounds s, RunningWhen (Careful cfg) cfg u rounds s → ledger.Disciplined s.log ∧
        ∀ r f, Careful cfg s r → loopStep cfg s r = .done f → ledger.Disciplined f.log := by
  refine ⟨fun f hf => ?_, fun rounds s h => ?_⟩
  · obtain ⟨s, t, hs, -⟩ | ⟨s, hs, hd⟩ := startUp_cases cfg u
    · simp [hs] at hf
    · obtain rfl : Final.exited s = f := by simpa [hs] using hf
      exact hd
  have hk := Custody.kept cfg
  obtain ⟨t, ht, hc⟩ := hk.run (fun t hl he hn hlog => .start hl he hn hlog) h
  refine ⟨ht.log_eq ▸ hc.disciplined, fun r f hP hstep => ?_⟩
  obtain ⟨s', t', rfl, hc', hlog⟩ | ⟨s', t', a, rfl, hc', ha, hr, hlog⟩ |
    ⟨s', t', rfl, hc', hlog⟩ := hk.done ht hc hP hstep
  · obtain ⟨logs, hclose, hperm⟩ := t'.closing_perm
    rw [Final.log, hlog, hclose]
    exact hc'.disciplined_closers hperm
  · obtain ⟨logs, hclose, hperm⟩ := (t'.refuse a).closing_perm
    rw [Final.log, hlog, hclose]
    exact (hc'.refuse (hP.1 a ha) hr).disciplined_closers hperm
  · obtain ⟨logs, hclose, hperm⟩ := t'.aborting_perm
    rw [Final.log, hlog, hclose]
    exact hc'.disciplined_closers hperm

/-- A client that sends a request and is answered. -/
theorem disciplined_of_careful_sample : ∃ s,
    RunningWhen (Careful (.sample false)) (.sample false) .sample
      [.sample [POLLIN] 5 6 "", .sample [0, POLLIN] 5 6 "GET /metrics HTTP/1.1\r\n\r\n"] s ∧
      ledger.Disciplined s.log ∧ ∀ r f, Careful (.sample false) s r →
        loopStep (.sample false) s r = .done f → ledger.Disciplined f.log := by
  obtain ⟨s, hs, -⟩ := exists_runningWhen (Careful (.sample false)) (.sample false) .sample
    [.sample [POLLIN] 5 6 "", .sample [0, POLLIN] 5 6 "GET /metrics HTTP/1.1\r\n\r\n"]
    (fun _ => true) (by decide)
  exact ⟨s, hs, (disciplined_of_careful (.sample false) .sample).2 _ s hs⟩

/-- A connection whose TLS handshake fails. -/
def Round.handshakeFails : Round :=
  { Round.sample [0, POLLIN] 5 6 "" with
    acceptHttps := { AcceptCalls.sample 6 with sslAccept := 0 } }

/-- Its descriptor is closed twice. -/
theorem exists_not_disciplined : ∃ s,
    Running (.sample true) .sample [.handshakeFails] s ∧ ¬ ledger.Disciplined s.log := by
  obtain ⟨s, hs, htwice⟩ := exists_running (.sample true) .sample [.handshakeFails]
    (fun s => decide ((List.replicate 2 (Event.close ⟨6, 2⟩)).Sublist s.log)) (by decide)
  refine ⟨s, hs, fun hd => ?_⟩
  have := List.Pairwise.sublist (of_decide_eq_true htwice) hd
  simp [Ledger.touches] at this

end MetricServer
