import MetricServer.Handler.Numbers
import MetricServer.Properties.Custody

/-! What is read and written is open. Where a call fails the code closes a descriptor or
frees a BIO that it closed or freed before, but it does not go on reading or writing
there: a client that was dropped is in no table. The one exception is a socket whose
timeout could not be set, which is closed while the client is kept; were it not for that,
no number that the table holds could be handed out again. The listening sockets are out of
reach of all this. -/

namespace MetricServer

open Base Http LoopState

variable {cfg : Config} {u : StartUp} {rounds : List Round} {s : LoopState} {r : Round}

/-! ### Reads and writes -/

theorem Silent.not_used {log : List Event} (h : Silent log) (r : Resource) :
    ¬ ledger.Used log r := by
  rintro ⟨e, he, hr⟩
  cases e with
  | recv ch off len got => exact h _ he ch rfl
  | send ch data sent => exact h _ he ch rfl
  | _ => exact hr

/-- Serving an entry reads and writes before it closes. -/
theorem Entry.orderly_served (cfg : Config) (v : Serving) (i : ℕ) (e : Entry)
    (Q : Resource → Prop) : ledger.Orderly Q (e.served cfg v i).events := by
  by_cases h : e.isReadable
  · obtain ⟨rest, hevents, hrest⟩ := handleRequest_transfers v.db (v.io i) e.pfd e.client
    have hcalls : ∀ ev ∈ e.client.receiveCalls (v.io i).errno (v.io i).reads ++
        e.client.answer v.db (v.io i), ev.isTransfer e.client.channel := by
      intro ev hev
      obtain hev | hev := List.mem_append.mp hev
      · exact e.client.receiveCalls_transfers _ _ ev hev
      · obtain ⟨data, n, rfl, -⟩ := e.client.answer_send _ _ ev hev
        rfl
    rw [served_of_isReadable cfg v i h, hevents]
    exact Ledger.orderly_append.mpr
      ⟨Ledger.orderly_of_not_released fun r => not_released_of_transfers hcalls,
        Ledger.orderly_of_not_used hrest.not_used, fun r _ _ => hrest.not_used r⟩
  · exact Ledger.orderly_of_not_used (silent_served h).not_used

/-! ### A connection that was closed at once -/

/-- The descriptor was closed when it had just been accepted: a timeout could not be set. -/
def ClosedAtOnce (log : List Event) (r : Resource) : Prop :=
  ∃ d, r = .descriptor d ∧ [.accept d, .close d] <:+: log

theorem ClosedAtOnce.append {log : List Event} {r : Resource} (h : ClosedAtOnce log r)
    (log' : List Event) : ClosedAtOnce (log ++ log') r :=
  let ⟨d, hd, hlog⟩ := h
  ⟨d, hd, hlog.trans (List.prefix_append _ _).isInfix⟩

theorem Attempt.closedAtOnce {a : Attempt} {serial : ℕ} (hok : a.succeeds) {r : Resource}
    (hr : ledger.Released (a.events serial) r) : ClosedAtOnce (a.events serial) r := by
  obtain ⟨hnone, rfl⟩ := (Attempt.released_events hok).mp hr
  obtain ⟨n, hn⟩ := Nat.exists_eq_succ_of_ne_zero hnone
  refine ⟨_, rfl, ?_⟩
  rw [a.events_eq serial hok.1, hn, List.replicate_succ]
  exact List.IsPrefix.isInfix ⟨_, rfl⟩

/-! ### What is open -/

/-- Reads and writes went through what was open, or through a descriptor that was closed at once;
and no other resource of an entry has been released. -/
structure Usable (t : Connections) : Prop extends Owned t where
  orderly : ledger.Orderly (fun r => ¬ ClosedAtOnce t.log r) t.log
  live : ∀ e ∈ t.entries, 0 < e.pfd.fd → ∀ r, e.client.owns r → ledger.Released t.log r →
    ClosedAtOnce t.log r

/-- What carries a number given was not touched by the events of the next one. -/
theorem Owned.not_released_next {t : Connections} (h : Owned t) {a : Attempt} {log : List Event}
    (hlog : ∀ e ∈ log, a.Concerns t.serial e) {r : Resource} (hr : r.serial ∈ t.numbers) :
    ¬ ledger.Released log r := by
  intro hrel
  have hserial := Attempt.serial_of_concerns hlog (.inr hrel.touched)
  exact absurd (h.given _ hr) (by omega)

namespace Usable

variable {t : Connections}

theorem report (h : Usable t) (p : PollResult) : Usable (t.report cfg p) := by
  refine ⟨h.toOwned.report p, h.orderly, fun e he hpos => ?_⟩
  obtain ⟨e₀, he₀, hc, hfd⟩ := Connections.mem_reported he
  exact hc ▸ h.live e₀ he₀ (hfd ▸ hpos)

/-- More events, none of which is a read or a write. -/
theorem orderly_silent (h : Usable t) {log : List Event} (hlog : Silent log) :
    ledger.Orderly (fun r => ¬ ClosedAtOnce (t.log ++ log) r) (t.log ++ log) := by
  refine Ledger.orderly_append.mpr
    ⟨h.orderly.mono fun r hr hnot => hr (hnot.append log), ?_, fun r _ _ => hlog.not_used r⟩
  exact Ledger.orderly_of_not_used hlog.not_used

theorem connect (h : Usable t) (a : Attempt) : Usable (t.connect a) := by
  obtain ⟨log, hlog, hconcerns, hevents⟩ := t.exists_connect_log a
  refine ⟨h.toOwned.connect a, ?_, fun e he hpos r hown hrel => ?_⟩
  · rw [hlog]
    exact h.orderly_silent (Attempt.silent_of_concerns hconcerns)
  rw [hlog] at hrel ⊢
  obtain hrel | hrel := Ledger.released_append.mp hrel
  · obtain he | ⟨rfl, hok⟩ := Connections.mem_connect he
    · exact (h.live e he hpos r hown hrel).append log
    -- nothing of the new connection has been there before
    · have hserial := Attempt.serial_of_concerns (fun _ => Attempt.concerns_of_mem_events)
        (.inl ((Attempt.acquired_events hok).mpr hown))
      have := h.past r (.inr hrel.touched)
      omega
  · obtain he | ⟨-, hok⟩ := Connections.mem_connect he
    · exact absurd hrel (h.toOwned.not_released_next hconcerns (h.serial_mem he hown).2)
    · rw [hevents hok] at hrel ⊢
      obtain ⟨d, hd, hinfix⟩ := Attempt.closedAtOnce hok hrel
      exact ⟨d, hd, hinfix.trans (List.suffix_append _ _).isInfix⟩

theorem serve (h : Usable t) (v : Serving) : Usable (t.serve cfg v) := by
  have hmono (r : Resource) (hr : ClosedAtOnce t.log r) : ClosedAtOnce (t.serve cfg v).log r :=
    hr.append _
  refine ⟨h.toOwned.serve v, ?_, ?_⟩
  · refine Ledger.orderly_append.mpr ⟨h.orderly.mono fun r hr hnot => hr (hmono r hnot), ?_, ?_⟩
    · refine Ledger.orderly_flatten (fun l hl => ?_) (List.pairwise_iff_getElem.mpr ?_)
      · obtain ⟨i, hi, rfl⟩ := List.mem_mapIdx.mp hl
        exact Entry.orderly_served cfg v i _ _
      · intro i j hi hj hij r hr hr'
        rw [List.length_mapIdx] at hi hj
        rw [List.getElem_mapIdx] at hr hr'
        have h₁ := h.serial_mem (List.getElem_mem hi) (Entry.touched_served hr).2
        have h₂ := h.serial_mem (List.getElem_mem hj) (Entry.touched_served hr').2
        exact hij.ne (h.index_eq hi hj (h₁.1.symm.trans h₂.1))
    · intro r hr hrel huse
      obtain ⟨l, hl, ht⟩ := Ledger.touched_flatten.mp huse.touched
      obtain ⟨i, hi, rfl⟩ := List.mem_mapIdx.mp hl
      obtain ⟨hpos, hown⟩ := Entry.touched_served ht
      exact hr (hmono r (h.live _ (List.getElem_mem hi) hpos r hown hrel))
  · intro e he hpos r hown hrel
    obtain ⟨he, hopen⟩ := List.mem_filter.mp he
    obtain ⟨i, hi, rfl⟩ := List.mem_mapIdx.mp he
    obtain ⟨buffer, hc⟩ := Entry.client_of_isOpen hopen
    rw [hc] at hown
    rw [Entry.fd_serve hopen] at hpos
    obtain hrel | hrel := Ledger.released_append.mp hrel
    · exact hmono r (h.live _ (List.getElem_mem hi) hpos r hown hrel)
    · obtain ⟨j, hj, hown', -, hgone⟩ := Custody.released_serve hrel
      obtain rfl : i = j := h.index_eq hi hj
        ((h.serial_mem (List.getElem_mem hi) hown).1.symm.trans
          (h.serial_mem (List.getElem_mem hj) hown').1)
      exact absurd hopen hgone

theorem kept (cfg : Config) : Kept cfg (fun _ _ => True) Usable :=
  ⟨fun _ p h => h.report p, fun _ _ _ a _ _ _ _ h => h.connect a,
    fun _ _ _ _ _ _ _ _ h => h.serve _⟩

theorem start (hl : t.listeners = opening cfg u) (he : t.entries = [])
    (hn : t.serial = (opening cfg u).length) (hlog : t.log = (opening cfg u).map Event.socket) :
    Usable t := by
  have hnot (r : Resource) : ¬ ledger.Released t.log r := by
    rw [hlog]
    rintro ⟨e, he, hr⟩
    obtain ⟨d, -, rfl⟩ := List.mem_map.mp he
    simp at hr
  exact ⟨.start hl he hn hlog, Ledger.orderly_of_not_released hnot,
    fun e _ _ r _ hrel => absurd hrel (hnot r)⟩

end Usable

/-! ### Whole runs -/

/-- After the given rounds the loop is at a head, or the function has ended: the clients and the
listening sockets that there were have been closed, perhaps after one more connection. -/
theorem Kept.outcome {I : Connections → Prop} (k : Kept cfg (fun _ _ => True) I)
    (hstart : ∀ t, t.listeners = opening cfg u → t.entries = [] →
      t.serial = (opening cfg u).length → t.log = (opening cfg u).map Event.socket → I t)
    {s₀ : LoopState} (hs : startUp cfg u = .next s₀) (rounds : List Round) :
    (∃ s t, runs (loopStep cfg) s₀ rounds = .next s ∧ Represents cfg s t ∧ I t) ∨
      ∃ f t calls ends, runs (loopStep cfg) s₀ rounds = .done f ∧ I t ∧
        f.log = t.log ++ (calls ++ ends) ∧
        (calls = [] ∨ ∃ a : Attempt, a.refused cfg ∧ calls = a.events t.serial) ∧
        ∃ logs : List (List Event), ends = logs.flatten ∧ logs.Perm t.closers := by
  cases hout : runs (loopStep cfg) s₀ rounds with
  | next s =>
    have hrun : Running cfg u rounds s := ⟨s₀, hs, trace_of_runs hout⟩
    obtain ⟨t, ht, hI⟩ := k.run hstart hrun.runningWhen
    exact .inl ⟨s, t, rfl, ht, hI⟩
  | done f =>
    obtain ⟨rounds', r, s, htrace, hstep⟩ := exists_trace_of_runs hout
    have hrun : Running cfg u rounds' s := ⟨s₀, hs, htrace⟩
    obtain ⟨t, ht, hI⟩ := k.run hstart hrun.runningWhen
    obtain ⟨s', t', rfl, hI', hlog⟩ | ⟨s', t', a, rfl, hI', -, hr, hlog⟩ |
      ⟨s', t', rfl, hI', hlog⟩ := k.done ht hI trivial hstep
    · exact .inr ⟨_, t', [], _, rfl, hI', hlog, .inl rfl, t'.closing_perm⟩
    · refine .inr ⟨_, t', a.events t'.serial, t'.closing, rfl, hI', ?_, .inr ⟨a, hr, rfl⟩,
        t'.closing_perm⟩
      rw [← List.append_assoc]
      exact hlog
    · exact .inr ⟨_, t', [], _, rfl, hI', hlog, .inl rfl, t'.aborting_perm⟩

/-- A connection whose timeout could not be set, and a request on it. -/
def timeoutFailing : List Round :=
  [{ Round.sample [POLLIN] 5 6 "" with
      accept := { AcceptCalls.sample 5 with setRecvTimeout := -1 } },
    .sample [0, POLLIN] 5 6 "GET /liveness HTTP/1.1\r\n\r\n"]

/-- The timeouts are set, and no attempt gets the number of a descriptor that is open, be it from
before or from an earlier attempt. -/
def Granted (cfg : Config) (s : LoopState) (r : Round) : Prop :=
  (∀ a ∈ s.attempts cfg r, a.timeouts = 0 ∧ ∀ d, ledger.Acquired s.log (.descriptor d) →
    ¬ ledger.Released s.log (.descriptor d) → d.num ≠ a.calls.fd) ∧
  (s.attempts cfg r).Pairwise fun a b => a.succeeds → a.calls.fd ≠ b.calls.fd

/-- What the table holds is open. -/
structure Intact (t : Connections) : Prop extends Owned t where
  acquired : ∀ d ∈ t.descriptors, ledger.Acquired t.log (.descriptor d)
  unreleased : ∀ d ∈ t.descriptors, ¬ ledger.Released t.log (.descriptor d)

namespace Intact

variable {t : Connections}

theorem serial_mem_numbers {d : Descriptor} (hd : d ∈ t.descriptors) : d.serial ∈ t.numbers := by
  obtain hd | hd := List.mem_append.mp hd
  · exact List.mem_append_left _ (List.mem_map_of_mem hd)
  · obtain ⟨e, he, rfl⟩ := List.mem_map.mp hd
    exact List.mem_append_right _ (List.mem_map.mpr ⟨e, he, rfl⟩)

theorem report (h : Intact t) (p : PollResult) : Intact (t.report cfg p) := by
  have hsame : (t.report cfg p).descriptors = t.descriptors := Connections.descriptors_report p
  exact ⟨h.toOwned.report p, hsame ▸ h.acquired, hsame ▸ h.unreleased⟩

theorem connect (h : Intact t) {a : Attempt} (ha : a.timeouts = 0) : Intact (t.connect a) := by
  obtain ⟨log, hlog, hconcerns, hevents⟩ := t.exists_connect_log a
  refine ⟨h.toOwned.connect a, fun d hd => ?_, fun d hd hrel => ?_⟩
  · rw [hlog, Ledger.acquired_append]
    obtain hd | ⟨hok, rfl⟩ := Connections.mem_descriptors_connect hd
    · exact .inl (h.acquired d hd)
    · rw [hevents hok, Attempt.acquired_events hok]
      exact .inr (.inl (by rw [a.client_sockfd]))
  · rw [hlog, Ledger.released_append] at hrel
    obtain hd | ⟨hok, rfl⟩ := Connections.mem_descriptors_connect hd
    · exact hrel.elim (h.unreleased d hd)
        (h.toOwned.not_released_next hconcerns (serial_mem_numbers hd))
    · obtain hrel | hrel := hrel
      · exact lt_irrefl _ (h.past _ (.inr hrel.touched))
      · rw [hevents hok, Attempt.released_events hok] at hrel
        exact hrel.1 ha

theorem serve (h : Intact t) (v : Serving) : Intact (t.serve cfg v) := by
  refine ⟨h.toOwned.serve v, fun d hd => ?_, fun d hd hrel => ?_⟩
  · exact Ledger.acquired_append.mpr (.inl (h.acquired d (Connections.descriptors_serve v hd)))
  · obtain hrel | hrel := Ledger.released_append.mp hrel
    · exact h.unreleased d (Connections.descriptors_serve v hd) hrel
    obtain ⟨i, hi, hown, -, hgone⟩ := Custody.released_serve hrel
    have hserial := (h.serial_mem (List.getElem_mem hi) hown).1
    obtain hd | hd := List.mem_append.mp hd
    · exact h.serial_ne hd (List.getElem_mem hi) hserial
    · obtain ⟨e, he, rfl⟩ := List.mem_map.mp hd
      obtain ⟨he, hopen⟩ := List.mem_filter.mp he
      obtain ⟨j, hj, rfl⟩ := List.mem_mapIdx.mp he
      obtain rfl : j = i := h.index_eq hj hi ((Entry.serial_serve hopen).symm.trans hserial)
      exact hgone hopen

theorem start (hl : t.listeners = opening cfg u) (he : t.entries = [])
    (hn : t.serial = (opening cfg u).length) (hlog : t.log = (opening cfg u).map Event.socket) :
    Intact t := by
  refine ⟨.start hl he hn hlog, fun d hd => ?_, fun d _ hrel => ?_⟩
  · rw [Connections.descriptors, hl, he, List.map_nil, List.append_nil] at hd
    exact hlog ▸ ⟨_, List.mem_map_of_mem hd, rfl⟩
  · rw [hlog] at hrel
    obtain ⟨e, hmem, hrel⟩ := hrel
    obtain ⟨d', -, rfl⟩ := List.mem_map.mp hmem
    simp at hrel

theorem kept (cfg : Config) : Kept cfg (Granted cfg) Intact :=
  ⟨fun _ p h => h.report p, fun _ _ _ _ hg ha _ _ h => h.connect (hg.1 _ ha).1,
    fun _ _ _ _ _ _ _ _ h => h.serve _⟩

end Intact

/-- Of two attempts of an iteration the first is at the port without SSL. -/
theorem pairwise_attempts (cfg : Config) (s : LoopState) (r : Round) :
    (s.attempts cfg r).Pairwise fun a _ => a.ssl = false := by
  simp only [LoopState.attempts, attemptsOn, attemptHttp, attemptHttps]
  split_ifs <;> simp

theorem Granted.unheld {t : Connections} (h : Granted cfg s r) (ht : Represents cfg s t)
    (hI : Intact t) : Unheld cfg s r := by
  refine ⟨fun a ha hmem => ?_, ?_⟩
  · rw [ht.nums_eq] at hmem
    obtain ⟨d, hd, hnum⟩ := List.mem_map.mp hmem
    exact (h.1 a ha).2 d (ht.log_eq ▸ hI.acquired d hd) (ht.log_eq ▸ hI.unreleased d hd) hnum
  · refine (h.2.and (pairwise_attempts cfg s r)).imp fun ⟨hne, hssl⟩ hfd => hne ⟨hfd, fun hs => ?_⟩
    rw [hssl] at hs
    cases hs

theorem Intact.along_unheld {t : Connections} (hI : Intact t) (ht : Represents cfg s t)
    (h : along (Granted cfg) (loopStep cfg) s rounds) :
    along (Unheld cfg) (loopStep cfg) s rounds := by
  induction rounds generalizing s t with
  | nil => trivial
  | cons r rounds ih =>
    obtain ⟨hr, hrest⟩ := h
    refine ⟨hr.unheld ht hI, ?_⟩
    cases hstep : loopStep cfg s r with
    | next s' =>
      rw [hstep] at hrest
      obtain ⟨t', ht', hI'⟩ := (Intact.kept cfg).step ht hI hr hstep
      exact ih hI' ht' hrest
    | done f => trivial

/-- Where every timeout is set it is enough that what is handed out has no number of anything open:
all that the table holds is open. -/
theorem unshared_of_granted (hnodup : ((opening cfg u).map (·.num)).Nodup)
    (h : (startUp cfg u).onNext fun s₀ => along (Granted cfg) (loopStep cfg) s₀ rounds) :
    Unshared cfg u rounds := by
  refine ⟨hnodup, ?_⟩
  cases hs : startUp cfg u with
  | next s₀ =>
    rw [hs] at h
    obtain ⟨t, ht, hl, he, hn, hlog⟩ := exists_represents hs
    exact (Intact.start hl he hn hlog).along_unheld ht h
  | done f => trivial

/-! ### The listening sockets -/

theorem count_close_stopListening (listeners : List Descriptor) (d : Descriptor) :
    (listeners.flatMap Connections.stopListening).count (.close d) =
      if 0 < d.num then listeners.count d else 0 := by
  induction listeners with
  | nil => simp
  | cons d' listeners ih =>
    rw [List.flatMap_cons, List.count_append, ih, List.count_cons, Connections.stopListening]
    by_cases hd : d' = d
    · subst hd
      split_ifs <;> simp_all [Nat.add_comm]
    · split_ifs <;> simp_all

/-- Of what closes everything one call closes a listening socket. -/
theorem Owned.count_close_closers {t : Connections} (h : Owned t) {d : Descriptor}
    (hd : d ∈ t.listeners) :
    t.closers.flatten.count (.close d) = if 0 < d.num then 1 else 0 := by
  have hentries : (t.entries.map fun e => e.client.clientClear.2).flatten.count (.close d) = 0 := by
    refine List.count_eq_zero.mpr fun hmem => ?_
    obtain ⟨l, hl, hmem⟩ := List.mem_flatten.mp hmem
    obtain ⟨e, he, rfl⟩ := List.mem_map.mp hl
    have hown := (Entry.released_clear.mp (released_descriptor_iff.mpr hmem)).2
    exact h.serial_ne hd he (h.serial_mem he hown).1
  have hnodup : t.listeners.Nodup := (List.nodup_append.mp h.distinct).1.of_map
  rw [Connections.closers, List.flatten_append, List.count_append, hentries, Nat.zero_add,
    ← List.flatMap_def, count_close_stopListening, List.count_eq_one_of_mem hnodup hd]

/-- The listening sockets are those of start-up, and none of them has been closed. -/
structure Listening (cfg : Config) (u : StartUp) (t : Connections) : Prop extends Owned t where
  listeners_eq : t.listeners = opening cfg u
  listening : ∀ d ∈ t.listeners, .close d ∉ t.log

namespace Listening

variable {t : Connections}

theorem not_closed_next (h : Listening cfg u t) {a : Attempt} {log : List Event}
    (hlog : ∀ e ∈ log, a.Concerns t.serial e) {d : Descriptor} (hd : d ∈ t.listeners) :
    .close d ∉ t.log ++ log := by
  rw [List.mem_append, not_or]
  refine ⟨h.listening d hd, fun hmem => ?_⟩
  exact h.toOwned.not_released_next hlog (List.mem_append_left _ (List.mem_map_of_mem hd))
    (released_descriptor_iff.mpr hmem)

theorem connect (h : Listening cfg u t) (a : Attempt) : Listening cfg u (t.connect a) := by
  refine ⟨h.toOwned.connect a, (Connections.connect_listeners t a).trans h.listeners_eq, ?_⟩
  intro d hd
  rw [Connections.connect_listeners] at hd
  obtain ⟨log, hlog, hconcerns, -⟩ := t.exists_connect_log a
  rw [hlog]
  exact h.not_closed_next hconcerns hd

theorem serve (h : Listening cfg u t) (v : Serving) : Listening cfg u (t.serve cfg v) := by
  refine ⟨h.toOwned.serve v, h.listeners_eq, fun d hd hmem => ?_⟩
  obtain hmem | hmem := List.mem_append.mp hmem
  · exact h.listening d hd hmem
  · obtain ⟨i, hi, hown, -, -⟩ := Custody.released_serve (released_descriptor_iff.mpr hmem)
    exact h.serial_ne hd (List.getElem_mem hi) (h.serial_mem (List.getElem_mem hi) hown).1

theorem kept (cfg : Config) (u : StartUp) : Kept cfg (fun _ _ => True) (Listening cfg u) :=
  ⟨fun _ p h => ⟨h.toOwned.report p, h.listeners_eq, h.listening⟩,
    fun _ _ _ a _ _ _ _ h => h.connect a, fun _ _ _ _ _ _ _ _ h => h.serve _⟩

theorem start (hl : t.listeners = opening cfg u) (he : t.entries = [])
    (hn : t.serial = (opening cfg u).length) (hlog : t.log = (opening cfg u).map Event.socket) :
    Listening cfg u t := by
  refine ⟨.start hl he hn hlog, hl, fun d _ => ?_⟩
  rw [hlog]
  simp

end Listening

/-- Whatever its clients do, the server closes no listening socket while it runs, and each of them
once at its end. -/
theorem count_close_listener {s₀ : LoopState} (hs : startUp cfg u = .next s₀) (rounds : List Round)
    {d : Descriptor} (hd : d ∈ opening cfg u) :
    (logOf (runs (loopStep cfg) s₀ rounds)).count (.close d) =
      if 0 < d.num ∧ (runs (loopStep cfg) s₀ rounds).ends fun _ => true then 1 else 0 := by
  obtain ⟨s, t, hout, ht, hI⟩ | ⟨f, t, calls, ends, hout, hI, hall, hcalls, logs, rfl, hperm⟩ :=
    (Listening.kept cfg u).outcome (fun _ hl he hn hlog => .start hl he hn hlog) hs rounds
  · have hzero := List.count_eq_zero.mpr (hI.listening d (hI.listeners_eq ▸ hd))
    rw [hout, logOf, ← ht.log_eq, hzero]
    simp [Outcome.ends]
  · replace hd : d ∈ t.listeners := hI.listeners_eq ▸ hd
    have hbefore := List.count_eq_zero.mpr (hI.listening d hd)
    have hcount : calls.count (.close d) = 0 := by
      obtain rfl | ⟨a, -, rfl⟩ := hcalls
      · rfl
      · refine List.count_eq_zero.mpr fun hmem => ?_
        exact hI.not_closed_next (fun _ => Attempt.concerns_of_mem_events) hd
          (List.mem_append_right t.log hmem)
    rw [hout, logOf, hall, List.count_append, List.count_append, hbefore, hcount,
      hperm.flatten.count_eq, hI.toOwned.count_close_closers hd]
    simp [Outcome.ends]

theorem count_close_listener_sample : ∃ s₀, startUp (.sample false) .sample = .next s₀ ∧
    (logOf (runs (loopStep (.sample false)) s₀
      (timeoutFailing ++ [{ Round.sample [] 5 6 "" with exitHead := true }]))).count
        (.close ⟨3, 0⟩) = 1 := by
  obtain ⟨s₀, hs₀, hends⟩ := Outcome.exists_of_goes (o := startUp (.sample false) .sample)
    (p := fun s₀ => (runs (loopStep (.sample false)) s₀
      (timeoutFailing ++ [{ Round.sample [] 5 6 "" with exitHead := true }])).ends fun _ => true)
    (by decide)
  refine ⟨s₀, hs₀, (count_close_listener hs₀ _ (List.mem_singleton_self _)).trans ?_⟩
  exact if_pos ⟨by decide, hends⟩

end MetricServer
