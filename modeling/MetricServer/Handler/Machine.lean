import MetricServer.Handler.Runs

/-! The handler as a machine on the connections. Its state is one list of entries beside
the listening sockets, with no vectors, no offsets and no erasing in place: a round
reports events, takes in connections one after another, maps the service over the
entries and filters out those that were closed. The loop of the handler is this
machine, round for round. -/

namespace MetricServer

open Base Http LoopState

/-- A connection that a listening socket offers, and how setting it up goes. -/
structure Offer where
  ssl : Bool
  calls : AcceptCalls

def Offer.attempt (o : Offer) (held : ℕ) : Attempt := ⟨o.ssl, o.calls, held⟩

def Attempt.offer (a : Attempt) : Offer := ⟨a.ssl, a.calls⟩

/-- The machine returns or exits, with all the calls it has made. -/
inductive Ending where
  | returned (log : List Event)
  | exited (log : List Event)

namespace Connections

/-- Some socket reports events. -/
def ready (cfg : Config) (revents : ℕ → BitVec 16) (t : Connections) : Prop :=
  ∃ i < cfg.listeners + t.entries.length, revents i ≠ 0

/-- A listening socket reports anything but a connection. -/
def trouble (cfg : Config) (revents : ℕ → BitVec 16) : Prop :=
  (revents 0 ≠ POLLIN ∧ revents 0 ≠ 0) ∨
    (cfg.sslCtx ∧ revents 1 ≠ POLLIN ∧ revents 1 ≠ 0)

instance (cfg : Config) (revents : ℕ → BitVec 16) (t : Connections) :
    Decidable (t.ready cfg revents) :=
  inferInstanceAs (Decidable (∃ i < _, _))

instance (cfg : Config) (revents : ℕ → BitVec 16) : Decidable (trouble cfg revents) :=
  inferInstanceAs (Decidable (_ ∨ _))

/-- What the listening sockets offer. -/
def offers (cfg : Config) (revents : ℕ → BitVec 16) (r : Round) : List Offer :=
  (if revents 0 = POLLIN then [⟨false, r.accept⟩] else []) ++
    if cfg.sslCtx ∧ revents 1 = POLLIN then [⟨true, r.acceptHttps⟩] else []

/-- The connection is taken in, or turned away if there are too many. -/
def takeIn (cfg : Config) (t : Connections) (o : Offer) : Outcome Connections Connections :=
  if (o.attempt t.entries.length).refused cfg then .done (t.refuse (o.attempt t.entries.length))
  else .next (t.connect (o.attempt t.entries.length))

/-- The number that was accepted with or without SSL, or `0`. -/
def newfd (ssl : Bool) (os : List Offer) : ℤ :=
  ((os.find? fun o => o.ssl = ssl ∧ (o.attempt 0).succeeds).map (·.calls.fd)).getD 0

/-- The machine's round. -/
def iteration (cfg : Config) (t : Connections) (r : Round) : Outcome Connections Ending :=
  if r.exitHead then .done (.returned (t.log ++ t.closing))
  else
    let t := t.report cfg r.poll
    if r.exitPolled then .done (.returned (t.log ++ t.closing))
    else
      match r.poll with
      | .failed errno => if errno = EINTR then .next t else .done (.exited (t.log ++ t.aborting))
      | .ready revents =>
        if ¬ t.ready cfg revents then .next t
        else if trouble cfg revents then .done (.exited (t.log ++ t.aborting))
        else
          let os := offers cfg revents r
          match runs (takeIn cfg) t os with
          | .done t => .done (.returned (t.log ++ t.closing))
          | .next t' =>
            .next (t'.serve cfg ⟨newfd false os, newfd true os, t.db.update r.snapshot, r.io⟩)

end Connections

/-! ### Admission -/

theorem runs_takeIn {cfg : Config} {t t' : Connections} {as : List Attempt}
    (h : Trace (Admission cfg) t as t') :
    runs (Connections.takeIn cfg) t (as.map Attempt.offer) = .next t' := by
  induction h with
  | nil t => rfl
  | @cons t t₁ t' a as hstep _ ih =>
    obtain ⟨hr, hheld, rfl⟩ := hstep
    have hattempt : a.offer.attempt t.entries.length = a := by
      rw [← hheld]
      rfl
    rw [List.map_cons, runs, Connections.takeIn, hattempt, if_neg hr]
    exact ih

/-- The attempts of the accept phase are what is offered, as far as none is refused. -/
theorem exists_offers (cfg : Config) {fds : List PollFd} {revents : ℕ → BitVec 16}
    (h₀ : (fds.getD 0 default).revents = revents 0)
    (h₁ : cfg.sslCtx → (fds.getD 1 default).revents = revents 1) (held : ℕ) (r : Round) :
    (∃ rest, Connections.offers cfg revents r =
        (attemptsOn cfg fds held r).map Attempt.offer ++ rest) ∧
      ((∀ a ∈ attemptsOn cfg fds held r, ¬ a.refused cfg) →
        Connections.offers cfg revents r = (attemptsOn cfg fds held r).map Attempt.offer) := by
  have hhttp : (attemptHttp fds r held).map Attempt.offer =
      if revents 0 = POLLIN then [⟨false, r.accept⟩] else [] := by
    rw [attemptHttp, h₀]
    split_ifs <;> rfl
  have hhttps (held : ℕ) : (attemptHttps cfg fds r held).map Attempt.offer =
      if cfg.sslCtx ∧ revents 1 = POLLIN then [⟨true, r.acceptHttps⟩] else [] := by
    rw [attemptHttps]
    by_cases hssl : cfg.sslCtx
    · rw [h₁ hssl]
      split_ifs <;> rfl
    · simp [hssl]
  rw [attemptsOn, Connections.offers, ← hhttp]
  by_cases hrefused : ∃ a ∈ attemptHttp fds r held, a.refused cfg
  · rw [if_pos hrefused]
    refine ⟨⟨_, rfl⟩, fun hno => ?_⟩
    obtain ⟨a, ha, hr⟩ := hrefused
    exact absurd hr (hno a ha)
  · rw [if_neg hrefused, List.map_append, hhttps]
    exact ⟨⟨[], (List.append_nil _).symm⟩, fun _ => rfl⟩

theorem newfd_map (ssl : Bool) (as : List Attempt) :
    Connections.newfd ssl (as.map Attempt.offer) = accepted ssl as := by
  rw [Connections.newfd, accepted, List.find?_map, Option.map_map]
  rfl

/-! ### Polling -/

namespace Represents

variable {cfg : Config} {s : LoopState} {t : Connections}

theorem fds_nonneg (h : Represents cfg s t) : ∀ pfd ∈ s.fds, 0 ≤ pfd.fd := by
  obtain ⟨ls, hs⟩ := h.shows
  intro pfd hpfd
  rw [hs.fds_eq] at hpfd
  obtain hpfd | hpfd := List.mem_append.mp hpfd
  · have hmem : pfd.fd ∈ (s.listening cfg).map (·.num) :=
      hs.listeners_eq ▸ List.mem_map_of_mem hpfd
    obtain ⟨d, hd, hnum⟩ := List.mem_map.mp hmem
    exact hnum ▸ t.listening d (h.listeners_eq ▸ hd)
  · obtain ⟨e, he, rfl⟩ := List.mem_map.mp hpfd
    exact Entry.isOpen_iff.mp (t.opened e he)

theorem revents_polled (h : Represents cfg s t) (revents : ℕ → BitVec 16) {i : ℕ}
    (hi : i < s.fds.length) :
    ((poll (.ready revents) s.fds).2.getD i default).revents = revents i := by
  have hfd := h.fds_nonneg _ (List.getElem_mem hi)
  simp [poll, List.getElem?_eq_getElem hi, not_lt.mpr hfd]

theorem poll_pos_iff (h : Represents cfg s t) (revents : ℕ → BitVec 16) :
    0 < (poll (.ready revents) s.fds).1 ↔ t.ready cfg revents := by
  have hlen : s.fds.length = cfg.listeners + t.entries.length := by
    rw [h.length_fds, h.length_clients]
  rw [poll, Connections.ready, ← hlen, Int.natCast_pos, List.countP_pos_iff]
  constructor
  · rintro ⟨pfd, hpfd, hne⟩
    obtain ⟨i, hi, rfl⟩ := List.mem_mapIdx.mp hpfd
    have hfd := h.fds_nonneg _ (List.getElem_mem hi)
    exact ⟨i, hi, by simpa [not_lt.mpr hfd] using hne⟩
  · rintro ⟨i, hi, hne⟩
    have hfd := h.fds_nonneg _ (List.getElem_mem hi)
    exact ⟨_, List.mem_mapIdx.mpr ⟨i, hi, rfl⟩, by simpa [not_lt.mpr hfd] using hne⟩

end Represents

/-! ### One round -/

/-- The loop ends as the machine does, and has made the same calls. -/
def Final.Agrees : Final → Ending → Prop
  | .returned s, .returned log => s.log = log
  | .exited s, .exited log => s.log = log
  | _, _ => False

namespace Represents

variable {cfg : Config} {s : LoopState} {t : Connections}

/-- The accept phase and the service of a round. -/
theorem acceptAndServe (h : Represents cfg s t) {revents : ℕ → BitVec 16}
    (h₀ : (s.fds.getD 0 default).revents = revents 0)
    (h₁ : cfg.sslCtx → (s.fds.getD 1 default).revents = revents 1) (r : Round) :
    let os := Connections.offers cfg revents r
    Outcome.Rel (Represents cfg) Final.Agrees (s.acceptAndServe cfg r)
      (match runs (Connections.takeIn cfg) t os with
        | .done t => .done (.returned (t.log ++ t.closing))
        | .next t' => .next (t'.serve cfg
            { newfd := Connections.newfd false os, newfdHttps := Connections.newfd true os
              db := t.db.update r.snapshot, io := r.io })) := by
  obtain ⟨⟨rest, hrest⟩, hall⟩ := exists_offers cfg h₀ h₁ s.clients.length r
  rw [LoopState.acceptAndServe]
  obtain ⟨s₁, t₁, hno, hadm, hs, hgo⟩ | ⟨before, a, s₁, t₁, has, hadm, hr, hheld, hs, hgo⟩ :=
    h.acceptPhase r
  · have hserve := hs.serve r
    rw [← hs.db_eq, Admission.db_eq hadm] at hserve
    simp only [hgo, hall hno, runs_takeIn hadm, newfd_map]
    exact .next (hserve _ _)
  · have hattempt : a.offer.attempt t₁.entries.length = a := by
      rw [← hheld]
      rfl
    have htake : Connections.takeIn cfg t₁ a.offer = .done (t₁.refuse a) := by
      rw [Connections.takeIn, hattempt, if_pos hr]
    have hruns : runs (Connections.takeIn cfg) t (Connections.offers cfg revents r) =
        .done (t₁.refuse a) := by
      rw [hrest, has, List.map_append, List.append_assoc, runs_append, runs_takeIn hadm]
      simp only [List.map_cons, List.map_nil, List.cons_append, runs, htake]
    simp only [hgo, hruns]
    exact .done hs.shutdown.2.2

theorem simulates (h : Represents cfg s t) (r : Round) :
    Outcome.Rel (Represents cfg) Final.Agrees (loopStep cfg s r) (t.iteration cfg r) := by
  have hpolled := h.polled r
  rw [loopStep, Connections.iteration]
  by_cases hhead : r.exitHead
  · rw [if_pos hhead, if_pos hhead]
    exact .done h.shutdown.2.2
  rw [if_neg hhead, if_neg hhead, loopBody]
  simp only
  by_cases hflag : r.exitPolled
  · rw [if_pos hflag, if_pos hflag]
    exact .done hpolled.shutdown.2.2
  rw [if_neg hflag, if_neg hflag]
  have hfds : (s.polled r).fds = (poll r.poll s.fds).2 := rfl
  cases hpoll : r.poll with
  | failed errno =>
    rw [hpoll] at hpolled
    have hneg : (poll (.failed errno) s.fds).1 = -1 := rfl
    simp only [hneg]
    rw [if_neg (by omega), if_pos (by omega)]
    split_ifs
    · exact .next hpolled
    · exact .done hpolled.abort
  | ready revents =>
    rw [hpoll] at hpolled hfds
    have hpos := h.poll_pos_iff revents
    have hnonneg : 0 ≤ (poll (.ready revents) s.fds).1 := Int.natCast_nonneg _
    have hready : (t.report cfg (.ready revents)).ready cfg revents ↔ t.ready cfg revents := by
      simp only [Connections.ready, Connections.length_report]
    have hlen : s.fds.length = cfg.listeners + s.clients.length := h.length_fds
    have hlisteners := cfg.listeners_pos
    have h₀ : ((s.polled r).fds.getD 0 default).revents = revents 0 := by
      rw [hfds, h.revents_polled revents (by omega)]
    have h₁ (hssl : cfg.sslCtx) : ((s.polled r).fds.getD 1 default).revents = revents 1 := by
      have := Config.one_lt_listeners hssl
      rw [hfds, h.revents_polled revents (by omega)]
    have htrouble : listenerTrouble cfg (s.polled r).fds ↔ Connections.trouble cfg revents := by
      rw [listenerTrouble, Connections.trouble, h₀]
      exact or_congr_right (and_congr_right fun hssl => by rw [h₁ hssl])
    simp only [hready]
    by_cases hcount : t.ready cfg revents
    · have hcount' := hpos.mpr hcount
      rw [if_neg (by omega), if_neg (by omega), if_neg (not_not.mpr hcount)]
      by_cases htr : Connections.trouble cfg revents
      · rw [if_pos (htrouble.mpr htr), if_pos htr]
        exact .done hpolled.abort
      · rw [if_neg (mt htrouble.mp htr), if_neg htr]
        exact hpolled.acceptAndServe h₀ h₁ r
    · have hzero : (poll (.ready revents) s.fds).1 = 0 := by
        have := mt hpos.mp hcount
        omega
      rw [if_pos hzero, if_pos hcount]
      exact .next hpolled

end Represents

/-! ### Whole runs -/

/-- Where start-up succeeds, the loop and the machine go through the same rounds alike: after any
of them both go on, in a state and in connections that correspond, or both have ended in the same
way and with the same calls. -/
theorem runs_refine {cfg : Config} {u : StartUp} {s₀ : LoopState} (hs : startUp cfg u = .next s₀) :
    ∃ t₀ : Connections, t₀.listeners = opening cfg u ∧ t₀.entries = [] ∧
      ∀ rounds, Outcome.Rel (Represents cfg) Final.Agrees (runs (loopStep cfg) s₀ rounds)
        (runs (Connections.iteration cfg) t₀ rounds) := by
  obtain ⟨t, ht, hl, he, -⟩ := exists_represents hs
  exact ⟨t, hl, he, fun rounds => runs_rel (fun _ _ r h => h.simulates r) ht rounds⟩

theorem runs_refine_sample : ∃ s₀, startUp (.sample true) .sample = .next s₀ ∧
    ∃ t₀ : Connections, t₀.listeners = opening (.sample true) .sample ∧ t₀.entries = [] ∧
      ∀ rounds, Outcome.Rel (Represents (.sample true)) Final.Agrees
        (runs (loopStep (.sample true)) s₀ rounds)
        (runs (Connections.iteration (.sample true)) t₀ rounds) := by
  obtain ⟨s₀, hs₀, -⟩ := Outcome.exists_of_goes
    (o := startUp (.sample true) .sample) (p := fun _ => true) (by decide)
  exact ⟨s₀, hs₀, runs_refine hs₀⟩

end MetricServer
