import MetricServer.Handler.Connections

/-! One iteration of the loop, as operations on the connections. `attempts` lists the
calls of `clientAccept` that an iteration makes; `Iterates` says what the iteration
is then: a return on the exit flag, a wait, an exit over the listeners, a return
over the limit, or a round of service. Every result about the loop is derived
from `loopStep_iterates`, and none looks into the body of the loop again. -/

namespace MetricServer

open Base Http LoopState

namespace LoopState

/-- The iteration gets to its accept phase. -/
def accepting (cfg : Config) (s : LoopState) (r : Round) : Prop :=
  ¬ r.exitHead ∧ ¬ r.exitPolled ∧ 0 < (poll r.poll s.fds).1 ∧
    ¬ listenerTrouble cfg (s.polled r).fds

instance (cfg : Config) (s : LoopState) (r : Round) : Decidable (s.accepting cfg r) :=
  inferInstanceAs (Decidable (_ ∧ _))

def attemptHttp (fds : List PollFd) (r : Round) (held : ℕ) : List Attempt :=
  if (fds.getD 0 default).revents = POLLIN then [⟨false, r.accept, held⟩] else []

def attemptHttps (cfg : Config) (fds : List PollFd) (r : Round) (held : ℕ) : List Attempt :=
  if cfg.sslCtx ∧ (fds.getD 1 default).revents = POLLIN then [⟨true, r.acceptHttps, held⟩] else []

/-- The attempts of an accept phase that finds `held` clients. A refused one is the
last. -/
def attemptsOn (cfg : Config) (fds : List PollFd) (held : ℕ) (r : Round) : List Attempt :=
  let http := attemptHttp fds r held
  if ∃ a ∈ http, a.refused cfg then http
  else http ++ attemptHttps cfg fds r (held + http.countP (·.succeeds))

/-- The attempts of an iteration. -/
def attempts (cfg : Config) (s : LoopState) (r : Round) : List Attempt :=
  if s.accepting cfg r then attemptsOn cfg (s.polled r).fds s.clients.length r else []

theorem attempts_of_not_accepting {cfg : Config} {s : LoopState} {r : Round}
    (h : ¬ s.accepting cfg r) : s.attempts cfg r = [] := if_neg h

theorem not_forall_of_refused {cfg : Config} {s : LoopState} {r : Round} {before : List Attempt}
    {a : Attempt} (has : s.attempts cfg r = before ++ [a]) (hr : a.refused cfg) :
    ¬ ∀ b ∈ s.attempts cfg r, ¬ b.refused cfg := by
  intro hno
  refine hno a ?_ hr
  rw [has]
  exact List.mem_append_right _ (List.mem_singleton_self a)

/-- The iteration gets to serving its clients. -/
def serves (cfg : Config) (s : LoopState) (r : Round) : Prop :=
  s.accepting cfg r ∧ ∀ a ∈ s.attempts cfg r, ¬ a.refused cfg

instance (cfg : Config) (s : LoopState) (r : Round) : Decidable (s.serves cfg r) :=
  inferInstanceAs (Decidable (_ ∧ _))

/-- The number of the descriptor accepted with or without SSL, or `0`. -/
def accepted (ssl : Bool) (as : List Attempt) : ℤ :=
  ((as.find? fun a => a.ssl = ssl ∧ a.succeeds).map (·.calls.fd)).getD 0

/-- The parameters with which the iteration serves. -/
def serving (cfg : Config) (s : LoopState) (r : Round) : Serving where
  newfd := accepted false (s.attempts cfg r)
  newfdHttps := accepted true (s.attempts cfg r)
  db := s.db.update r.snapshot
  io := r.io

theorem accepted_append_of_ne (ssl : Bool) (as bs : List Attempt) (h : ∀ b ∈ bs, b.ssl ≠ ssl) :
    accepted ssl (as ++ bs) = accepted ssl as := by
  have hbs : bs.find? (fun a => a.ssl = ssl ∧ a.succeeds) = none :=
    List.find?_eq_none.mpr fun b hb => by simp [h b hb]
  rw [accepted, accepted, List.find?_append, hbs, Option.or_none]

theorem accepted_append_of_ne_left (ssl : Bool) (as bs : List Attempt) (h : ∀ a ∈ as, a.ssl ≠ ssl) :
    accepted ssl (as ++ bs) = accepted ssl bs := by
  have has : as.find? (fun a => a.ssl = ssl ∧ a.succeeds) = none :=
    List.find?_eq_none.mpr fun a ha => by simp [h a ha]
  rw [accepted, accepted, List.find?_append, has, Option.none_or]

theorem ssl_of_mem_attemptHttp {fds : List PollFd} {r : Round} {held : ℕ} {a : Attempt}
    (h : a ∈ attemptHttp fds r held) : a.ssl = false := by
  rw [attemptHttp] at h
  split_ifs at h
  · rw [List.mem_singleton.mp h]
  · cases h

theorem ssl_of_mem_attemptHttps {cfg : Config} {fds : List PollFd} {r : Round} {held : ℕ}
    {a : Attempt} (h : a ∈ attemptHttps cfg fds r held) : a.ssl = true := by
  rw [attemptHttps] at h
  split_ifs at h
  · rw [List.mem_singleton.mp h]
  · cases h

/-- Each branch passes on the descriptor that its own listener accepted. -/
theorem accepted_listeners (cfg : Config) (fds fds' : List PollFd) (r : Round) (held held' : ℕ) :
    accepted false (attemptHttp fds r held ++ attemptHttps cfg fds' r held') =
        accepted false (attemptHttp fds r held) ∧
      accepted true (attemptHttp fds r held ++ attemptHttps cfg fds' r held') =
        accepted true (attemptHttps cfg fds' r held') := by
  constructor
  · apply accepted_append_of_ne
    intro b hb
    rw [ssl_of_mem_attemptHttps hb]
    decide
  · apply accepted_append_of_ne_left
    intro b hb
    rw [ssl_of_mem_attemptHttp hb]
    decide

@[simp] theorem record_fds (s : LoopState) (events : List Event) :
    (s.record events).fds = s.fds := rfl

/-- An accept branch leaves the other entries as they were. -/
theorem getD_acceptClient {cfg : Config} {ssl : Bool} {l f i : ℕ} {calls : AcceptCalls}
    {s s' : LoopState} {newfd : ℤ} (h : s.acceptClient cfg ssl l f calls = .go s' newfd)
    (hi : i < s.fds.length) (hl : i ≠ l) (hf : i ≠ f) :
    s'.fds.getD i default = s.fds.getD i default := by
  simp only [acceptClient] at h
  split_ifs at h
  · cases h
    simp [resetRevents, List.getElem?_modify_ne, Ne.symm hf]
  · cases h
    simp [resetRevents, List.getElem?_modify_ne, Ne.symm hl, List.getElem?_append_left hi]

end LoopState

/-- A connection is admitted, or could not be set up, with the table as long as the
attempt says. -/
def Admission (cfg : Config) : Steps Connections Attempt := fun t a t' =>
  ¬ a.refused cfg ∧ a.held = t.entries.length ∧ t' = t.connect a

namespace Admission

variable {cfg : Config} {t t' : Connections} {as : List Attempt}

theorem length (h : Trace (Admission cfg) t as t') :
    t'.entries.length = t.entries.length + as.countP (·.succeeds) := by
  induction h with
  | nil => simp
  | cons hr _ ih =>
    obtain ⟨-, -, rfl⟩ := hr
    rw [ih, Connections.length_connect, List.countP_cons]
    simp only [decide_eq_true_eq]
    omega

/-- Admissions leave the entries as they are and put new ones behind them, without
events. -/
theorem entries_eq (h : Trace (Admission cfg) t as t') :
    ∃ new, t'.entries = t.entries ++ new ∧ ∀ e ∈ new, e.pfd.revents = 0 := by
  refine h.invariant (I := fun t' => ∃ new, t'.entries = t.entries ++ new ∧
    ∀ e ∈ new, e.pfd.revents = 0) ?_ ⟨[], by simp⟩
  rintro a - s t ⟨new, hs, hnew⟩ ⟨-, -, rfl⟩
  unfold Connections.connect
  split_ifs
  · refine ⟨new ++ [a.entry s.serial], by simp [hs], fun e he => ?_⟩
    obtain he | rfl := by simpa using he
    · exact hnew e he
    · rfl
  · exact ⟨new, hs, hnew⟩

theorem listeners_eq (h : Trace (Admission cfg) t as t') : t'.listeners = t.listeners := by
  refine h.invariant (I := fun t' => t'.listeners = t.listeners) ?_ rfl
  rintro a - s t hs ⟨-, -, rfl⟩
  rw [← hs, Connections.connect_listeners]

theorem db_eq (h : Trace (Admission cfg) t as t') : t'.db = t.db := by
  refine h.invariant (I := fun t' => t'.db = t.db) ?_ rfl
  rintro a - s t hs ⟨-, -, rfl⟩
  rw [← hs, Connections.connect_db]

end Admission

namespace Represents

variable {cfg : Config} {s : LoopState} {t : Connections}

/-- Either accept branch: under its condition it makes the attempt. -/
theorem accept (h : Represents cfg s t) (p : Prop) [Decidable p] (a : Attempt) {l f : ℕ}
    (hheld : a.held = t.entries.length) (hl : p → l < cfg.listeners) (hf : p → f < cfg.listeners) :
    let as := if p then [a] else []
    let out := if p then s.acceptClient cfg a.ssl l f a.calls else .go s 0
    (∃ s' t', (∀ b ∈ as, ¬ b.refused cfg) ∧ out = .go s' (accepted a.ssl as) ∧
      Trace (Admission cfg) t as t' ∧ Represents cfg s' t') ∨
    (as = [a] ∧ a.refused cfg ∧ ∃ s', out = .leave s' ∧ Represents cfg s' (t.refuse a)) := by
  intro as out
  by_cases hp : p
  · obtain ⟨hr, s', hs', ht'⟩ | ⟨hr, s', hs', ht'⟩ := h.acceptClient a hheld (hl hp) (hf hp)
    · refine .inl ⟨s', t.connect a, ?_, ?_, ?_, ht'⟩
      · simpa [as, hp] using hr
      · have : accepted a.ssl as = if a.succeeds then a.calls.fd else 0 := by
          by_cases ha : a.succeeds <;> simp [accepted, as, hp, ha]
        rw [this, ← hs']
        exact if_pos hp
      · simpa only [as, if_pos hp] using Trace.cons ⟨hr, hheld, rfl⟩ (.nil _)
    · exact .inr ⟨if_pos hp, hr, s', (if_pos hp).trans hs', ht'⟩
  · refine .inl ⟨s, t, ?_, ?_, ?_, h⟩
    · simp [as, hp]
    · simp [out, as, hp, accepted]
    · simpa only [as, if_neg hp] using Trace.nil t

/-- The part of an iteration after the accept phase. -/
theorem serve (h : Represents cfg s t) (r : Round) (newfd newfdHttps : ℤ) :
    Represents cfg (s.serve cfg r newfd newfdHttps)
      (t.serve cfg ⟨newfd, newfdHttps, s.db.update r.snapshot, r.io⟩) := by
  obtain ⟨ls, hs⟩ := h.shows
  have hopen : ∀ pfd ∈ ls, 0 ≤ pfd.fd := by
    intro pfd hpfd
    have : pfd.fd ∈ (s.listening cfg).map (·.num) := hs.listeners_eq ▸ List.mem_map_of_mem hpfd
    obtain ⟨d, hd, hfd⟩ := List.mem_map.mp this
    exact hfd ▸ t.listening d (h.listeners_eq ▸ hd)
  rw [hs.serve hopen]
  refine ⟨h.listeners_eq, ⟨ls, hs.listeners_eq, rfl, rfl⟩, rfl, h.serial_eq, ?_⟩
  simp only [Connections.serve, h.log_eq]

/-- The branch for HTTP leaves the entry of the other listener as it was. -/
theorem getD_acceptHttp (h : Represents cfg s t) {calls : AcceptCalls} {s₁ : LoopState} {newfd : ℤ}
    (hgo : s.acceptHttp cfg calls = .go s₁ newfd) (hssl : cfg.sslCtx) :
    s₁.fds.getD 1 default = s.fds.getD 1 default := by
  have hlen : 1 < s.fds.length := by
    obtain ⟨ls, hs⟩ := h.shows
    have := Config.one_lt_listeners hssl
    rw [hs.fds_eq, List.length_append, hs.length_listeners]
    omega
  rw [acceptHttp] at hgo
  split at hgo
  · exact getD_acceptClient hgo hlen (by omega) (by omega)
  · cases hgo
    rfl

theorem acceptHttp_cases (h : Represents cfg s t) (r : Round) :
    (∃ s' t', (∀ a ∈ attemptHttp s.fds r s.clients.length, ¬ a.refused cfg) ∧
      s.acceptHttp cfg r.accept =
        .go s' (accepted false (attemptHttp s.fds r s.clients.length)) ∧
      Trace (Admission cfg) t (attemptHttp s.fds r s.clients.length) t' ∧ Represents cfg s' t') ∨
    ∃ a, attemptHttp s.fds r s.clients.length = [a] ∧ a.refused cfg ∧
      a.held = t.entries.length ∧
      ∃ s', s.acceptHttp cfg r.accept = .leave s' ∧ Represents cfg s' (t.refuse a) := by
  have hpos := cfg.listeners_pos
  obtain hgo | ⟨has, hr, hleave⟩ :=
    h.accept ((s.fds.getD 0 default).revents = POLLIN) ⟨false, r.accept, s.clients.length⟩
      (l := 0) (f := 0) h.length_clients (fun _ => hpos) (fun _ => hpos)
  · exact .inl hgo
  · exact .inr ⟨_, has, hr, h.length_clients, hleave⟩

theorem acceptHttps_cases (h : Represents cfg s t) (r : Round) {held : ℕ}
    (hheld : held = t.entries.length) :
    (∃ s' t', (∀ a ∈ attemptHttps cfg s.fds r held, ¬ a.refused cfg) ∧
      s.acceptHttps cfg r.acceptHttps =
        .go s' (accepted true (attemptHttps cfg s.fds r held)) ∧
      Trace (Admission cfg) t (attemptHttps cfg s.fds r held) t' ∧ Represents cfg s' t') ∨
    ∃ a, attemptHttps cfg s.fds r held = [a] ∧ a.refused cfg ∧ a.held = t.entries.length ∧
      ∃ s', s.acceptHttps cfg r.acceptHttps = .leave s' ∧ Represents cfg s' (t.refuse a) := by
  obtain hgo | ⟨has, hr, hleave⟩ :=
    h.accept (cfg.sslCtx ∧ (s.fds.getD 1 default).revents = POLLIN) ⟨true, r.acceptHttps, held⟩
      (l := 1) (f := 0) hheld (fun hp => Config.one_lt_listeners hp.1) fun _ => cfg.listeners_pos
  · exact .inl hgo
  · exact .inr ⟨_, has, hr, hheld, hleave⟩

/-- When the first listener refuses nobody the second one is asked as well, in the table that
the first has left. -/
theorem attemptsOn_eq (h : Represents cfg s t) {r : Round} {s₁ : LoopState} {newfd : ℤ}
    (hno : ∀ a ∈ attemptHttp s.fds r s.clients.length, ¬ a.refused cfg)
    (hgo : s.acceptHttp cfg r.accept = .go s₁ newfd) :
    attemptsOn cfg s.fds s.clients.length r = attemptHttp s.fds r s.clients.length ++
      attemptHttps cfg s₁.fds r
        (s.clients.length + (attemptHttp s.fds r s.clients.length).countP (·.succeeds)) := by
  have hsame (held : ℕ) : attemptHttps cfg s₁.fds r held = attemptHttps cfg s.fds r held := by
    by_cases hssl : cfg.sslCtx
    · rw [attemptHttps, attemptHttps, h.getD_acceptHttp hgo hssl]
    · simp [attemptHttps, hssl]
  rw [attemptsOn, hsame]
  exact if_neg (by simpa using hno)

/-- The accept phase admits its attempts, or leaves the loop over a refused one. -/
theorem acceptPhase (h : Represents cfg s t) (r : Round) :
    let as := attemptsOn cfg s.fds s.clients.length r
    (∃ s₁ t₁, (∀ a ∈ as, ¬ a.refused cfg) ∧ Trace (Admission cfg) t as t₁ ∧
      Represents cfg s₁ t₁ ∧
      s.acceptPhase cfg r = .go s₁ (accepted false as, accepted true as)) ∨
    (∃ before a s₁ t₁, as = before ++ [a] ∧ Trace (Admission cfg) t before t₁ ∧
      a.refused cfg ∧ a.held = t₁.entries.length ∧ Represents cfg s₁ (t₁.refuse a) ∧
      s.acceptPhase cfg r = .leave s₁) := by
  intro as
  obtain ⟨s₁, t₁, hno, hgo, htrace, h₁⟩ | ⟨a, has, hr, hheld, s₁, hleave, h₁⟩ :=
    h.acceptHttp_cases r
  · have has : as = _ := h.attemptsOn_eq hno hgo
    have hheld : s.clients.length + (attemptHttp s.fds r s.clients.length).countP (·.succeeds) =
        t₁.entries.length := by
      rw [Admission.length htrace, h.length_clients]
    obtain ⟨s₂, t₂, hno₂, hgo₂, htrace₂, h₂⟩ | ⟨a, has₂, hr, hheld₂, s₂, hleave, h₂⟩ :=
      h₁.acceptHttps_cases r hheld
    · obtain ⟨hhttp, hhttps⟩ := accepted_listeners cfg s.fds s₁.fds r s.clients.length
        (s.clients.length + (attemptHttp s.fds r s.clients.length).countP (·.succeeds))
      refine .inl ⟨s₂, t₂, ?_, has ▸ htrace.append htrace₂, h₂, ?_⟩
      · rw [has]
        exact List.forall_mem_append.mpr ⟨hno, hno₂⟩
      · rw [LoopState.acceptPhase, hgo, has, hhttp, hhttps]
        simp only [hgo₂]
    · rw [has₂] at has
      refine .inr ⟨_, a, s₂, t₁, has, htrace, hr, hheld₂, h₂, ?_⟩
      rw [LoopState.acceptPhase, hgo]
      simp only [hleave]
  · have has : as = [a] := by
      simp only [as, attemptsOn, has]
      exact if_pos (by simpa using hr)
    refine .inr ⟨[], a, s₁, t, has, .nil t, hr, hheld, h₁, ?_⟩
    rw [LoopState.acceptPhase, hleave]

/-- After the accept phase the entries are those of before, with the events `poll`
reported, and new ones without events. -/
theorem entry_cases (h : Represents cfg s t) {r : Round} {as : List Attempt} {t₁ : Connections}
    (hadm : Trace (Admission cfg) (t.report cfg r.poll) as t₁) {i : ℕ}
    (hi : i < t₁.entries.length) :
    (i < s.clients.length ∧ t₁.entries[i].pfd = (s.polled r).pfd cfg i ∧
      t₁.entries[i].client = s.client i) ∨
    (s.clients.length ≤ i ∧ t₁.entries[i].pfd.revents = 0) := by
  obtain ⟨new, hentries, hnew⟩ := Admission.entries_eq hadm
  have hpolled := h.polled r
  rcases lt_or_ge i (t.report cfg r.poll).entries.length with hlt | hge
  · have hold : t₁.entries[i] = (t.report cfg r.poll).entries[i] := by
      simp only [hentries, List.getElem_append_left hlt]
    refine .inl ⟨?_, ?_, ?_⟩
    · rwa [Connections.length_report, ← h.length_clients] at hlt
    · rw [hold, hpolled.pfd_eq hlt]
    · rw [hold, ← hpolled.client_eq hlt]
      rfl
  · refine .inr ⟨?_, hnew _ ?_⟩
    · rwa [Connections.length_report, ← h.length_clients] at hge
    · simp only [hentries, List.getElem_append_right hge]
      exact List.getElem_mem _

end Represents

/-! ### One iteration -/

/-- What an iteration is, from a state that represents `t`. -/
inductive Iterates (cfg : Config) (s : LoopState) (t : Connections) (r : Round) :
    Outcome LoopState Final → Prop
  | head (hflag : r.exitHead) : Iterates cfg s t r (.done (.returned (s.shutdown cfg)))
  | polled (s₁ : LoopState) (hhead : ¬ r.exitHead) (hflag : r.exitPolled)
      (hs : Represents cfg s₁ (t.report cfg r.poll)) :
      Iterates cfg s t r (.done (.returned (s₁.shutdown cfg)))
  | idle (s₁ : LoopState) (hhead : ¬ r.exitHead) (hflag : ¬ r.exitPolled)
      (hcount : ¬ 0 < (poll r.poll s.fds).1) (hs : Represents cfg s₁ (t.report cfg r.poll)) :
      Iterates cfg s t r (.next s₁)
  | trouble (s₁ : LoopState) (hflag : ¬ r.exitPolled) (hacc : ¬ s.accepting cfg r)
      (hcount : (poll r.poll s.fds).1 ≠ 0) (hs : Represents cfg s₁ (t.report cfg r.poll)) :
      Iterates cfg s t r (.done (.exited (s₁.abort cfg)))
  | refused (before : List Attempt) (a : Attempt) (s₁ : LoopState) (t₁ : Connections)
      (hacc : s.accepting cfg r) (has : s.attempts cfg r = before ++ [a]) (hr : a.refused cfg)
      (hadm : Trace (Admission cfg) (t.report cfg r.poll) before t₁)
      (hheld : a.held = t₁.entries.length) (hs : Represents cfg s₁ (t₁.refuse a)) :
      Iterates cfg s t r (.done (.returned (s₁.shutdown cfg)))
  | served (s₁ : LoopState) (t₁ : Connections) (hserves : s.serves cfg r)
      (hadm : Trace (Admission cfg) (t.report cfg r.poll) (s.attempts cfg r) t₁)
      (hs : Represents cfg s₁ (t₁.serve cfg (s.serving cfg r))) :
      Iterates cfg s t r (.next s₁)

theorem loopStep_iterates {cfg : Config} {s : LoopState} {t : Connections}
    (h : Represents cfg s t) (r : Round) : Iterates cfg s t r (loopStep cfg s r) := by
  have hpoll := h.polled r
  by_cases hhead : r.exitHead
  · rw [loopStep, if_pos hhead]
    exact .head hhead
  rw [loopStep, if_neg hhead]
  simp only [loopBody]
  by_cases hflag : r.exitPolled
  · rw [if_pos hflag]
    exact .polled _ hhead hflag hpoll
  rw [if_neg hflag]
  by_cases hzero : (poll r.poll s.fds).1 = 0
  · rw [if_pos hzero]
    exact .idle _ hhead hflag (by omega) hpoll
  rw [if_neg hzero]
  by_cases hneg : (poll r.poll s.fds).1 < 0
  · rw [if_pos hneg]
    have hcount : ¬ 0 < (poll r.poll s.fds).1 := by omega
    split
    · split_ifs
      · exact .idle _ hhead hflag hcount hpoll
      · exact .trouble _ hflag (fun hacc => hcount hacc.2.2.1) hzero hpoll
    · exact .idle _ hhead hflag hcount hpoll
  rw [if_neg hneg]
  by_cases htrouble : listenerTrouble cfg (s.polled r).fds
  · rw [if_pos htrouble]
    exact .trouble _ hflag (fun hacc => hacc.2.2.2 htrouble) hzero hpoll
  rw [if_neg htrouble]
  have hacc : s.accepting cfg r := ⟨hhead, hflag, by omega, htrouble⟩
  have has : s.attempts cfg r = attemptsOn cfg (s.polled r).fds s.clients.length r :=
    if_pos hacc
  rw [acceptAndServe]
  obtain ⟨s₁, t₁, hno, hadm, hs, hgo⟩ | ⟨before, a, s₁, t₁, hbefore, hadm, hr, hheld, hs, hgo⟩ :=
    hpoll.acceptPhase r
  · rw [hgo]
    rw [show (s.polled r).clients = s.clients from rfl, ← has] at hno hadm ⊢
    have hserve := hs.serve r
    rw [← hs.db_eq, Admission.db_eq hadm, Connections.report_db, h.db_eq] at hserve
    exact .served _ t₁ ⟨hacc, hno⟩ hadm (hserve _ _)
  · rw [hgo]
    exact .refused before a s₁ t₁ hacc (has.trans hbefore) hr hadm hheld hs

end MetricServer
