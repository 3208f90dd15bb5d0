import MetricServer.Handler.Runs

/-! Who owns what. Every descriptor and every BIO carries the number of the call that
handed it out; an entry owns those with its own number, no two entries and no two
listening sockets share one, and the log knows no number to come. Serving an entry
touches what the entry owns and nothing else. -/

namespace MetricServer

open Base Http LoopState

/-- The BIO of a client, if it has one, carries the number of its descriptor, and the
client uses SSL exactly when it has one. -/
def Client.Wired (c : Client) : Prop :=
  (c._useSSL = 0 ∧ c._bio = none) ∨ (c._useSSL = 1 ∧ c._bio = some c._sockfd.serial)

theorem Client.Wired.serial_eq {c : Client} (h : c.Wired) {r : Resource} (hr : c.owns r) :
    r.serial = c._sockfd.serial := by
  obtain rfl | ⟨b, hb, rfl⟩ := hr
  · rfl
  · obtain ⟨-, hbio⟩ | ⟨-, hbio⟩ := h
    · simp [hbio] at hb
    · simpa [hbio, eq_comm] using hb

/-! ### Serving an entry -/

namespace Entry

variable {cfg : Config} {v : Serving} {i : ℕ} {e : Entry} {r : Resource}

def serial (e : Entry) : ℕ := e.client._sockfd.serial

@[simp] theorem serial_setRevents (w : BitVec 16) : (e.setRevents w).serial = e.serial := rfl

/-- Serving an entry with a positive number. -/
theorem servedAs (cfg : Config) (v : Serving) (i : ℕ) (hpos : 0 < e.pfd.fd) :
    ServedAs (v.io i) e.pfd e.client (e.served cfg v i) :=
  serveClient_servedAs _ _ _ _ _ e.same hpos

theorem served_of_not_pos (cfg : Config) (v : Serving) (i : ℕ) (hpos : ¬ 0 < e.pfd.fd) :
    e.served cfg v i = ⟨e.pfd, e.client, []⟩ :=
  serveClient_of_not_pos _ _ _ _ _ _ hpos

/-- An entry that stays open keeps its client but for the buffer. -/
theorem client_of_isOpen (h : (e.serve cfg v i).isOpen) :
    ∃ buffer, (e.serve cfg v i).client = e.client.withBuffer buffer := by
  by_cases hpos : 0 < e.pfd.fd
  · have hserved := servedAs cfg v i hpos
    simp only [isOpen_iff, serve] at h ⊢
    generalize e.served cfg v i = out at h hserved ⊢
    cases hserved with
    | failed => simp at h
    | dropped => simp at h
    | kept calls buffer => exact ⟨buffer, rfl⟩
    | untouched => exact ⟨e.client._recvBuffer, rfl⟩
  · rw [serve]
    simp only [served_of_not_pos cfg v i hpos]
    exact ⟨e.client._recvBuffer, rfl⟩

theorem serial_serve (h : (e.serve cfg v i).isOpen) : (e.serve cfg v i).serial = e.serial := by
  obtain ⟨buffer, hc⟩ := client_of_isOpen h
  rw [serial, hc]
  rfl

theorem fd_serve (h : (e.serve cfg v i).isOpen) : (e.serve cfg v i).pfd.fd = e.pfd.fd := by
  obtain ⟨buffer, hc⟩ := client_of_isOpen h
  rw [(e.serve cfg v i).same, hc, e.same]
  rfl

/-- Serving touches what an entry with a positive number owns. -/
theorem touched_served (h : ledger.Touched (e.served cfg v i).events r) :
    0 < e.pfd.fd ∧ e.client.owns r := by
  by_cases hpos : 0 < e.pfd.fd
  · refine ⟨hpos, ?_⟩
    have htransfers {calls : List Event} (hcalls : ∀ c ∈ calls, c.isTransfer e.client.channel)
        (h : ledger.Touched calls r) : e.client.owns r :=
      Client.owns_of_channel (goesThrough_of_transfers hcalls h)
    have hserved := servedAs cfg v i hpos
    generalize e.served cfg v i = out at h hserved
    cases hserved with
    | failed calls twice _ _ _ _ hcalls htwice =>
      simp only [Ledger.touched_append, Ledger.touched_cons, Client.touched_release] at h
      obtain (h | h | ⟨ev, hev, ht⟩) | h := h
      · exact htransfers hcalls h
      · exact .inl (by simpa [Ledger.touches] using h)
      · obtain ⟨b, hb, rfl⟩ := htwice ev hev
        exact .inr ⟨b, hb, by simpa [Ledger.touches] using ht⟩
      · exact h
    | dropped calls _ _ _ hcalls =>
      obtain h | h := Ledger.touched_append.mp h
      · exact htransfers hcalls h
      · exact Client.touched_release.mp h
    | kept calls _ _ hcalls => exact htransfers hcalls h
    | untouched => simp at h
  · simp [served_of_not_pos cfg v i hpos] at h

/-- Serving acquires nothing. -/
theorem not_acquired_served : ¬ ledger.Acquired (e.served cfg v i).events r := by
  by_cases hpos : 0 < e.pfd.fd
  · have hserved := servedAs cfg v i hpos
    generalize e.served cfg v i = out at hserved
    cases hserved with
    | failed calls twice _ _ _ _ hcalls htwice =>
      have htwice : ¬ ledger.Acquired twice r := by
        rintro ⟨ev, hev, ha⟩
        obtain ⟨b, -, rfl⟩ := htwice ev hev
        simp at ha
      simp [not_acquired_of_transfers hcalls, htwice]
    | dropped calls _ _ _ hcalls => simp [not_acquired_of_transfers hcalls]
    | kept calls _ _ hcalls => exact not_acquired_of_transfers hcalls
    | untouched => simp
  · simp [served_of_not_pos cfg v i hpos]

/-- Serving releases all that the entry owns, and the entry goes, or it releases nothing,
and the entry stays. -/
theorem released_served (cfg : Config) (v : Serving) (i : ℕ) (hpos : 0 < e.pfd.fd) :
    (¬ (e.serve cfg v i).isOpen ∧
        ∀ r, e.client.owns r → ledger.Released (e.served cfg v i).events r) ∨
      ((e.serve cfg v i).isOpen ∧ ∀ r, ¬ ledger.Released (e.served cfg v i).events r) := by
  have hserved := servedAs cfg v i hpos
  simp only [isOpen_iff, serve]
  generalize e.served cfg v i = out at hserved
  cases hserved with
  | failed => exact .inl ⟨by simp, fun r hr => by simp [hr]⟩
  | dropped => exact .inl ⟨by simp, fun r hr => by simp [hr]⟩
  | kept calls _ _ hcalls => exact .inr ⟨hpos.le, fun r => not_released_of_transfers hcalls⟩
  | untouched => exact .inr ⟨hpos.le, by simp⟩

/-- Serving is disciplined unless its reads fail. -/
theorem disciplined_served
    (hread : 0 < e.pfd.fd → e.pfd.revents = POLLIN →
      ¬ Client.readsFail 0 (v.io i).errno (v.io i).reads) :
    ledger.Disciplined (e.served cfg v i).events := by
  by_cases hpos : 0 < e.pfd.fd
  · have hserved := servedAs cfg v i hpos
    generalize e.served cfg v i = out at hserved
    have hcalls {calls : List Event} (hcalls : ∀ c ∈ calls, c.isTransfer e.client.channel) :
        ledger.Disciplined calls :=
      Ledger.disciplined_of_not_released fun r => not_released_of_transfers hcalls
    cases hserved with
    | failed _ _ _ _ hin hfail => exact absurd hfail (hread hpos hin)
    | dropped calls _ _ _ h =>
      refine Ledger.disciplined_append.mpr ⟨hcalls h, e.client.disciplined_release, fun r hr => ?_⟩
      exact absurd hr (not_released_of_transfers h)
    | kept calls _ _ h => exact hcalls h
    | untouched => simp
  · simp [served_of_not_pos cfg v i hpos]

end Entry

/-! ### Numbers -/

/-- What is left of a list after a change of its members that keeps a number of those
it leaves in is a sublist, seen by that number. -/
theorem map_filter_mapIdx_sublist {α β : Type*} (f : ℕ → α → α) (p : α → Bool) (g : α → β)
    (h : ∀ i x, p (f i x) → g (f i x) = g x) (l : List α) :
    (((l.mapIdx f).filter p).map g).Sublist (l.map g) := by
  induction l generalizing f with
  | nil => simp
  | cons x l ih =>
    have := ih (fun i => f (i + 1)) fun i => h (i + 1)
    rw [List.mapIdx_cons, List.filter_cons, List.map_cons]
    split_ifs with hx
    · rw [List.map_cons, h 0 x hx]
      exact this.cons_cons _
    · exact this.cons _

namespace Connections

/-- The numbers of the listening sockets and of the entries. -/
def numbers (t : Connections) : List ℕ :=
  t.listeners.map (·.serial) ++ t.entries.map Entry.serial

end Connections

/-- Every entry owns what carries its number, no number is given twice, and none is known
before it is given. -/
structure Owned (t : Connections) : Prop where
  wired : ∀ e ∈ t.entries, e.client.Wired
  distinct : t.numbers.Nodup
  given : ∀ n ∈ t.numbers, n < t.serial
  past : ∀ r, ledger.Acquired t.log r ∨ ledger.Touched t.log r → r.serial < t.serial

namespace Owned

variable {cfg : Config} {t : Connections}

theorem report (h : Owned t) (p : PollResult) : Owned (t.report cfg p) := by
  have hnumbers : (t.report cfg p).numbers = t.numbers := by
    cases p with
    | failed errno => rfl
    | ready revents =>
      refine congrArg (t.listeners.map (·.serial) ++ ·) (List.ext_getElem? fun i => ?_)
      simp [Connections.report, Connections.reported, Function.comp_def]
  refine ⟨fun e he => ?_, hnumbers ▸ h.distinct, hnumbers ▸ h.given, h.past⟩
  obtain ⟨e₀, he₀, hc, -⟩ := Connections.mem_reported he
  exact hc ▸ h.wired e₀ he₀

/-- New events about the next number leave the past alone. -/
theorem past_append (h : Owned t) {a : Attempt} {log : List Event}
    (hlog : ∀ e ∈ log, a.Concerns t.serial e) (r : Resource)
    (hr : ledger.Acquired (t.log ++ log) r ∨ ledger.Touched (t.log ++ log) r) :
    r.serial < t.serial + 1 := by
  rw [Ledger.acquired_append, Ledger.touched_append, or_or_or_comm] at hr
  obtain hr | hr := hr
  · exact (h.past r hr).trans (Nat.lt_succ_self _)
  · exact (Attempt.serial_of_concerns hlog hr).le.trans_lt (Nat.lt_succ_self _)

theorem connect (h : Owned t) (a : Attempt) : Owned (t.connect a) := by
  have hfresh : t.serial ∉ t.numbers := fun hn => lt_irrefl _ (h.given _ hn)
  unfold Connections.connect
  split_ifs with ha
  · have hserial : (a.entry t.serial).serial = t.serial := by
      rw [Entry.serial, Attempt.entry, a.client_sockfd]
    have hwired : (a.client t.serial).Wired := by
      obtain ⟨hbio, huse⟩ := a.client_of_succeeds t.serial ha
      rw [Client.Wired, hbio, huse, a.client_sockfd]
      cases a.ssl <;> simp
    have hnumbers :
        t.listeners.map (·.serial) ++ (t.entries ++ [a.entry t.serial]).map Entry.serial =
          t.numbers ++ [t.serial] := by
      simp [Connections.numbers, hserial]
    refine ⟨fun e he => ?_, ?_, fun n hn => ?_,
      h.past_append fun _ => Attempt.concerns_of_mem_events⟩
    · obtain he | rfl := by simpa using he
      · exact h.wired e he
      · exact hwired
    · rw [Connections.numbers, hnumbers, List.nodup_append]
      exact ⟨h.distinct, by simp, by simpa using fun n hn => ne_of_mem_of_not_mem hn hfresh⟩
    · rw [Connections.numbers, hnumbers, List.mem_append] at hn
      obtain hn | hn := hn
      · exact (h.given n hn).trans (Nat.lt_succ_self _)
      · simp [List.mem_singleton.mp hn]
  · refine ⟨h.wired, h.distinct, fun n hn => (h.given n hn).trans (Nat.lt_succ_self _), ?_⟩
    exact h.past_append fun _ => Attempt.concerns_of_mem_failedEvents ha

theorem refuse (h : Owned t) (a : Attempt) : Owned (t.refuse a) :=
  ⟨h.wired, h.distinct, fun n hn => (h.given n hn).trans (Nat.lt_succ_self _),
    h.past_append fun _ => Attempt.concerns_of_mem_events⟩

/-- What an entry owns carries one of the numbers given. -/
theorem serial_mem {e : Entry} {r : Resource} (h : Owned t) (he : e ∈ t.entries)
    (hr : e.client.owns r) : r.serial = e.serial ∧ r.serial ∈ t.numbers := by
  have hserial := (h.wired e he).serial_eq hr
  exact ⟨hserial, hserial ▸ List.mem_append_right _ (List.mem_map_of_mem he)⟩

theorem serve (h : Owned t) (v : Serving) : Owned (t.serve cfg v) := by
  have hsub : (t.serve cfg v).numbers.Sublist t.numbers :=
    (map_filter_mapIdx_sublist _ _ _ (fun _ _ => Entry.serial_serve) _).append_left _
  refine ⟨fun e he => ?_, h.distinct.sublist hsub, fun n hn => h.given n (hsub.mem hn),
    fun r hr => ?_⟩
  · obtain ⟨he, hopen⟩ := List.mem_filter.mp he
    obtain ⟨i, hi, rfl⟩ := List.mem_mapIdx.mp he
    obtain ⟨buffer, hc⟩ := Entry.client_of_isOpen hopen
    rw [hc]
    exact h.wired _ (List.getElem_mem hi)
  · rw [Connections.serve, Ledger.acquired_append, Ledger.touched_append, or_or_or_comm] at hr
    obtain hr | hr := hr
    · exact h.past r hr
    · rw [Ledger.acquired_flatten, Ledger.touched_flatten] at hr
      obtain ⟨l, hl, hr⟩ | ⟨l, hl, hr⟩ := hr
      · obtain ⟨i, hi, rfl⟩ := List.mem_mapIdx.mp hl
        exact absurd hr Entry.not_acquired_served
      · obtain ⟨i, hi, rfl⟩ := List.mem_mapIdx.mp hl
        exact h.given _ (h.serial_mem (List.getElem_mem hi) (Entry.touched_served hr).2).2

theorem start {u : StartUp} (hl : t.listeners = opening cfg u) (he : t.entries = [])
    (hn : t.serial = (opening cfg u).length) (hlog : t.log = (opening cfg u).map Event.socket) :
    Owned t := by
  have hserials : (opening cfg u).map (·.serial) = List.range (opening cfg u).length := by
    cases hssl : cfg.sslCtx <;> simp [opening, hssl, List.range_succ]
  have hnumbers : t.numbers = List.range t.serial := by
    rw [Connections.numbers, hl, he, hn, hserials, List.map_nil, List.append_nil]
  refine ⟨by simp [he], hnumbers ▸ List.nodup_range, fun n => ?_, fun r hr => ?_⟩
  · rw [hnumbers]
    exact List.mem_range.mp
  · rw [hlog] at hr
    have : r.serial ∈ (opening cfg u).map (·.serial) := by
      obtain ⟨e, he, hr⟩ | ⟨e, he, hr⟩ := hr
      all_goals
        obtain ⟨d, hd, rfl⟩ := List.mem_map.mp he
        simp [Ledger.touches] at hr
      exact hr ▸ List.mem_map_of_mem hd
    rw [hserials, ← hn] at this
    exact List.mem_range.mp this

theorem admissions {t' : Connections} {as : List Attempt} (h : Owned t)
    (hadm : Trace (Admission cfg) t as t') : Owned t' := by
  refine hadm.invariant (I := Owned) ?_ h
  rintro a - t - h ⟨-, -, rfl⟩
  exact h.connect a

/-- Two entries with one number are the same entry. -/
theorem index_eq (h : Owned t) {i j : ℕ} (hi : i < t.entries.length) (hj : j < t.entries.length)
    (heq : t.entries[i].serial = t.entries[j].serial) : i = j := by
  have hnodup : (t.entries.map Entry.serial).Nodup := (List.nodup_append.mp h.distinct).2.1
  have hsame := List.inj_on_of_nodup_map hnodup (List.getElem_mem hi) (List.getElem_mem hj) heq
  exact hnodup.of_map.getElem_inj_iff.mp hsame

/-- No entry shares its number with a listening socket. -/
theorem serial_ne (h : Owned t) {d : Descriptor} {e : Entry} (hd : d ∈ t.listeners)
    (he : e ∈ t.entries) : d.serial ≠ e.serial :=
  (List.nodup_append.mp h.distinct).2.2 _ (List.mem_map_of_mem hd) _ (List.mem_map_of_mem he)

end Owned

/-- At every head the state represents connections that own what carries their number,
with the listening sockets of start-up. -/
theorem Running.owned {cfg : Config} {u : StartUp} {rounds : List Round} {s : LoopState}
    (h : Running cfg u rounds s) :
    ∃ t, Represents cfg s t ∧ t.listeners = opening cfg u ∧ Owned t := by
  have hk : Kept cfg (fun _ _ => True) fun t => t.listeners = opening cfg u ∧ Owned t := by
    refine ⟨fun _ p h => ⟨h.1, h.2.report p⟩, fun _ _ t a _ _ _ _ h => ⟨?_, h.2.connect a⟩,
      fun _ _ _ _ _ _ _ _ h => ⟨h.1, h.2.serve _⟩⟩
    rw [Connections.connect_listeners, h.1]
  exact hk.run (fun t hl he hn hlog => ⟨hl, .start hl he hn hlog⟩) h.runningWhen

/-! ### Closing -/

section Closing
variable {e : Entry} {d : Descriptor} {r : Resource}

/-- Clearing the client of an entry with a positive number gives back all it owns. -/
theorem Entry.clear_eq (e : Entry) :
    e.client.clientClear.2 = if 0 < e.pfd.fd then e.client.release else [] := by
  split_ifs with hpos
  · exact (Client.clientClear_of_pos (e.same ▸ hpos)).2
  · exact (Client.clientClear_of_not_pos (e.same ▸ hpos)).2

theorem Entry.released_clear :
    ledger.Released e.client.clientClear.2 r ↔ 0 < e.pfd.fd ∧ e.client.owns r := by
  rw [e.clear_eq]
  split_ifs with hpos <;> simp [hpos]

theorem Entry.touched_clear :
    ledger.Touched e.client.clientClear.2 r ↔ 0 < e.pfd.fd ∧ e.client.owns r := by
  rw [e.clear_eq]
  split_ifs with hpos <;> simp [hpos]

theorem Entry.disciplined_clear : ledger.Disciplined e.client.clientClear.2 := by
  rw [e.clear_eq]
  split_ifs
  · exact e.client.disciplined_release
  · exact Ledger.disciplined_nil

theorem released_stopListening :
    ledger.Released (Connections.stopListening d) r ↔ 0 < d.num ∧ r = .descriptor d := by
  rw [Connections.stopListening]
  split_ifs with hpos <;> simp [hpos]

theorem touched_stopListening :
    ledger.Touched (Connections.stopListening d) r ↔ 0 < d.num ∧ r = .descriptor d := by
  rw [Connections.stopListening]
  split_ifs with hpos <;> simp [hpos, Ledger.touches]

theorem disciplined_stopListening : ledger.Disciplined (Connections.stopListening d) := by
  rw [Connections.stopListening]
  split_ifs <;> simp [Ledger.Disciplined]

end Closing

namespace Connections

/-- What closes each entry and each listening socket. -/
def closers (t : Connections) : List (List Event) :=
  t.entries.map (fun e => e.client.clientClear.2) ++ t.listeners.map stopListening

/-- The calls of both ends of the loop are these, in another order. -/
theorem closing_perm (t : Connections) :
    ∃ logs : List (List Event), t.closing = logs.flatten ∧ logs.Perm t.closers := by
  refine ⟨t.entries.reverse.map (fun e => e.client.clientClear.2) ++ t.listeners.map stopListening,
    by simp [closing, List.flatMap_def], ?_⟩
  exact ((List.reverse_perm _).map _).append_right _

theorem aborting_perm (t : Connections) :
    ∃ logs : List (List Event), t.aborting = logs.flatten ∧ logs.Perm t.closers := by
  refine ⟨(t.listeners.take 1).map stopListening ++
    t.entries.map (fun e => e.client.clientClear.2) ++ (t.listeners.drop 1).map stopListening,
    by simp [aborting, List.flatMap_def], ?_⟩
  have : t.closers = t.entries.map (fun e => e.client.clientClear.2) ++
      ((t.listeners.take 1).map stopListening ++ (t.listeners.drop 1).map stopListening) := by
    rw [closers, ← List.map_append, List.take_append_drop]
  rw [this, ← List.append_assoc]
  exact List.perm_append_comm.append_right _

end Connections

/-- What closes two of them touches nothing in common. -/
theorem Owned.closers_apart {t : Connections} (h : Owned t) : t.closers.Pairwise ledger.Apart := by
  obtain ⟨hlisteners, hentries, -⟩ := List.nodup_append.mp h.distinct
  refine List.pairwise_append.mpr ⟨?_, ?_, ?_⟩
  · refine List.pairwise_map.mpr ((List.pairwise_map.mp hentries).imp_of_mem ?_)
    intro e e' he he' hne r hr hr'
    refine hne ?_
    rw [← (h.serial_mem he (Entry.touched_clear.mp hr).2).1,
      (h.serial_mem he' (Entry.touched_clear.mp hr').2).1]
  · refine List.pairwise_map.mpr ((List.pairwise_map.mp hlisteners).imp ?_)
    intro d d' hne r hr hr'
    have := (touched_stopListening.mp hr).2.symm.trans (touched_stopListening.mp hr').2
    exact hne (by simpa using congrArg Resource.serial this)
  · intro l hl l' hl' r hr hr'
    obtain ⟨e, he, rfl⟩ := List.mem_map.mp hl
    obtain ⟨d, hd, rfl⟩ := List.mem_map.mp hl'
    refine h.serial_ne hd he ?_
    rw [← (h.serial_mem he (Entry.touched_clear.mp hr).2).1, (touched_stopListening.mp hr').2]
    rfl

theorem Connections.disciplined_closers (t : Connections) :
    ∀ l ∈ t.closers, ledger.Disciplined l := by
  intro l hl
  obtain hl | hl := List.mem_append.mp hl
  · obtain ⟨e, -, rfl⟩ := List.mem_map.mp hl
    exact Entry.disciplined_clear
  · obtain ⟨d, -, rfl⟩ := List.mem_map.mp hl
    exact disciplined_stopListening

/-- An open entry owns the resource, or it is an open listening socket. -/
def Connections.Holds (t : Connections) (r : Resource) : Prop :=
  (∃ e ∈ t.entries, 0 < e.pfd.fd ∧ e.client.owns r) ∨
    ∃ d ∈ t.listeners, 0 < d.num ∧ r = .descriptor d

/-- What is closed at the end is what is held. -/
theorem Connections.released_closers {t : Connections} {r : Resource} :
    (∃ l ∈ t.closers, ledger.Released l r) ↔ t.Holds r := by
  simp [closers, Holds, or_and_right, exists_or, Entry.released_clear, released_stopListening]

theorem Connections.released_closing {t : Connections} {r : Resource} :
    ledger.Released t.closing r ↔ t.Holds r := by
  obtain ⟨logs, hclose, hperm⟩ := t.closing_perm
  rw [hclose, Ledger.released_flatten, ← released_closers]
  simp only [hperm.mem_iff]

theorem Connections.touched_closers {t : Connections} {r : Resource} :
    (∃ l ∈ t.closers, ledger.Touched l r) ↔ t.Holds r := by
  simp [closers, Holds, or_and_right, exists_or, Entry.touched_clear, touched_stopListening]

theorem Connections.not_acquired_closers {t : Connections} {r : Resource} :
    ∀ l ∈ t.closers, ¬ ledger.Acquired l r := by
  intro l hl
  obtain hl | hl := List.mem_append.mp hl
  · obtain ⟨e, -, rfl⟩ := List.mem_map.mp hl
    rw [e.clear_eq]
    split_ifs <;> simp
  · obtain ⟨d, -, rfl⟩ := List.mem_map.mp hl
    rw [Connections.stopListening]
    split_ifs <;> simp

/-! ### Where entries come from -/

namespace Connections

variable {cfg : Config} {t : Connections}

/-- An entry after a connection was taken in is an entry before, or that of the connection. -/
theorem mem_connect {a : Attempt} {e : Entry} (he : e ∈ (t.connect a).entries) :
    e ∈ t.entries ∨ e = a.entry t.serial ∧ a.succeeds := by
  rw [connect] at he
  split_ifs at he with hok
  · obtain he | he := List.mem_append.mp he
    · exact .inl he
    · exact .inr ⟨List.mem_singleton.mp he, hok⟩
  · exact .inl he

/-- An attempt is logged with events that concern it, whether it succeeds or not. -/
theorem exists_connect_log (t : Connections) (a : Attempt) :
    ∃ log, (t.connect a).log = t.log ++ log ∧ (∀ e ∈ log, a.Concerns t.serial e) ∧
      (a.succeeds → log = a.events t.serial) := by
  by_cases hok : a.succeeds
  · exact ⟨a.events t.serial, by simp [connect, hok],
      fun _ => Attempt.concerns_of_mem_events, fun _ => rfl⟩
  · exact ⟨a.failedEvents t.serial, by simp [connect, hok],
      fun _ => Attempt.concerns_of_mem_failedEvents hok, fun h => absurd h hok⟩

/-- Reporting events leaves the clients of the entries as they are. -/
theorem exists_mem_report (cfg : Config) (p : PollResult) {e : Entry} (he : e ∈ t.entries) :
    ∃ e' ∈ (t.report cfg p).entries, e'.client = e.client := by
  cases p with
  | failed errno => exact ⟨e, he, rfl⟩
  | ready revents =>
    obtain ⟨i, hi, rfl⟩ := List.getElem_of_mem he
    exact ⟨_, List.mem_mapIdx.mpr ⟨i, hi, rfl⟩, rfl⟩

/-- An entry after a round of service has the client of one before, but for the buffer. -/
theorem mem_serve {v : Serving} {e : Entry} (he : e ∈ (t.serve cfg v).entries) :
    ∃ e₀ ∈ t.entries, ∃ buffer, e.client = e₀.client.withBuffer buffer := by
  obtain ⟨he, hopen⟩ := List.mem_filter.mp he
  obtain ⟨i, hi, rfl⟩ := List.mem_mapIdx.mp he
  exact ⟨t.entries[i], List.getElem_mem hi, Entry.client_of_isOpen hopen⟩

end Connections

end MetricServer
