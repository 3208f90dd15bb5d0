import MetricServer.Handler.Transfers

/-! Numbers used again. A call reads, writes or closes what its number stands for: the
descriptor that was handed out last with that number. A client whose timeout could not
be set is kept with a number that is closed, and once a later connection is given the
number, the calls for the one reach the other. `resolved` puts into a log what its
calls reach. As long as no connection is given a number that the table holds, this is
what they are meant for. -/

namespace MetricServer

open Base Http LoopState

/-! ### What a number stands for -/

/-- The descriptor that a call hands out. -/
def Event.handsOut : Event → Option Descriptor
  | .socket d => some d
  | .accept d => some d
  | _ => none

/-- The descriptors that the calls of a log hand out, in order. -/
def handed (log : List Event) : List Descriptor := log.filterMap Event.handsOut

/-- The descriptor that a number stands for after a log. -/
def standsFor (log : List Event) (n : ℤ) : Option Descriptor :=
  (handed log).reverse.find? fun d => d.num = n

/-- The descriptor under a BIO. -/
def under (log : List Event) (b : ℕ) : Option Descriptor :=
  (handed log).find? fun d => d.serial = b

/-- The descriptor that a call reaches by the number of `d`. -/
def Descriptor.reached (before : List Event) (d : Descriptor) : Descriptor :=
  (standsFor before d.num).getD d

/-- A BIO passes on what goes through it to the number that it was set up with. -/
def Channel.reached (before : List Event) : Channel → Channel
  | .socket d => .socket (d.reached before)
  | .bio b => .bio (b.map fun n => (under before n).elim n fun d => (d.reached before).serial)

def Event.resolve (before : List Event) : Event → Event
  | .recv ch off len got => .recv (ch.reached before) off len got
  | .send ch data sent => .send (ch.reached before) data sent
  | .close d => .close (d.reached before)
  | e => e

/-- The log with the descriptors that its calls reach. -/
def resolved (log : List Event) : List Event := log.mapIdx fun i e => e.resolve (log.take i)

/-- The call reads, writes or closes by the number of `d`. -/
def Event.goesBy (d : Descriptor) : Event → Prop
  | .recv ch _ _ _ => ch = .socket d ∨ ch = .bio (some d.serial)
  | .send ch _ _ => ch = .socket d ∨ ch = .bio (some d.serial)
  | .close d' => d' = d
  | _ => False

/-- The call names a number. -/
def Event.byNumber : Event → Prop
  | .recv _ _ _ _ => True
  | .send _ _ _ => True
  | .close _ => True
  | _ => False

/-- Where no two members have a key in common, each is found by its own. -/
theorem find?_eq_of_nodup {α κ : Type*} [DecidableEq κ] (key : α → κ) {l : List α} {x : α}
    (h : (l.map key).Nodup) (hx : x ∈ l) : l.find? (fun y => key y = key x) = some x := by
  cases hfind : l.find? (fun y => key y = key x) with
  | none => simpa using List.find?_eq_none.mp hfind x hx
  | some y =>
    have hkey : key y = key x := by simpa using List.find?_some hfind
    exact congrArg some (List.inj_on_of_nodup_map h (List.mem_of_find?_eq_some hfind) hx hkey)

section
variable {log log' before : List Event} {d : Descriptor} {e : Event} {n : ℤ}

@[simp] theorem handed_append : handed (log ++ log') = handed log ++ handed log' :=
  List.filterMap_append

theorem mem_handed : d ∈ handed log ↔ ledger.Acquired log (.descriptor d) := by
  rw [handed, List.mem_filterMap]
  refine exists_congr fun e => and_congr_right fun _ => ?_
  cases e <;> simp [Event.handsOut, eq_comm]

/-- What acquires no descriptor hands out none. -/
theorem handed_eq_nil (h : ∀ d, ¬ ledger.Acquired log (.descriptor d)) : handed log = [] :=
  List.eq_nil_iff_forall_not_mem.mpr fun _ hd => h _ (mem_handed.mp hd)

theorem standsFor_append : standsFor (log ++ log') n = (standsFor log' n).or (standsFor log n) := by
  rw [standsFor, handed_append, List.reverse_append, List.find?_append]
  rfl

/-- A number stands for the same as long as it is not handed out again. -/
theorem standsFor_append_of_ne (h : ∀ d ∈ handed log', d.num ≠ n) :
    standsFor (log ++ log') n = standsFor log n := by
  have hnone : standsFor log' n = none :=
    List.find?_eq_none.mpr fun d hd => by simpa using h d (List.mem_reverse.mp hd)
  rw [standsFor_append, hnone, Option.none_or]

theorem standsFor_self (h : e.handsOut = some d) : standsFor (log ++ [e]) d.num = some d := by
  have hsome : standsFor [e] d.num = some d := by simp [standsFor, handed, h]
  rw [standsFor_append, hsome, Option.some_or]

theorem mem_of_standsFor (h : standsFor log n = some d) : d ∈ handed log :=
  List.mem_reverse.mp (List.mem_of_find?_eq_some h)

theorem reached_eq (h : standsFor before d.num = some d) : d.reached before = d := by
  rw [Descriptor.reached, h, Option.getD_some]

/-- The BIO of a descriptor is known by its serial number. -/
theorem under_eq (honce : ((handed log).map (·.serial)).Nodup) (hd : d ∈ handed log) :
    under log d.serial = some d :=
  find?_eq_of_nodup Descriptor.serial honce hd

theorem standsFor_eq (hnodup : ((handed log).map (·.num)).Nodup) (hd : d ∈ handed log) :
    standsFor log d.num = some d :=
  find?_eq_of_nodup Descriptor.num (by rwa [List.map_reverse, List.nodup_reverse])
    (List.mem_reverse.mpr hd)

theorem Event.goesBy_iff {ch : Channel} (h : e.isTransfer ch) :
    e.goesBy d ↔ ch = .socket d ∨ ch = .bio (some d.serial) := by
  cases e with
  | recv | send =>
    obtain rfl : _ = ch := h
    rfl
  | _ => exact h.elim

/-- A call by a number that stands for its descriptor reaches this descriptor. -/
theorem Event.resolve_eq (honce : ((handed before).map (·.serial)).Nodup)
    (hd : standsFor before d.num = some d) (hby : e.goesBy d) : e.resolve before = e := by
  have hreached := reached_eq hd
  have hchannel {ch : Channel} (h : ch = .socket d ∨ ch = .bio (some d.serial)) :
      ch.reached before = ch := by
    obtain rfl | rfl := h
    · rw [Channel.reached, hreached]
    · simp [Channel.reached, under_eq honce (mem_of_standsFor hd), hreached]
  cases e with
  | recv ch off len got => rw [resolve, hchannel hby]
  | send ch data sent => rw [resolve, hchannel hby]
  | close d' =>
    obtain rfl : d' = d := hby
    rw [resolve, hreached]
  | _ => rfl

end

/-! ### Logs whose calls reach what they are meant for -/

/-- No serial number is given twice, and the calls go by numbers that stand for what is meant. -/
structure Direct (log : List Event) : Prop where
  once : ((handed log).map (·.serial)).Nodup
  past : Past (fun before e =>
    e.byNumber → ∃ d, standsFor before d.num = some d ∧ e.goesBy d) log

namespace Direct

variable {log log' : List Event} {d : Descriptor} {e : Event}

theorem of_append (h : Direct (log ++ log')) : Direct log := by
  have honce := h.once
  rw [handed_append, List.map_append] at honce
  exact ⟨(List.nodup_append.mp honce).1, (past_append.mp h.past).1⟩

theorem resolved_eq (h : Direct log) : resolved log = log := by
  refine mapIdx_eq_of_past fun before e after hlog => ?_
  by_cases hby : e.byNumber
  · obtain ⟨d, hd, hgoes⟩ := h.past before e after hlog hby
    exact Event.resolve_eq (hlog ▸ h).of_append.once hd hgoes
  · cases e <;> first | rfl | exact absurd trivial hby

/-- More calls, by numbers that stand for what is meant, and nothing is handed out. -/
theorem append (h : Direct log) (hnone : handed log' = [])
    (hby : ∀ e ∈ log', e.byNumber → ∃ d, standsFor log d.num = some d ∧ e.goesBy d) :
    Direct (log ++ log') := by
  refine ⟨by simpa [hnone] using h.once, past_append.mpr ⟨h.past, ?_⟩⟩
  rintro before e after rfl hnum
  obtain ⟨d, hd, hgoes⟩ := hby e (by simp) hnum
  have hbefore : handed before = [] := by
    rw [handed_append] at hnone
    exact (List.append_eq_nil_iff.mp hnone).1
  exact ⟨d, by rwa [standsFor_append_of_ne (by simp [hbefore])], hgoes⟩

/-- A descriptor is handed out under a serial number that was not given before. -/
theorem accept (h : Direct log) (hnew : ∀ d' ∈ handed log, d'.serial ≠ d.serial) :
    Direct (log ++ [.accept d]) := by
  refine ⟨?_, past_append.mpr ⟨h.past, past_of_forall fun before e he hnum => ?_⟩⟩
  · have hserials : (handed (log ++ [.accept d])).map (·.serial) =
        (handed log).map (·.serial) ++ [d.serial] := by
      simp [handed, Event.handsOut]
    rw [hserials, List.nodup_append]
    exact ⟨h.once, by simp, by simpa using fun d' hd' => hnew d' hd'⟩
  · obtain rfl := List.mem_singleton.mp he
    exact hnum.elim

end Direct

/-! ### The calls of an attempt -/

/-- Calls about a descriptor that hand out nothing. -/
def Aftermath (d : Descriptor) (log : List Event) : Prop :=
  ∀ e ∈ log, e = .close d ∨ e = .bioNew d.serial ∨ e = .bioFree d.serial

theorem Attempt.exists_events (a : Attempt) (n : ℕ) (h : 0 ≤ a.calls.fd) :
    ∃ rest, a.events n = .accept ⟨a.calls.fd, n⟩ :: rest ∧ Aftermath ⟨a.calls.fd, n⟩ rest := by
  refine ⟨_, a.events_eq n h, fun e he => ?_⟩
  rw [sslEvents, List.mem_append] at he
  obtain he | he := he
  · exact .inl (List.eq_of_mem_replicate he)
  · split_ifs at he <;> simp_all
    tauto

theorem Attempt.exists_failedEvents (a : Attempt) (n : ℕ) (h : 0 ≤ a.calls.fd)
    (hf : ¬ a.succeeds) :
    ∃ rest, a.failedEvents n = .accept ⟨a.calls.fd, n⟩ :: rest ∧
      Aftermath ⟨a.calls.fd, n⟩ rest := by
  obtain ⟨rest, hevents, hrest⟩ := a.exists_events n h
  refine ⟨_, by rw [a.failedEvents_eq n hf, hevents, List.cons_append], fun e he => ?_⟩
  obtain he | he := List.mem_append.mp he
  · exact hrest e he
  · exact .inl (List.eq_of_mem_replicate he)

theorem Aftermath.handed_eq {d : Descriptor} {log : List Event} (h : Aftermath d log) :
    handed log = [] := by
  refine List.filterMap_eq_nil_iff.mpr fun e he => ?_
  obtain rfl | rfl | rfl := h e he <;> rfl

section
variable {log rest : List Event} {d d' : Descriptor}

/-- An attempt leaves its number with the descriptor that it got, and every other number as it
was. -/
theorem standsFor_attempt (hrest : Aftermath d rest) :
    standsFor (log ++ .accept d :: rest) d.num = some d := by
  rw [List.append_cons, standsFor_append_of_ne (by simp [hrest.handed_eq])]
  exact standsFor_self rfl

theorem standsFor_attempt_of_ne (hrest : Aftermath d rest) (hne : d.num ≠ d'.num)
    (h : standsFor log d'.num = some d') :
    standsFor (log ++ .accept d :: rest) d'.num = some d' := by
  rwa [standsFor_append_of_ne]
  rw [← List.singleton_append, handed_append, hrest.handed_eq]
  simpa [handed, Event.handsOut] using hne

theorem Direct.attempt (h : Direct log) (hnew : ∀ d' ∈ handed log, d'.serial ≠ d.serial)
    (hrest : Aftermath d rest) : Direct (log ++ .accept d :: rest) := by
  rw [List.append_cons]
  refine (h.accept hnew).append hrest.handed_eq fun e he hnum => ?_
  obtain rfl | rfl | rfl := hrest e he
  · exact ⟨d, standsFor_self rfl, rfl⟩
  · exact hnum.elim
  · exact hnum.elim

end

/-! ### The table -/

namespace Connections

/-- The descriptors of the table: those of the listening sockets and of the clients. -/
def descriptors (t : Connections) : List Descriptor :=
  t.listeners ++ t.entries.map (·.client._sockfd)

variable {cfg : Config} {t : Connections}

theorem descriptors_report (p : PollResult) : (t.report cfg p).descriptors = t.descriptors := by
  cases p with
  | failed errno => rfl
  | ready revents =>
    refine congrArg (t.listeners ++ ·) (List.ext_getElem? fun i => ?_)
    simp [report, reported, Function.comp_def]

/-- A connection adds its own descriptor to the table, if any. -/
theorem mem_descriptors_connect {a : Attempt} {d : Descriptor}
    (hd : d ∈ (t.connect a).descriptors) :
    d ∈ t.descriptors ∨ a.succeeds ∧ d = ⟨a.calls.fd, t.serial⟩ := by
  rw [descriptors, connect_listeners, List.mem_append] at hd
  obtain hd | hd := hd
  · exact .inl (List.mem_append_left _ hd)
  · obtain ⟨e, he, rfl⟩ := List.mem_map.mp hd
    obtain he | ⟨rfl, hok⟩ := mem_connect he
    · exact .inl (List.mem_append_right _ (List.mem_map_of_mem he))
    · exact .inr ⟨hok, a.client_sockfd t.serial⟩

/-- An attempt gets a descriptor first and then makes calls about it, or it gets none. -/
theorem connect_log_cases (t : Connections) (a : Attempt) :
    ((t.connect a).log = t.log ∧ ¬ a.succeeds) ∨
      ∃ rest, (t.connect a).log = t.log ++ .accept ⟨a.calls.fd, t.serial⟩ :: rest ∧
        Aftermath ⟨a.calls.fd, t.serial⟩ rest := by
  rw [connect]
  rcases lt_or_ge a.calls.fd 0 with hfd | hfd
  · have hok : ¬ a.succeeds := fun hok => absurd hok.1 (not_le.mpr hfd)
    rw [dif_neg hok]
    refine .inl ⟨?_, hok⟩
    simp [a.failedEvents_eq t.serial hok, a.events_of_neg t.serial hfd, not_lt.mpr hfd.le]
  · split_ifs with hok
    · obtain ⟨rest, hevents, hrest⟩ := a.exists_events t.serial hfd
      exact .inr ⟨rest, congrArg (t.log ++ ·) hevents, hrest⟩
    · obtain ⟨rest, hevents, hrest⟩ := a.exists_failedEvents t.serial hfd hok
      exact .inr ⟨rest, congrArg (t.log ++ ·) hevents, hrest⟩

theorem descriptors_serve (v : Serving) : (t.serve cfg v).descriptors ⊆ t.descriptors := by
  intro d hd
  obtain hd | hd := List.mem_append.mp hd
  · exact List.mem_append_left _ hd
  · obtain ⟨e, he, rfl⟩ := List.mem_map.mp hd
    obtain ⟨e₀, he₀, buffer, hc⟩ := mem_serve he
    exact List.mem_append_right _ (List.mem_map.mpr ⟨e₀, he₀, hc ▸ rfl⟩)

/-- The calls that close what is in the table go by its numbers. -/
theorem goesBy_closers (t : Connections) {l : List Event} (hl : l ∈ t.closers) {e : Event}
    (he : e ∈ l) (hnum : e.byNumber) : ∃ d ∈ t.descriptors, e.goesBy d := by
  obtain hl | hl := List.mem_append.mp hl
  · obtain ⟨entry, hentry, rfl⟩ := List.mem_map.mp hl
    refine ⟨_, List.mem_append_right _ (List.mem_map_of_mem hentry), ?_⟩
    rw [entry.clear_eq] at he
    split_ifs at he
    · obtain rfl | he := List.mem_cons.mp he
      · rfl
      · obtain ⟨b, -, rfl⟩ : ∃ b, entry.client._bio = some b ∧ .bioFree b = e := by simpa using he
        exact hnum.elim
    · cases he
  · obtain ⟨d, hd, rfl⟩ := List.mem_map.mp hl
    refine ⟨d, List.mem_append_left _ hd, ?_⟩
    rw [stopListening] at he
    split_ifs at he
    · rw [List.mem_singleton.mp he]
      rfl
    · cases he

end Connections

/-- A client reads, writes and closes by its own number. -/
theorem Entry.goesBy_served {cfg : Config} {v : Serving} {i : ℕ} {e : Entry} {ev : Event}
    (hwired : e.client.Wired) (hev : ev ∈ (e.served cfg v i).events) (hnum : ev.byNumber) :
    ev.goesBy e.client._sockfd := by
  have hchannel {ch : Channel} (hch : ev.isTransfer ch) : ev.goesBy e.client._sockfd := by
    rw [Event.goesBy_iff hch, (isTransfer_served hev hch).2, Client.channel]
    obtain ⟨huse, -⟩ | ⟨huse, hbio⟩ := hwired
    · simp [huse]
    · simp [huse, hbio]
  cases ev with
  | recv ch off len got => exact hchannel rfl
  | send ch data sent => exact hchannel rfl
  | close d =>
    obtain ⟨-, hown⟩ := touched_served (r := .descriptor d) ⟨_, hev, .inr rfl⟩
    simpa [Client.owns, Event.goesBy] using hown
  | _ => exact hnum.elim

/-- The numbers of the table stand for what is in it, and the calls so far have reached what they
were meant for. -/
structure Resolved (t : Connections) : Prop extends Owned t where
  direct : Direct t.log
  current : ∀ d ∈ t.descriptors, standsFor t.log d.num = some d

namespace Resolved

variable {cfg : Config} {t : Connections} {a : Attempt}

theorem report (h : Resolved t) (p : PollResult) : Resolved (t.report cfg p) :=
  ⟨h.toOwned.report p, h.direct, fun d hd => h.current d (Connections.descriptors_report p ▸ hd)⟩

theorem serial_ne (h : Resolved t) {d : Descriptor} (hd : d ∈ handed t.log) : d.serial ≠ t.serial :=
  (h.past (.descriptor d) (.inl (mem_handed.mp hd))).ne

/-- The log after an attempt that the table does not hold the number of. -/
theorem attempt (h : Resolved t) {rest : List Event}
    (hrest : Aftermath ⟨a.calls.fd, t.serial⟩ rest) :
    Direct (t.log ++ .accept ⟨a.calls.fd, t.serial⟩ :: rest) :=
  h.direct.attempt (fun _ hd => h.serial_ne hd) hrest

theorem connect (h : Resolved t) (hnew : ∀ d ∈ t.descriptors, d.num ≠ a.calls.fd) :
    Resolved (t.connect a) := by
  obtain ⟨hlog, hok⟩ | ⟨rest, hlog, hrest⟩ := t.connect_log_cases a
  · refine ⟨h.toOwned.connect a, hlog ▸ h.direct, fun d hd => ?_⟩
    obtain hd | ⟨hok', -⟩ := Connections.mem_descriptors_connect hd
    · exact hlog ▸ h.current d hd
    · exact absurd hok' hok
  · refine ⟨h.toOwned.connect a, hlog ▸ h.attempt hrest, fun d hd => ?_⟩
    rw [hlog]
    obtain hd | ⟨-, rfl⟩ := Connections.mem_descriptors_connect hd
    · exact standsFor_attempt_of_ne hrest (hnew d hd).symm (h.current d hd)
    · exact standsFor_attempt hrest

theorem refuse (h : Resolved t) (hok : a.succeeds)
    (hnew : ∀ d ∈ t.descriptors, d.num ≠ a.calls.fd) : Resolved (t.refuse a) := by
  obtain ⟨rest, hevents, hrest⟩ := a.exists_events t.serial hok.1
  have hlog : (t.refuse a).log = t.log ++ .accept ⟨a.calls.fd, t.serial⟩ :: rest :=
    congrArg (t.log ++ ·) hevents
  refine ⟨h.toOwned.refuse a, hlog ▸ h.attempt hrest, fun d hd => ?_⟩
  rw [hlog]
  exact standsFor_attempt_of_ne hrest (hnew d hd).symm (h.current d hd)

theorem serve (h : Resolved t) (v : Serving) : Resolved (t.serve cfg v) := by
  have hnone : handed (t.servedEvents cfg v) = [] := by
    refine handed_eq_nil fun d hacquired => ?_
    obtain ⟨l, hl, hacquired⟩ := Ledger.acquired_flatten.mp hacquired
    obtain ⟨i, hi, rfl⟩ := List.mem_mapIdx.mp hl
    exact Entry.not_acquired_served hacquired
  refine ⟨h.toOwned.serve v, h.direct.append hnone fun e he hnum => ?_, fun d hd => ?_⟩
  · obtain ⟨l, hl, he⟩ := List.mem_flatten.mp he
    obtain ⟨i, hi, rfl⟩ := List.mem_mapIdx.mp hl
    have hentry := List.getElem_mem hi
    exact ⟨_, h.current _ (List.mem_append_right _ (List.mem_map_of_mem hentry)),
      Entry.goesBy_served (h.wired _ hentry) he hnum⟩
  · have hlog : (t.serve cfg v).log = t.log ++ t.servedEvents cfg v := rfl
    rw [hlog, standsFor_append_of_ne (by simp [hnone])]
    exact h.current d (Connections.descriptors_serve v hd)

/-- The log when everything in the table has been closed. -/
theorem closed (h : Resolved t) {logs : List (List Event)} (hperm : logs.Perm t.closers) :
    Direct (t.log ++ logs.flatten) := by
  refine h.direct.append (handed_eq_nil fun d hacquired => ?_) fun e he hnum => ?_
  · obtain ⟨l, hl, hacquired⟩ := Ledger.acquired_flatten.mp hacquired
    exact Connections.not_acquired_closers l (hperm.mem_iff.mp hl) hacquired
  · obtain ⟨l, hl, he⟩ := List.mem_flatten.mp he
    obtain ⟨d, hd, hgoes⟩ := t.goesBy_closers (hperm.mem_iff.mp hl) he hnum
    exact ⟨d, h.current d hd, hgoes⟩

theorem closing (h : Resolved t) : Direct (t.log ++ t.closing) := by
  obtain ⟨logs, hlogs, hperm⟩ := t.closing_perm
  exact hlogs ▸ h.closed hperm

theorem aborting (h : Resolved t) : Direct (t.log ++ t.aborting) := by
  obtain ⟨logs, hlogs, hperm⟩ := t.aborting_perm
  exact hlogs ▸ h.closed hperm

/-- Attempts with numbers that neither the table nor one of them before has. -/
theorem admissions {t' : Connections} {as : List Attempt} (h : Resolved t)
    (hadm : Trace (Admission cfg) t as t')
    (hnew : ∀ a ∈ as, ∀ d ∈ t.descriptors, d.num ≠ a.calls.fd)
    (hpair : as.Pairwise fun a b => 0 ≤ a.calls.fd → a.calls.fd ≠ b.calls.fd) :
    Resolved t' ∧ ∀ d ∈ t'.descriptors,
      d ∈ t.descriptors ∨ ∃ a ∈ as, 0 ≤ a.calls.fd ∧ d.num = a.calls.fd := by
  induction hadm with
  | nil => exact ⟨h, fun d hd => .inl hd⟩
  | @cons t t₁ t' a as hr _ ih =>
    obtain ⟨-, -, rfl⟩ := hr
    obtain ⟨hfirst, hrest⟩ := List.pairwise_cons.mp hpair
    have hmem {d : Descriptor} (hd : d ∈ (t.connect a).descriptors) :
        d ∈ t.descriptors ∨ 0 ≤ a.calls.fd ∧ d.num = a.calls.fd :=
      (Connections.mem_descriptors_connect hd).imp_right fun ⟨hok, hd⟩ => ⟨hok.1, hd ▸ rfl⟩
    have hnew' : ∀ b ∈ as, ∀ d ∈ (t.connect a).descriptors, d.num ≠ b.calls.fd := by
      intro b hb d hd
      obtain hd | ⟨hfd, hd⟩ := hmem hd
      · exact hnew b (List.mem_cons_of_mem _ hb) d hd
      · exact hd ▸ hfirst b hb hfd
    obtain ⟨h', ht'⟩ := ih (h.connect (hnew a List.mem_cons_self)) hnew' hrest
    refine ⟨h', fun d hd => ?_⟩
    obtain hd | ⟨b, hb, hfd⟩ := ht' d hd
    · exact (hmem hd).imp_right fun hfd => ⟨a, List.mem_cons_self, hfd⟩
    · exact .inr ⟨b, List.mem_cons_of_mem _ hb, hfd⟩

end Resolved

/-! ### Runs -/

/-- No attempt of the iteration gets a number that the table holds, or that an earlier one got. -/
def Unheld (cfg : Config) (s : LoopState) (r : Round) : Prop :=
  (∀ a ∈ s.attempts cfg r, a.calls.fd ∉ s.fds.map (·.fd)) ∧
    (s.attempts cfg r).Pairwise fun a b => 0 ≤ a.calls.fd → a.calls.fd ≠ b.calls.fd

instance (cfg : Config) (s : LoopState) (r : Round) : Decidable (Unheld cfg s r) :=
  inferInstanceAs (Decidable (_ ∧ _))

/-- No number is handed out while the table holds it, from start-up on. -/
def Unshared (cfg : Config) (u : StartUp) (rounds : List Round) : Prop :=
  ((opening cfg u).map (·.num)).Nodup ∧
    (startUp cfg u).onNext fun s₀ => along (Unheld cfg) (loopStep cfg) s₀ rounds

instance (cfg : Config) (u : StartUp) (rounds : List Round) : Decidable (Unshared cfg u rounds) :=
  inferInstanceAs (Decidable (_ ∧ _))

section
variable {cfg : Config} {u : StartUp} {s s₀ s' : LoopState} {t : Connections} {r : Round}

theorem Represents.nums_eq (h : Represents cfg s t) :
    s.fds.map (·.fd) = t.descriptors.map (·.num) := by
  obtain ⟨ls, hs⟩ := h.shows
  rw [hs.fds_eq, List.map_append, hs.listeners_eq, ← h.listeners_eq, Connections.descriptors,
    List.map_append, List.map_map, List.map_map]
  exact congrArg (_ ++ ·) (List.map_congr_left fun e _ => e.same)

theorem Resolved.start (hl : t.listeners = opening cfg u) (he : t.entries = [])
    (hn : t.serial = (opening cfg u).length) (hlog : t.log = (opening cfg u).map Event.socket)
    (hnodup : ((opening cfg u).map (·.num)).Nodup) : Resolved t := by
  have hhanded : handed t.log = opening cfg u := by
    rw [hlog, handed, List.filterMap_map]
    exact List.filterMap_some
  refine ⟨.start hl he hn hlog, ⟨?_, past_of_forall fun before e hmem hnum => ?_⟩, fun d hd => ?_⟩
  · rw [hhanded]
    cases hssl : cfg.sslCtx <;> simp [opening, hssl]
  · rw [hlog] at hmem
    obtain ⟨d, -, rfl⟩ := List.mem_map.mp hmem
    exact hnum.elim
  · rw [Connections.descriptors, hl, he, List.map_nil, List.append_nil] at hd
    exact standsFor_eq (hhanded ▸ hnodup) (hhanded ▸ hd)

/-- The attempts of an iteration come with numbers that the table does not hold. -/
theorem Represents.ne_of_unheld (h : Represents cfg s t) (hu : Unheld cfg s r) {a : Attempt}
    (ha : a ∈ s.attempts cfg r) :
    ∀ d ∈ (t.report cfg r.poll).descriptors, d.num ≠ a.calls.fd := by
  intro d hd heq
  rw [Connections.descriptors_report] at hd
  refine hu.1 a ha ?_
  rw [h.nums_eq, ← heq]
  exact List.mem_map_of_mem hd

theorem Resolved.step (h : Resolved t) (ht : Represents cfg s t) (hu : Unheld cfg s r)
    (hstep : loopStep cfg s r = .next s') : ∃ t', Represents cfg s' t' ∧ Resolved t' := by
  have hit := loopStep_iterates ht r
  rw [hstep] at hit
  cases hit with
  | idle _ _ _ _ hs => exact ⟨_, hs, h.report r.poll⟩
  | served _ t₁ _ hadm hs =>
    have h₁ := (h.report r.poll).admissions hadm (fun _ => ht.ne_of_unheld hu) hu.2
    exact ⟨_, hs, h₁.1.serve _⟩

theorem Resolved.done (h : Resolved t) (ht : Represents cfg s t) (hu : Unheld cfg s r) {f : Final}
    (hstep : loopStep cfg s r = .done f) : Direct f.log := by
  have hit := loopStep_iterates ht r
  rw [hstep] at hit
  have hreport : Resolved (t.report cfg r.poll) := h.report r.poll
  have hreturned {s₁ : LoopState} {t₁ : Connections} (hs : Represents cfg s₁ t₁)
      (h₁ : Resolved t₁) : Direct (s₁.shutdown cfg).log := hs.shutdown.2.2 ▸ h₁.closing
  cases hit with
  | head => exact hreturned ht h
  | polled s₁ _ _ hs => exact hreturned hs hreport
  | trouble s₁ _ _ _ hs => exact show Direct (s₁.abort cfg).log from hs.abort ▸ hreport.aborting
  | refused before a s₁ t₁ _ has hr hadm _ hs =>
    have hbefore : ∀ b ∈ before, b ∈ s.attempts cfg r :=
      fun b hb => has ▸ List.mem_append_left _ hb
    have ha : a ∈ s.attempts cfg r := has ▸ List.mem_append_right _ (List.mem_singleton_self a)
    obtain ⟨hpair, -, hlast⟩ := List.pairwise_append.mp (has ▸ hu.2)
    obtain ⟨h₁, hd₁⟩ :=
      hreport.admissions hadm (fun b hb => ht.ne_of_unheld hu (hbefore b hb)) hpair
    have hnew : ∀ d ∈ t₁.descriptors, d.num ≠ a.calls.fd := by
      intro d hd
      obtain hd | ⟨b, hb, hfd, hnum⟩ := hd₁ d hd
      · exact ht.ne_of_unheld hu ha d hd
      · exact hnum ▸ hlast b hb a (List.mem_singleton_self a) hfd
    exact hreturned hs (h₁.refuse hr.1 hnew)

theorem Resolved.runs (h : Resolved t) (ht : Represents cfg s t) {rounds : List Round}
    (hu : along (Unheld cfg) (loopStep cfg) s rounds) :
    Direct (logOf (runs (loopStep cfg) s rounds)) := by
  induction rounds generalizing s t with
  | nil => exact show Direct s.log from ht.log_eq ▸ h.direct
  | cons r rounds ih =>
    obtain ⟨hr, hrest⟩ := hu
    rw [Base.runs]
    cases hstep : loopStep cfg s r with
    | next s' =>
      obtain ⟨t', ht', h'⟩ := h.step ht hr hstep
      rw [hstep] at hrest
      exact ih h' ht' hrest
    | done f => exact h.done ht hr hstep

/-- As long as no number is handed out while the table holds it, each call goes by a number that
stands for what the call is meant for. -/
theorem direct_runs (hs : startUp cfg u = .next s₀) {rounds : List Round}
    (hu : Unshared cfg u rounds) : Direct (logOf (runs (loopStep cfg) s₀ rounds)) := by
  obtain ⟨t, ht, hl, he, hn, hlog⟩ := exists_represents hs
  obtain ⟨hnodup, halong⟩ := hu
  rw [hs] at halong
  exact (Resolved.start hl he hn hlog hnodup).runs ht halong

theorem resolved_runs (hs : startUp cfg u = .next s₀) {rounds : List Round}
    (hu : Unshared cfg u rounds) :
    resolved (logOf (runs (loopStep cfg) s₀ rounds)) = logOf (runs (loopStep cfg) s₀ rounds) :=
  (direct_runs hs hu).resolved_eq

end

/-- A client whose timeout could not be set, a connection that is given its number, and a request
that `poll` reports for both. -/
def reusing : List Round :=
  [{ Round.sample [POLLIN] 5 6 "" with
      accept := { AcceptCalls.sample 5 with setRecvTimeout := -1 } },
    .sample [POLLIN] 5 6 "", .sample [0, POLLIN, POLLIN] 5 6 "GET /liveness HTTP/1.1\r\n\r\n"]

/-- The request is read from the later connection, for the client whose number was closed. -/
theorem exists_reached_other : ¬ Unshared (.sample false) .sample reusing ∧
    ∃ s₀, startUp (.sample false) .sample = .next s₀ ∧ ∃ data,
      (logOf (runs (loopStep (.sample false)) s₀ reusing))[4]? =
        some (.recv (.socket ⟨5, 1⟩) 0 4095 data) ∧
      (resolved (logOf (runs (loopStep (.sample false)) s₀ reusing)))[4]? =
        some (.recv (.socket ⟨5, 2⟩) 0 4095 data) := by
  refine ⟨by decide, ?_⟩
  obtain ⟨s₀, hs₀, h⟩ := Outcome.exists_of_goes (o := startUp (.sample false) .sample)
    (p := fun s₀ =>
      let log := logOf (runs (loopStep (.sample false)) s₀ reusing)
      let data := ascii "GET /liveness HTTP/1.1\r\n\r\n"
      decide (log[4]? = some (Event.recv (.socket ⟨5, 1⟩) 0 4095 data) ∧
        (resolved log)[4]? = some (Event.recv (.socket ⟨5, 2⟩) 0 4095 data))) (by decide)
  exact ⟨s₀, hs₀, _, of_decide_eq_true h⟩

end MetricServer
