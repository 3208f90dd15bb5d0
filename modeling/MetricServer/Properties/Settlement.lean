import MetricServer.Handler.Numbers

/-! What is left open when the function returns. A resource is stranded when it was
acquired, is not released, and nothing that closes it is left: no entry with a
positive number owns it. A stranded resource stays so, and only an attempt strands one:
its descriptor has the number zero, which every clean-up routine skips, or the
connection is refused, and its client forgotten. -/

namespace MetricServer

open Base Http LoopState

variable {cfg : Config} {u : StartUp} {rounds : List Round} {s s' : LoopState} {r : Round}

/-- An attempt whose client is not closed later leaves nothing open itself: a timeout that
could not be set has closed the descriptor, and there is no BIO. -/
def Attempt.leakless (cfg : Config) (a : Attempt) : Prop :=
  a.succeeds → (a.calls.fd = 0 ∨ a.refused cfg) → a.timeouts ≠ 0 ∧ ¬ a.ssl

instance (cfg : Config) (a : Attempt) : Decidable (a.leakless cfg) :=
  inferInstanceAs (Decidable (_ → _))

def Leakless (cfg : Config) (s : LoopState) (r : Round) : Prop :=
  ∀ a ∈ s.attempts cfg r, a.leakless cfg

instance (cfg : Config) (s : LoopState) (r : Round) : Decidable (Leakless cfg s r) :=
  inferInstanceAs (Decidable (∀ a ∈ _, _))

/-- What the calls of an attempt that succeeds leave open. -/
def Attempt.Leaves (a : Attempt) (serial : ℕ) (x : Resource) : Prop :=
  (a.client serial).owns x ∧ ¬ (a.timeouts ≠ 0 ∧ x = .descriptor ⟨a.calls.fd, serial⟩)

theorem Attempt.exists_leaves {a : Attempt} {serial : ℕ} (h : a.succeeds) :
    (∃ x, a.Leaves serial x) ↔ ¬ (a.timeouts ≠ 0 ∧ ¬ a.ssl) := by
  obtain ⟨hbio, -⟩ := a.client_of_succeeds serial h
  constructor
  · rintro ⟨x, hown, hnot⟩ ⟨ht, hssl⟩
    rw [Client.owns, a.client_sockfd, hbio, if_neg hssl] at hown
    obtain rfl | ⟨b, hb, -⟩ := hown
    · exact hnot ⟨ht, rfl⟩
    · cases hb
  · intro hnot
    by_cases hssl : a.ssl
    · exact ⟨.bio serial, .inr ⟨serial, by rw [hbio, if_pos hssl], rfl⟩, by simp⟩
    · refine ⟨.descriptor ⟨a.calls.fd, serial⟩, .inl (by rw [a.client_sockfd]), fun ht => ?_⟩
      exact hnot ⟨ht.1, hssl⟩

namespace Connections

/-- The resource was acquired and nothing will close it. -/
def Stranded (t : Connections) (x : Resource) : Prop :=
  ledger.Acquired t.log x ∧ ¬ ledger.Released t.log x ∧ ¬ t.Holds x

/-- Something is stranded. -/
def Strands (t : Connections) : Prop := ∃ x, t.Stranded x

end Connections

namespace Owned

variable {t t' : Connections} {a : Attempt} {x : Resource}

/-- Once everything is closed, what is left open is what was stranded. -/
theorem settled_closing (t : Connections) :
    ledger.Settled (t.log ++ t.closing) ↔ ∀ x, ¬ t.Stranded x := by
  obtain ⟨logs, hclose, hperm⟩ := t.closing_perm
  have hacquired (x : Resource) : ¬ ledger.Acquired t.closing x := by
    rw [hclose, Ledger.acquired_flatten]
    rintro ⟨l, hl, hx⟩
    exact Connections.not_acquired_closers l (hperm.mem_iff.mp hl) hx
  refine forall_congr' fun x => ?_
  rw [Ledger.acquired_append, Ledger.released_append, Connections.released_closing,
    or_iff_left (hacquired x), Connections.Stranded]
  simp only [not_and, not_not, or_iff_not_imp_left]

theorem stranded_report (p : PollResult) : (t.report cfg p).Stranded x ↔ t.Stranded x := by
  have hholds : (t.report cfg p).Holds x ↔ t.Holds x := by
    refine or_congr_left ?_
    cases p with
    | failed errno => rfl
    | ready revents =>
      simp only [Connections.report, Connections.reported, List.exists_mem_iff_getElem,
        List.getElem_mapIdx, List.length_mapIdx]
      rfl
  rw [Connections.Stranded, hholds]
  rfl

/-- Serving strands nothing and rescues nothing. -/
theorem stranded_serve (v : Serving) : (t.serve cfg v).Stranded x ↔ t.Stranded x := by
  have hlog : (t.serve cfg v).log =
      t.log ++ (t.entries.mapIdx fun i e => (e.served cfg v i).events).flatten := rfl
  rw [Connections.Stranded, Connections.Stranded, hlog, Ledger.acquired_append,
    Ledger.released_append, Ledger.acquired_flatten, Ledger.released_flatten]
  constructor
  · rintro ⟨hacq | ⟨l, hl, hacq⟩, hrel, hholds⟩
    · refine ⟨hacq, fun h => hrel (.inl h), ?_⟩
      rintro (⟨e, he, hpos, hown⟩ | hlisten)
      · obtain ⟨i, hi, rfl⟩ := List.mem_iff_getElem.mp he
        have hmem : (t.entries[i].served cfg v i).events ∈
            t.entries.mapIdx fun i e => (e.served cfg v i).events :=
          List.mem_mapIdx.mpr ⟨i, hi, rfl⟩
        obtain ⟨-, hall⟩ | ⟨hopen, -⟩ := Entry.released_served cfg v i hpos
        · exact hrel (.inr ⟨_, hmem, hall x hown⟩)
        · obtain ⟨buffer, hc⟩ := Entry.client_of_isOpen hopen
          refine hholds (.inl ⟨t.entries[i].serve cfg v i, ?_, ?_, ?_⟩)
          · exact List.mem_filter.mpr ⟨List.mem_mapIdx.mpr ⟨i, hi, rfl⟩, hopen⟩
          · rwa [Entry.fd_serve hopen]
          · rwa [hc]
      · exact hholds (.inr hlisten)
    · obtain ⟨i, hi, rfl⟩ := List.mem_mapIdx.mp hl
      exact absurd hacq Entry.not_acquired_served
  · rintro ⟨hacq, hrel, hholds⟩
    refine ⟨.inl hacq, ?_, ?_⟩
    · rintro (h | ⟨l, hl, h⟩)
      · exact hrel h
      · obtain ⟨i, hi, rfl⟩ := List.mem_mapIdx.mp hl
        obtain ⟨hpos, hown⟩ := Entry.touched_served h.touched
        exact hholds (.inl ⟨_, List.getElem_mem hi, hpos, hown⟩)
    · rintro (⟨e, he, hpos, hown⟩ | hlisten)
      · obtain ⟨he, hopen⟩ := List.mem_filter.mp he
        obtain ⟨i, hi, rfl⟩ := List.mem_mapIdx.mp he
        obtain ⟨buffer, hc⟩ := Entry.client_of_isOpen hopen
        rw [hc] at hown
        rw [Entry.fd_serve hopen] at hpos
        exact hholds (.inl ⟨_, List.getElem_mem hi, hpos, hown⟩)
      · exact hholds (.inr hlisten)

/-- What is held carries a number that was given. -/
theorem serial_lt_of_holds (h : Owned t) (hx : t.Holds x) : x.serial < t.serial := by
  obtain ⟨e, he, -, hown⟩ | ⟨d, hd, -, rfl⟩ := hx
  · exact h.given _ (h.serial_mem he hown).2
  · exact h.given _ (List.mem_append_left _ (List.mem_map_of_mem hd))

/-- The events of the next number settle nothing of before. -/
theorem stranded_append (h : Owned t) {log : List Event} (hlog : ∀ e ∈ log, a.Concerns t.serial e) :
    (ledger.Acquired (t.log ++ log) x ∧ ¬ ledger.Released (t.log ++ log) x ∧ ¬ t.Holds x) ↔
      t.Stranded x ∨ (ledger.Acquired log x ∧ ¬ ledger.Released log x) := by
  rw [Ledger.acquired_append, Ledger.released_append, not_or]
  constructor
  · rintro ⟨hacq | hacq, ⟨hrel, hrel'⟩, hholds⟩
    · exact .inl ⟨hacq, hrel, hholds⟩
    · exact .inr ⟨hacq, hrel'⟩
  · rintro (⟨hacq, hrel, hholds⟩ | ⟨hacq, hrel⟩)
    · refine ⟨.inl hacq, ⟨hrel, fun hrel' => ?_⟩, hholds⟩
      have hlt := h.past x (.inl hacq)
      have := Attempt.serial_of_concerns hlog (.inr hrel'.touched)
      omega
    · have hserial := Attempt.serial_of_concerns hlog (.inl hacq)
      refine ⟨.inr hacq, ⟨fun hrel' => ?_, hrel⟩, fun hholds => ?_⟩
      · have := h.past x (.inr hrel'.touched)
        omega
      · have := h.serial_lt_of_holds hholds
        omega

theorem stranded_refuse (h : Owned t) (hok : a.succeeds) :
    (t.refuse a).Stranded x ↔ t.Stranded x ∨ a.Leaves t.serial x := by
  have := h.stranded_append (x := x) (a := a) fun _ => Attempt.concerns_of_mem_events
  rw [Attempt.acquired_events hok, Attempt.released_events hok] at this
  exact this

/-- A connection that is admitted with the number zero leaves what its calls leave. -/
theorem stranded_connect (h : Owned t) (hok : a.succeeds) :
    (t.connect a).Stranded x ↔ t.Stranded x ∨ (a.calls.fd = 0 ∧ a.Leaves t.serial x) := by
  have hholds : (t.connect a).Holds x ↔
      t.Holds x ∨ (0 < a.calls.fd ∧ (a.client t.serial).owns x) := by
    simp only [Connections.connect, hok, dif_pos, Connections.Holds, List.mem_append,
      List.mem_singleton, or_and_right, exists_or, exists_eq_left, Attempt.entry]
    exact or_right_comm
  have hstranded : (t.connect a).Stranded x ↔
      (t.refuse a).Stranded x ∧ ¬ (0 < a.calls.fd ∧ (a.client t.serial).owns x) := by
    rw [Connections.Stranded, hholds, not_or]
    simp only [Connections.connect, hok, dif_pos, Connections.Stranded, and_assoc]
    rfl
  rw [hstranded, h.stranded_refuse hok, or_and_right]
  refine or_congr ?_ ?_
  · refine and_iff_left_of_imp fun hs hown => ?_
    have hlt := h.past x (.inl hs.1)
    have := Attempt.serial_of_concerns (a := a) (fun _ => Attempt.concerns_of_mem_events)
      (.inl ((Attempt.acquired_events hok).mpr hown.2))
    omega
  · have hfd : ¬ 0 < a.calls.fd ↔ a.calls.fd = 0 := by
      have := hok.1
      omega
    constructor
    · rintro ⟨hl, hnot⟩
      exact ⟨hfd.mp fun hpos => hnot ⟨hpos, hl.1⟩, hl⟩
    · rintro ⟨hzero, hl⟩
      exact ⟨hl, fun hpos => hfd.mpr hzero hpos.1⟩

theorem stranded_connect_of_not (h : Owned t) (hok : ¬ a.succeeds) :
    (t.connect a).Stranded x ↔ t.Stranded x := by
  have hlog : (t.connect a).log = t.log ++ a.failedEvents t.serial := by
    simp [Connections.connect, hok]
  have hholds : (t.connect a).Holds x ↔ t.Holds x := by
    simp [Connections.connect, hok, Connections.Holds]
  rw [Connections.Stranded, hlog, hholds,
    h.stranded_append fun _ => Attempt.concerns_of_mem_failedEvents hok]
  exact or_iff_left fun hl => hl.2 (Attempt.settled_failedEvents hok x hl.1)

theorem strands_connect (h : Owned t) (hr : ¬ a.refused cfg) :
    (t.connect a).Strands ↔ t.Strands ∨ ¬ a.leakless cfg := by
  by_cases hok : a.succeeds
  · have hleakless : ¬ a.leakless cfg ↔ a.calls.fd = 0 ∧ ∃ x, a.Leaves t.serial x := by
      rw [Attempt.leakless, Attempt.exists_leaves hok]
      simp only [hok, hr, or_false, forall_const, Classical.not_imp]
    rw [hleakless, Connections.Strands, exists_congr fun x => h.stranded_connect hok, exists_or,
      exists_and_left, Connections.Strands]
  · rw [Connections.Strands, exists_congr fun x => h.stranded_connect_of_not hok,
      Connections.Strands]
    exact (or_iff_left fun hl => hl fun hok' => absurd hok' hok).symm

theorem strands_refuse (h : Owned t) (hr : a.refused cfg) :
    (t.refuse a).Strands ↔ t.Strands ∨ ¬ a.leakless cfg := by
  have hleakless : ¬ a.leakless cfg ↔ ∃ x, a.Leaves t.serial x := by
    rw [Attempt.leakless, Attempt.exists_leaves hr.1]
    simp only [hr.1, hr, or_true, forall_const]
  rw [hleakless, Connections.Strands, exists_congr fun x => h.stranded_refuse hr.1, exists_or,
    Connections.Strands]

theorem strands_admissions {as : List Attempt} (hadm : Trace (Admission cfg) t as t')
    (h : Owned t) :
    Owned t' ∧ (t'.Strands ↔ t.Strands ∨ ∃ a ∈ as, ¬ a.leakless cfg) := by
  induction hadm with
  | nil => exact ⟨h, by simp⟩
  | @cons t t₁ t' a as hr _ ih =>
    obtain ⟨hr, -, rfl⟩ := hr
    obtain ⟨h', hs⟩ := ih (h.connect a)
    refine ⟨h', ?_⟩
    rw [hs, h.strands_connect hr, or_assoc]
    simp

/-- One iteration strands something exactly when one of its attempts does. -/
theorem strands_step (h : Owned t) (ht : Represents cfg s t) (hstep : loopStep cfg s r = .next s') :
    ∃ t', Represents cfg s' t' ∧ Owned t' ∧ (t'.Strands ↔ t.Strands ∨ ¬ Leakless cfg s r) := by
  have hit := loopStep_iterates ht r
  rw [hstep] at hit
  have hreport : (t.report cfg r.poll).Strands ↔ t.Strands :=
    exists_congr fun x => stranded_report r.poll
  cases hit with
  | idle _ _ _ hcount hs =>
    refine ⟨_, hs, h.report r.poll, ?_⟩
    have hnone : s.attempts cfg r = [] := attempts_of_not_accepting fun hacc => hcount hacc.2.2.1
    simp [hreport, Leakless, hnone]
  | served _ t₁ _ hadm hs =>
    obtain ⟨h₁, hs₁⟩ := strands_admissions hadm (h.report r.poll)
    refine ⟨_, hs, h₁.serve _, ?_⟩
    rw [Connections.Strands, exists_congr fun x => stranded_serve _, ← Connections.Strands, hs₁,
      hreport, Leakless]
    simp

/-- What the function returns with is settled exactly when nothing is stranded by then. -/
theorem settled_returned (h : Owned t) (ht : Represents cfg s t)
    (hstep : loopStep cfg s r = .done (.returned s')) :
    ledger.Settled s'.log ↔ ¬ t.Strands ∧ Leakless cfg s r := by
  have hit := loopStep_iterates ht r
  rw [hstep] at hit
  have hreport : (t.report cfg r.poll).Strands ↔ t.Strands :=
    exists_congr fun x => stranded_report r.poll
  have hsettled {s₁ : LoopState} {t₁ : Connections} (hs : Represents cfg s₁ t₁) :
      ledger.Settled (s₁.shutdown cfg).log ↔ ¬ t₁.Strands := by
    rw [hs.shutdown.2.2, settled_closing, Connections.Strands, not_exists]
  cases hit with
  | head hflag =>
    have hnone : s.attempts cfg r = [] := attempts_of_not_accepting fun hacc => hacc.1 hflag
    simp [hsettled ht, Leakless, hnone]
  | polled _ _ hflag hs =>
    have hnone : s.attempts cfg r = [] := attempts_of_not_accepting fun hacc => hacc.2.1 hflag
    simp [hsettled hs, hreport, Leakless, hnone]
  | refused before a s₁ t₁ _ has hr hadm _ hs =>
    obtain ⟨h₁, hs₁⟩ := strands_admissions hadm (h.report r.poll)
    rw [hsettled hs, h₁.strands_refuse hr, hs₁, hreport, Leakless, has]
    simp only [List.mem_append, List.mem_singleton, not_or, not_exists, not_and, not_not]
    simp only [or_imp, forall_and, forall_eq, and_assoc]

theorem strands_trace (htrace : Trace (continues (loopStep cfg)) s rounds s') (h : Owned t)
    (ht : Represents cfg s t) :
    ∃ t', Represents cfg s' t' ∧ Owned t' ∧
      (¬ t'.Strands ↔
        ¬ t.Strands ∧ Trace (when (Leakless cfg) (continues (loopStep cfg))) s rounds s') := by
  induction htrace generalizing t with
  | nil s => exact ⟨t, ht, h, by simp [Trace.nil]⟩
  | @cons s s₁ s' r rounds hstep _ ih =>
    obtain ⟨t₁, ht₁, h₁, hs₁⟩ := h.strands_step ht hstep
    obtain ⟨t', ht', h', hs'⟩ := ih h₁ ht₁
    refine ⟨t', ht', h', ?_⟩
    rw [hs', hs₁, not_or, not_not, and_assoc]
    refine and_congr_right fun _ => ⟨fun ⟨hl, htr⟩ => .cons ⟨hl, hstep⟩ htr, ?_⟩
    rintro (_ | ⟨⟨hl, hstep'⟩, htr⟩)
    obtain rfl := Outcome.next.inj (hstep.symm.trans hstep')
    exact ⟨hl, htr⟩

end Owned

theorem strands_start {t : Connections} (hl : t.listeners = opening cfg u) (he : t.entries = [])
    (hlog : t.log = (opening cfg u).map Event.socket) :
    ¬ t.Strands ↔ ∀ d ∈ opening cfg u, d.num ≠ 0 := by
  have hstranded (x : Resource) :
      t.Stranded x ↔ ∃ d ∈ opening cfg u, d.num = 0 ∧ x = .descriptor d := by
    have hreleased : ¬ ledger.Released t.log x := by
      rw [hlog]
      rintro ⟨e, he, hr⟩
      obtain ⟨d, -, rfl⟩ := List.mem_map.mp he
      simp at hr
    have hacquired : ledger.Acquired t.log x ↔ ∃ d ∈ opening cfg u, x = .descriptor d := by
      simp [hlog, Ledger.Acquired]
    have hholds : t.Holds x ↔ ∃ d ∈ opening cfg u, 0 < d.num ∧ x = .descriptor d := by
      simp [Connections.Holds, he, hl]
    rw [Connections.Stranded, hacquired, hholds]
    constructor
    · rintro ⟨⟨d, hd, rfl⟩, -, hnot⟩
      have hge := t.listening d (hl ▸ hd)
      exact ⟨d, hd, le_antisymm (not_lt.mp fun hpos => hnot ⟨d, hd, hpos, rfl⟩) hge, rfl⟩
    · rintro ⟨d, hd, hzero, rfl⟩
      refine ⟨⟨d, hd, rfl⟩, hreleased, ?_⟩
      rintro ⟨d', -, hpos, heq⟩
      obtain rfl : d = d' := by simpa using heq
      exact absurd hzero (ne_of_gt hpos)
  simp only [Connections.Strands, hstranded, not_exists, not_and]
  exact ⟨fun h d hd hzero => h _ d hd hzero rfl, fun h _ d hd hzero _ => h d hd hzero⟩

/-- Nothing that was handed out is left open exactly when no listening socket has the number zero
and no attempt strands anything. -/
theorem settled_iff (h : Running cfg u rounds s)
    (hstep : loopStep cfg s r = .done (.returned s')) :
    ledger.Settled s'.log ↔ (∀ d ∈ opening cfg u, d.num ≠ 0) ∧
      RunningWhen (Leakless cfg) cfg u rounds s ∧ Leakless cfg s r := by
  obtain ⟨s₀, hs₀, htrace⟩ := h
  have hrunning : RunningWhen (Leakless cfg) cfg u rounds s ↔
      Trace (when (Leakless cfg) (continues (loopStep cfg))) s₀ rounds s := by
    refine ⟨fun ⟨s₁, hs₁, htr⟩ => ?_, fun htr => ⟨s₀, hs₀, htr⟩⟩
    obtain rfl := Outcome.next.inj (hs₀.symm.trans hs₁)
    exact htr
  obtain ⟨s₁, t₀, h₁, ht₀, hl, he, hn, hlog⟩ | ⟨s₁, h₁, -⟩ := startUp_cases cfg u
  · obtain rfl := Outcome.next.inj (hs₀.symm.trans h₁)
    obtain ⟨t, ht, ho, hs⟩ := Owned.strands_trace htrace (.start hl he hn hlog) ht₀
    rw [ho.settled_returned ht hstep, hs, strands_start hl he hlog, hrunning, and_assoc]
  · simp [hs₀] at h₁

/-- The log of a run to the end of the function, as long as no number is handed out while the table
holds it. -/
theorem resolved_returned (h : Running cfg u rounds s)
    (hstep : loopStep cfg s r = .done (.returned s')) (hu : Unshared cfg u (rounds ++ [r])) :
    resolved s'.log = s'.log := by
  obtain ⟨s₀, hs₀, htrace⟩ := h
  have hout : runs (loopStep cfg) s₀ (rounds ++ [r]) = .done (.returned s') := by
    rw [runs_append, runs_of_trace htrace]
    simp only [runs, hstep]
  have hall := resolved_runs hs₀ hu
  rwa [hout] at hall

/-- The function leaves nothing open when it returns if no listening socket has the number zero and
no attempt strands anything. Where no number is handed out while the table holds it, what is closed
is what the calls were meant for, and it leaves nothing open only then. -/
theorem settled_iff_leakless (h : Running cfg u rounds s)
    (hstep : loopStep cfg s r = .done (.returned s')) :
    ((∀ d ∈ opening cfg u, d.num ≠ 0) ∧ RunningWhen (Leakless cfg) cfg u rounds s ∧
        Leakless cfg s r → ledger.Settled s'.log) ∧
      (Unshared cfg u (rounds ++ [r]) → (ledger.Settled (resolved s'.log) ↔
        (∀ d ∈ opening cfg u, d.num ≠ 0) ∧ RunningWhen (Leakless cfg) cfg u rounds s ∧
          Leakless cfg s r)) := by
  have hiff := settled_iff h hstep
  refine ⟨hiff.mpr, fun hu => ?_⟩
  rw [resolved_returned h hstep hu]
  exact hiff

/-- A client is accepted, and the server is stopped. -/
theorem settled_iff_leakless_sample : ∃ s s', ∃ r : Round,
    Running (.sample false) .sample [.sample [POLLIN] 5 6 ""] s ∧
      loopStep (.sample false) s r = .done (.returned s') ∧
      Unshared (.sample false) .sample ([.sample [POLLIN] 5 6 ""] ++ [r]) ∧
      ledger.Settled s'.log ∧
      (ledger.Settled (resolved s'.log) ↔ (∀ d ∈ opening (.sample false) .sample, d.num ≠ 0) ∧
        RunningWhen (Leakless (.sample false)) (.sample false) .sample
          [.sample [POLLIN] 5 6 ""] s ∧ Leakless (.sample false) s r) := by
  obtain ⟨s, hs, hf⟩ := exists_runningWhen (Leakless (.sample false)) (.sample false) .sample
    [.sample [POLLIN] 5 6 ""]
    (fun s => (loopStep (.sample false) s
        { Round.sample [] 5 6 "" with exitHead := true }).ends Final.hasReturned &&
      Leakless (.sample false) s { Round.sample [] 5 6 "" with exitHead := true }) (by decide)
  obtain ⟨hf, hleakless⟩ := Bool.and_eq_true_iff.mp hf
  obtain ⟨f, hf, hret⟩ := Outcome.exists_of_ends hf
  obtain ⟨s', rfl⟩ := Final.exists_of_hasReturned hret
  obtain ⟨s₀, hs₀, htrace⟩ := hs
  have hrun : Running (.sample false) .sample [.sample [POLLIN] 5 6 ""] s :=
    ⟨s₀, hs₀, htrace.mono fun _ _ _ h => h.2⟩
  have hu : Unshared (.sample false) .sample
      ([.sample [POLLIN] 5 6 ""] ++ [{ Round.sample [] 5 6 "" with exitHead := true }]) := by decide
  have hsettled := settled_iff_leakless hrun hf
  exact ⟨s, s', _, hrun, hf, hu,
    hsettled.1 ⟨by decide, ⟨s₀, hs₀, htrace⟩, of_decide_eq_true hleakless⟩, hsettled.2 hu⟩

/-- The connection over the limit is never closed. -/
theorem exists_not_settled : ∃ s s',
    Running (.sample true) .sample [.sample [POLLIN, POLLIN] 5 6 ""] s ∧
      loopStep (.sample true) s (.sample [POLLIN] 7 8 "") = .done (.returned s') ∧
      ¬ ledger.Settled s'.log := by
  obtain ⟨s, hs, hf⟩ := exists_running (.sample true) .sample [.sample [POLLIN, POLLIN] 5 6 ""]
    (fun s => (loopStep (.sample true) s (.sample [POLLIN] 7 8 "")).ends
      (Final.returnsLog fun log => decide (.accept ⟨7, 4⟩ ∈ log ∧ .close ⟨7, 4⟩ ∉ log))) (by decide)
  obtain ⟨f, hf, hlog⟩ := Outcome.exists_of_ends hf
  obtain ⟨s', rfl, hlog⟩ := Final.exists_of_returnsLog hlog
  obtain ⟨hacc, hnot⟩ := of_decide_eq_true hlog
  refine ⟨s, s', hs, hf, fun hsettled => ?_⟩
  obtain ⟨e, he, hr⟩ := hsettled (.descriptor ⟨7, 4⟩) ⟨_, hacc, rfl⟩
  cases e <;> simp at hr
  exact hnot (hr ▸ he)

end MetricServer
