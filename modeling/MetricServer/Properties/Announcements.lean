import MetricServer.Demo.Joint
import MetricServer.Properties.Distribution
import MetricServer.Properties.Loads
import MetricServer.Properties.Scaling

/-! What the launcher learns of the instances. In every interleaving of the two programs it
knows the ports that the autoscaler told it, in the order in which the instances were
made, and it sends its requests to these; and when every scrape reports the instances
that there are, it takes over their loads. -/

namespace MetricServer.Demo

open Base Http

/-! ### A round of requests -/

namespace Sender

variable {s t u : Sender} {maxload : ℤ}

/-- What the turns of a round leave as it was. -/
structure Keeps (s t : Sender) : Prop where
  ports : t.launcher.ports = s.launcher.ports
  finished : t.launcher.finished = s.launcher.finished
  loads : t.launcher.loads.length = s.launcher.loads.length
  calls : ∀ call ∈ t.calls, call ∈ s.calls ∨ call.2 ∈ s.launcher.ports

theorem Keeps.refl (s : Sender) : Keeps s s := ⟨rfl, rfl, rfl, fun _ h => .inl h⟩

theorem Keeps.trans (h : Keeps s t) (h' : Keeps t u) : Keeps s u := by
  refine ⟨h'.ports.trans h.ports, h'.finished.trans h.finished, h'.loads.trans h.loads,
    fun call hcall => ?_⟩
  obtain hcall | hcall := h'.calls call hcall
  · exact h.calls call hcall
  · exact .inr (h.ports ▸ hcall)

/-- The state that a turn, a round or a turn of the outer loop leaves, its last one included. -/
def left : Outcome Sender End → Sender
  | .next s => s
  | .done e => e.sender

theorem keeps_turn (maxload : ℤ) (s : Sender) (i : ℕ) : Keeps s (left (turn maxload s i)) := by
  rw [turn]
  split
  next l port hl hport =>
    have hcalls : ∀ call ∈ (s.fire i port (numIterations maxload l s.load)).calls,
        call ∈ s.calls ∨ call.2 ∈ s.launcher.ports := by
      intro call hcall
      obtain hcall | hcall := List.mem_append.mp hcall
      · exact .inl hcall
      · obtain ⟨-, rfl⟩ := List.mem_replicate.mp hcall
        exact .inr (List.mem_of_getElem? hport)
    simp only
    split_ifs
    · exact ⟨rfl, rfl, rfl, hcalls⟩
    · exact ⟨rfl, rfl, List.length_set, hcalls⟩
  next => exact .refl s

theorem keeps_runs_turn (maxload : ℤ) (s : Sender) (is : List ℕ) :
    Keeps s (left (runs (turn maxload) s is)) := by
  induction is generalizing s with
  | nil => exact .refl s
  | cons i is ih =>
    have hturn := keeps_turn maxload s i
    rw [runs]
    cases hout : turn maxload s i with
    | next t =>
      rw [hout] at hturn
      exact hturn.trans (ih t)
    | done e =>
      rw [hout] at hturn
      exact hturn

theorem keeps_round (s : Sender) : Keeps s (left s.round) := by
  rw [round]
  split_ifs
  · split
    · exact keeps_runs_turn _ _ _
    · exact .refl s
  · exact .refl s

end Sender

/-! ### What is told -/

/-- The message that tells of the `k`th instance, sent whole. -/
structure Message.Tells (m : Message) (k : ℕ) : Prop where
  jitPort : m.jitPort = (instanceAt k).port
  metricPorts : m.metricPorts = (List.range (k + 1)).map fun i => (instanceAt i).metricport
  packable : Packable m.jitPort
  values : ∀ v ∈ m.metricPorts.filterMap m.load, Packable v
  bytes : m.bytes = word m.jitPort ++ (m.metricPorts.filterMap m.load).flatMap word

namespace Autoscaler

variable {s t : Autoscaler} {load : ℤ → Option ℤ} {d : Delivery} {k : ℕ}

/-- A call of `send_new_port` that comes back has sent one message, or none. -/
theorem announce_cases (hnext : s.announce load d = .next t) :
    (d.connected = false ∧ t = s) ∨
      ∃ bytes, t = { s with sent := s.sent ++ [⟨s.jitPort, s.metricPorts, load, bytes⟩] } ∧
      Packable s.jitPort ∧ (∀ v ∈ s.metricPorts.filterMap load, Packable v) ∧
      bytes = word s.jitPort ++ (s.metricPorts.filterMap load).flatMap word := by
  rw [announce] at hnext
  split at hnext
  next => cases hnext
  next bytes hbytes =>
    obtain rfl := Outcome.next.inj hnext
    split_ifs with hconnected
    · refine .inr ⟨bytes, rfl, ?_⟩
      rw [sendNewPort, if_pos hconnected] at hbytes
      obtain ⟨⟨sent₁, rest₁⟩, h₁, hbytes⟩ := Option.bind_eq_some_iff.mp hbytes
      obtain ⟨⟨sent₂, rest₂⟩, h₂, rfl⟩ := Option.map_eq_some_iff.mp hbytes
      obtain ⟨hport, rfl, -⟩ := sendInt_eq_some_iff.mp h₁
      obtain ⟨hvalues, rfl, -⟩ := sendLoads_eq_some_iff.mp h₂
      exact ⟨hport, hvalues, rfl⟩
    · exact .inl ⟨Bool.eq_false_of_not_eq_true hconnected, rfl⟩

/-- The messages tell of instances, and so do the ports that were told, in the order in which
these were made. -/
structure Told (s : Autoscaler) (ports : List ℤ) : Prop where
  fleet : ∃ k, Fleet k s
  tells : ∀ m ∈ s.sent, ∃ k, m.Tells k
  order : ports.Sublist (s.instances.map Instance.port)

theorem Fleet.tells (h : Fleet k s) (hport : Packable s.jitPort)
    (hvalues : ∀ v ∈ s.metricPorts.filterMap load, Packable v) {bytes : Bytes}
    (hbytes : bytes = word s.jitPort ++ (s.metricPorts.filterMap load).flatMap word) :
    Message.Tells ⟨s.jitPort, s.metricPorts, load, bytes⟩ k := by
  refine ⟨h.jitPort, ?_, hport, hvalues, hbytes⟩
  simp only [h.metricPorts, h.instances, List.map_map]
  rfl

/-- The port of the instance that was made last comes after those of the others. -/
theorem Fleet.order (h : Fleet k s) {ports : List ℤ}
    (hports : ports.Sublist ((List.range k).map fun i => (instanceAt i).port)) :
    (ports ++ [s.jitPort]).Sublist (s.instances.map Instance.port) := by
  have hall : s.instances.map Instance.port =
      (List.range k).map (fun i => (instanceAt i).port) ++ [s.jitPort] := by
    rw [h.instances, h.jitPort, List.range_succ, List.map_append, List.map_append, List.map_map]
    rfl
  rw [hall]
  exact hports.append_right _

/-- The instance that was just made is told of, or not. -/
theorem told_announce (hfleet : Fleet k s) (htells : ∀ m ∈ s.sent, ∃ k, m.Tells k)
    (horder : (s.sent.map Message.jitPort).Sublist
      ((List.range k).map fun i => (instanceAt i).port))
    (hnext : s.announce load d = .next t) : t.Told (t.sent.map Message.jitPort) := by
  have hall := hfleet.order horder
  obtain ⟨-, rfl⟩ | ⟨bytes, rfl, hport, hvalues, hbytes⟩ := announce_cases hnext
  · exact ⟨⟨k, hfleet⟩, htells, (List.sublist_append_left _ _).trans hall⟩
  · refine ⟨⟨k, hfleet.announce hnext⟩, fun m hm => ?_, ?_⟩
    · obtain hm | hm := List.mem_append.mp hm
      · exact htells m hm
      · obtain rfl := List.mem_singleton.mp hm
        exact ⟨k, hfleet.tells hport hvalues hbytes⟩
    · rw [List.map_append]
      exact hall

theorem told_start (h : start d = .next s) : s.Told (s.sent.map Message.jitPort) :=
  told_announce (k := 0) (s := makeInstance ⟨3840, 7390, 7391, [7390], false, [], []⟩)
    ⟨rfl, rfl, rfl, rfl, rfl, by decide⟩ (by simp [makeInstance]) (by simp [makeInstance]) h

theorem Told.iteration (h : s.Told (s.sent.map Message.jitPort)) {r : Scrape} :
    (s.iteration r = .next t → t.Told (t.sent.map Message.jitPort)) ∧
      (s.iteration r = .done t → t.Told (t.sent.map Message.jitPort ++ [t.jitPort])) := by
  obtain ⟨⟨k, hfleet⟩, htells, horder⟩ := h
  rw [iteration_eq]
  split_ifs with hcome
  · have hgrown := hfleet.reset.grow hcome.1
    have hbefore : (s.sent.map Message.jitPort).Sublist
        ((List.range (k + 1)).map fun i => (instanceAt i).port) := by
      rw [hfleet.instances, List.map_map] at horder
      exact horder
    refine ⟨fun hnext => told_announce hgrown htells hbefore hnext, fun hdone => ?_⟩
    rw [scale, announce] at hdone
    split at hdone
    next =>
      obtain rfl := Outcome.done.inj hdone
      exact ⟨⟨k + 1, hgrown⟩, htells, hgrown.order hbefore⟩
    next => cases hdone
  · refine ⟨fun hnext => ?_, fun hdone => by cases hdone⟩
    obtain rfl := Outcome.next.inj hnext
    exact ⟨⟨k, hfleet.reset⟩, htells, horder⟩

theorem sent_of_announce (hnext : s.announce load d = .next t) :
    ∃ messages, t.sent = s.sent ++ messages := by
  obtain ⟨messages, rfl⟩ := announce_next hnext
  exact ⟨messages, rfl⟩

/-- Messages are added to those sent before. -/
theorem sent_prefix {r : Scrape} (hout : s.iteration r = .next t ∨ s.iteration r = .done t) :
    s.sent <+: t.sent := by
  rw [iteration_eq] at hout
  split_ifs at hout
  · obtain hnext | hdone := hout
    · obtain ⟨messages, heq⟩ := sent_of_announce hnext
      exact ⟨messages, heq.symm⟩
    · rw [scale, announce] at hdone
      split at hdone
      next =>
        obtain rfl := Outcome.done.inj hdone
        exact List.prefix_rfl
      next => cases hdone
  · obtain hnext | hdone := hout
    · obtain rfl := Outcome.next.inj hnext
      exact List.prefix_rfl
    · cases hdone

end Autoscaler

/-! ### The two programs -/

namespace Joint

variable {y : Joint}

/-- The ports of the messages, with that of the message that was not sent whole. -/
def toldPorts (y : Joint) : List ℤ :=
  y.autoscaler.sent.map Message.jitPort ++ if y.scaling then [] else [y.autoscaler.jitPort]

/-- The launcher knows ports that it was told, each of them once for every connection it took, and
has sent its requests to these. -/
structure Known (y : Joint) : Prop where
  told : y.autoscaler.Told y.toldPorts
  ports : y.sender.launcher.ports <+: y.toldPorts
  length : y.sender.launcher.finished = false → y.sender.launcher.ports.length = y.accepted
  parallel : y.sender.launcher.Parallel
  calls : ∀ call ∈ y.sender.calls, call.2 ∈ y.sender.launcher.ports

theorem known_initial {d : Delivery} {s : Autoscaler} (h : Autoscaler.start d = .next s)
    (load : ℤ) : (initial s load).Known := by
  refine ⟨?_, List.nil_prefix, fun _ => rfl, rfl, by simp [initial]⟩
  rw [toldPorts, initial, if_pos rfl, List.append_nil]
  exact Autoscaler.told_start h

theorem Known.scrape (h : y.Known) (r : Scrape) : (y.scrape r).Known := by
  rw [Joint.scrape]
  split_ifs with hscaling
  · obtain ⟨htold, hports, hlength, hparallel, hcalls⟩ := h
    rw [toldPorts, if_pos hscaling, List.append_nil] at htold hports
    have hsent {t : Autoscaler}
        (hout : y.autoscaler.iteration r = .next t ∨ y.autoscaler.iteration r = .done t) :
        y.sender.launcher.ports <+: t.sent.map Message.jitPort :=
      hports.trans ((Autoscaler.sent_prefix hout).map _)
    split
    next t hout =>
      refine ⟨?_, ?_, hlength, hparallel, hcalls⟩ <;>
        simp only [toldPorts, hscaling, if_true, List.append_nil]
      · exact htold.iteration.1 hout
      · exact hsent (.inl hout)
    next t hout =>
      refine ⟨htold.iteration.2 hout, ?_, hlength, hparallel, hcalls⟩
      exact (hsent (.inr hout)).trans (List.prefix_append _ _)
  · exact h

/-- A round and what its state keeps, whether or not `sendreq` goes on. -/
theorem Known.keeps (h : y.Known) {t : Sender} (hkeeps : Sender.Keeps y.sender t) (sending : Bool) :
    ({ y with sender := t, sending := sending } : Joint).Known := by
  refine ⟨h.told, hkeeps.ports ▸ h.ports, fun hf => ?_, ?_, fun call hcall => ?_⟩
  · simp only [hkeeps.ports]
    exact h.length (hkeeps.finished ▸ hf)
  · rw [Launcher.Parallel, hkeeps.loads, hkeeps.ports]
    exact h.parallel
  · simp only [hkeeps.ports]
    exact (hkeeps.calls call hcall).elim (h.calls call) id

/-- The next message tells one port more. -/
theorem Known.recvmsg (h : y.Known) (hfinished : y.sender.launcher.finished = false) {port : ℤ}
    (hport : y.toldPorts[y.accepted]? = some port) (hpackable : Packable port) (rest : Bytes)
    (arrivals : List (Option ℕ)) :
    ({ y with
      sender :=
        { y.sender with
          launcher := y.sender.launcher.recvmsg (some ⟨word port ++ rest, arrivals⟩) }
      accepted := y.accepted + 1 } : Joint).Known := by
  have hparallel :=
    Launcher.parallel_recvmsg y.sender.launcher (some ⟨word port ++ rest, arrivals⟩) h.parallel
  have hlength := h.length hfinished
  obtain hports | ⟨hports, hf⟩ := Launcher.ports_recvmsg hfinished hpackable rest arrivals
  · refine ⟨h.told, ?_, fun _ => ?_, hparallel, fun call hcall => ?_⟩
    · obtain ⟨after, hafter⟩ := h.ports
      rw [← hafter, ← hlength, List.getElem?_append_right le_rfl, Nat.sub_self] at hport
      obtain ⟨p, after, rfl⟩ := List.exists_cons_of_ne_nil
        (show after ≠ [] by rintro rfl; cases hport)
      obtain rfl : p = port := Option.some.inj hport
      simp only [hports]
      exact ⟨after, by rw [List.append_assoc, List.singleton_append]; exact hafter⟩
    · simp only [hports, List.length_append, List.length_singleton, hlength]
    · simp only [hports]
      exact List.mem_append_left _ (h.calls call hcall)
  · refine ⟨h.told, ?_, fun hnot => ?_, hparallel, fun call hcall => ?_⟩
    · simp only [hports]
      exact h.ports
    · cases hf.symm.trans hnot
    · simp only [hports]
      exact h.calls call hcall

/-- A turn of `sendreq` is a round, after which it may wait for the next message. -/
theorem receive_cases (y : Joint) (accepted : Option Connection) :
    ∃ t, Sender.Keeps y.sender t ∧
      ((∃ sending, y.receive accepted = { y with sender := t, sending := sending }) ∨
        (y.sender.launcher.finished = false ∧
          y.receive accepted =
            { y with
              sender := { t with launcher := t.launcher.recvmsg accepted }
              accepted := y.accepted + if accepted.isSome then 1 else 0 })) := by
  rw [receive]
  by_cases hsending : y.sending = true
  · have hround := Sender.keeps_round y.sender
    rw [if_pos hsending, Sender.iteration]
    cases hout : y.sender.round with
    | done e =>
      rw [hout] at hround
      exact ⟨e.sender, hround, .inl ⟨false, rfl⟩⟩
    | next t =>
      rw [hout] at hround
      have hkeeps : Sender.Keeps y.sender t := hround
      refine ⟨t, hkeeps, ?_⟩
      by_cases hfinished : y.sender.launcher.finished = true
      · have htfinished := hkeeps.finished.trans hfinished
        exact .inl ⟨y.sending, by simp [hfinished, htfinished]⟩
      · have htfinished : ¬ t.launcher.finished = true := by rwa [hkeeps.finished]
        exact .inr ⟨Bool.eq_false_of_not_eq_true hfinished, by simp [hfinished, htfinished]⟩
  · rw [if_neg hsending]
    exact ⟨y.sender, .refl _, .inl ⟨y.sending, rfl⟩⟩

/-- A turn of `sendreq`, which may take the next message. -/
theorem Known.receive (h : y.Known) {accepted : Option Connection}
    (haccepted : ∀ c, accepted = some c → ∃ port rest arrivals,
      y.toldPorts[y.accepted]? = some port ∧ Packable port ∧ c = ⟨word port ++ rest, arrivals⟩) :
    (y.receive accepted).Known := by
  obtain ⟨t, hkeeps, ⟨sending, heq⟩ | ⟨hfinished, heq⟩⟩ := y.receive_cases accepted
  · rw [heq]
    exact h.keeps hkeeps sending
  · have ht := h.keeps hkeeps y.sending
    have htfinished := hkeeps.finished.trans hfinished
    rw [heq]
    cases accepted with
    | none =>
      have hrecv : t.launcher.recvmsg none = { t.launcher with finished := true } := by
        rw [Launcher.recvmsg, if_neg (by simp [htfinished])]
      rw [hrecv]
      exact ⟨ht.told, ht.ports, (fun hnot => by cases hnot), ht.parallel, ht.calls⟩
    | some c =>
      obtain ⟨port, rest, arrivals, hport, hpackable, rfl⟩ := haccepted c rfl
      exact ht.recvmsg htfinished hport hpackable rest arrivals

theorem Known.step (h : y.Known) (act : Act) : (y.step act).Known := by
  cases act with
  | scrape r => exact h.scrape r
  | accept arrivals =>
    rw [Joint.step]
    split
    next m hm =>
      obtain ⟨k, hk⟩ := h.told.tells m (List.mem_of_getElem? hm)
      refine h.receive fun c hc =>
        ⟨m.jitPort, (m.metricPorts.filterMap m.load).flatMap word, arrivals, ?_, hk.packable, ?_⟩
      · obtain ⟨hlt, -⟩ := List.getElem?_eq_some_iff.mp hm
        rw [toldPorts, List.getElem?_append_left (by rwa [List.length_map]), List.getElem?_map, hm]
        rfl
      · rw [← Option.some.inj hc, hk.bytes]
    next => exact h
  | broken rest arrivals =>
    rw [Joint.step]
    split_ifs with hbroken
    · obtain ⟨k, hk⟩ := h.told.fleet
      have hlt := hk.lt_five
      refine h.receive fun c hc =>
        ⟨y.autoscaler.jitPort, rest, arrivals, ?_, ?_, (Option.some.inj hc).symm⟩
      · rw [toldPorts, if_neg hbroken.1, hbroken.2,
          List.getElem?_append_right (List.length_map _).le, List.length_map, Nat.sub_self]
        rfl
      · rw [Packable, hk.jitPort]
        omega
    · exact h
  | timeout => exact h.receive fun c hc => by cases hc

theorem known_of_acts {d : Delivery} {s : Autoscaler} (hs : Autoscaler.start d = .next s)
    (load : ℤ) (acts : List Act) : (acts.foldl step (initial s load)).Known := by
  induction acts using List.reverseRecOn with
  | nil => exact known_initial hs load
  | append_singleton acts act ih =>
    rw [List.foldl_append]
    exact ih.step act

/-- In every interleaving, and whatever becomes of the messages on their way, the launcher knows
the first ports it was told, in the order in which their instances were made; it has taken one
connection for each until it times out; and every request it has sent went to an instance. -/
theorem requests_reach {d : Delivery} {s : Autoscaler} (hs : Autoscaler.start d = .next s)
    (load : ℤ) (acts : List Act) :
    let y := acts.foldl step (initial s load)
    y.sender.launcher.ports <+: y.toldPorts ∧
      y.toldPorts.Sublist (y.autoscaler.instances.map Instance.port) ∧
      (y.sender.launcher.finished = false → y.sender.launcher.ports.length = y.accepted) ∧
      ∀ call ∈ y.sender.calls, ∃ i ∈ y.autoscaler.instances, i.port = call.2 := by
  have h := known_of_acts hs load acts
  refine ⟨h.ports, h.told.order, h.length, fun call hcall => ?_⟩
  have hmem := h.told.order.subset (h.ports.subset (h.calls call hcall))
  simpa using hmem

theorem requests_reach_sample : ∃ s, Autoscaler.start .whole = .next s ∧
    let y := [Act.accept [], .scrape .busyFirst, .timeout].foldl step (initial s 3)
    y.sender.calls.length = 3 ∧
      ∀ call ∈ y.sender.calls, ∃ i ∈ y.autoscaler.instances, i.port = call.2 := by
  obtain ⟨s, hs, hlen⟩ := Outcome.exists_of_goes (o := Autoscaler.start .whole)
    (p := fun s => ([Act.accept [], .scrape .busyFirst, .timeout].foldl step
      (initial s 3)).sender.calls.length == 3) (by decide)
  obtain ⟨-, -, -, hcalls⟩ := requests_reach hs 3 [.accept [], .scrape .busyFirst, .timeout]
  exact ⟨s, hs, by simpa using hlen, hcalls⟩

/-! ### The loads -/

/-- After an instance without a load none has one other than zero. -/
def InOrder (load : ℤ → Option ℤ) : Prop :=
  ∀ i j, i < j → load (instanceAt i).metricport = none →
    ∀ v, load (instanceAt j).metricport = some v → v = 0

/-- Every message tells of the instance whose turn it is, with loads of the given kind. -/
def Aligned (P : (ℤ → Option ℤ) → Prop) (sent : List Message) : Prop :=
  ∀ j (m : Message), sent[j]? = some m → m.Tells j ∧ P m.load

variable {P : (ℤ → Option ℤ) → Prop} {sent : List Message} {n : ℕ}

theorem Aligned.concat (h : Aligned P sent) {m : Message} (hm : m.Tells sent.length)
    (hP : P m.load) : Aligned P (sent ++ [m]) := by
  intro j m' hm'
  obtain hlt | heq | hgt := lt_trichotomy j sent.length
  · rw [List.getElem?_append_left hlt] at hm'
    exact h j m' hm'
  · subst heq
    rw [List.getElem?_concat_length] at hm'
    obtain rfl := Option.some.inj hm'
    exact ⟨hm, hP⟩
  · rw [List.getElem?_eq_none (by rw [List.length_append]; exact hgt)] at hm'
    cases hm'

theorem Aligned.ports (h : Aligned P sent) (hn : n ≤ sent.length) :
    (sent.take n).map Message.jitPort = (List.range n).map fun i => (instanceAt i).port := by
  apply List.ext_getElem
  · simp [hn]
  · intro i hi _
    have hlt : i < sent.length := by
      simp only [List.length_map, List.length_take] at hi
      omega
    have hm := h i sent[i] (List.getElem?_eq_getElem hlt)
    simpa using hm.1.jitPort

/-- With the launcher there to take its connection, an instance is told of in its turn. -/
theorem Aligned.announce {k : ℕ} {s t : Autoscaler} {load : ℤ → Option ℤ} {d : Delivery}
    (h : Aligned P s.sent) (hfleet : Autoscaler.Fleet k s) (hlen : s.sent.length = k)
    (hconnected : d.connected) (hP : P load) (hnext : s.announce load d = .next t) :
    Aligned P t.sent ∧ t.sent.length = t.instances.length := by
  obtain ⟨hnot, -⟩ | ⟨bytes, rfl, hport, hvalues, hbytes⟩ := Autoscaler.announce_cases hnext
  · cases hconnected.symm.trans hnot
  · refine ⟨h.concat (hlen ▸ hfleet.tells hport hvalues hbytes) hP, ?_⟩
    rw [List.length_append, hlen, hfleet.count, List.length_singleton]

/-- The messages are aligned, and none is missing while the autoscaler goes on. -/
def InStep (P : (ℤ → Option ℤ) → Prop) (y : Joint) : Prop :=
  Aligned P y.autoscaler.sent ∧
    (y.scaling → y.autoscaler.sent.length = y.autoscaler.instances.length)

theorem inStep_initial {d : Delivery} {s : Autoscaler} (hs : Autoscaler.start d = .next s)
    (hconnected : d.connected) (hP : P Autoscaler.firstLoad)
    (load : ℤ) : InStep P (initial s load) := by
  have hstart := Aligned.announce (P := P) (k := 0)
    (s := Autoscaler.makeInstance ⟨3840, 7390, 7391, [7390], false, [], []⟩) nofun
    ⟨rfl, rfl, rfl, rfl, rfl, by decide⟩ rfl hconnected hP hs
  exact ⟨hstart.1, fun _ => hstart.2⟩

theorem InStep.scrape (h : InStep P y) (hknown : y.Known) {r : Scrape}
    (hconnected : r.delivery.connected) (hP : P (getMetrics r.result)) :
    InStep P (y.scrape r) := by
  rw [Joint.scrape]
  split_ifs with hscaling
  · obtain ⟨haligned, hlen⟩ := h
    obtain ⟨k, hfleet⟩ := hknown.told.fleet
    have hcount := (hlen hscaling).trans hfleet.count
    rw [Autoscaler.iteration_eq]
    split_ifs with hcome
    · have hgrown := hfleet.reset.grow hcome.1
      cases hout : ({ y.autoscaler with new := false } : Autoscaler).scale
          (getMetrics r.result) r.delivery with
      | next t =>
        obtain ⟨hsent, hlength⟩ :=
          Aligned.announce (s := ({ y.autoscaler with new := false } : Autoscaler).grow) haligned
            hgrown hcount hconnected hP hout
        exact ⟨hsent, fun _ => hlength⟩
      | done t =>
        rw [Autoscaler.scale, Autoscaler.announce] at hout
        split at hout
        next =>
          obtain rfl := Outcome.done.inj hout
          exact ⟨haligned, fun hnot => by cases hnot⟩
        next => cases hout
    · exact ⟨haligned, hlen⟩
  · exact h

theorem InStep.receive (h : InStep P y) (accepted : Option Connection) :
    InStep P (y.receive accepted) := by
  obtain ⟨t, -, ⟨sending, heq⟩ | ⟨-, heq⟩⟩ := y.receive_cases accepted <;> rw [heq] <;> exact h

theorem InStep.step (h : InStep P y) (hknown : y.Known) {act : Act}
    (hact : ∀ r, act = .scrape r → r.delivery.connected ∧ P (getMetrics r.result)) :
    InStep P (y.step act) := by
  cases act with
  | scrape r =>
    obtain ⟨hconnected, hP⟩ := hact r rfl
    exact h.scrape hknown hconnected hP
  | accept arrivals =>
    rw [Joint.step]
    split
    · exact h.receive _
    · exact h
  | broken rest arrivals =>
    rw [Joint.step]
    split_ifs
    · exact h.receive _
    · exact h
  | timeout => exact h.receive none

theorem inStep_of_acts {d : Delivery} {s : Autoscaler} (hs : Autoscaler.start d = .next s)
    (hconnected : d.connected) (hP : P Autoscaler.firstLoad)
    (load : ℤ) {acts : List Act}
    (hacts : ∀ r, Act.scrape r ∈ acts → r.delivery.connected ∧ P (getMetrics r.result)) :
    InStep P (acts.foldl step (initial s load)) := by
  induction acts using List.reverseRecOn with
  | nil => exact inStep_initial hs hconnected hP load
  | append_singleton acts act ih =>
    rw [List.foldl_append]
    have hbefore := ih fun r hr => hacts r (List.mem_append_left _ hr)
    exact hbefore.step (known_of_acts hs load acts) fun r hr =>
      hacts r (List.mem_append_right _ (List.mem_singleton.mpr hr.symm))

theorem filterMap_of_inOrder {f : ℤ → Option ℤ} (h : InOrder f) {ports : List ℤ} {m : ℕ}
    (hports : ports = (List.range n).map fun i => (instanceAt i).metricport)
    (hm : (ports.filterMap f).length + m = n) :
    ports.filterMap f ++ List.replicate m 0 =
      ((List.range n).map instanceAt).map fun i => (f i.metricport).getD 0 := by
  have hlen : ports.length = n := by rw [hports, List.length_map, List.length_range]
  have hpairs : ports.Pairwise fun x y => f x = none → ∀ v, f y = some v → v = 0 := by
    rw [hports, List.pairwise_map]
    exact List.pairwise_lt_range.imp fun hlt => h _ _ hlt
  rw [(filterMap_append_eq_map_iff (hm.trans hlen.symm)).mpr hpairs, hports, List.map_map,
    List.map_map]
  rfl

/-- The loads that the autoscaler has had: that of its first message, and what the scrapes found. -/
def Scraped (acts : List Act) (f : ℤ → Option ℤ) : Prop :=
  f = Autoscaler.firstLoad ∨ ∃ r, Act.scrape r ∈ acts ∧ f = getMetrics r.result

theorem inOrder_firstLoad : InOrder Autoscaler.firstLoad := by
  intro i j hij _ v hv
  have hne : (instanceAt j).metricport ≠ 7390 := by
    simp only [instanceAt]
    omega
  rw [Autoscaler.firstLoad, if_neg hne] at hv
  cases hv

/-- What the launcher has after it took a message in its turn. -/
theorem InStep.taken {t : Sender} (hstep : InStep P y) (hP : ∀ f, P f → InOrder f)
    (hknown : y.Known) (hkeeps : Sender.Keeps y.sender t)
    (hfinished : y.sender.launcher.finished = false) {m : Message}
    (hm : y.autoscaler.sent[y.accepted]? = some m) {arrivals : List (Option ℕ)}
    (harrivals : none ∉ arrivals) :
    (t.launcher.recvmsg (some ⟨m.bytes, arrivals⟩)).ports =
        (y.autoscaler.instances.take (y.accepted + 1)).map Instance.port ∧
      (t.launcher.recvmsg (some ⟨m.bytes, arrivals⟩)).loads =
        (y.autoscaler.instances.take (y.accepted + 1)).map fun i =>
          (m.load i.metricport).getD 0 := by
  obtain ⟨hlt, -⟩ := List.getElem?_eq_some_iff.mp hm
  obtain ⟨hm, hload⟩ := hstep.1 _ m hm
  have hlength := hknown.length hfinished
  have hinstances : y.autoscaler.instances.take (y.accepted + 1) =
      (List.range (y.accepted + 1)).map instanceAt := by
    obtain ⟨k, hfleet⟩ := hknown.told.fleet
    have hle := hknown.told.order.length_le
    rw [toldPorts, List.length_append, List.length_map, List.length_map,
      hfleet.count] at hle
    rw [hfleet.instances, ← List.map_take, List.take_range, Nat.min_eq_left (by omega)]
  have hports : t.launcher.ports =
      (List.range y.accepted).map fun i => (instanceAt i).port := by
    have hprefix := List.prefix_iff_eq_take.mp hknown.ports
    rw [hlength, toldPorts, List.take_append_of_le_length (by rw [List.length_map]; omega),
      ← List.map_take, Aligned.ports hstep.1 hlt.le] at hprefix
    rw [hkeeps.ports, hprefix]
  have hparallel : t.launcher.Parallel := by
    rw [Launcher.Parallel, hkeeps.loads, hkeeps.ports]
    exact hknown.parallel
  have hle := List.length_filterMap_le m.load m.metricPorts
  have hcount : m.metricPorts.length = y.accepted + 1 := by
    rw [hm.metricPorts, List.length_map, List.length_range]
  obtain ⟨n, hn⟩ := Nat.exists_eq_add_of_le (hle.trans_eq hcount)
  rw [hm.bytes, Launcher.recvmsg_told (hkeeps.finished.trans hfinished) hparallel hm.packable
    hm.values (by rw [hkeeps.ports, hlength]; exact hn.symm) harrivals, hinstances]
  refine ⟨?_, filterMap_of_inOrder (hP _ hload) hm.metricPorts hn.symm⟩
  simp only [hports, hm.jitPort, List.range_succ, List.map_append, List.map_map]
  rfl

/-- If the launcher was there for every message, and no scrape has left out an instance before one
with clients, then after every connection that it takes without a timeout the launcher has the
ports of the first instances, in their order, and the load of each as one scrape found it. -/
theorem loads_taken {d : Delivery} {s : Autoscaler} (hs : Autoscaler.start d = .next s)
    (hconnected : d.connected) (load : ℤ) {acts : List Act}
    (hacts : ∀ r, Act.scrape r ∈ acts → r.delivery.connected ∧ InOrder (getMetrics r.result))
    {arrivals : List (Option ℕ)} (harrivals : none ∉ arrivals) :
    let y := acts.foldl step (initial s load)
    let y' := y.step (.accept arrivals)
    y'.accepted ≠ y.accepted → y'.accepted = y.accepted + 1 ∧
      ∃ f, Scraped acts f ∧
        y'.sender.launcher.ports =
          (y.autoscaler.instances.take y'.accepted).map Instance.port ∧
        y'.sender.launcher.loads =
          (y.autoscaler.instances.take y'.accepted).map fun i => (f i.metricport).getD 0 := by
  intro y y' hne
  have hinOrder (f : ℤ → Option ℤ) (hf : Scraped acts f) : InOrder f := by
    obtain rfl | ⟨r, hr, rfl⟩ := hf
    · exact inOrder_firstLoad
    · exact (hacts r hr).2
  have hknown : y.Known := known_of_acts hs load acts
  have hstep : InStep (Scraped acts) y := inStep_of_acts hs hconnected (.inl rfl) load
    fun r hr => ⟨(hacts r hr).1, .inr ⟨r, hr, rfl⟩⟩
  cases hm : y.autoscaler.sent[y.accepted]? with
  | none =>
    have hy' : y' = y := by
      simp only [y', step, hm]
    exact absurd (congrArg Joint.accepted hy') hne
  | some m =>
    obtain ⟨t, hkeeps, ⟨sending, heq⟩ | ⟨hfinished, heq⟩⟩ :=
      y.receive_cases (some ⟨m.bytes, arrivals⟩)
    · have hy' : y' = { y with sender := t, sending := sending } := by
        simp only [y', step, hm, heq]
      exact absurd (congrArg Joint.accepted hy') hne
    · have hy' : y' = { y with
          sender := { t with launcher := t.launcher.recvmsg (some ⟨m.bytes, arrivals⟩) }
          accepted := y.accepted + 1 } := by
        simp only [y', step, hm, heq]
        rfl
      obtain ⟨hports, hloads⟩ := hstep.taken hinOrder hknown hkeeps hfinished hm harrivals
      rw [hy']
      exact ⟨rfl, m.load, (hstep.1 _ m hm).2, hports, hloads⟩

theorem inOrder_busyFirst : InOrder (getMetrics Scrape.busyFirst.result) := by
  intro i j hij _ v hv
  have hne : ((instanceAt j).metricport == 7390) = false := by
    simp only [instanceAt, beq_eq_false_iff_ne]
    omega
  simp [getMetrics, Scrape.busyFirst, List.lookup_cons, hne] at hv

/-- The launcher is told of the second instance while the first one has five clients. -/
theorem loads_taken_sample : ∃ s, Autoscaler.start .whole = .next s ∧
    let y := [Act.accept [], .scrape .busyFirst].foldl step (initial s 30)
    let y' := y.step (.accept [some 1])
    y'.accepted = 2 ∧ y'.sender.launcher.loads = [5, 0] ∧
      ∃ f, Scraped [.accept [], .scrape .busyFirst] f ∧ y'.sender.launcher.loads =
        (y.autoscaler.instances.take y'.accepted).map fun i => (f i.metricport).getD 0 := by
  obtain ⟨s, hs, hrun⟩ := Outcome.exists_of_goes (o := Autoscaler.start .whole)
    (p := fun s =>
      let y := [Act.accept [], .scrape .busyFirst].foldl step (initial s 30)
      let y' := y.step (.accept [some 1])
      y.accepted == 1 && y'.accepted == 2 && y'.sender.launcher.loads == [5, 0]) (by decide)
  simp only [Bool.and_eq_true, beq_iff_eq] at hrun
  obtain ⟨⟨hbefore, htaken⟩, hloads⟩ := hrun
  have hscrape (r : Scrape) (hr : Act.scrape r ∈ [Act.accept [], .scrape .busyFirst]) :
      r.delivery.connected ∧ InOrder (getMetrics r.result) := by
    obtain rfl : r = .busyFirst := by simpa using hr
    exact ⟨rfl, inOrder_busyFirst⟩
  have harrivals : none ∉ [some 1] := by decide
  obtain ⟨-, f, hf, -, hagree⟩ :=
    loads_taken hs rfl 30 hscrape harrivals (by rw [hbefore, htaken]; decide)
  exact ⟨s, hs, htaken, hloads, f, hf, hagree⟩

end Joint

end MetricServer.Demo
