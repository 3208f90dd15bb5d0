import MetricServer.Properties.Endpoints
import MetricServer.Properties.Metrics
import MetricServer.Properties.Sessions

/-! From the readings to the scraper. The database is updated once for every round of
service, so that at each of them it holds what was last read of every group of metrics
since start-up; and a scraper whose request is read whole, and that takes the whole
response, reads that out of it. -/

namespace MetricServer

open Base Http LoopState MetricDatabase

variable {cfg : Config} {u : StartUp} {rounds : List Round} {s s₀ : LoopState} {r : Round} {i : ℕ}

/-! ### The readings of a run -/

/-- What the rounds of service of a run read. -/
def readings (cfg : Config) : LoopState → List Round → List Snapshot
  | _, [] => []
  | s, r :: rounds =>
    match loopStep cfg s r with
    | .next s' =>
      if s.serves cfg r then r.snapshot :: readings cfg s' rounds else readings cfg s' rounds
    | .done _ => []

/-- An iteration that goes on updates the database if it serves. -/
theorem Represents.db_step {t : Connections} (h : Represents cfg s t) {s' : LoopState}
    (hstep : loopStep cfg s r = .next s') :
    s'.db = if s.serves cfg r then s.db.update r.snapshot else s.db := by
  have hit := loopStep_iterates h r
  rw [hstep] at hit
  cases hit with
  | idle _ _ _ hcount hs =>
    rw [if_neg fun hserves => hcount hserves.1.2.2.1, ← hs.db_eq, Connections.report_db, h.db_eq]
  | served _ _ hserves _ hs =>
    rw [if_pos hserves, ← hs.db_eq]
    rfl

/-- At a head the database has been updated with the readings so far. -/
theorem Represents.db_trace {t : Connections} (h : Represents cfg s t) {s' : LoopState}
    (htrace : Trace (continues (loopStep cfg)) s rounds s') :
    s'.db = (readings cfg s rounds).foldl update s.db := by
  induction htrace generalizing t with
  | nil => rfl
  | @cons s s₁ s' r rounds hstep _ ih =>
    obtain ⟨t₁, ht₁⟩ := h.next hstep
    have hout : loopStep cfg s r = .next s₁ := hstep
    rw [ih ht₁, readings, hout, h.db_step hout]
    split_ifs <;> rfl

theorem startUp_db (hs : startUp cfg u = .next s₀) : s₀.db = ofUpdates [u.snapshot] := by
  simp only [startUp] at hs
  split at hs
  next => cases hs
  split at hs
  next =>
    split at hs
    next => cases hs
    next =>
      cases hs
      rfl
  next =>
    cases hs
    rfl

/-- Start-up reads the metrics once, and every round of service once more. -/
theorem db_eq_ofUpdates (hs : startUp cfg u = .next s₀)
    (htrace : Trace (continues (loopStep cfg)) s₀ rounds s) :
    s.db = ofUpdates (u.snapshot :: readings cfg s₀ rounds) := by
  obtain ⟨t, ht, -⟩ := exists_represents hs
  rw [ht.db_trace htrace, startUp_db hs]
  rfl

/-! ### What is scraped -/

/-- The entries of a database are looked up as its metrics are found. -/
theorem lookup_entries (db : MetricDatabase) (name : Bytes) :
    db._mdb.entries.lookup name = db._mdb.find name := by
  ext value
  have hnodup : (db._mdb.entries.map Prod.fst).Nodup := db._mdb.sorted.imp fun h => ne_of_lt h
  rw [lookup_eq_some_iff_mem hnodup, OrderedMap.mem_entries_iff]

/-- The text after some updates lists every metric that was read, with the value of its last
reading. -/
theorem readMetrics_ofUpdates (ss : List Snapshot) :
    ∃ entries, readMetrics (ofUpdates ss).prepareAllMetricsBody = some entries ∧
      (entries.map Prod.fst).Pairwise (· < ·) ∧
      (∀ e ∈ entries, ∃ g : Group, e.1 ∈ g.names) ∧
      ∀ g : Group, g.names.map (fun name => entries.lookup name) =
        (latest ss g).elim (g.names.map fun _ => none) (List.map some) := by
  have hpublishable : ∀ e ∈ (ofUpdates ss)._mdb.entries, Publishable e := by
    rw [ofUpdates_eq]
    refine publishable_entries fun e he => ?_
    obtain ⟨s, -, hs⟩ := List.mem_flatMap.mp he
    exact s.publishable_calls e hs
  refine ⟨_, readMetrics_prepareAllMetricsBody hpublishable, (ofUpdates ss)._mdb.sorted, ?_, ?_⟩
  · rintro ⟨name, value⟩ he
    by_contra hnone
    rw [OrderedMap.mem_entries_iff, find_ofUpdates_of_notMem (not_exists.mp hnone)] at he
    cases he
  · intro g
    rw [← map_find_ofUpdates]
    exact List.map_congr_left fun name _ => lookup_entries _ name

/-- A request for the metrics that is read whole is answered with them. -/
theorem Client.answer_scrape (c : Client) {io : ClientIO} {target version : Bytes}
    (hmemory : HttpRequest.new io.memory = HttpRequest.new HttpRequest.zeroed)
    (hreceive : (c.clientReceive io.errno io.reads).1 = .success)
    (hline : RequestLine (c.receivedBytes io.errno io.reads) (ascii "GET") target version)
    (htarget : endpoint target ∈ metricsEndpoints) (db : MetricDatabase) :
    c.answered io ∧ readResponse (httpErrorCheck (c.request io) db) =
      some (ascii "200", db.prepareAllMetricsBody) := by
  have hbytes : cstr (c.receivedBytes io.errno io.reads) = c.receivedBytes io.errno io.reads :=
    cstr_eq_self hline.nul_notMem
  have hrequest : c.request io =
      HttpRequest.parsedOn HttpRequest.zeroed (c.receivedBytes io.errno io.reads) := by
    rw [request, hbytes, hmemory]
    rfl
  have hrouted := (routed_iff hline db).mpr
    ⟨fun _ => rfl, fun _ => .inl (List.mem_append_left _ htarget)⟩
  refine ⟨⟨not_readsFail_of_success hreceive, hbytes.symm ▸ hline.complete⟩, ?_⟩
  rw [hrequest]
  refine hrouted.trans ?_
  rw [expected, if_neg (not_not.mpr rfl), if_pos htarget]

/-- Whoever asks for the metrics, on any connection and after any run, and takes the whole
response, reads in it every metric that start-up and the rounds of service so far could read,
this one included, with the value last read. -/
theorem scraped (hs : startUp cfg u = .next s₀)
    (htrace : Trace (continues (loopStep cfg)) s₀ rounds s) (hi : i < s.clients.length)
    (hr : s.isRead cfg r i)
    (hmemory : HttpRequest.new (r.io i).memory = HttpRequest.new HttpRequest.zeroed)
    (hreceive : ((s.client i).clientReceive (r.io i).errno (r.io i).reads).1 = .success)
    {target version : Bytes}
    (hline : RequestLine ((s.client i).receivedBytes (r.io i).errno (r.io i).reads) (ascii "GET")
      target version)
    (htarget : endpoint target ∈ metricsEndpoints)
    (htaken : (httpErrorCheck ((s.client i).request (r.io i)) (s.db.update r.snapshot)).length ≤
      Client.taken (r.io i).sends) :
    ∃ body entries, readResponse (s.sentBack cfg r i) = some (ascii "200", body) ∧
      readMetrics body = some entries ∧ (entries.map Prod.fst).Pairwise (· < ·) ∧
      (∀ e ∈ entries, ∃ g : Group, e.1 ∈ g.names) ∧
      ∀ g : Group, g.names.map (fun name => entries.lookup name) =
        (latest (u.snapshot :: readings cfg s₀ rounds ++ [r.snapshot]) g).elim
          (g.names.map fun _ => none) (List.map some) := by
  obtain ⟨hanswered, hresponse⟩ := (s.client i).answer_scrape hmemory hreceive hline htarget
    (s.db.update r.snapshot)
  have hdb : s.db.update r.snapshot =
      ofUpdates (u.snapshot :: readings cfg s₀ rounds ++ [r.snapshot]) := by
    rw [ofUpdates_concat, db_eq_ofUpdates hs htrace]
  obtain ⟨entries, hread, hsorted, hnames, hvalues⟩ :=
    readMetrics_ofUpdates (u.snapshot :: readings cfg s₀ rounds ++ [r.snapshot])
  refine ⟨_, entries, ?_, hread, hsorted, hnames, hvalues⟩
  have hsent := (outcome_of_isRead ⟨s₀, hs, htrace⟩ hi hr).1
  rw [hsent, Client.answer, if_pos hanswered, Client.sendCalls, Client.delivered_sendLoop,
    List.drop_zero, List.take_of_length_le htaken, hresponse, hdb]

/-- A request for the metrics. -/
def metricsRequest : Bytes := ascii "GET /metrics HTTP/1.1\r\n\r\n"

theorem requestLine_metricsRequest :
    RequestLine metricsRequest (ascii "GET") (ascii "/metrics") (ascii "HTTP/1.1") := by
  refine ⟨?_, ⟨ascii "\r\n", ?_⟩, ?_, ?_, ?_⟩ <;> decide +kernel

/-- The round in which it is read. -/
def Round.metricsAsked : Round := .sample [0, POLLIN] 5 6 "GET /metrics HTTP/1.1\r\n\r\n"

/-- It is received, and the response is taken. -/
def Scrapes (s : LoopState) : Prop :=
  0 < s.clients.length ∧ s.isRead (.sample false) .metricsAsked 0 ∧
    ((s.client 0).clientReceive (Round.metricsAsked.io 0).errno (Round.metricsAsked.io 0).reads).1 =
      .success ∧
    (s.client 0).receivedBytes (Round.metricsAsked.io 0).errno (Round.metricsAsked.io 0).reads =
      metricsRequest ∧
    (httpErrorCheck ((s.client 0).request (Round.metricsAsked.io 0))
      (s.db.update Round.metricsAsked.snapshot)).length ≤
        Client.taken (Round.metricsAsked.io 0).sends

instance instDecidableScrapes (s : LoopState) : Decidable (Scrapes s) :=
  inferInstanceAs (Decidable (_ ∧ _))

theorem scraped_sample : ∃ s₀ s, startUp (.sample false) .sample = .next s₀ ∧
    Trace (continues (loopStep (.sample false))) s₀ [.sample [POLLIN] 5 6 ""] s ∧
    ∃ body entries,
      readResponse (s.sentBack (.sample false) .metricsAsked 0) = some (ascii "200", body) ∧
      readMetrics body = some entries ∧ (entries.map Prod.fst).Pairwise (· < ·) ∧
      (∀ e ∈ entries, ∃ g : Group, e.1 ∈ g.names) ∧
      ∀ g : Group, g.names.map (fun name => entries.lookup name) =
        (latest (StartUp.sample.snapshot ::
            readings (.sample false) s₀ [.sample [POLLIN] 5 6 ""] ++
              [Round.metricsAsked.snapshot]) g).elim
          (g.names.map fun _ => none) (List.map some) := by
  obtain ⟨s, ⟨s₀, hs₀, htrace⟩, hp⟩ := exists_running (.sample false) .sample
    [.sample [POLLIN] 5 6 ""] (fun s => decide (Scrapes s)) (by decide +kernel)
  obtain ⟨hi, hr, hreceive, hbytes, htaken⟩ := of_decide_eq_true hp
  exact ⟨s₀, s, hs₀, htrace, scraped hs₀ htrace hi hr rfl hreceive
    (hbytes ▸ requestLine_metricsRequest) (by decide +kernel) htaken⟩

end MetricServer
