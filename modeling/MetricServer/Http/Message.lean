import MetricServer.Base.Split
import MetricServer.Http.Response

/-! Reading a message back from its bytes. The head ends at the first blank line and is cut
into lines; a header line is read by the rule of the request parser. A response is read
as the code of its status line and its body, and `httpErrorCheck` has three of them to
give. -/

namespace MetricServer.Http

open Base

/-! ### Head and body -/

/-- The lines of the head of a message, and its body. -/
def readMessage (msg : Bytes) : Option (List Bytes × Bytes) :=
  (cut msg (ascii "\r\n\r\n")).map fun p => (pieces p.1 (ascii "\r\n"), p.2)

/-- A message is its lines, a blank line and its body. -/
theorem eq_of_readMessage {msg : Bytes} {lines : List Bytes} {body : Bytes}
    (h : readMessage msg = some (lines, body)) :
    msg = lines.flatMap (· ++ ascii "\r\n") ++ ascii "\r\n" ++ body := by
  obtain ⟨⟨head, body'⟩, hcut, heq⟩ := Option.map_eq_some_iff.mp h
  obtain ⟨rfl, rfl⟩ := Prod.mk.inj heq
  have hblank : ascii "\r\n\r\n" = ascii "\r\n" ++ ascii "\r\n" := rfl
  rw [flatMap_pieces (by decide), eq_of_cut hcut, hblank]
  simp [List.append_assoc]

/-- The field name of a header line, and its value two bytes after the colon. -/
def readHeader (line : Bytes) : Bytes × Bytes :=
  (line.take (strcspn line (ascii ":")), line.drop (strcspn line (ascii ":") + 2))

/-- The first line of a message, its header fields and its body. -/
def readFields (msg : Bytes) : Option (Bytes × List (Bytes × Bytes) × Bytes) :=
  (readMessage msg).bind fun p =>
    match p.1 with
    | [] => none
    | first :: headers => some (first, headers.map readHeader, p.2)

/-- The code of a response, after the first space of its status line, and its body. -/
def readResponse (msg : Bytes) : Option (Bytes × Bytes) :=
  (cut msg (ascii "\r\n\r\n")).bind fun p =>
    (cut p.1 (ascii " ")).map fun q => (q.2.take 3, p.2)

/-! ### Responses -/

inductive Status where
  | ok | badRequest | notFound
  deriving DecidableEq

namespace Status

def code : Status → Bytes
  | .ok => ascii "200"
  | .badRequest => ascii "400"
  | .notFound => ascii "404"

/-- The status line, the header fields and the blank line. -/
def head : Status → Bytes
  | .ok =>
    ascii "HTTP/1.1 200 OK\r\nContent-Type : text/plain; version=0.0.4; charset=utf-8\r\n\r\n"
  | .badRequest => ascii "HTTP/1.1 400 Bad Request\r\n\r\n"
  | .notFound => ascii "HTTP/1.1 404 Not Found\r\n\r\n"

theorem code_injective : Function.Injective code := by
  intro s s' h
  cases s <;> cases s' <;> first | rfl | exact absurd h (by decide +kernel)

/-- Any body is read back after the head. -/
theorem readResponse_head (s : Status) (body : Bytes) :
    readResponse (s.head ++ body) = some (s.code, body) := by
  have hhead : readResponse s.head = some (s.code, []) := by cases s <;> decide +kernel
  obtain ⟨⟨front, rest⟩, hcut, hline⟩ := Option.bind_eq_some_iff.mp hhead
  obtain ⟨q, hq, heq⟩ := Option.map_eq_some_iff.mp hline
  obtain ⟨hcode, rfl⟩ := Prod.mk.inj heq
  simp [readResponse, cut_append_right body hcut, hq, hcode]

theorem take_head (s : Status) : s.head.take 12 = ascii "HTTP/1.1 " ++ s.code := by
  cases s <;> rfl

/-- No head begins another one. -/
theorem eq_of_prefix {s s' : Status} {body body' : Bytes}
    (h : s.head ++ body <+: s'.head ++ body') : s = s' := by
  have hlong (s : Status) : 12 ≤ s.head.length := by
    have hcode : s.code.length = 3 := by cases s <;> rfl
    have hversion : (ascii "HTTP/1.1 ").length = 9 := rfl
    have hlen := congrArg List.length s.take_head
    rw [List.length_take, List.length_append, hcode, hversion] at hlen
    omega
  have htake : s.head.take 12 = s'.head.take 12 := by
    obtain ⟨rest, hrest⟩ := h
    have := congrArg (List.take 12) hrest
    rwa [List.append_assoc, List.take_append_of_le_length (hlong s),
      List.take_append_of_le_length (hlong s')] at this
  rw [take_head, take_head] at htake
  exact code_injective (List.append_cancel_left htake)

end Status

namespace HttpRequest

/-- What `httpErrorCheck` makes of a request. -/
def status (r : HttpRequest) : Status :=
  if r.getType ≠ .httpGet then .badRequest
  else if contains r.getMetric "/metrics" ∨ contains r.getMetric "%2Fmetrics" ∨
      contains r.getMetric "/liveness" ∨ contains r.getMetric "%2Fliveness" then .ok
  else .notFound

/-- The metrics text is asked for. -/
def asksMetrics (r : HttpRequest) : Prop :=
  contains r.getMetric "/metrics" ∨ contains r.getMetric "%2Fmetrics"

instance (r : HttpRequest) : Decidable r.asksMetrics := inferInstanceAs (Decidable (_ ∨ _))

def body (r : HttpRequest) (db : MetricDatabase) : Bytes :=
  if r.status = .ok ∧ r.asksMetrics then db.prepareAllMetricsBody else []

theorem body_eq_nil {r : HttpRequest} (h : r.status ≠ .ok) (db : MetricDatabase) :
    r.body db = [] :=
  if_neg fun hok => h hok.1

end HttpRequest

theorem contains_iff (metric : Bytes) (text : String) :
    contains metric text ↔ ascii text <:+: metric := by
  rw [contains, Option.isSome_iff_ne_none, strstr_ne_none_iff]

theorem httpErrorCheck_eq (r : HttpRequest) (db : MetricDatabase) :
    httpErrorCheck r db = r.status.head ++ r.body db := by
  have h400 : (HttpResponse.new.addHeaderField [] (ascii "HTTP/1.1 400 Bad Request"))._msg ++
      ascii "\r\n" = Status.badRequest.head := by decide +kernel
  have h404 : (HttpResponse.new.addHeaderField [] (ascii "HTTP/1.1 404 Not Found"))._msg ++
      ascii "\r\n" = Status.notFound.head := by decide +kernel
  have h200 : ((HttpResponse.new.addHeaderField [] (ascii "HTTP/1.1 200 OK")).addHeaderField
      (ascii "Content-Type") (ascii "text/plain; version=0.0.4; charset=utf-8"))._msg ++
      ascii "\r\n" = Status.ok.head := by decide +kernel
  simp only [httpErrorCheck, HttpResponse.prepareHttpResponse, HttpResponse.addBody, h400, h404,
    h200, HttpRequest.body, HttpRequest.status, HttpRequest.asksMetrics, contains_iff]
  clear h400 h404 h200
  split_ifs <;> simp_all

/-! ### Endpoints -/

def metricsEndpoints : List Bytes := [ascii "/metrics", ascii "%2Fmetrics"]

def livenessEndpoints : List Bytes := [ascii "/liveness", ascii "%2Fliveness"]

theorem asksMetrics_iff (r : HttpRequest) :
    r.asksMetrics ↔ ∃ e ∈ metricsEndpoints, e <:+: r.getMetric := by
  simp [HttpRequest.asksMetrics, contains_iff, metricsEndpoints]

theorem status_of_get {r : HttpRequest} (h : r.getType = .httpGet) :
    r.status = .ok ↔ ∃ e ∈ metricsEndpoints ++ livenessEndpoints, e <:+: r.getMetric := by
  have hfound : (∃ e ∈ metricsEndpoints ++ livenessEndpoints, e <:+: r.getMetric) ↔
      contains r.getMetric "/metrics" ∨ contains r.getMetric "%2Fmetrics" ∨
        contains r.getMetric "/liveness" ∨ contains r.getMetric "%2Fliveness" := by
    simp [contains_iff, metricsEndpoints, livenessEndpoints]
  rw [HttpRequest.status, if_neg (not_not.mpr h), hfound]
  split_ifs with hcontains
  · exact iff_of_true rfl hcontains
  · exact iff_of_false nofun hcontains

theorem status_of_notFound {r : HttpRequest} (h : r.getType = .httpGet) (hok : r.status ≠ .ok) :
    r.status = .notFound := by
  rw [HttpRequest.status] at hok ⊢
  split_ifs at hok ⊢ <;> simp_all

theorem status_of_not_get {r : HttpRequest} (h : r.getType ≠ .httpGet) : r.status = .badRequest :=
  if_pos h

/-- The response depends on the type and on what is found in the metric. -/
theorem httpErrorCheck_eq_of {r r' : HttpRequest} (htype : r.getType = r'.getType)
    (hfound : ∀ e ∈ metricsEndpoints ++ livenessEndpoints,
      (e <:+: r.getMetric ↔ e <:+: r'.getMetric)) (db : MetricDatabase) :
    httpErrorCheck r db = httpErrorCheck r' db := by
  simp only [metricsEndpoints, livenessEndpoints, List.cons_append, List.nil_append,
    List.forall_mem_cons] at hfound
  obtain ⟨h₁, h₂, h₃, h₄, -⟩ := hfound
  simp only [httpErrorCheck, contains_iff, htype, h₁, h₂, h₃, h₄]

end MetricServer.Http
