import MetricServer.Http.FirstLine
import MetricServer.Http.Message
import MetricServer.Properties.Endpoints

/-! What is lost of a first line that is cut off twice, after 63 bytes and its second part
after 15 more. Where the parts stand between single spaces the method and the beginning
of the target are never cut. Elsewhere leading spaces can push the method out of what is
looked at, a longer word can be cut down to `GET`, and the endpoint that decides where a
request is routed can stand beyond what is kept of the target. -/

namespace MetricServer.Http

open Base HttpRequest

variable {req m t v l rest : Bytes} {code : HttpTypes} {db : MetricDatabase}

/-! ### Parts between single spaces -/

/-- The methods that have a code. -/
def methods : List (Bytes × HttpTypes) :=
  [(ascii "GET", .httpGet), (ascii "HEAD", .httpHead), (ascii "POST", .httpPost),
    (ascii "PUT", .httpPut), (ascii "DELETE", .httpDelete), (ascii "PATCH", .httpPatch)]

theorem methods_spec : ∀ p ∈ methods, typeOf p.1 = p.2 ∧ p.1.length ≤ 6 ∧ (13 : Byte) ∉ p.1 := by
  decide +kernel

/-- A line with its parts between single spaces. -/
theorem parts_of_spaced (hm : m ≠ []) (hm' : (32 : Byte) ∉ m) (ht : t ≠ [])
    (ht' : (32 : Byte) ∉ t) :
    method (m ++ ascii " " ++ t ++ ascii " " ++ v) = m ∧
      target (m ++ ascii " " ++ t ++ ascii " " ++ v) = t ∧
      lead (m ++ ascii " " ++ t ++ ascii " " ++ v) (ascii " ") = 0 ∧
      place (m ++ ascii " " ++ t ++ ascii " " ++ v) = m.length + 1 := by
  have hspace : (32 : Byte) ∈ ascii " " := by decide
  have hline : m ++ ascii " " ++ t ++ ascii " " ++ v = m ++ 32 :: (t ++ 32 :: v) := by
    simp [ascii]
  have hclean {a : Bytes} (ha : (32 : Byte) ∉ a) : ∀ y ∈ a, y ∉ ascii " " :=
    fun y hy => by simpa [ascii] using ne_of_mem_of_not_mem hy ha
  obtain ⟨hlead, htoken, hafter⟩ := token_append hm (hclean hm') hspace (t ++ 32 :: v)
  obtain ⟨hlead', htoken', -⟩ := token_append ht (hclean ht') hspace v
  -- the space after the method stands in front of the target
  have hsecond : token (32 :: (t ++ 32 :: v)) (ascii " ") = t ∧
      lead (32 :: (t ++ 32 :: v)) (ascii " ") = 1 := by
    constructor
    · rw [token, List.dropWhile_cons_of_pos (by decide)]
      exact htoken'
    · rw [lead, List.takeWhile_cons_of_pos (by decide), List.length_cons]
      exact congrArg (· + 1) hlead'
  rw [hline]
  refine ⟨htoken, ?_, hlead, ?_⟩
  · rw [target, hafter]
    exact hsecond.1
  · rw [place, method, hlead, htoken, hafter, hsecond.2, Nat.zero_add]

/-- A line that begins with a method and a target is looked at beyond fifteen bytes of the
target, or beyond all of it. -/
theorem le_looked (hm : m.length ≤ 6) (hm' : (13 : Byte) ∉ m) (ht : (13 : Byte) ∉ t) :
    m.length + 1 + min 15 t.length ≤ looked (m ++ ascii " " ++ t ++ ascii " " ++ v) := by
  have hcr : (13 : Byte) ∉ m ++ ascii " " ++ t := by
    simp only [List.mem_append, not_or]
    exact ⟨⟨hm', by decide⟩, ht⟩
  have hspace : (ascii " ").length = 1 := rfl
  rw [looked, List.append_assoc _ (ascii " ") v, beforeCr_append_of_notMem hcr]
  simp only [List.length_append, hspace]
  omega

/-- Of a line with its parts between single spaces the code of the method is found and fifteen
bytes of the target are kept. -/
theorem extracted (h : RequestLine req m t v) (hm : (m, code) ∈ methods) (ht : (13 : Byte) ∉ t) :
    ((new zeroed).parse req).1 = .success ∧ (parsedOn zeroed req).getType = code ∧
      (parsedOn zeroed req).getMetric = t.take (min 15 t.length) := by
  obtain ⟨rest, hcut⟩ := h.line
  obtain ⟨lastLine, hlast⟩ := exists_strstr h.complete
  obtain ⟨htype, hlen, hcr⟩ : typeOf m = code ∧ m.length ≤ 6 ∧ (13 : Byte) ∉ m :=
    methods_spec _ hm
  obtain ⟨hmethod, htarget, hlead, hplace⟩ :=
    parts_of_spaced (v := v) h.nonempty.1 h.spaceless.1 h.nonempty.2.1 h.spaceless.2.1
  have hlooked := le_looked (v := v) hlen hcr ht
  refine ⟨by simp only [parse, hlast], ?_, ?_⟩
  · rw [getType_eq h.nul_notMem h.complete hcut, hmethod, hlead, List.take_of_length_le (by
      omega)]
    exact htype
  · rw [getMetric_zeroed_eq h.nul_notMem h.complete hcut, htarget, hplace]
    by_cases hshort : t.length ≤ 15
    · rw [List.take_of_length_le (show t.length ≤ _ by omega),
        List.take_of_length_le (show t.length ≤ _ by omega)]
    · congr 1
      omega

/-- A target that is longer than what is kept of it. -/
def longTarget : Bytes := ascii "HEAD /metrics/of/another/server HTTP/1.1\r\nHost: a\r\n\r\n"

theorem extracted_longTarget :
    ((new zeroed).parse longTarget).1 = .success ∧
      (parsedOn zeroed longTarget).getType = .httpHead ∧
      (parsedOn zeroed longTarget).getMetric =
        (ascii "/metrics/of/another/server").take
          (min 15 (ascii "/metrics/of/another/server").length) := by
  have hline : RequestLine longTarget (ascii "HEAD") (ascii "/metrics/of/another/server")
      (ascii "HTTP/1.1") := by
    refine ⟨?_, ⟨ascii "Host: a\r\n\r\n", ?_⟩, ?_, ?_, ?_⟩ <;> decide +kernel
  exact extracted hline (by decide +kernel) (by decide +kernel)

/-! ### Branches -/

/-- The branches of `httpErrorCheck` for a request to read. -/
inductive Branch where
  | notFound | metrics | liveness
  deriving DecidableEq

/-- The tests of `httpErrorCheck` on a metric. -/
def branch (metric : Bytes) : Branch :=
  if ¬ (contains metric "/metrics" ∨ contains metric "%2Fmetrics") ∧
      ¬ (contains metric "/liveness" ∨ contains metric "%2Fliveness") then .notFound
  else if contains metric "/metrics" ∨ contains metric "%2Fmetrics" then .metrics
  else .liveness

/-- What a branch answers. -/
def Branch.response (db : MetricDatabase) : Branch → Bytes
  | .notFound => Status.notFound.head
  | .metrics => Status.ok.head ++ db.prepareAllMetricsBody
  | .liveness => Status.ok.head

theorem httpErrorCheck_of_get {r : HttpRequest} (h : r.getType = .httpGet) (db : MetricDatabase) :
    httpErrorCheck r db = (branch r.getMetric).response db := by
  simp only [httpErrorCheck_eq, branch, HttpRequest.body, HttpRequest.status, asksMetrics, h,
    ne_eq, not_true_eq_false, if_false, ← or_assoc]
  by_cases hm : contains r.getMetric "/metrics" ∨ contains r.getMetric "%2Fmetrics"
  · simp [hm, Branch.response]
  · by_cases hl : contains r.getMetric "/liveness" ∨ contains r.getMetric "%2Fliveness"
    · simp [hm, hl, Branch.response]
    · simp [hm, hl, Branch.response]

/-- One of the endpoints stands somewhere in a text. -/
def Has (endpoints : List Bytes) (s : Bytes) : Prop := ∃ e ∈ endpoints, e <:+: s

theorem Has.of_prefix {endpoints : List Bytes} {s s' : Bytes} (h : Has endpoints s)
    (hs : s <+: s') : Has endpoints s' := by
  obtain ⟨e, he, hinfix⟩ := h
  exact ⟨e, he, hinfix.trans hs.isInfix⟩

theorem branch_eq (s : Bytes) [Decidable (Has metricsEndpoints s)]
    [Decidable (Has livenessEndpoints s)] :
    branch s =
      if Has metricsEndpoints s then .metrics
      else if Has livenessEndpoints s then .liveness else .notFound := by
  have hmetrics : contains s "/metrics" ∨ contains s "%2Fmetrics" ↔ Has metricsEndpoints s := by
    simp [Has, contains_iff, metricsEndpoints]
  have hliveness : contains s "/liveness" ∨ contains s "%2Fliveness" ↔
      Has livenessEndpoints s := by
    simp [Has, contains_iff, livenessEndpoints]
  rw [branch]
  simp only [hmetrics, hliveness]
  split_ifs <;> simp_all

/-- The beginning of a text is routed as the text when the endpoint that decides is in it. -/
theorem branch_eq_iff {s s' : Bytes} (h : s <+: s') :
    branch s = branch s' ↔
      (Has metricsEndpoints s' → Has metricsEndpoints s) ∧
        (¬ Has metricsEndpoints s' → Has livenessEndpoints s' → Has livenessEndpoints s) := by
  classical
  have hmetrics (hs : Has metricsEndpoints s) : Has metricsEndpoints s' := hs.of_prefix h
  have hliveness (hs : Has livenessEndpoints s) : Has livenessEndpoints s' := hs.of_prefix h
  rw [branch_eq, branch_eq]
  split_ifs <;> simp_all

/-! ### Any spacing -/

/-- Cutting the first line off does not change what becomes of the request: its method is
taken for `GET` when it is, and then the branch is that of the complete target. -/
def RoutesAlike (req l : Bytes) : Prop :=
  ((parsedOn zeroed req).getType = .httpGet ↔ method l = ascii "GET") ∧
    (method l = ascii "GET" →
      branch (parsedOn zeroed req).getMetric = branch (target l))

/-- `GET` begins in the first sixty bytes of the line, and a longer word is not cut down to
it. -/
def MethodKept (l : Bytes) : Prop :=
  (method l = ascii "GET" → lead l (ascii " ") ≤ 60) ∧
    ¬ (ascii "GET" <+: method l ∧ method l ≠ ascii "GET" ∧ looked l = lead l (ascii " ") + 3)

/-- What is kept of the target of a line: fifteen bytes, of those that are looked at. -/
def kept (l : Bytes) : Bytes := (target l).take (min 15 (looked l - place l))

/-- The endpoint that decides about the target is in what is kept of it: one for the metrics
if there is one in the target, else one for the probe. -/
def TargetKept (l : Bytes) : Prop :=
  (Has metricsEndpoints (target l) → Has metricsEndpoints (kept l)) ∧
    (¬ Has metricsEndpoints (target l) → Has livenessEndpoints (target l) →
      Has livenessEndpoints (kept l))

/-- A line whose first part is `GET` goes on at least to its end. -/
theorem le_looked_of_get (hget : method l = ascii "GET") (hlead : lead l (ascii " ") ≤ 60) :
    lead l (ascii " ") + 3 ≤ looked l := by
  obtain ⟨front, hlen, hfront, heq⟩ := eq_append_token l (ascii " ")
  have hcr : (13 : Byte) ∉ front ++ ascii "GET" := by
    rw [List.mem_append, not_or]
    exact ⟨fun h => absurd (hfront 13 h) (by decide), by decide⟩
  have hthree : (ascii "GET").length = 3 := rfl
  have hbefore : beforeCr l = front ++ ascii "GET" ++ beforeCr (afterToken l (ascii " ")) := by
    nth_rewrite 1 [heq]
    rw [← method, hget, ← List.append_assoc, beforeCr_append_of_notMem hcr]
  rw [looked, hbefore, List.length_append, List.length_append, hlen, hthree]
  omega

theorem methodKept_iff (l : Bytes) :
    ((method l).take (looked l - lead l (ascii " ")) = ascii "GET" ↔ method l = ascii "GET") ↔
      MethodKept l := by
  have hthree : (ascii "GET").length = 3 := rfl
  have hlooked : looked l ≤ 63 := Nat.min_le_left _ _
  constructor
  · refine fun h => ⟨fun hget => ?_, fun ⟨hpre, hne, hcut⟩ => hne (h.mp ?_)⟩
    · have hlen := congrArg List.length (h.mpr hget)
      rw [List.length_take, hthree] at hlen
      omega
    · rw [hcut, Nat.add_sub_cancel_left, ← hthree]
      exact (List.prefix_iff_eq_take.mp hpre).symm
  · rintro ⟨hlead, hcut⟩
    constructor
    · intro htake
      by_contra hne
      have hpre : ascii "GET" <+: method l := htake ▸ List.take_prefix _ _
      refine hcut ⟨hpre, hne, ?_⟩
      -- the word is longer, so that it is cut after three bytes
      have hlong : 3 < (method l).length := by
        by_contra hle
        exact hne (hpre.eq_of_length (by have := hpre.length_le; omega)).symm
      have hlen := congrArg List.length htake
      rw [List.length_take, hthree] at hlen
      omega
    · intro hget
      have := le_looked_of_get hget (hlead hget)
      rw [hget, List.take_of_length_le (by omega)]

/-- A request to read that is routed alike is answered as its complete target says. -/
theorem RoutesAlike.response (h : RoutesAlike req l) (hget : method l = ascii "GET")
    (db : MetricDatabase) :
    httpErrorCheck (parsedOn zeroed req) db = (branch (target l)).response db := by
  rw [httpErrorCheck_of_get (h.1.mpr hget), h.2 hget]

/-- A request is routed as its complete first line says exactly when the method is not cut, and
that of a request to read the endpoint that decides is kept; and then the latter is answered as its
complete target says. -/
theorem routesAlike_iff (hreq : (0 : Byte) ∉ req) (hblank : ascii "\r\n\r\n" <:+: req)
    (hcut : cut req (ascii "\r\n") = some (l, rest)) :
    (RoutesAlike req l ↔ MethodKept l ∧ (method l = ascii "GET" → TargetKept l)) ∧
      (MethodKept l → method l = ascii "GET" → TargetKept l → ∀ db,
        httpErrorCheck (parsedOn zeroed req) db = (branch (target l)).response db) := by
  have hroutes : RoutesAlike req l ↔ MethodKept l ∧ (method l = ascii "GET" → TargetKept l) := by
    rw [RoutesAlike, getType_eq hreq hblank hcut, typeOf_eq_get_iff, methodKept_iff,
      getMetric_zeroed_eq hreq hblank hcut, branch_eq_iff (List.take_prefix _ _)]
    rfl
  refine ⟨hroutes, fun hmethod hget htarget db => ?_⟩
  exact (hroutes.mpr ⟨hmethod, fun _ => htarget⟩).response hget db

/-- A probe with spaces before and between its parts. -/
def spacedProbe : Bytes := ascii "  GET   /liveness HTTP/1.1\r\n\r\n"

theorem routesAlike_iff_spacedProbe :
    (RoutesAlike spacedProbe (ascii "  GET   /liveness HTTP/1.1") ↔
      MethodKept (ascii "  GET   /liveness HTTP/1.1") ∧
        (method (ascii "  GET   /liveness HTTP/1.1") = ascii "GET" →
          TargetKept (ascii "  GET   /liveness HTTP/1.1"))) ∧
      (MethodKept (ascii "  GET   /liveness HTTP/1.1") →
        method (ascii "  GET   /liveness HTTP/1.1") = ascii "GET" →
        TargetKept (ascii "  GET   /liveness HTTP/1.1") → ∀ db,
          httpErrorCheck (parsedOn zeroed spacedProbe) db =
            (branch (target (ascii "  GET   /liveness HTTP/1.1"))).response db) :=
  routesAlike_iff (by decide +kernel) (by decide +kernel)
    (show cut spacedProbe (ascii "\r\n") =
      some (ascii "  GET   /liveness HTTP/1.1", ascii "\r\n") by decide +kernel)

/-- A target with the name of the server in front is not found. -/
theorem not_routesAlike_absolute :
    ¬ ∀ req l rest : Bytes, (0 : Byte) ∉ req → ascii "\r\n\r\n" <:+: req →
      cut req (ascii "\r\n") = some (l, rest) → RoutesAlike req l := by
  intro h
  have hroutes := h (ascii "GET http://example.com/metrics HTTP/1.1\r\n\r\n")
    (ascii "GET http://example.com/metrics HTTP/1.1") (ascii "\r\n") (by decide +kernel)
    (by decide +kernel) (by decide +kernel)
  exact absurd (hroutes.2 (by decide +kernel)) (by decide +kernel)

end MetricServer.Http
