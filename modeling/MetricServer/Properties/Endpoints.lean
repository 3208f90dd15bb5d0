import MetricServer.Http.Message
import MetricServer.Http.RequestLine

/-! From the bytes of a request to its response. An endpoint is looked for anywhere in the
15 bytes kept of the target, so that a longer name or a path below another one is taken
for it, and the method is compared up to a carriage return. -/

namespace MetricServer.Http

open Base HttpRequest

/-- A complete request whose first line has three parts between single spaces. -/
structure RequestLine (req method target version : Bytes) : Prop where
  complete : ascii "\r\n\r\n" <:+: req
  line : ∃ rest,
    cut req (ascii "\r\n") = some (method ++ ascii " " ++ target ++ ascii " " ++ version, rest)
  nonempty : method ≠ [] ∧ target ≠ [] ∧ version ≠ []
  spaceless : (32 : Byte) ∉ method ∧ (32 : Byte) ∉ target ∧ (32 : Byte) ∉ version
  nul_notMem : (0 : Byte) ∉ req

/-- The target without its query. -/
def endpoint (target : Bytes) : Bytes := target.takeWhile (· ≠ 63)

/-- The code and the body that a method and a target call for. -/
def expected (method target : Bytes) (db : MetricDatabase) : Bytes × Bytes :=
  if method ≠ ascii "GET" then (ascii "400", [])
  else if endpoint target ∈ metricsEndpoints then (ascii "200", db.prepareAllMetricsBody)
  else if endpoint target ∈ livenessEndpoints then (ascii "200", [])
  else (ascii "404", [])

/-- The request gets the response its first line calls for. -/
def Routed (req method target : Bytes) (db : MetricDatabase) : Prop :=
  readResponse (httpErrorCheck (parsedOn zeroed req) db) = some (expected method target db)

/-- What is looked at of a target. -/
def seen (target : Bytes) : Bytes := (beforeCr target).take 15

/-! ### Endpoints in what is seen -/

/-- What is seen of a target begins with its endpoint. -/
theorem seen_eq {target : Bytes} (hcr : (13 : Byte) ∉ endpoint target)
    (hlen : (endpoint target).length ≤ 15) :
    ∃ rest, seen target = endpoint target ++ rest ∧
      rest.length + (endpoint target).length ≤ 15 := by
  have htarget : target = endpoint target ++ target.dropWhile (· ≠ 63) :=
    List.takeWhile_append_dropWhile.symm
  refine ⟨(beforeCr (target.dropWhile (· ≠ 63))).take (15 - (endpoint target).length), ?_, ?_⟩
  · have hcut : beforeCr target = endpoint target ++ beforeCr (target.dropWhile (· ≠ 63)) := by
      nth_rewrite 1 [htarget]
      exact beforeCr_append_of_notMem hcr _
    rw [seen, hcut, List.take_append, List.take_of_length_le hlen]
  · rw [List.length_take]
    omega

/-- A text whose beginning is not in the first part of a string stands nowhere in the string
when it is too long for the rest. -/
theorem not_infix_append {pat q rest : Bytes} (j : ℕ) (hlen : rest.length + j ≤ pat.length)
    (h : ¬ pat.take j <:+: q) : ¬ pat <:+: q ++ rest := by
  rintro ⟨a, b, hab⟩
  have hsum := congrArg List.length hab
  simp only [List.length_append] at hsum
  have hwhole : a ++ pat.take j <+: q ++ rest := by
    rw [← hab, List.append_assoc]
    exact (List.prefix_append_right_inj a).mpr ((List.take_prefix j pat).trans
      (List.prefix_append pat b))
  have hpart : a ++ pat.take j <+: q := by
    refine List.prefix_of_prefix_length_le hwhole (List.prefix_append q rest) ?_
    rw [List.length_append, List.length_take]
    omega
  exact h ((List.suffix_append a (pat.take j)).isInfix.trans hpart.isInfix)

/-- A probe is not taken for a request for metrics. -/
theorem notIn_seen {target : Bytes} (h : endpoint target ∈ livenessEndpoints) :
    ∀ e ∈ metricsEndpoints, ¬ e <:+: seen target := by
  have hfacts : ∀ q ∈ livenessEndpoints, (13 : Byte) ∉ q ∧ q.length ≤ 15 ∧
      ∀ e ∈ metricsEndpoints, (15 - q.length + 2 ≤ e.length ∧ ¬ e.take 2 <:+: q) ∨
        (15 - q.length + 4 ≤ e.length ∧ ¬ e.take 4 <:+: q) := by
    decide +kernel
  obtain ⟨hcr, hlen, hshort⟩ := hfacts _ h
  intro e he
  obtain ⟨rest, hseen, hrest⟩ := seen_eq hcr hlen
  rw [hseen]
  obtain ⟨hpat, hnot⟩ | ⟨hpat, hnot⟩ := hshort e he
  · exact not_infix_append 2 (by omega) hnot
  · exact not_infix_append 4 (by omega) hnot

/-- An endpoint is found in what is seen of its target. -/
theorem infix_seen {target : Bytes}
    (h : endpoint target ∈ metricsEndpoints ++ livenessEndpoints) :
    endpoint target <:+: seen target := by
  have hfacts : ∀ q ∈ metricsEndpoints ++ livenessEndpoints, (13 : Byte) ∉ q ∧ q.length ≤ 15 := by
    decide +kernel
  obtain ⟨hcr, hlen⟩ := hfacts _ h
  obtain ⟨rest, hseen, -⟩ := seen_eq hcr hlen
  rw [hseen]
  exact (List.prefix_append _ _).isInfix

/-! ### Routing -/

section Line
variable {req method target version : Bytes}

theorem RequestLine.eq (h : RequestLine req method target version) :
    ∃ rest, req = method ++ 32 :: (target ++ 32 :: rest) := by
  obtain ⟨rest, hline⟩ := h.line
  refine ⟨version ++ ascii "\r\n" ++ rest, ?_⟩
  rw [eq_of_cut hline]
  simp [ascii]

theorem RequestLine.getMetric_of_get (h : RequestLine req (ascii "GET") target version) :
    (parsedOn zeroed req).getMetric = seen target := by
  obtain ⟨lastLine, hlast⟩ := exists_strstr h.complete
  obtain ⟨rest, hline⟩ := h.eq
  rw [getMetric_zeroed hlast,
    metricToken_eq h.nul_notMem h.nonempty.2.1 h.spaceless.2.1 hline, seen]
  split_ifs with hnil
  · rw [hnil]
    rfl
  · rw [Option.getD_some, List.take_take]
    rfl

theorem RequestLine.getMetric_of_mem (h : RequestLine req method target version)
    (hcr : (13 : Byte) ∈ method) : (parsedOn zeroed req).getMetric = [] := by
  obtain ⟨lastLine, hlast⟩ := exists_strstr h.complete
  obtain ⟨rest, hline⟩ := h.eq
  rw [getMetric_zeroed hlast, metricToken_of_mem h.nul_notMem h.nonempty.1 h.spaceless.1 hcr hline]
  rfl

theorem RequestLine.getType_iff (h : RequestLine req method target version) :
    (parsedOn zeroed req).getType = .httpGet ↔ beforeCr method = ascii "GET" := by
  obtain ⟨lastLine, hlast⟩ := exists_strstr h.complete
  obtain ⟨rest, hline⟩ := h.eq
  exact getType_parsedOn_iff hlast h.nul_notMem h.nonempty.1 h.spaceless.1 hline zeroed

/-- To read an endpoint, its own response; else what is found in the target decides. -/
theorem RequestLine.routed_get_iff (h : RequestLine req (ascii "GET") target version)
    (db : MetricDatabase) :
    Routed req (ascii "GET") target db ↔
      endpoint target ∈ metricsEndpoints ++ livenessEndpoints ∨
        ∀ e ∈ metricsEndpoints ++ livenessEndpoints, ¬ e <:+: seen target := by
  have htype : (parsedOn zeroed req).getType = .httpGet := h.getType_iff.mpr (by decide)
  have hok := status_of_get htype
  have hasks := asksMetrics_iff (parsedOn zeroed req)
  rw [h.getMetric_of_get] at hok hasks
  rw [Routed, httpErrorCheck_eq, Status.readResponse_head, Option.some.injEq, expected,
    if_neg (not_not.mpr rfl)]
  by_cases hmetrics : endpoint target ∈ metricsEndpoints
  · have hmem := List.mem_append_left livenessEndpoints hmetrics
    have hseen := infix_seen hmem
    rw [if_pos hmetrics, body, if_pos ⟨hok.mpr ⟨_, hmem, hseen⟩, hasks.mpr ⟨_, hmetrics, hseen⟩⟩,
      hok.mpr ⟨_, hmem, hseen⟩]
    exact iff_of_true rfl (.inl hmem)
  by_cases hliveness : endpoint target ∈ livenessEndpoints
  · have hmem := List.mem_append_right metricsEndpoints hliveness
    have hnot : ¬ (parsedOn zeroed req).asksMetrics := by
      rw [hasks]
      rintro ⟨e, he, hinfix⟩
      exact notIn_seen hliveness e he hinfix
    rw [if_neg hmetrics, if_pos hliveness, body, if_neg fun hbody => hnot hbody.2,
      hok.mpr ⟨_, hmem, infix_seen hmem⟩]
    exact iff_of_true rfl (.inl hmem)
  · have hmem : endpoint target ∉ metricsEndpoints ++ livenessEndpoints :=
      fun hmem => (List.mem_append.mp hmem).elim hmetrics hliveness
    rw [if_neg hmetrics, if_neg hliveness, or_iff_right hmem]
    by_cases hfound : ∃ e ∈ metricsEndpoints ++ livenessEndpoints, e <:+: seen target
    · rw [hok.mpr hfound]
      refine iff_of_false (fun heq => ?_) fun hall => ?_
      · exact absurd (congrArg Prod.fst heq) (show ascii "200" ≠ ascii "404" by decide)
      · obtain ⟨e, he, hinfix⟩ := hfound
        exact hall e he hinfix
    · have hnot := status_of_notFound htype fun h => hfound (hok.mp h)
      rw [body_eq_nil (by simp [hnot]), hnot]
      exact iff_of_true rfl fun e he hinfix => hfound ⟨e, he, hinfix⟩

/-- Another method is refused unless it is taken for the one that reads. -/
theorem RequestLine.routed_iff_of_ne (h : RequestLine req method target version)
    (hget : method ≠ ascii "GET") (db : MetricDatabase) :
    Routed req method target db ↔ beforeCr method ≠ ascii "GET" := by
  have htype := h.getType_iff
  rw [Routed, httpErrorCheck_eq, Status.readResponse_head, Option.some.injEq, expected, if_pos hget]
  by_cases hbefore : beforeCr method = ascii "GET"
  · have hcr : (13 : Byte) ∈ method := by
      by_contra hcr
      exact hget ((beforeCr_of_notMem hcr).symm.trans hbefore)
    have hnot : (parsedOn zeroed req).status = .notFound := by
      refine status_of_notFound (htype.mpr hbefore) fun hok => ?_
      have hfound := (status_of_get (htype.mpr hbefore)).mp hok
      rw [h.getMetric_of_mem hcr] at hfound
      exact absurd hfound (by decide)
    rw [hnot]
    refine iff_of_false (fun heq => ?_) (not_not.mpr hbefore)
    exact absurd (congrArg Prod.fst heq) (show ascii "404" ≠ ascii "400" by decide)
  · have hbad := status_of_not_get fun hr => hbefore (htype.mp hr)
    rw [body_eq_nil (by simp [hbad]), hbad]
    exact iff_of_true rfl hbefore

/-- A request gets the response that its line calls for exactly when its method is not only
begun by `GET` and, for that method, its target is an endpoint or none is found in it. -/
theorem routed_iff (h : RequestLine req method target version) (db : MetricDatabase) :
    Routed req method target db ↔
      (beforeCr method = ascii "GET" → method = ascii "GET") ∧
        (method = ascii "GET" →
          endpoint target ∈ metricsEndpoints ++ livenessEndpoints ∨
            ∀ e ∈ metricsEndpoints ++ livenessEndpoints, ¬ e <:+: seen target) := by
  by_cases hget : method = ascii "GET"
  · subst hget
    rw [h.routed_get_iff]
    exact ⟨fun hcome => ⟨fun _ => rfl, fun _ => hcome⟩, fun hcome => hcome.2 rfl⟩
  · rw [h.routed_iff_of_ne hget]
    exact ⟨fun hcome => ⟨fun hbefore => absurd hbefore hcome, fun heq => absurd heq hget⟩,
      fun hcome hbefore => hget (hcome.1 hbefore)⟩

end Line

/-- A target that is longer than an endpoint. -/
def longerTarget : Bytes := ascii "GET /metricsfoo HTTP/1.1\r\n\r\n"

theorem requestLine_longerTarget :
    RequestLine longerTarget (ascii "GET") (ascii "/metricsfoo") (ascii "HTTP/1.1") := by
  refine ⟨?_, ⟨ascii "\r\n", ?_⟩, ?_, ?_, ?_⟩ <;> decide +kernel

theorem routed_iff_longerTarget :
    Routed longerTarget (ascii "GET") (ascii "/metricsfoo") .new ↔
      (beforeCr (ascii "GET") = ascii "GET" → ascii "GET" = ascii "GET") ∧
        (ascii "GET" = ascii "GET" →
          endpoint (ascii "/metricsfoo") ∈ metricsEndpoints ++ livenessEndpoints ∨
            ∀ e ∈ metricsEndpoints ++ livenessEndpoints, ¬ e <:+: seen (ascii "/metricsfoo")) :=
  routed_iff requestLine_longerTarget .new

/-- It is answered with the metrics. -/
theorem not_routed_longerTarget :
    ¬ ∀ (req method target version : Bytes) (db : MetricDatabase),
      RequestLine req method target version → Routed req method target db := by
  intro h
  have hrouted := h _ _ _ _ .new requestLine_longerTarget
  exact absurd hrouted (by unfold Routed; decide +kernel)

end MetricServer.Http
