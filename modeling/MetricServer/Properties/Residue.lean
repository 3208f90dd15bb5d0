import MetricServer.Http.Fields

/-! What a parsed request owes to the memory its object was built in. The constructor
writes three of its bytes, and the parser ends a copied metric only when it is short
and a copied connection always at its eleventh byte: a long metric and a connection
of one to nine bytes let bytes of an earlier request through. -/

namespace MetricServer.Http.HttpRequest

open Base

variable {req : Bytes}

/-- Two objects that were built on different memory and have parsed one request show the
same, each within its own arrays. -/
structure Independent (req : Bytes) (memory memory' : HttpRequest) : Prop where
  type : (parsedOn memory req).getType = (parsedOn memory' req).getType
  metric : (parsedOn memory req).getMetric = (parsedOn memory' req).getMetric
  connection : (parsedOn memory req).getConnection = (parsedOn memory' req).getConnection
  metric_ends : Terminated (parsedOn memory req)._metric ∧ Terminated (parsedOn memory' req)._metric
  connection_ends :
    Terminated (parsedOn memory req)._connection ∧ Terminated (parsedOn memory' req)._connection
  response :
    ∀ db, httpErrorCheck (parsedOn memory req) db = httpErrorCheck (parsedOn memory' req) db
  keepAlive : (parsedOn memory req).getConnection = ascii "keep-alive" ↔
    (parsedOn memory' req).getConnection = ascii "keep-alive"

/-- The second token of the first line leaves room for its terminator in 15 bytes. -/
def MetricFits (req : Bytes) : Prop := ∀ b, metricToken req = some b → b.length ≤ 14

/-- The line for the connection is not one of 13 to 21 bytes: there are none, one or more
than ten after its colon. -/
def ConnectionFits (req : Bytes) : Prop :=
  ∀ lastLine st, strstr req (ascii "\r\n\r\n") = some lastLine →
    ConnectionAt req lastLine (strcspn req (ascii "\r") + 2) st →
    ¬ (13 ≤ numChars req st ∧ numChars req st ≤ 21)

theorem httpErrorCheck_congr {r r' : HttpRequest} (htype : r.getType = r'.getType)
    (hmetric : r.getMetric = r'.getMetric) (db : MetricDatabase) :
    httpErrorCheck r db = httpErrorCheck r' db := by
  simp only [httpErrorCheck, htype, hmetric]

/-! ### What fits does not depend on the memory -/

theorem parsedOn_metric {lastLine : ℕ} (hlast : strstr req (ascii "\r\n\r\n") = some lastLine)
    (hfits : MetricFits req) :
    ∃ b, ∀ memory, ∃ rest, (parsedOn memory req)._metric.1 = b ++ 0 :: rest := by
  refine ⟨(metricToken req).getD [], fun memory => ?_⟩
  rw [parsedOn, (parse_fields hlast _).2]
  cases htoken : metricToken req with
  | none => exact new_metric memory
  | some b =>
    have hlen := hfits b htoken
    exact strncpy_of_lt (new memory)._metric (by omega) (by omega)

theorem parsedOn_connection {lastLine : ℕ} (hreq : (0 : Byte) ∉ req)
    (hlast : strstr req (ascii "\r\n\r\n") = some lastLine) (hfits : ConnectionFits req) :
    ∃ b, ∀ memory, (parsedOn memory req).getConnection = b := by
  by_cases hat : ∃ st, ConnectionAt req lastLine (strcspn req (ascii "\r") + 2) st
  · obtain ⟨st, hat⟩ := hat
    have hget := getConnection_parsedOn hreq hlast hat
    obtain ⟨hlt, hfield⟩ := hat.found
    obtain ⟨-, hzero⟩ | ⟨h₁, h₂, -⟩ | ⟨-, hten⟩ :=
      copyLength_of_le (connection_line hreq hlast hlt hfield).2.1
    · refine ⟨[], fun memory => ?_⟩
      obtain ⟨rest, hrest⟩ := new_connection memory
      rw [hget, strncpy_of_le _ _ (hzero.trans_le (Nat.zero_le _)), hzero, hrest]
      rfl
    · exact absurd ⟨h₁, h₂⟩ (hfits _ _ hlast hat)
    · exact ⟨_, fun memory => (hget memory).trans
        (congrArg cstr (take_strncpy _ (zeros Byte 16) _ _ hten))⟩
  · exact ⟨[], getConnection_of_none hlast (not_exists.mp hat)⟩

theorem terminated_connection {lastLine : ℕ}
    (hlast : strstr req (ascii "\r\n\r\n") = some lastLine) (memory : HttpRequest) :
    Terminated (parsedOn memory req)._connection := by
  obtain ⟨st, -, hst⟩ | ⟨-, hnone⟩ := parse_connection hlast
  · rw [parsedOn, hst]
    exact terminated_setNul _ (by omega)
  · rw [parsedOn, hnone]
    exact terminated_setNul _ (by omega)

/-! ### What does not fit depends on the memory -/

/-- Memory without a terminator in it. -/
def filled : HttpRequest := ⟨.httpNa, List.Vector.replicate 16 1, List.Vector.replicate 16 1⟩

theorem metric_not_terminated {lastLine : ℕ} {b : Bytes}
    (hlast : strstr req (ascii "\r\n\r\n") = some lastLine) (htoken : metricToken req = some b)
    (hlen : 15 ≤ b.length) : ¬ Terminated (parsedOn filled req)._metric := by
  have hmin : min (b.length + 1) 15 = 15 := by omega
  rw [Terminated, parsedOn, (parse_fields hlast _).2, htoken]
  simp only [Option.map_some, Option.getD_some, copyMetric, hmin]
  rw [strncpy_of_le _ _ hlen, List.mem_append]
  rintro (hmem | hmem)
  · exact zero_notMem_metricToken htoken (List.mem_of_mem_take hmem)
  · exact absurd hmem (by decide)

theorem connection_ne {lastLine st : ℕ} (hreq : (0 : Byte) ∉ req)
    (hlast : strstr req (ascii "\r\n\r\n") = some lastLine)
    (hat : ConnectionAt req lastLine (strcspn req (ascii "\r") + 2) st)
    (hlen : 13 ≤ numChars req st ∧ numChars req st ≤ 21) :
    (parsedOn filled req).getConnection ≠
      (parsedOn ⟨.httpNa, zeros Byte 16, zeros Byte 16⟩ req).getConnection := by
  obtain ⟨hlt, hfield⟩ := hat.found
  obtain ⟨-, h11, hle⟩ := connection_line hreq hlast hlt hfield
  obtain ⟨j, hj, hj8⟩ : ∃ j, copyLength (numChars req st) = j + 1 ∧ j ≤ 8 := by
    refine ⟨numChars req st - 13, ?_⟩
    obtain h | h | h := copyLength_of_le h11 <;> omega
  have hsrc : j + 1 ≤ (req.drop (st + 12)).length := by
    have := copyLength_of_le h11
    rw [List.length_drop] at hle ⊢
    omega
  have hzero : (0 : Byte) ∉ (req.drop (st + 12)).take (j + 1) := fun h =>
    hreq (List.mem_of_mem_drop (List.mem_of_mem_take h))
  rw [getConnection_parsedOn hreq hlast hat, getConnection_parsedOn hreq hlast hat,
    strncpy_of_le _ _ (hj ▸ hsrc), strncpy_of_le _ _ (hj ▸ hsrc), hj]
  -- the bytes copied are followed by those of the memory, up to the terminator at ten
  have htake (a : List.Vector Byte 16) (x : Byte) (ha : a.1 = 0 :: List.replicate 15 x) :
      ((req.drop (st + 12)).take (j + 1) ++ a.1.drop (j + 1)).take 10 =
        (req.drop (st + 12)).take (j + 1) ++ x :: List.replicate (8 - j) x := by
    have hmin : min (10 - (j + 1)) (15 - j) = 8 - j + 1 := by omega
    rw [List.take_append, List.length_take_of_le hsrc, ha, List.drop_succ_cons, List.drop_replicate,
      List.take_replicate, hmin, List.replicate_succ, List.take_take, Nat.min_eq_right (by omega)]
  rw [htake (new filled)._connection 1 rfl,
    htake (new ⟨.httpNa, zeros Byte 16, zeros Byte 16⟩)._connection 0 rfl, cstr_append_zero,
    cstr_eq_self hzero, cstr_eq_self]
  · exact fun h => absurd (congrArg List.length h) (by simp)
  · simp [hzero]

/-- A request without a terminator in it that is parsed owes nothing to the memory exactly
when its metric and its connection fit. -/
theorem independent_iff (hreq : (0 : Byte) ∉ req) (hblank : ascii "\r\n\r\n" <:+: req) :
    (∀ memory memory', Independent req memory memory') ↔ MetricFits req ∧ ConnectionFits req := by
  obtain ⟨lastLine, hlast⟩ := exists_strstr hblank
  constructor
  · intro h
    refine ⟨fun b htoken => ?_, fun lastLine st hlast hst hlen => ?_⟩
    · by_contra hlen
      exact metric_not_terminated hlast htoken (by omega) (h filled filled).metric_ends.1
    · exact connection_ne hreq hlast hst hlen (h _ _).connection
  · rintro ⟨hmetric, hconnection⟩ memory memory'
    obtain ⟨b, hb⟩ := parsedOn_metric hlast hmetric
    have hends (memory : HttpRequest) : Terminated (parsedOn memory req)._metric := by
      obtain ⟨rest, hrest⟩ := hb memory
      rw [Terminated, hrest]
      simp
    have hget (memory : HttpRequest) : (parsedOn memory req).getMetric = cstr b := by
      obtain ⟨rest, hrest⟩ := hb memory
      rw [getMetric, cstr_append_of_mem _ (hends memory), hrest, cstr_append_zero]
    have htype : (parsedOn memory req).getType = (parsedOn memory' req).getType :=
      (parse_fields hlast _).1.trans (parse_fields hlast (new memory')).1.symm
    have hmetric := (hget memory).trans (hget memory').symm
    obtain ⟨b', hb'⟩ := parsedOn_connection hreq hlast hconnection
    have hconnection := (hb' memory).trans (hb' memory').symm
    exact ⟨htype, hmetric, hconnection, ⟨hends _, hends _⟩,
      ⟨terminated_connection hlast _, terminated_connection hlast _⟩,
      httpErrorCheck_congr htype hmetric, by rw [hconnection]⟩

/-- The request of a metrics collector, which keeps its connection. -/
def collecting : Bytes := ascii "GET /metrics HTTP/1.1\r\nConnection: keep-alive\r\n\r\n"

theorem independent_iff_sample :
    (MetricFits collecting ∧ ConnectionFits collecting) ∧
      (∃ lastLine st, ConnectionAt collecting lastLine (strcspn collecting (ascii "\r") + 2) st) ∧
      ∀ memory memory', Independent collecting memory memory' := by
  have hmetric : MetricFits collecting := fun b hb => by
    have htoken : metricToken collecting = some (ascii "/metrics") := by decide +kernel
    obtain rfl := Option.some.inj (htoken.symm.trans hb)
    decide
  have hblank : strstr collecting (ascii "\r\n\r\n") = some 45 := by decide +kernel
  have hfield : ConnectionAt collecting 45 (strcspn collecting (ascii "\r") + 2)
      (strcspn collecting (ascii "\r") + 2) := .here _ (by decide +kernel) (by decide +kernel)
  have hconnection : ConnectionFits collecting := by
    intro lastLine st hlast hat
    obtain rfl := Option.some.inj (hblank.symm.trans hlast)
    cases hat with
    | here => decide +kernel
    | next _ _ _ hfield => exact absurd (by decide +kernel) hfield
  have hfits := And.intro hmetric hconnection
  exact ⟨hfits, ⟨_, _, hfield⟩, (independent_iff (by decide) (by decide +kernel)).mpr hfits⟩

/-- A client that sends a short value is kept alive when the client before it was. -/
theorem exists_not_independent :
    ∃ (memory memory' : HttpRequest) (req : Bytes), (0 : Byte) ∉ req ∧
      ((new memory).parse req).1 = .success ∧ ((new memory').parse req).1 = .success ∧
      (parsedOn memory req).getConnection = ascii "keep-alive" ∧
      (parsedOn memory' req).getConnection = ascii "keep" := by
  refine ⟨⟨.httpGet, zeros Byte 16, ⟨ascii "keep-alive" ++ List.replicate 6 0, rfl⟩⟩,
    ⟨.httpGet, zeros Byte 16, zeros Byte 16⟩,
    ascii "GET /metrics HTTP/1.1\r\nConnection: keep\r\n\r\n", ?_⟩
  decide +kernel

end MetricServer.Http.HttpRequest
