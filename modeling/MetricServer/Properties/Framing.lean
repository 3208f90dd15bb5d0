import MetricServer.Http.Message
import MetricServer.Properties.Residue

/-! Where a response ends and what its header says. No response tells its length, so that a
body stands before every longer one; the head is found again whatever the body, but the
space the encoder writes before a colon becomes part of the name by the rule of the
request parser. -/

namespace MetricServer.Http

open Base

/-! ### Header fields -/

/-- A response with a status line, header fields and a body. -/
def respond (status : Bytes) (fields : List (Bytes × Bytes)) (body : Bytes) : Bytes :=
  let rep := HttpResponse.new.addHeaderField [] status
  let rep := fields.foldl (fun rep f => rep.addHeaderField f.1 f.2) rep
  (rep.addBody body).prepareHttpResponse

/-- A text that stands in a line. -/
def OneLine (text : Bytes) : Prop := ∀ b ∈ text, b ∉ ascii "\r\n\x00"

/-- A field name and a value, each in a line, the name without space and colon. -/
structure HeaderField (f : Bytes × Bytes) : Prop where
  name_ne_nil : f.1 ≠ []
  name : OneLine f.1
  name_chars : ∀ b ∈ f.1, b ∉ ascii " :"
  value : OneLine f.2

theorem OneLine.cr_notMem {text : Bytes} (h : OneLine text) : (13 : Byte) ∉ text :=
  fun hmem => h 13 hmem (by decide)

/-- The line that the encoder writes for a field. -/
def headerLine (f : Bytes × Bytes) : Bytes := f.1 ++ ascii " : " ++ f.2

theorem HeaderField.cr_notMem {f : Bytes × Bytes} (h : HeaderField f) :
    (13 : Byte) ∉ headerLine f := by
  have hcolon : (13 : Byte) ∉ ascii " : " := by decide
  simp [headerLine, h.name.cr_notMem, h.value.cr_notMem, hcolon]

/-- The space before the colon is read as the end of the name. -/
theorem HeaderField.readHeader_headerLine {f : Bytes × Bytes} (h : HeaderField f) :
    readHeader (headerLine f) = (f.1 ++ ascii " ", f.2) := by
  have hname : ∀ b ∈ f.1 ++ ascii " ", b ∉ ascii ":" := by
    intro b hb
    rcases List.mem_append.mp hb with hb | hb
    · exact fun hcolon => h.name_chars b hb (List.mem_cons_of_mem _ hcolon)
    · rw [List.mem_singleton.mp hb]
      decide
  have hline : headerLine f = f.1 ++ ascii " " ++ 58 :: (32 :: f.2) := by
    simp [headerLine, ascii]
  rw [readHeader, hline, strcspn_append _ hname (by decide), List.take_left,
    List.drop_length_add_append]
  rfl

theorem respond_eq {fields : List (Bytes × Bytes)} (h : ∀ f ∈ fields, HeaderField f)
    (status body : Bytes) :
    respond status fields body =
      (status :: fields.map headerLine).flatMap (· ++ ascii "\r\n") ++ ascii "\r\n" ++ body := by
  have hfold (rep : HttpResponse) :
      (fields.foldl (fun rep f => rep.addHeaderField f.1 f.2) rep)._msg =
        rep._msg ++ (fields.map headerLine).flatMap (· ++ ascii "\r\n") := by
    induction fields generalizing rep with
    | nil => simp
    | cons f fields ih =>
      have hstep : (rep.addHeaderField f.1 f.2)._msg =
          rep._msg ++ (headerLine f ++ ascii "\r\n") := by
        rw [HttpResponse.addHeaderField, if_pos (h f List.mem_cons_self).name_ne_nil]
        simp [headerLine]
      rw [List.foldl_cons, ih (fun f' hf' => h f' (List.mem_cons_of_mem f hf')), hstep]
      simp
  simp only [respond, HttpResponse.prepareHttpResponse, HttpResponse.addBody, hfold]
  simp [HttpResponse.addHeaderField, HttpResponse.new]

/-- A response is read back with a space at the end of every name. -/
theorem readFields_respond {fields : List (Bytes × Bytes)} (hfields : ∀ f ∈ fields, HeaderField f)
    {status : Bytes} (hstatus : OneLine status) (body : Bytes) :
    readFields (respond status fields body) =
      some (status, fields.map fun f => (f.1 ++ ascii " ", f.2), body) := by
  have hcrlf : ascii "\r\n" = 13 :: [10] := rfl
  have hblank : ascii "\r\n\r\n" = 13 :: [10] ++ 13 :: [10] := rfl
  have hlines : ∀ l ∈ fields.map headerLine, (13 : Byte) ∉ l := by
    intro l hl
    obtain ⟨f, hf, rfl⟩ := List.mem_map.mp hl
    exact (hfields f hf).cr_notMem
  have hne : ∀ l ∈ fields.map headerLine, l ≠ [] := by
    intro l hl
    obtain ⟨f, hf, rfl⟩ := List.mem_map.mp hl
    simp [headerLine, (hfields f hf).name_ne_nil]
  have hread : readMessage (respond status fields body) =
      some (status :: fields.map headerLine, body) := by
    rw [readMessage, respond_eq hfields, hblank, hcrlf, cut_block (by decide) hstatus.cr_notMem
      fun l hl => ⟨hne l hl, hlines l hl⟩, Option.map_some,
      pieces_intercalate hstatus.cr_notMem hlines]
  rw [readFields, hread, Option.bind_some]
  simp only [List.map_map]
  congr 3
  exact List.map_congr_left fun f hf => (hfields f hf).readHeader_headerLine

/-- A response is read back as it was built exactly when it has no header fields. -/
theorem readFields_respond_iff {fields : List (Bytes × Bytes)}
    (hfields : ∀ f ∈ fields, HeaderField f) {status : Bytes} (hstatus : OneLine status)
    (body : Bytes) :
    readFields (respond status fields body) = some (status, fields, body) ↔ fields = [] := by
  rw [readFields_respond hfields hstatus]
  cases fields with
  | nil => simp
  | cons f fields =>
    refine iff_of_false (fun h => ?_) (List.cons_ne_nil f fields)
    simp only [Option.some.injEq, Prod.mk.injEq, true_and, and_true, List.map_cons,
      List.cons.injEq] at h
    have hname : f.1 ++ ascii " " = f.1 := congrArg Prod.fst h.1
    simp [ascii] at hname

/-- The content type of every page. -/
def contentType : Bytes × Bytes :=
  (ascii "Content-Type", ascii "text/plain; version=0.0.4; charset=utf-8")

theorem headerField_contentType : HeaderField contentType := by
  refine ⟨?_, ?_, ?_, ?_⟩ <;> unfold contentType <;> (try unfold OneLine) <;> decide +kernel

theorem oneLine_ok : OneLine (ascii "HTTP/1.1 200 OK") := by
  unfold OneLine
  decide +kernel

theorem readFields_respond_iff_sample :
    readFields (respond (ascii "HTTP/1.1 200 OK") [contentType] (ascii "a\r\n\r\nb")) =
      some (ascii "HTTP/1.1 200 OK", [contentType], ascii "a\r\n\r\nb") ↔ [contentType] = [] :=
  readFields_respond_iff (by simpa using headerField_contentType) oneLine_ok _

/-- The content type is read with a space after its name. -/
theorem not_readFields_respond :
    ¬ ∀ (status : Bytes) (fields : List (Bytes × Bytes)) (body : Bytes), OneLine status →
      (∀ f ∈ fields, HeaderField f) →
        readFields (respond status fields body) = some (status, fields, body) := by
  intro h
  exact absurd (h _ [contentType] [] oneLine_ok (by simpa using headerField_contentType))
    (by decide +kernel)

/-! ### Responses without a length -/

/-- A response stands before a longer one exactly when both are pages and the body of the one
stands before the body of the other. -/
theorem httpErrorCheck_prefix_iff (r r' : HttpRequest) (db db' : MetricDatabase) :
    (httpErrorCheck r db <+: httpErrorCheck r' db' ∧ httpErrorCheck r db ≠ httpErrorCheck r' db') ↔
      ∃ body body', readResponse (httpErrorCheck r db) = some (ascii "200", body) ∧
        readResponse (httpErrorCheck r' db') = some (ascii "200", body') ∧
        body <+: body' ∧ body ≠ body' := by
  rw [httpErrorCheck_eq, httpErrorCheck_eq, Status.readResponse_head, Status.readResponse_head]
  constructor
  · rintro ⟨hpre, hne⟩
    have hstatus := Status.eq_of_prefix hpre
    rw [hstatus, List.prefix_append_right_inj] at hpre
    have hbody : r.body db ≠ r'.body db' := fun h => hne (by rw [hstatus, h])
    by_cases hok : r'.status = .ok
    · exact ⟨r.body db, r'.body db', by rw [hstatus, hok]; rfl, by rw [hok]; rfl, hpre, hbody⟩
    · -- the other two responses have no body
      rw [HttpRequest.body_eq_nil hok, HttpRequest.body_eq_nil (hstatus ▸ hok)] at hbody
      exact absurd rfl hbody
  · rintro ⟨body, body', h, h', hpre, hne⟩
    obtain ⟨hcode, rfl⟩ := Prod.mk.inj (Option.some.inj h)
    obtain ⟨hcode', rfl⟩ := Prod.mk.inj (Option.some.inj h')
    have hstatus : r.status = r'.status := Status.code_injective (hcode.trans hcode'.symm)
    rw [hstatus]
    exact ⟨(List.prefix_append_right_inj _).mpr hpre, fun h => hne (List.append_cancel_left h)⟩

/-- A request of a client that wants to be kept. -/
def keepAliveRequest (target : String) : Bytes :=
  ascii ("GET " ++ target ++ " HTTP/1.1\r\nConnection: keep-alive\r\n\r\n")

/-- The answer to a probe is the beginning of every page of metrics. -/
theorem exists_httpErrorCheck_prefix :
    ¬ ∀ (memory memory' : HttpRequest) (req req' : Bytes) (db db' : MetricDatabase),
      ascii "\r\n\r\n" <:+: req → ascii "\r\n\r\n" <:+: req' →
      (HttpRequest.parsedOn memory req).getConnection = ascii "keep-alive" →
      (HttpRequest.parsedOn memory' req').getConnection = ascii "keep-alive" →
      httpErrorCheck (HttpRequest.parsedOn memory req) db ≠
        httpErrorCheck (HttpRequest.parsedOn memory' req') db' →
      ¬ httpErrorCheck (HttpRequest.parsedOn memory req) db <+:
        httpErrorCheck (HttpRequest.parsedOn memory' req') db' := by
  intro h
  refine h .zeroed .zeroed (keepAliveRequest "/liveness") (keepAliveRequest "/metrics") .new
    (MetricDatabase.new.setMetric (ascii "numberOfClients") (ascii "0")) ?_ ?_ ?_ ?_ ?_ ?_ <;>
  decide +kernel

end MetricServer.Http
