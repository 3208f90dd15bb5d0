import MetricServer.Base.Split
import MetricServer.Http.Fields
import MetricServer.Http.Message

/-! What stands behind a request in the buffer. The parser looks no further than the first
blank line but for one line: of a `Connection:` with nothing after it the copy goes on, and
takes up to seven bytes from behind the request, which change neither what is answered nor
that the connection is closed. -/

namespace MetricServer.Http.HttpRequest

open Base

variable {req rest : Bytes} {lastLine st starter : ℕ}

/-- A request without a body: it ends with its first blank line. -/
def Complete (req : Bytes) : Prop :=
  (0 : Byte) ∉ req ∧ strstr req (ascii "\r\n\r\n") = some (req.length - 4)

instance (req : Bytes) : Decidable (Complete req) := inferInstanceAs (Decidable (_ ∧ _))

theorem Complete.eq_append (h : Complete req) : ∃ front, req = front ++ ascii "\r\n\r\n" := by
  obtain ⟨rest, hrest⟩ := prefix_of_strstr h.2
  have hlen := lastLine_le h.2
  have hnil : rest = [] := by
    have h4 : (ascii "\r\n\r\n").length = 4 := rfl
    have := congrArg List.length hrest
    rw [List.length_append, List.length_drop] at this
    exact List.eq_nil_of_length_eq_zero (by omega)
  refine ⟨req.take (req.length - 4), ?_⟩
  conv_lhs => rw [← List.take_append_drop (req.length - 4) req, ← hrest, hnil, List.append_nil]

/-! ### The first line -/

theorem strcspn_cr_append (hcr : (13 : Byte) ∈ req) (rest : Bytes) :
    strcspn (req ++ rest) (ascii "\r") = strcspn req (ascii "\r") :=
  strcspn_append_of_mem rest hcr (by decide)

theorem firstHeader_append (hcr : (13 : Byte) ∈ req) (rest : Bytes) :
    firstHeader (req ++ rest) = firstHeader req := by
  have hle := strcspn_le req (ascii "\r")
  simp only [firstHeader, strcspn_cr_append hcr]
  exact strncpy_append _ rest _ (by omega)

/-! ### The header lines -/

section
variable (hlast : strstr req (ascii "\r\n\r\n") = some lastLine)
include hlast

theorem le_length_of_lt (hst : st < lastLine + 2) : st ≤ req.length := by
  have hlen := lastLine_le hlast
  omega

theorem numChars_append (rest : Bytes) (hst : st < lastLine + 2) :
    numChars (req ++ rest) st = numChars req st := by
  rw [numChars, numChars, List.drop_append_of_le_length (le_length_of_lt hlast hst)]
  exact strcspn_cr_append (cr_mem_drop hlast hst) rest

/-- A line with room for the name ends at the blank line at the latest. -/
theorem add_numChars_le (hst : st < lastLine + 2) (hlong : 2 ≤ numChars req st) :
    st + numChars req st ≤ lastLine := by
  obtain ⟨hfirst, hsecond⟩ := getElem?_lastLine hlast
  have hle {k : ℕ} (hk : st ≤ k) (hget : req[k]? = some 13) : numChars req st ≤ k - st := by
    refine strcspn_le_of_getElem? (x := 13) ?_ (by decide)
    rw [List.getElem?_drop, Nat.add_sub_cancel' hk, hget]
  rcases le_or_gt st lastLine with hin | hout
  · have := hle hin hfirst
    omega
  · have := hle hst.le hsecond
    omega

theorem isConnection_append (hreq : (0 : Byte) ∉ req) (hrest : (0 : Byte) ∉ rest)
    (hst : st < lastLine + 2) :
    isConnection (field (req ++ rest) st) ↔ isConnection (field req st) := by
  have hcr := cr_mem_drop hlast hst
  have hboth : (0 : Byte) ∉ req ++ rest := fun h => (List.mem_append.mp h).elim hreq hrest
  have hdrop : (req ++ rest).drop st = req.drop st ++ rest :=
    List.drop_append_of_le_length (le_length_of_lt hlast hst)
  rw [isConnection_iff hreq hcr, isConnection_iff hboth (by
    rw [hdrop]
    exact List.mem_append_left rest hcr), hdrop]
  -- the name ends before the carriage return
  obtain ⟨a, b, hline⟩ := List.append_of_mem hcr
  have hname : (13 : Byte) ∉ ascii "Connection:" := by decide +kernel
  rw [hline, List.append_assoc, List.cons_append, prefix_append_cons_iff hname,
    prefix_append_cons_iff hname]

theorem connectionAt_append (hreq : (0 : Byte) ∉ req) (hrest : (0 : Byte) ∉ rest) :
    ConnectionAt (req ++ rest) lastLine starter st ↔ ConnectionAt req lastLine starter st := by
  constructor
  · intro h
    induction h with
    | here starter h hfield =>
      exact .here starter h ((isConnection_append hlast hreq hrest h).mp hfield)
    | next starter st h hfield _ ih =>
      rw [numChars_append hlast rest h] at ih
      exact .next starter st h (mt (isConnection_append hlast hreq hrest h).mpr hfield) ih
  · intro h
    induction h with
    | here starter h hfield =>
      exact .here starter h ((isConnection_append hlast hreq hrest h).mpr hfield)
    | next starter st h hfield _ ih =>
      rw [← numChars_append hlast rest h] at ih
      exact .next starter st h (mt (isConnection_append hlast hreq hrest h).mp hfield) ih

end

/-! ### The fields -/

/-- A copy of ten bytes or more shows what stands there. -/
theorem cstr_take_strncpy_of_le (dst : List.Vector Byte 16) {src : Bytes} (hsrc : (0 : Byte) ∉ src)
    {k : ℕ} (hk : k ≤ 16) (hten : 10 ≤ k) :
    cstr ((strncpy dst src k hk).1.take 10) = src.take 10 := by
  rw [take_strncpy dst (zeros Byte 16) src hk hten,
    cstr_take_strncpy (show (zeros Byte 16).1 = List.replicate 16 0 from rfl) hsrc hk,
    Nat.min_eq_left hten]

/-- The copy that is too long takes seven bytes at most from behind the request, after a line
feed. -/
theorem take_append_of_crlf {front : Bytes} {n : ℕ} (hn : n + 3 ≤ (front ++ [10]).length)
    (rest : Bytes) :
    ((front ++ [10] ++ rest).drop n).take 10 = ((front ++ [10]).drop n).take 10 ∨
      ∃ a b, ((front ++ [10]).drop n).take 10 = a ++ [10] ∧
        ((front ++ [10] ++ rest).drop n).take 10 = a ++ 10 :: b ∧ b.length ≤ 7 := by
  have hlen : (front ++ [10]).length = front.length + 1 := by simp
  have hdrop : (front ++ [10]).drop n = front.drop n ++ [10] :=
    List.drop_append_of_le_length (by omega)
  rw [List.drop_append_of_le_length (by omega), hdrop]
  have hfront : (front.drop n).length = front.length - n := List.length_drop
  by_cases hten : 10 ≤ (front.drop n ++ [10]).length
  · exact .inl (List.take_append_of_le_length hten)
  · rw [List.length_append, List.length_singleton] at hten
    refine .inr ⟨front.drop n, rest.take (9 - (front.length - n)), ?_, ?_, ?_⟩
    · rw [List.take_of_length_le (by simp; omega)]
    · rw [List.append_assoc, List.singleton_append, List.take_append,
        List.take_of_length_le (by omega), hfront,
        show 10 - (front.length - n) = 9 - (front.length - n) + 1 by omega, List.take_succ_cons]
    · rw [List.length_take]
      omega

/-- What is copied from a line for the connection. -/
theorem getConnection_append_of_connectionAt (h : Complete req) (hrest : (0 : Byte) ∉ rest)
    (hat : ConnectionAt req (req.length - 4) (strcspn req (ascii "\r") + 2) st)
    (hat' : ConnectionAt (req ++ rest) (req.length - 4) (strcspn (req ++ rest) (ascii "\r") + 2) st)
    (memory : HttpRequest) :
    (parsedOn memory (req ++ rest)).getConnection = (parsedOn memory req).getConnection ∨
      ∃ a b, (parsedOn memory req).getConnection = a ++ [10] ∧
        (parsedOn memory (req ++ rest)).getConnection = a ++ 10 :: b ∧ b.length ≤ 7 := by
  obtain ⟨front, hfront⟩ := h.eq_append
  obtain ⟨hreq, hlast⟩ := h
  obtain ⟨hlt, hfield⟩ := hat.found
  obtain ⟨-, h11, -⟩ := connection_line hreq hlast hlt hfield
  have hend := add_numChars_le hlast hlt (by omega)
  have hlen := lastLine_le hlast
  have hboth : (0 : Byte) ∉ req ++ rest := fun h => (List.mem_append.mp h).elim hreq hrest
  rw [getConnection_parsedOn hboth (strstr_append rest hlast) hat' memory,
    getConnection_parsedOn hreq hlast hat memory]
  simp only [numChars_append hlast rest hlt]
  by_cases hten : 10 ≤ copyLength (numChars req st)
  · have hsrc : (0 : Byte) ∉ req.drop (st + 12) := fun h => hreq (List.mem_of_mem_drop h)
    have hsrc' : (0 : Byte) ∉ (req ++ rest).drop (st + 12) :=
      fun h => hboth (List.mem_of_mem_drop h)
    have hfeed : req = front ++ ascii "\r\n\r" ++ [10] := by
      rw [hfront, List.append_assoc]
      rfl
    have hroom : st + 12 + 3 ≤ req.length := by omega
    rw [cstr_take_strncpy_of_le _ hsrc' _ hten, cstr_take_strncpy_of_le _ hsrc _ hten]
    rw [hfeed] at hroom ⊢
    exact take_append_of_crlf hroom rest
  · -- a shorter copy ends before the line does
    have hcopy : copyLength (numChars req st) ≤ (req.drop (st + 12)).length := by
      rw [List.length_drop]
      have := copyLength_of_le h11
      omega
    rw [List.drop_append_of_le_length (by omega), strncpy_append _ rest _ hcopy]
    exact .inl rfl

/-- What stands behind a request shows in its connection, if at all, after a line feed. -/
theorem getConnection_append (h : Complete req) (hrest : (0 : Byte) ∉ rest)
    (memory : HttpRequest) :
    (parsedOn memory (req ++ rest)).getConnection = (parsedOn memory req).getConnection ∨
      ∃ a b, (parsedOn memory req).getConnection = a ++ [10] ∧
        (parsedOn memory (req ++ rest)).getConnection = a ++ 10 :: b ∧ b.length ≤ 7 := by
  have hlast := h.2
  have hcr : (13 : Byte) ∈ req := List.mem_of_mem_drop (cr_mem_drop hlast (Nat.succ_pos _))
  have hiff (st : ℕ) : ConnectionAt (req ++ rest) (req.length - 4)
      (strcspn (req ++ rest) (ascii "\r") + 2) st ↔
        ConnectionAt req (req.length - 4) (strcspn req (ascii "\r") + 2) st := by
    rw [strcspn_cr_append hcr, connectionAt_append hlast h.1 hrest]
  by_cases hat : ∃ st, ConnectionAt req (req.length - 4) (strcspn req (ascii "\r") + 2) st
  · obtain ⟨st, hat⟩ := hat
    exact getConnection_append_of_connectionAt h hrest hat ((hiff st).mpr hat) memory
  · have hnone := not_exists.mp hat
    rw [getConnection_of_none hlast hnone memory, getConnection_of_none (strstr_append rest hlast)
      (fun st hat' => hnone st ((hiff st).mp hat')) memory]
    exact .inl rfl

/-! ### What becomes of the request -/

/-- A copied metric without a terminator runs on into the connection. -/
theorem getMetric_eq (r : HttpRequest) :
    r.getMetric =
      if (0 : Byte) ∈ r._metric.1 then cstr r._metric.1 else r._metric.1 ++ r.getConnection := by
  split_ifs with h
  · exact cstr_append_of_mem _ h
  · exact cstr_append_of_notMem _ h

/-- The bytes after a line feed are too few for an endpoint. -/
theorem infix_append_iff_of_short {e m a b : Bytes} (he : e ∈ metricsEndpoints ++ livenessEndpoints)
    (hb : b.length ≤ 7) : e <:+: m ++ (a ++ 10 :: b) ↔ e <:+: m ++ a := by
  have hfacts : ∀ e ∈ metricsEndpoints ++ livenessEndpoints, (10 : Byte) ∉ e ∧ 8 ≤ e.length := by
    decide +kernel
  obtain ⟨hfeed, hlong⟩ := hfacts e he
  rw [← List.append_assoc, infix_append_cons_iff hfeed, or_iff_left]
  intro h
  have := h.length_le
  omega

/-- What stands behind a request changes neither its response nor whether it is kept. -/
theorem parsedOn_append (h : Complete req) (hrest : (0 : Byte) ∉ rest) (memory : HttpRequest) :
    (∀ db, httpErrorCheck (parsedOn memory (req ++ rest)) db =
        httpErrorCheck (parsedOn memory req) db) ∧
      ((parsedOn memory (req ++ rest)).getConnection = ascii "keep-alive" ↔
        (parsedOn memory req).getConnection = ascii "keep-alive") := by
  obtain ⟨hreq, hlast⟩ := h
  have hlast' := strstr_append rest hlast
  have hheader := firstHeader_append
    (List.mem_of_mem_drop (cr_mem_drop hlast (Nat.succ_pos _))) rest
  obtain ⟨htype, hmetric⟩ := parse_fields hlast (new memory)
  obtain ⟨htype', hmetric'⟩ := parse_fields hlast' (new memory)
  have hfirst : firstToken (req ++ rest) = firstToken req := by rw [firstToken, firstToken, hheader]
  have hsecond : metricToken (req ++ rest) = metricToken req := by
    rw [metricToken, metricToken, hheader]
  rw [hfirst, ← htype] at htype'
  rw [hsecond, ← hmetric] at hmetric'
  have hconnection := getConnection_append ⟨hreq, hlast⟩ hrest memory
  constructor
  · refine httpErrorCheck_eq_of htype' fun e he => ?_
    rw [getMetric_eq, getMetric_eq, parsedOn, parsedOn, hmetric']
    split_ifs
    · rfl
    · obtain heq | ⟨a, b, hget, hget', hb⟩ := hconnection
      · rw [parsedOn, parsedOn] at heq
        rw [heq]
      · rw [parsedOn] at hget hget'
        rw [hget, hget', infix_append_iff_of_short he hb,
          infix_append_iff_of_short (b := []) he (Nat.zero_le 7)]
  · obtain heq | ⟨a, b, hget, hget', -⟩ := hconnection
    · rw [heq]
    · have hfeed : (10 : Byte) ∉ ascii "keep-alive" := by decide +kernel
      rw [hget, hget']
      exact iff_of_false (fun h => hfeed (h ▸ by simp)) (fun h => hfeed (h ▸ by simp))

end MetricServer.Http.HttpRequest
