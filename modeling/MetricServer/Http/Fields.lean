import MetricServer.Http.Response

/-! Where the fields of a parsed request come from. The type and the metric are the first
two tokens of the first line, the connection the value of the first header line of that
name; the parser's loops are proved to find these, and what they copy is told apart
from what the arrays held before. -/

namespace MetricServer.Http.HttpRequest

open Base

variable {req : Bytes} {lastLine starter st fuel : ℕ}

/-! ### The first line -/

def firstToken (req : Bytes) : Option Bytes :=
  (strtokR (cstr (firstHeader req).1) (ascii " ")).map Prod.fst

/-- The second token of the first line. -/
def metricToken (req : Bytes) : Option Bytes :=
  (strtokR (cstr (firstHeader req).1) (ascii " ")).bind fun p =>
    (strtokR p.2 (ascii " ")).map Prod.fst

/-- The copy of a target leaves room in its array. -/
theorem metricLength_le (arg : Bytes) : min (arg.length + 1) 15 ≤ 16 := by omega

def copyMetric (r : HttpRequest) (arg : Bytes) : List.Vector Byte 16 :=
  strncpy r._metric arg (min (arg.length + 1) 15) (metricLength_le arg)

/-- The loop over the tokens sets the type and the metric. -/
theorem tokenLoop_eq (req : Bytes) (r : HttpRequest) :
    tokenLoop 3 (strtokR (cstr (firstHeader req).1) (ascii " ")) r =
      { r with
        _type := ((firstToken req).map typeOf).getD r._type
        _metric := ((metricToken req).map r.copyMetric).getD r._metric } := by
  unfold firstToken metricToken
  cases strtokR (cstr (firstHeader req).1) (ascii " ") with
  | none => rfl
  | some p =>
    simp only [Option.map_some, Option.bind_some, Option.getD_some]
    rw [tokenLoop]
    cases strtokR p.2 (ascii " ") with
    | none => rfl
    | some q =>
      rw [tokenLoop]
      cases strtokR q.2 (ascii " ") <;> rfl

/-- A token has no terminator in it. -/
theorem zero_notMem_metricToken {b : Bytes} (h : metricToken req = some b) : (0 : Byte) ∉ b := by
  intro hb
  obtain ⟨⟨tok, rest⟩, h₁, h₂⟩ := Option.bind_eq_some_iff.mp h
  obtain ⟨⟨tok', rest'⟩, h₃, rfl⟩ := Option.map_eq_some_iff.mp h₂
  exact zero_notMem_cstr _ ((strtokR_sublist h₁).2.mem ((strtokR_sublist h₃).1.mem hb))

/-! ### The header lines -/

/-- The length of the line at `starter`. -/
def numChars (req : Bytes) (starter : ℕ) : ℕ := strcspn (req.drop starter) (ascii "\r")

/-- From the line at `starter` on, the first line for the connection is at `st`. -/
inductive ConnectionAt (req : Bytes) (lastLine : ℕ) : ℕ → ℕ → Prop
  | here (starter : ℕ) (h : starter < lastLine + 2) (hfield : isConnection (field req starter)) :
      ConnectionAt req lastLine starter starter
  | next (starter st : ℕ) (h : starter < lastLine + 2) (hfield : ¬ isConnection (field req starter))
      (hrest : ConnectionAt req lastLine (starter + (numChars req starter + 2)) st) :
      ConnectionAt req lastLine starter st

/-- The header loop copies from the line for the connection, or finds none, and its fuel is
enough for that. -/
theorem headerLoop_cases (req : Bytes) (hfuel : lastLine + 2 ≤ starter + fuel) :
    (∃ st, ConnectionAt req lastLine starter st ∧
      ∀ r, headerLoop req lastLine fuel starter r = copyConnection req st r) ∨
    ((∀ st, ¬ ConnectionAt req lastLine starter st) ∧
      ∀ r, headerLoop req lastLine fuel starter r = r) := by
  induction fuel generalizing starter with
  | zero =>
    refine .inr ⟨fun st h => ?_, fun _ => rfl⟩
    cases h <;> omega
  | succ fuel ih =>
    by_cases h : starter < lastLine + 2
    · by_cases hfield : isConnection (field req starter)
      · exact .inl ⟨starter, .here starter h hfield, fun r => by simp [headerLoop, h, hfield]⟩
      · have hloop (r : HttpRequest) : headerLoop req lastLine (fuel + 1) starter r =
            headerLoop req lastLine fuel (starter + (numChars req starter + 2)) r := by
          simp [headerLoop, h, hfield, numChars]
        obtain ⟨st, hst, heq⟩ | ⟨hnone, heq⟩ :=
          ih (show lastLine + 2 ≤ starter + (numChars req starter + 2) + fuel by omega)
        · exact .inl ⟨st, .next starter st h hfield hst, fun r => (hloop r).trans (heq r)⟩
        · refine .inr ⟨fun st hst => ?_, fun r => (hloop r).trans (heq r)⟩
          cases hst with
          | here _ _ hfield' => exact hfield hfield'
          | next _ _ _ _ hrest => exact hnone st hrest
    · refine .inr ⟨fun st hst => ?_, fun r => by simp [headerLoop, h]⟩
      cases hst <;> contradiction

theorem ConnectionAt.unique {st' : ℕ} (h : ConnectionAt req lastLine starter st)
    (h' : ConnectionAt req lastLine starter st') : st = st' := by
  induction h with
  | here _ _ hfield =>
    cases h' with
    | here => rfl
    | next _ _ _ hfield' _ => exact absurd hfield hfield'
  | next _ _ _ hfield _ ih =>
    cases h' with
    | here _ _ hfield' => exact absurd hfield' hfield
    | next _ _ _ _ hrest => exact ih hrest

theorem ConnectionAt.found (h : ConnectionAt req lastLine starter st) :
    st < lastLine + 2 ∧ isConnection (field req st) := by
  induction h with
  | here _ h hfield => exact ⟨h, hfield⟩
  | next _ _ _ _ _ ih => exact ih

/-- The name of a field is what stands before the colon, cut to 15 bytes. -/
theorem field_eq (hreq : (0 : Byte) ∉ req) (starter : ℕ) :
    field req starter =
      (req.drop starter).take (min (strcspn (req.drop starter) (ascii ":")) 15) := by
  have hle := strcspn_le (req.drop starter) (ascii ":")
  rw [field, cstr_setNul, strncpy_of_le _ _ (by omega), List.take_append_of_le_length]
  · rw [List.take_take, Nat.min_self]
    exact cstr_eq_self fun h => hreq (List.mem_of_mem_drop (List.mem_of_mem_take h))
  · rw [List.length_take]
    omega

theorem lastLine_le (hlast : strstr req (ascii "\r\n\r\n") = some lastLine) :
    lastLine + 4 ≤ req.length := length_le_of_strstr hlast

/-- The blank line begins with a carriage return, and two bytes on stands another one. -/
theorem getElem?_lastLine (hlast : strstr req (ascii "\r\n\r\n") = some lastLine) :
    req[lastLine]? = some 13 ∧ req[lastLine + 2]? = some 13 := by
  obtain ⟨rest, hrest⟩ := prefix_of_strstr hlast
  constructor
  · rw [← Nat.add_zero lastLine, ← List.getElem?_drop, ← hrest]
    rfl
  · rw [← List.getElem?_drop, ← hrest]
    rfl

/-- Every line the loop looks at has an end. -/
theorem cr_mem_drop (hlast : strstr req (ascii "\r\n\r\n") = some lastLine)
    (hst : st < lastLine + 2) : (13 : Byte) ∈ req.drop st := by
  have hget := (getElem?_lastLine hlast).2
  refine List.mem_of_getElem? (i := lastLine + 2 - st) ?_
  rw [List.getElem?_drop, ← hget]
  congr 1
  omega

theorem strcspn_connection (rest : Bytes) :
    strcspn (ascii "Connection:" ++ rest) (ascii ":") = 10 :=
  strcspn_append rest (show ∀ y ∈ ascii "Connection", y ∉ ascii ":" by decide +kernel)
    (show (58 : Byte) ∈ ascii ":" by decide)

/-- The loop finds a line by that name and a colon. -/
theorem isConnection_iff (hreq : (0 : Byte) ∉ req) (hcr : (13 : Byte) ∈ req.drop st) :
    isConnection (field req st) ↔ ascii "Connection:" <+: req.drop st := by
  rw [field_eq hreq]
  generalize req.drop st = line at *
  constructor
  · rintro ⟨hlen, hname⟩
    have hle := strcspn_le line (ascii ":")
    have hcolon : strcspn line (ascii ":") = 10 := by
      have h10 : (ascii "Connection").length = 10 := rfl
      rw [List.length_take] at hlen
      omega
    replace hname : line.take 10 = ascii "Connection" := by rwa [hcolon] at hname
    obtain ⟨c, rest, rfl⟩ : ∃ c rest, line = ascii "Connection" ++ c :: rest := by
      have hline := List.take_append_drop 10 line
      rw [hname] at hline
      cases hdrop : line.drop 10 with
      | nil =>
        rw [← hline, hdrop] at hcr
        exact absurd hcr (by decide)
      | cons c rest => exact ⟨c, rest, by rw [← hdrop, hline]⟩
    have h11 : 11 ≤ (ascii "Connection" ++ c :: rest).length := by simp [ascii]
    have htake : (ascii "Connection" ++ c :: rest).take 11 = ascii "Connection" ++ [c] := rfl
    -- the byte after the name is the colon, or the name would be longer
    have hc : c = 58 := by
      by_contra hc
      have : 11 ≤ strcspn (ascii "Connection" ++ c :: rest) (ascii ":") := by
        rw [le_strcspn_iff h11, htake]
        intro x hx
        obtain hx | rfl := by simpa using hx
        · exact (by decide +kernel : ∀ x ∈ ascii "Connection", x ∉ ascii ":") x hx
        · simpa [ascii] using hc
      omega
    rw [hc]
    exact ⟨rest, rfl⟩
  · rintro ⟨rest, rfl⟩
    rw [strcspn_connection]
    exact ⟨rfl, rfl⟩

/-- The line for the connection begins with that name and a colon, and ends after them. -/
theorem connection_line (hreq : (0 : Byte) ∉ req)
    (hlast : strstr req (ascii "\r\n\r\n") = some lastLine) (hst : st < lastLine + 2)
    (hfield : isConnection (field req st)) :
    strcspn (req.drop st) (ascii ":") = 10 ∧ 11 ≤ numChars req st ∧
      numChars req st ≤ (req.drop st).length := by
  rw [isConnection_iff hreq (cr_mem_drop hlast hst)] at hfield
  obtain ⟨rest, hline⟩ := hfield
  have h11 : 11 ≤ (ascii "Connection:" ++ rest).length := by simp [ascii]
  have htake : (ascii "Connection:" ++ rest).take 11 = ascii "Connection:" := rfl
  rw [numChars, ← hline]
  refine ⟨strcspn_connection rest, ?_, strcspn_le _ _⟩
  rw [le_strcspn_iff h11, htake]
  decide +kernel

/-! ### The fields of a parsed request -/

/-- The number of bytes copied from a line for the connection of `n` bytes. -/
def copyLength (n : ℕ) : ℕ := min (usub (usub n 10) 2) 15

theorem copyLength_le (n : ℕ) : copyLength n ≤ 16 := (Nat.min_le_right _ _).trans (by omega)

/-- A line with nothing after the colon wraps to the longest copy. -/
theorem copyLength_of_le {n : ℕ} (h : 11 ≤ n) :
    (n = 12 ∧ copyLength n = 0) ∨ (13 ≤ n ∧ n ≤ 21 ∧ copyLength n = n - 12) ∨
      ((n = 11 ∨ 22 ≤ n) ∧ 10 ≤ copyLength n) := by
  unfold copyLength usub
  split_ifs <;> omega

/-- The connection that is copied is what stands in the first ten bytes of its array. -/
theorem getConnection_copyConnection (hreq : (0 : Byte) ∉ req)
    (hlast : strstr req (ascii "\r\n\r\n") = some lastLine) (hst : st < lastLine + 2)
    (hfield : isConnection (field req st)) (r : HttpRequest) :
    (copyConnection req st r).getConnection =
      cstr ((strncpy r._connection (req.drop (st + 12)) (copyLength (numChars req st))
        (copyLength_le _)).1.take 10) := by
  obtain ⟨hcolon, -, -⟩ := connection_line hreq hlast hst hfield
  have hlen : min (field req st).length 15 = 10 := by
    rw [hfield.1]
    rfl
  simp only [copyConnection, getConnection, cstr_setNul, hlen, hcolon]
  rfl

theorem headerLoop_frame (req : Bytes) (lastLine fuel starter : ℕ) (r : HttpRequest) :
    (headerLoop req lastLine fuel starter r)._type = r._type ∧
      (headerLoop req lastLine fuel starter r)._metric = r._metric := by
  induction fuel generalizing starter with
  | zero => exact ⟨rfl, rfl⟩
  | succ fuel ih =>
    rw [headerLoop]
    split_ifs
    · exact ⟨rfl, rfl⟩
    · exact ih _
    · exact ⟨rfl, rfl⟩

/-- The loop over the header lines leaves the first two fields, and that over the tokens the
third. -/
theorem parse_fields (hlast : strstr req (ascii "\r\n\r\n") = some lastLine) (r : HttpRequest) :
    (r.parse req).2._type = ((firstToken req).map typeOf).getD r._type ∧
      (r.parse req).2._metric = ((metricToken req).map r.copyMetric).getD r._metric := by
  simp only [parse, hlast, tokenLoop_eq]
  exact headerLoop_frame _ _ _ _ _

/-- The connection is copied from a line, which does not depend on the object, or left. -/
theorem parse_connection (hlast : strstr req (ascii "\r\n\r\n") = some lastLine) :
    (∃ st, ConnectionAt req lastLine (strcspn req (ascii "\r") + 2) st ∧
      ∀ r : HttpRequest, (r.parse req).2._connection = (copyConnection req st r)._connection) ∨
    ((∀ st, ¬ ConnectionAt req lastLine (strcspn req (ascii "\r") + 2) st) ∧
      ∀ r : HttpRequest, (r.parse req).2._connection = r._connection) := by
  obtain ⟨st, hst, heq⟩ | ⟨hnone, heq⟩ := headerLoop_cases req
    (show lastLine + 2 ≤ strcspn req (ascii "\r") + 2 + (lastLine + 2) by omega)
  · exact .inl ⟨st, hst, fun r => by simp only [parse, hlast, tokenLoop_eq, heq, copyConnection]⟩
  · exact .inr ⟨hnone, fun r => by simp only [parse, hlast, tokenLoop_eq, heq]⟩

/-! ### Requests on given memory -/

/-- The object that was built on the given memory and has parsed the request. -/
def parsedOn (memory : HttpRequest) (req : Bytes) : HttpRequest := ((new memory).parse req).2

/-- Memory that is all zeros. -/
def zeroed : HttpRequest := ⟨.httpGet, zeros Byte 16, zeros Byte 16⟩

theorem new_metric (memory : HttpRequest) : ∃ rest, (new memory)._metric.1 = 0 :: rest :=
  ⟨memory._metric.1.drop 1, by simp [new, setNul, List.set_eq_take_append_cons_drop]⟩

theorem new_connection (memory : HttpRequest) : ∃ rest, (new memory)._connection.1 = 0 :: rest :=
  ⟨memory._connection.1.drop 1, by simp [new, setNul, List.set_eq_take_append_cons_drop]⟩

/-- The connection of a request that has a line for it. -/
theorem getConnection_parsedOn (hreq : (0 : Byte) ∉ req)
    (hlast : strstr req (ascii "\r\n\r\n") = some lastLine)
    (hat : ConnectionAt req lastLine (strcspn req (ascii "\r") + 2) st) (memory : HttpRequest) :
    (parsedOn memory req).getConnection =
      cstr ((strncpy (new memory)._connection (req.drop (st + 12)) (copyLength (numChars req st))
        (copyLength_le _)).1.take 10) := by
  obtain ⟨hlt, hfield⟩ := hat.found
  obtain ⟨st', hat', hst⟩ | ⟨hnone, -⟩ := parse_connection hlast
  · obtain rfl := hat.unique hat'
    rw [← getConnection_copyConnection hreq hlast hlt hfield, parsedOn, getConnection, hst]
    rfl
  · exact absurd hat (hnone st)

/-- That of a request that has none. -/
theorem getConnection_of_none (hlast : strstr req (ascii "\r\n\r\n") = some lastLine)
    (hnone : ∀ st, ¬ ConnectionAt req lastLine (strcspn req (ascii "\r") + 2) st)
    (memory : HttpRequest) : (parsedOn memory req).getConnection = [] := by
  obtain ⟨st, hst, -⟩ | ⟨-, hconnection⟩ := parse_connection hlast
  · exact absurd hst (hnone st)
  · obtain ⟨rest, hrest⟩ := new_connection memory
    rw [getConnection, parsedOn, hconnection, hrest]
    rfl

end MetricServer.Http.HttpRequest
