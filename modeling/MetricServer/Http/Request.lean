import MetricServer.Base.CString
import MetricServer.Http.Bytes

/-! `HttpRequest`: the three fields a request is reduced to, and the parser that
fills them. The object lives in a stack slot, so its constructor takes what the
slot held before; the fields are arrays of 16 bytes, and every copy into one
carries its bound. The two loops of the parser recurse on the tokens still to be
read and on fuel; `headerLoop` jumps two bytes at least, so that a request's head
is never longer than its fuel. -/

namespace MetricServer.Http

open Base

inductive HttpTypes where
  | httpGet | httpHead | httpPost | httpPut | httpDelete | httpPatch | httpNa
  deriving DecidableEq

inductive ParseError where
  | invalidRequest | success
  deriving DecidableEq

@[simp] def ParseError.code : ParseError → ℤ
  | .invalidRequest => -1
  | .success => 0

structure HttpRequest where
  _type : HttpTypes
  _metric : List.Vector Byte 16
  _connection : List.Vector Byte 16

namespace HttpRequest

/-- `HttpRequest::HttpRequest` on the memory of its stack slot. -/
def new (memory : HttpRequest) : HttpRequest where
  _type := .httpNa
  _metric := setNul memory._metric 0 (by omega)
  _connection := setNul memory._connection 0 (by omega)

def getType (r : HttpRequest) : HttpTypes := r._type

/-- The string at `_metric`, which runs on into `_connection` when no byte of
`_metric` ends it. -/
def getMetric (r : HttpRequest) : Bytes := cstr (r._metric.1 ++ r._connection.1)

def getConnection (r : HttpRequest) : Bytes := cstr r._connection.1

/-- `a - b` on `unsigned long`, which wraps below zero. -/
def usub (a b : ℕ) : ℕ := if b ≤ a then a - b else a + 2 ^ 64 - b

/-- The method code of the first token. -/
def typeOf (arg : Bytes) : HttpTypes :=
  if arg = ascii "GET" then .httpGet
  else if arg = ascii "HEAD" then .httpHead
  else if arg = ascii "POST" then .httpPost
  else if arg = ascii "PUT" then .httpPut
  else if arg = ascii "DELETE" then .httpDelete
  else if arg = ascii "PATCH" then .httpPatch
  else .httpNa

/-- The loop over the tokens of the first line, of which `n` may still be read:
`i` is `3 - n` in the source. -/
def tokenLoop : ℕ → Option (Bytes × Bytes) → HttpRequest → HttpRequest
  | 0, _, r => r
  | _ + 1, none, r => r
  | n + 1, some (arg, saveptr), r =>
    let i := 2 - n
    let r :=
      if i = 0 then { r with _type := typeOf arg }
      else if i = 1 then
        { r with _metric := strncpy r._metric arg (min (arg.length + 1) 15) (by omega) }
      else r
    tokenLoop n (strtokR saveptr (ascii " ")) r

/-- The copy of the first line that is tokenised. -/
def firstHeader (req : Bytes) : List.Vector Byte 64 :=
  strncpy (zeros Byte 64) req (min (strcspn req (ascii "\r")) 63) (by omega)

/-- The field name of the header line at `starter`, cut to 15 bytes. -/
def field (req : Bytes) (starter : ℕ) : Bytes :=
  let n := min (strcspn (req.drop starter) (ascii ":")) 15
  cstr (setNul (strncpy (zeros Byte 16) (req.drop starter) n (by omega)) n (by omega)).1

/-- The test of the header loop on the field name. -/
def isConnection (field : Bytes) : Prop :=
  field.length = (ascii "Connection").length ∧ field = ascii "Connection"

instance (f : Bytes) : Decidable (isConnection f) := inferInstanceAs (Decidable (_ ∧ _))

/-- The copy of the value of the header line at `starter`. The array is ended at
the length of the field name. -/
def copyConnection (req : Bytes) (starter : ℕ) (r : HttpRequest) : HttpRequest :=
  let numChars := strcspn (req.drop starter) (ascii "\r")
  let numFieldChars := strcspn (req.drop starter) (ascii ":")
  { r with
    _connection :=
      setNul (strncpy r._connection (req.drop (starter + numFieldChars + 2))
        (min (usub (usub numChars numFieldChars) 2) 15) (by omega))
        (min (field req starter).length 15) (by omega) }

/-- The loop over the header lines, up to the line that ends at `lastLine`. -/
def headerLoop (req : Bytes) (lastLine : ℕ) : ℕ → ℕ → HttpRequest → HttpRequest
  | 0, _, r => r
  | fuel + 1, starter, r =>
    if starter < lastLine + 2 then
      if isConnection (field req starter) then copyConnection req starter r
      else headerLoop req lastLine fuel (starter + (strcspn (req.drop starter) (ascii "\r") + 2)) r
    else r

/-- `HttpRequest::parse` on the string `req`. -/
def parse (r : HttpRequest) (req : Bytes) : ParseError × HttpRequest :=
  match strstr req (ascii "\r\n\r\n") with
  | none => (.invalidRequest, r)
  | some lastLine =>
    let r := tokenLoop 3 (strtokR (cstr (firstHeader req).1) (ascii " ")) r
    let starter := strcspn req (ascii "\r") + 2
    (.success, headerLoop req lastLine (lastLine + 2) starter r)

theorem parse_fails_iff (r : HttpRequest) (req : Bytes) :
    (r.parse req).1.code < 0 ↔ ¬ ascii "\r\n\r\n" <:+: req := by
  rw [← strstr_eq_none_iff, parse]
  cases strstr req (ascii "\r\n\r\n") <;> simp

end HttpRequest

end MetricServer.Http
