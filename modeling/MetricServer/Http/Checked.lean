import MetricServer.Base.Memory
import MetricServer.Http.Request

/-! `HttpRequest::parse` on the memory that a request may be read from, with every access to it
and to the arrays checked. The definitions are those of the parser over the checked
functions: offsets are pointers, and there is no result when a character is read behind
the end of the memory, one is written outside its array, a pointer is moved behind the
end, or the header loop has not ended when its fuel is used up. -/

namespace MetricServer.Http.HttpRequest.Checked

open Base

/-- The copy of the first line that is tokenised. -/
def firstHeader (mem : Bytes) : Option (List.Vector Byte 64) := do
  let numChars ← Memory.strcspn (ascii "\r") mem
  Memory.strncpy (zeros Byte 64) 0 (min numChars 63) mem

/-- What the turn for the token at `arg` does to the object, `i` being its number. -/
def storeToken (i : ℕ) (firstHeader : List.Vector Byte 64) (arg : ℕ) (r : HttpRequest) :
    Option HttpRequest :=
  if i = 0 then do
    let s ← Memory.string (firstHeader.1.drop arg)
    some { r with _type := typeOf s }
  else if i = 1 then do
    let s ← Memory.string (firstHeader.1.drop arg)
    let metric ← Memory.strncpy r._metric 0 (min (s.length + 1) 15) (firstHeader.1.drop arg)
    some { r with _metric := metric }
  else some r

/-- The loop over the tokens, of which `n` may still be read: the next one is at `arg`. -/
def tokenLoop : ℕ → List.Vector Byte 64 → Option ℕ → ℕ → HttpRequest → Option HttpRequest
  | 0, _, _, _, r => some r
  | _ + 1, _, none, _, r => some r
  | n + 1, firstHeader, some arg, saveptr, r => do
    let r ← storeToken (2 - n) firstHeader arg r
    let (firstHeader, arg, saveptr) ← Memory.strtokR (ascii " ") firstHeader saveptr
    tokenLoop n firstHeader arg saveptr r

/-- The field name of the header line at `starter`, cut to 15 bytes. -/
def field (mem : Bytes) (starter : ℕ) : Option Bytes := do
  let numFieldChars ← Memory.strcspn (ascii ":") (mem.drop starter)
  let field ← Memory.strncpy (zeros Byte 16) 0 (min numFieldChars 15) (mem.drop starter)
  let field ← Memory.save field (min numFieldChars 15) 0
  Memory.string field.1

/-- The copy of the value of the header line at `starter`. -/
def copyConnection (mem : Bytes) (starter : ℕ) (field : Bytes) (r : HttpRequest) :
    Option HttpRequest := do
  let numChars ← Memory.strcspn (ascii "\r") (mem.drop starter)
  let numFieldChars ← Memory.strcspn (ascii ":") (mem.drop starter)
  let connection ← Memory.strncpy r._connection 0 (min (usub (usub numChars numFieldChars) 2) 15)
    (mem.drop (starter + numFieldChars + 2))
  let connection ← Memory.save connection (min field.length 15) 0
  some { r with _connection := connection }

/-- The loop over the header lines, up to the line that ends at `lastLine`. -/
def headerLoop (mem : Bytes) (lastLine : ℕ) : ℕ → ℕ → HttpRequest → Option HttpRequest
  | 0, _, _ => none
  | fuel + 1, starter, r =>
    if starter < lastLine + 2 then do
      let numChars ← Memory.strcspn (ascii "\r") (mem.drop starter)
      let field ← field mem starter
      if isConnection field then copyConnection mem starter field r
      else
        let starter ← Memory.point mem (starter + (numChars + 2))
        headerLoop mem lastLine fuel starter r
    else some r

/-- `HttpRequest::parse` on the memory `mem`. -/
def parse (mem : Bytes) (r : HttpRequest) : Option (ParseError × HttpRequest) := do
  let numChars ← Memory.strcspn (ascii "\r") mem
  match ← Memory.strstr (ascii "\r\n\r\n") mem with
  | none => some (.invalidRequest, r)
  | some lastLine =>
    let firstHeader ← firstHeader mem
    let (firstHeader, arg, saveptr) ← Memory.strtokR (ascii " ") firstHeader 0
    let r ← tokenLoop 3 firstHeader arg saveptr r
    let starter ← Memory.point mem (numChars + 2)
    let r ← headerLoop mem lastLine (lastLine + 2) starter r
    some (.success, r)

end MetricServer.Http.HttpRequest.Checked
