import MetricServer.Http.Checked
import MetricServer.Http.Leftover

/-! That the parser stays in bounds. On a request and its terminator the parser with every
access checked has the result of the parser: no character behind the terminator is
looked at, none is written outside an array, and the loops end. The header loop owes
this to the blank line. Every line it looks at ends before the second carriage return of
it, so that no jump leads further than its end, and a line for the connection ends
before the first one, so that the value, which is taken from two bytes after the colon,
begins in the request even where the line has none. -/

namespace MetricServer.Http.HttpRequest

open Base Memory

variable {req : Bytes} {lastLine starter st fuel : ℕ}

/-! ### The first line -/

theorem checked_firstHeader (hreq : (0 : Byte) ∉ req) :
    Checked.firstHeader (req ++ [0]) = some (firstHeader req) := by
  have hholds := holds_drop hreq (Nat.zero_le _)
  have hspan := strcspn_of_holds (ascii "\r") hholds
  have hcopy := strncpy_of_holds (zeros Byte 64) hholds
    (show min (Base.strcspn req (ascii "\r")) 63 ≤ 64 by omega)
  rw [List.drop_zero, List.drop_zero] at hspan hcopy
  simp only [Checked.firstHeader, hspan, Option.bind_eq_bind, Option.bind_some, hcopy, firstHeader]

/-- The copy of the first line is shorter than its array. -/
theorem terminated_firstHeader (req : Bytes) : Terminated (firstHeader req) := by
  refine List.mem_append_right _ ?_
  rw [zeros, List.drop_replicate]
  exact List.mem_replicate.mpr ⟨by omega, rfl⟩

theorem checked_storeToken (i : ℕ) {a : List.Vector Byte 64} {arg : ℕ} {word : Bytes}
    (h : Holds a.1 arg word) (r : HttpRequest) :
    Checked.storeToken i a arg r =
      some (if i = 0 then { r with _type := typeOf word }
        else if i = 1 then { r with _metric := r.copyMetric word }
        else r) := by
  have hcopy := strncpy_of_holds r._metric h (show min (word.length + 1) 15 ≤ 16 by omega)
  rw [Checked.storeToken]
  split_ifs
  · simp only [string_of_holds h, Option.bind_eq_bind, Option.bind_some]
  · simp only [string_of_holds h, hcopy, Option.bind_eq_bind, Option.bind_some, copyMetric]
  · rfl

/-- The loop over the tokens stays in the copy of the first line. -/
theorem checked_tokenLoop (n : ℕ) {a : List.Vector Byte 64} {arg : Option ℕ} {saveptr : ℕ}
    {next : Option (Bytes × Bytes)} (h : Found a arg saveptr next) (r : HttpRequest) :
    Checked.tokenLoop n a arg saveptr r = some (tokenLoop n next r) := by
  induction n generalizing a arg saveptr next r with
  | zero => cases h <;> rfl
  | succ n ih =>
    cases h with
    | none => rfl
    | some htok hrest =>
      obtain ⟨b, tok, saveptr, hscan, hfound⟩ :=
        strtokR_of_holds (show (0 : Byte) ∉ ascii " " by decide) hrest
      rw [Checked.tokenLoop, tokenLoop]
      simp only [checked_storeToken _ htok, hscan, Option.bind_eq_bind, Option.bind_some]
      exact ih hfound _

/-! ### The header lines -/

theorem checked_field (hreq : (0 : Byte) ∉ req) (hst : st ≤ req.length) :
    Checked.field (req ++ [0]) st = some (field req st) := by
  have hholds := holds_drop hreq hst
  have hspan := strcspn_of_holds (ascii ":") hholds
  have hlt : min (Base.strcspn (req.drop st) (ascii ":")) 15 < 16 := by omega
  have hstring := string_of_holds (holds_cstr (terminated_setNul
    (Base.strncpy (zeros Byte 16) (req.drop st) _ hlt.le) hlt))
  rw [List.drop_zero] at hstring
  simp only [Checked.field, hspan, Option.bind_eq_bind, Option.bind_some,
    strncpy_of_holds (zeros Byte 16) hholds hlt.le, save_zero_eq _ hlt, hstring, field]

/-- A line that the loop looks at ends in the blank line at the latest. -/
theorem add_numChars_le_blank (hlast : Base.strstr req (ascii "\r\n\r\n") = some lastLine)
    (hst : st < lastLine + 2) : st + numChars req st ≤ lastLine + 2 := by
  have hget : (req.drop st)[lastLine + 2 - st]? = some 13 := by
    rw [List.getElem?_drop, ← (getElem?_lastLine hlast).2]
    congr 1
    omega
  have hspan : numChars req st ≤ lastLine + 2 - st := strcspn_le_of_getElem? hget (by decide)
  omega

section Lines
variable (hreq : (0 : Byte) ∉ req) (hlast : Base.strstr req (ascii "\r\n\r\n") = some lastLine)
include hreq hlast

/-- The copy of a value begins in the request. -/
theorem checked_copyConnection (hst : st < lastLine + 2) (hfield : isConnection (field req st))
    (r : HttpRequest) :
    Checked.copyConnection (req ++ [0]) st (field req st) r = some (copyConnection req st r) := by
  obtain ⟨hcolon, h11, -⟩ := connection_line hreq hlast hst hfield
  have hend := add_numChars_le hlast hst (by omega)
  have hlen := lastLine_le hlast
  have hholds := holds_drop hreq (show st ≤ req.length by omega)
  have hvalue := holds_drop hreq
    (show st + Base.strcspn (req.drop st) (ascii ":") + 2 ≤ req.length by omega)
  have hcopy := strncpy_of_holds r._connection hvalue
    (show min (usub (usub (Base.strcspn (req.drop st) (ascii "\r"))
      (Base.strcspn (req.drop st) (ascii ":"))) 2) 15 ≤ 16 by omega)
  have hlt : min (field req st).length 15 < 16 := by omega
  simp only [Checked.copyConnection, strcspn_of_holds _ hholds, Option.bind_eq_bind,
    Option.bind_some, hcopy, save_zero_eq _ hlt, copyConnection]

/-- The loop over the header lines stays in the request, and its fuel lasts. -/
theorem checked_headerLoop (hfuel : 0 < fuel) (hlong : lastLine + 4 ≤ starter + 2 * fuel)
    (hstarter : starter ≤ req.length) (r : HttpRequest) :
    Checked.headerLoop (req ++ [0]) lastLine fuel starter r =
      some (headerLoop req lastLine fuel starter r) := by
  induction fuel generalizing starter with
  | zero => omega
  | succ fuel ih =>
    rw [Checked.headerLoop, headerLoop]
    by_cases hlt : starter < lastLine + 2
    · have hspan := strcspn_of_holds (ascii "\r") (holds_drop hreq hstarter)
      have hfield := checked_field hreq hstarter
      rw [if_pos hlt, if_pos hlt]
      simp only [hspan, hfield, Option.bind_eq_bind, Option.bind_some]
      by_cases hname : isConnection (field req starter)
      · rw [if_pos hname, if_pos hname]
        exact checked_copyConnection hreq hlast hlt hname r
      · have hend := add_numChars_le_blank hlast hlt
        have hlen := lastLine_le hlast
        rw [numChars] at hend
        have hpoint : point (req ++ [0])
            (starter + (Base.strcspn (req.drop starter) (ascii "\r") + 2)) =
              some (starter + (Base.strcspn (req.drop starter) (ascii "\r") + 2)) :=
          if_pos (by simp only [List.length_append, List.length_singleton]; omega)
        rw [if_neg hname, if_neg hname, hpoint, Option.bind_some]
        exact ih (by omega) (by omega) (by omega)
    · rw [if_neg hlt, if_neg hlt]

end Lines

/-! ### The parser -/

/-- The parser makes no access out of bounds, and without a blank line it leaves the object. -/
theorem parse_inBounds (hreq : (0 : Byte) ∉ req) (r : HttpRequest) :
    Checked.parse (req ++ [0]) r = some (r.parse req) ∧
      (¬ ascii "\r\n\r\n" <:+: req →
        Checked.parse (req ++ [0]) r = some (.invalidRequest, r)) := by
  have hholds := holds_drop hreq (Nat.zero_le _)
  have hspan := strcspn_of_holds (ascii "\r") hholds
  have hsearch := strstr_of_holds (show (0 : Byte) ∉ ascii "\r\n\r\n" by decide +kernel) hholds
  rw [List.drop_zero, List.drop_zero] at hspan hsearch
  rw [← strstr_eq_none_iff]
  cases hlast : Base.strstr req (ascii "\r\n\r\n") with
  | none =>
    rw [hlast] at hsearch
    have hparse : Checked.parse (req ++ [0]) r = some (.invalidRequest, r) := by
      simp only [Checked.parse, hspan, hsearch, Option.bind_eq_bind, Option.bind_some]
    refine ⟨?_, fun _ => hparse⟩
    rw [hparse, parse, hlast]
  | some lastLine =>
    rw [hlast] at hsearch
    refine ⟨?_, fun h => absurd h (Option.some_ne_none _)⟩
    have hlen := lastLine_le hlast
    have hline : Base.strcspn req (ascii "\r") ≤ lastLine :=
      strcspn_le_of_getElem? (getElem?_lastLine hlast).1 (by decide)
    have hpoint : point (req ++ [0]) (Base.strcspn req (ascii "\r") + 2) =
        some (Base.strcspn req (ascii "\r") + 2) :=
      if_pos (by simp only [List.length_append, List.length_singleton]; omega)
    obtain ⟨a, arg, saveptr, hscan, hfound⟩ :=
      strtokR_of_holds (show (0 : Byte) ∉ ascii " " by decide)
        (holds_cstr (terminated_firstHeader req))
    simp only [Checked.parse, hspan, hsearch, checked_firstHeader hreq, hscan, hpoint,
      checked_tokenLoop 3 hfound, Option.bind_eq_bind, Option.bind_some,
      checked_headerLoop hreq hlast (show 0 < lastLine + 2 by omega)
        (show lastLine + 4 ≤ Base.strcspn req (ascii "\r") + 2 + 2 * (lastLine + 2) by omega)
        (by omega)]
    simp only [parse, hlast]

/-- The value of a line that is the name alone begins behind its end. -/
theorem parse_inBounds_bareName :
    Checked.parse (ascii "GET / HTTP/1.1\r\nConnection:\r\n\r\n" ++ [0]) (new zeroed) =
        some ((new zeroed).parse (ascii "GET / HTTP/1.1\r\nConnection:\r\n\r\n")) ∧
      (¬ ascii "\r\n\r\n" <:+: ascii "GET / HTTP/1.1\r\nConnection:\r\n\r\n" →
        Checked.parse (ascii "GET / HTTP/1.1\r\nConnection:\r\n\r\n" ++ [0]) (new zeroed) =
          some (.invalidRequest, new zeroed)) :=
  parse_inBounds (by decide +kernel) (new zeroed)

end MetricServer.Http.HttpRequest
