import MetricServer.Base.Split
import MetricServer.Base.Tokens
import MetricServer.Http.RequestLine

/-! What the parser makes of any first line, however its parts are spaced. It looks at the
line up to its first carriage return and 63 bytes of it at most, and so it finds the two
first parts of the complete line, cut off where it stops looking. -/

namespace MetricServer.Http.HttpRequest

open Base

variable {req l rest : Bytes}

/-- The first part of a line, and the second one. -/
def method (l : Bytes) : Bytes := token l (ascii " ")

def target (l : Bytes) : Bytes := token (afterToken l (ascii " ")) (ascii " ")

/-- The number of bytes that are looked at. -/
def looked (l : Bytes) : ℕ := min 63 (beforeCr l).length

/-- Where the second part begins. -/
def place (l : Bytes) : ℕ :=
  lead l (ascii " ") + (method l).length + lead (afterToken l (ascii " ")) (ascii " ")

theorem beforeCr_eq_take (l : Bytes) : beforeCr l = l.take (beforeCr l).length :=
  List.prefix_iff_eq_take.mp (List.takeWhile_prefix _)

/-- The line that is tokenised is the first one, cut off. -/
theorem line_eq_take (hcut : cut req (ascii "\r\n") = some (l, rest)) :
    line req = l.take (looked l) := by
  have hbefore : beforeCr req = beforeCr l := by
    have hcrlf : ascii "\r\n" = [13, 10] := rfl
    rw [eq_of_cut hcut, List.append_assoc, hcrlf]
    by_cases hcr : (13 : Byte) ∈ l
    · exact beforeCr_append_of_mem hcr _
    · rw [beforeCr_append_of_notMem hcr, beforeCr_of_notMem hcr]
      simp [beforeCr]
  rw [line, hbefore, looked]
  nth_rewrite 1 [beforeCr_eq_take l]
  rw [List.take_take]

/-- The type is that of the first part of the line, cut off. -/
theorem getType_eq (hreq : (0 : Byte) ∉ req) (hblank : ascii "\r\n\r\n" <:+: req)
    (hcut : cut req (ascii "\r\n") = some (l, rest)) (memory : HttpRequest) :
    (parsedOn memory req).getType =
      typeOf ((method l).take (looked l - lead l (ascii " "))) := by
  obtain ⟨lastLine, hlast⟩ := exists_strstr hblank
  rw [getType_parsedOn hlast, firstToken, cstr_firstHeader hreq, line_eq_take hcut, method,
    ← token_take, strtokR_eq]
  split_ifs with hnil
  · rw [hnil]
    rfl
  · rfl

/-- The metric is the second part of the line, cut off there or after 15 bytes. -/
theorem getMetric_zeroed_eq (hreq : (0 : Byte) ∉ req) (hblank : ascii "\r\n\r\n" <:+: req)
    (hcut : cut req (ascii "\r\n") = some (l, rest)) :
    (parsedOn zeroed req).getMetric = (target l).take (min 15 (looked l - place l)) := by
  obtain ⟨lastLine, hlast⟩ := exists_strstr hblank
  have hsecond : (metricToken req).getD [] =
      token (afterToken (line req) (ascii " ")) (ascii " ") := by
    rw [metricToken, cstr_firstHeader hreq, strtokR_eq]
    split_ifs with hnil
    · rw [afterToken, token_eq_nil_iff.mp hnil]
      rfl
    · rw [Option.bind_some, strtokR_map_fst, token_drop_afterToken]
  rw [getMetric_zeroed hlast, hsecond, line_eq_take hcut, afterToken_take, token_take,
    List.take_take, Nat.sub_sub, Nat.sub_sub, target, place, method, Nat.add_assoc]

end MetricServer.Http.HttpRequest
