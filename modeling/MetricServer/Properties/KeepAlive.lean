import MetricServer.Http.Message
import MetricServer.Properties.Residue

/-! Who is kept. The header loop hops from one carriage return to two bytes after it, takes
the first place with the name it looks for, and ends the value at the length of that name,
ten bytes, whatever stands there. A request asks to be kept by the first header line of
that name with a space after the colon. -/

namespace MetricServer.Http.HttpRequest

open Base

variable {req : Bytes} {st lastLine : ℕ} {line : Bytes}

/-! ### What a request asks for -/

/-- The first header line that starts with the name, a colon and a space has `keep-alive` for
its value. -/
def asksKeepAlive (req : Bytes) : Prop :=
  ∃ lines body line, readMessage req = some (lines, body) ∧
    lines.tail.find? (ascii "Connection: ").isPrefixOf = some line ∧
    line.drop 12 = ascii "keep-alive"

/-- The request is kept, on zeroed memory, if and only if it asks for that. -/
def KeptAsAsked (req : Bytes) : Prop :=
  (parsedOn zeroed req).getConnection = ascii "keep-alive" ↔ asksKeepAlive req

/-- The first header line that starts with the name, a colon and a space, and where it begins. -/
def AsksAt (req : Bytes) (st : ℕ) (line : Bytes) : Prop :=
  ∃ first before after body, readMessage req = some (first :: (before ++ line :: after), body) ∧
    st = ((first :: before).flatMap (· ++ ascii "\r\n")).length ∧
    ascii "Connection: " <+: line ∧ ∀ l ∈ before, ¬ ascii "Connection: " <+: l

/-- The place that the header loop copies from. -/
def CopiesFrom (req : Bytes) (st : ℕ) : Prop :=
  ∃ lastLine, strstr req (ascii "\r\n\r\n") = some lastLine ∧
    ConnectionAt req lastLine (strcspn req (ascii "\r") + 2) st

/-- The line found first. -/
theorem AsksAt.find (h : AsksAt req st line) :
    ∃ lines body, readMessage req = some (lines, body) ∧
      lines.tail.find? (ascii "Connection: ").isPrefixOf = some line := by
  obtain ⟨first, before, after, body, hread, -, hpre, hbefore⟩ := h
  refine ⟨_, body, hread, List.find?_eq_some_iff_append.mpr
    ⟨List.isPrefixOf_iff_prefix.mpr hpre, before, after, rfl, fun l hl => ?_⟩⟩
  rw [Bool.not_eq_true', ← Bool.not_eq_true, List.isPrefixOf_iff_prefix]
  exact hbefore l hl

theorem AsksAt.unique {st' : ℕ} {line' : Bytes} (h : AsksAt req st line)
    (h' : AsksAt req st' line') : line = line' := by
  obtain ⟨lines, body, hread, hfind⟩ := h.find
  obtain ⟨lines', body', hread', hfind'⟩ := h'.find
  obtain ⟨rfl, -⟩ := Prod.mk.inj (Option.some.inj (hread.symm.trans hread'))
  exact Option.some.inj (hfind.symm.trans hfind')

theorem asksKeepAlive_iff (h : AsksAt req st line) :
    asksKeepAlive req ↔ line.drop 12 = ascii "keep-alive" := by
  obtain ⟨lines, body, hread, hfind⟩ := h.find
  constructor
  · rintro ⟨lines', body', line', hread', hfind', hvalue⟩
    obtain ⟨rfl, -⟩ := Prod.mk.inj (Option.some.inj (hread.symm.trans hread'))
    obtain rfl := Option.some.inj (hfind.symm.trans hfind')
    exact hvalue
  · exact fun hvalue => ⟨lines, body, line, hread, hfind, hvalue⟩

theorem asksKeepAlive_iff_exists :
    asksKeepAlive req ↔ ∃ st line, AsksAt req st line ∧ line.drop 12 = ascii "keep-alive" := by
  constructor
  · rintro ⟨lines, body, line, hread, hfind, hvalue⟩
    obtain ⟨hpre, before, after, htail, hbefore⟩ := List.find?_eq_some_iff_append.mp hfind
    cases lines with
    | nil => simp at htail
    | cons first headers =>
      obtain rfl : headers = before ++ line :: after := htail
      refine ⟨_, line, ⟨first, before, after, body, hread, rfl,
        List.isPrefixOf_iff_prefix.mp hpre, fun l hl => ?_⟩, hvalue⟩
      rw [← List.isPrefixOf_iff_prefix, Bool.not_eq_true, ← Bool.not_eq_true']
      exact hbefore l hl
  · rintro ⟨st, line, hasks, hvalue⟩
    exact (asksKeepAlive_iff hasks).mpr hvalue

/-- At its place the line stands up to its end. -/
theorem AsksAt.drop_eq (h : AsksAt req st line) :
    ∃ rest, req.drop st = line ++ ascii "\r\n" ++ rest := by
  obtain ⟨first, before, after, body, hread, rfl, -, -⟩ := h
  refine ⟨after.flatMap (· ++ ascii "\r\n") ++ ascii "\r\n" ++ body, ?_⟩
  have hreq : req = (first :: before).flatMap (· ++ ascii "\r\n") ++ (line ++ ascii "\r\n" ++
      (after.flatMap (· ++ ascii "\r\n") ++ ascii "\r\n" ++ body)) := by
    rw [eq_of_readMessage hread]
    simp [List.append_assoc]
  nth_rewrite 1 [hreq]
  rw [List.drop_left]

/-- Twelve bytes after its place stands the value. -/
theorem AsksAt.prefix_iff (h : AsksAt req st line) :
    ascii "keep-alive" <+: req.drop (st + 12) ↔ ascii "keep-alive" <+: line.drop 12 := by
  obtain ⟨rest, hdrop⟩ := h.drop_eq
  obtain ⟨first, before, after, body, -, -, ⟨value, rfl⟩, -⟩ := h
  have hname : (ascii "Connection: ").length = 12 := rfl
  have hcrlf : ascii "\r\n" = 13 :: [10] := rfl
  rw [← List.drop_drop, hdrop, List.append_assoc, List.append_assoc, ← hname, List.drop_left,
    List.drop_left, hcrlf, List.cons_append]
  exact prefix_append_cons_iff (by decide)

/-! ### What is kept -/

theorem CopiesFrom.unique {st' : ℕ} (h : CopiesFrom req st) (h' : CopiesFrom req st') :
    st = st' := by
  obtain ⟨lastLine, hlast, hat⟩ := h
  obtain ⟨lastLine', hlast', hat'⟩ := h'
  obtain rfl := Option.some.inj (hlast.symm.trans hlast')
  exact hat.unique hat'

theorem getConnection_zeroed (hreq : (0 : Byte) ∉ req) (h : CopiesFrom req st) :
    (parsedOn zeroed req).getConnection = ascii "keep-alive" ↔
      ascii "keep-alive" <+: req.drop (st + 12) := by
  obtain ⟨lastLine, hlast, hat⟩ := h
  obtain ⟨hlt, hfield⟩ := hat.found
  obtain ⟨-, h11, -⟩ := connection_line hreq hlast hlt hfield
  have hzeros : (new zeroed)._connection.1 = List.replicate 16 0 := rfl
  have hsrc : (0 : Byte) ∉ req.drop (st + 12) := fun h => hreq (List.mem_of_mem_drop h)
  rw [getConnection_parsedOn hreq hlast hat, cstr_take_strncpy hzeros hsrc]
  constructor
  · intro heq
    rw [← heq]
    exact List.take_prefix _ _
  · intro hpre
    have hend : (req.drop st)[numChars req st]? = some 13 :=
      getElem?_strcspn (cr_mem_drop hlast hlt)
    -- a line that ended within those ten bytes would have a carriage return there
    have hlong : ¬ (12 ≤ numChars req st ∧ numChars req st ≤ 21) := by
      rintro ⟨hle, hle'⟩
      obtain ⟨rest, hrest⟩ := hpre
      have hget : (ascii "keep-alive")[numChars req st - 12]? = some 13 := by
        have hlen : (ascii "keep-alive").length = 10 := rfl
        have hleft : (ascii "keep-alive" ++ rest)[numChars req st - 12]? =
            (ascii "keep-alive")[numChars req st - 12]? :=
          List.getElem?_append_left (by omega)
        rw [← hleft, hrest, List.getElem?_drop, ← hend, List.getElem?_drop]
        congr 1
        omega
      exact absurd (List.mem_of_getElem? hget) (by decide)
    have hcopy : 10 ≤ copyLength (numChars req st) := by
      have := copyLength_of_le h11
      omega
    rw [Nat.min_eq_left hcopy]
    exact (List.prefix_iff_eq_take.mp hpre).symm

/-- A request is kept exactly when `keep-alive` stands twelve bytes after the place copied
from. -/
theorem kept_iff (hreq : (0 : Byte) ∉ req) (hblank : ascii "\r\n\r\n" <:+: req) :
    (parsedOn zeroed req).getConnection = ascii "keep-alive" ↔
      ∃ st, CopiesFrom req st ∧ ascii "keep-alive" <+: req.drop (st + 12) := by
  obtain ⟨lastLine, hlast⟩ := exists_strstr hblank
  by_cases hat : ∃ st, ConnectionAt req lastLine (strcspn req (ascii "\r") + 2) st
  · obtain ⟨st, hat⟩ := hat
    have hcopies : CopiesFrom req st := ⟨lastLine, hlast, hat⟩
    rw [getConnection_zeroed hreq hcopies]
    constructor
    · exact fun hpre => ⟨st, hcopies, hpre⟩
    · rintro ⟨st', hcopies', hpre⟩
      rwa [hcopies.unique hcopies']
  · refine iff_of_false ?_ ?_
    · rw [getConnection_of_none hlast (not_exists.mp hat)]
      decide
    · rintro ⟨st, ⟨lastLine', hlast', hat'⟩, -⟩
      obtain rfl := Option.some.inj (hlast.symm.trans hlast')
      exact hat ⟨st, hat'⟩

/-- The loop copies from the line that asks, whose value is longer than `keep-alive`. -/
def Longer (req : Bytes) : Prop :=
  ∃ st line, CopiesFrom req st ∧ AsksAt req st line ∧ ascii "keep-alive" <+: line.drop 12 ∧
    ascii "keep-alive" ≠ line.drop 12

/-- The loop copies `keep-alive` from a place where no line asks, and none asks for it. -/
def Strays (req : Bytes) : Prop :=
  ∃ st, CopiesFrom req st ∧ (∀ line, ¬ AsksAt req st line) ∧
    ascii "keep-alive" <+: req.drop (st + 12) ∧
    ∀ st' line, AsksAt req st' line → line.drop 12 ≠ ascii "keep-alive"

/-- A line asks to be kept from where the loop does not copy, and it copies something else from
elsewhere or nothing. -/
def Misses (req : Bytes) : Prop :=
  ∃ st line, AsksAt req st line ∧ ¬ CopiesFrom req st ∧ line.drop 12 = ascii "keep-alive" ∧
    ∀ st', CopiesFrom req st' → ¬ ascii "keep-alive" <+: req.drop (st' + 12)

/-- Of a request that is kept without asking the value is longer, or the place is wrong. -/
theorem longer_or_strays_iff :
    Longer req ∨ Strays req ↔
      (∃ st, CopiesFrom req st ∧ ascii "keep-alive" <+: req.drop (st + 12)) ∧
        ¬ ∃ st line, AsksAt req st line ∧ line.drop 12 = ascii "keep-alive" := by
  constructor
  · rintro (⟨st, line, hcopies, hasks, hpre, hne⟩ | ⟨st, hcopies, -, hpre, hnone⟩)
    · refine ⟨⟨st, hcopies, hasks.prefix_iff.mpr hpre⟩, ?_⟩
      rintro ⟨st', line', hasks', hvalue⟩
      rw [hasks'.unique hasks] at hvalue
      exact hne hvalue.symm
    · refine ⟨⟨st, hcopies, hpre⟩, ?_⟩
      rintro ⟨st', line, hasks, hvalue⟩
      exact hnone st' line hasks hvalue
  · rintro ⟨⟨st, hcopies, hpre⟩, hnone⟩
    have hvalue : ∀ st' line, AsksAt req st' line → line.drop 12 ≠ ascii "keep-alive" :=
      fun st' line hasks hvalue => hnone ⟨st', line, hasks, hvalue⟩
    by_cases hline : ∃ line, AsksAt req st line
    · obtain ⟨line, hasks⟩ := hline
      exact .inl ⟨st, line, hcopies, hasks, hasks.prefix_iff.mp hpre, (hvalue st line hasks).symm⟩
    · exact .inr ⟨st, hcopies, not_exists.mp hline, hpre, hvalue⟩

/-- A request that asks without being kept does so in another place. -/
theorem misses_iff :
    Misses req ↔
      (∃ st line, AsksAt req st line ∧ line.drop 12 = ascii "keep-alive") ∧
        ¬ ∃ st, CopiesFrom req st ∧ ascii "keep-alive" <+: req.drop (st + 12) := by
  constructor
  · rintro ⟨st, line, hasks, -, hvalue, hnone⟩
    refine ⟨⟨st, line, hasks, hvalue⟩, ?_⟩
    rintro ⟨st', hcopies, hpre⟩
    exact hnone st' hcopies hpre
  · rintro ⟨⟨st, line, hasks, hvalue⟩, hnone⟩
    have helse : ∀ st', CopiesFrom req st' → ¬ ascii "keep-alive" <+: req.drop (st' + 12) :=
      fun st' hcopies hpre => hnone ⟨st', hcopies, hpre⟩
    refine ⟨st, line, hasks, fun hcopies => ?_, hvalue, helse⟩
    apply helse st hcopies
    apply hasks.prefix_iff.mpr
    simp [hvalue]

/-- A request is kept as it asks exactly when it is of none of the three kinds. -/
theorem keptAsAsked_iff (hreq : (0 : Byte) ∉ req) (hblank : ascii "\r\n\r\n" <:+: req) :
    KeptAsAsked req ↔ ¬ Longer req ∧ ¬ Strays req ∧ ¬ Misses req := by
  rw [KeptAsAsked, kept_iff hreq hblank, asksKeepAlive_iff_exists, ← and_assoc, ← not_or,
    longer_or_strays_iff, misses_iff, not_and_not_right, not_and_not_right]
  exact iff_def

/-- A client that lists a second option. -/
def listedOptions : Bytes :=
  ascii "GET /metrics HTTP/1.1\r\nConnection: keep-alive, TE\r\n\r\n"

theorem keptAsAsked_iff_listedOptions :
    KeptAsAsked listedOptions ↔
      ¬ Longer listedOptions ∧ ¬ Strays listedOptions ∧ ¬ Misses listedOptions :=
  keptAsAsked_iff (by decide +kernel) (by decide +kernel)

/-- It is kept although its value is another one. -/
theorem not_keptAsAsked_listedOptions :
    ¬ ∀ req : Bytes, (0 : Byte) ∉ req → ascii "\r\n\r\n" <:+: req → KeptAsAsked req := by
  intro h
  obtain ⟨lines, body, line, hread, hfind, hvalue⟩ :=
    (h listedOptions (by decide +kernel) (by decide +kernel)).mp (by decide +kernel)
  have hlines : readMessage listedOptions =
      some ([ascii "GET /metrics HTTP/1.1", ascii "Connection: keep-alive, TE"], []) := by
    decide +kernel
  obtain ⟨rfl, -⟩ := Prod.mk.inj (Option.some.inj (hlines.symm.trans hread))
  have hline : line = ascii "Connection: keep-alive, TE" := by
    refine Option.some.inj (hfind.symm.trans ?_)
    decide +kernel
  rw [hline] at hvalue
  exact absurd hvalue (by decide +kernel)

end MetricServer.Http.HttpRequest
