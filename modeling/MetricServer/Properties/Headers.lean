import MetricServer.Http.Leftover

/-! What the other header lines do to the connection of a request. Where no line holds a
carriage return or a line feed of its own the header loop goes from line to line, and it
copies what stands twelve bytes after the beginning of the first line for the connection.
A line that has nothing after its colon is shorter than that: the length of its value
wraps, and the copy goes on into the lines and the body behind it. -/

namespace MetricServer.Http.HttpRequest

open Base

variable {req line body : Bytes} {lines ls : List Bytes} {lastLine starter st : ℕ}

/-- A complete request whose head is lines without a carriage return or a line feed. -/
structure Headed (req : Bytes) (lines : List Bytes) (body : Bytes) : Prop where
  read : readMessage req = some (lines, body)
  clean : ∀ l ∈ lines, (13 : Byte) ∉ l ∧ (10 : Byte) ∉ l
  nul_notMem : (0 : Byte) ∉ req

/-- The first header line that starts with the name and a colon. -/
def connectionLine (lines : List Bytes) : Option Bytes :=
  lines.tail.find? (ascii "Connection:").isPrefixOf

/-- The connection of a request is taken from its line after the colon, and any other request
with that line has the same. -/
structure OwnLine (req : Bytes) (lines : List Bytes) : Prop where
  success : ((new zeroed).parse req).1 = .success
  own : (parsedOn zeroed req).getConnection <:+: ((connectionLine lines).getD []).drop 11
  frame : ∀ req' lines' body', Headed req' lines' body' →
    connectionLine lines' = connectionLine lines →
      (parsedOn zeroed req').getConnection = (parsedOn zeroed req).getConnection

/-! ### Where the loop stops -/

/-- The head ends where its last line does. -/
theorem Headed.strstr_eq (h : Headed req lines body) :
    ∃ lastLine, strstr req (ascii "\r\n\r\n") = some lastLine ∧
      lastLine + 2 = (lines.flatMap (· ++ ascii "\r\n")).length := by
  obtain ⟨⟨head, rest⟩, hcut, heq⟩ := Option.map_eq_some_iff.mp h.read
  obtain ⟨rfl, rfl⟩ := Prod.mk.inj heq
  obtain ⟨lastLine, hlast, heq⟩ := Option.map_eq_some_iff.mp hcut
  obtain ⟨rfl, rfl⟩ := Prod.mk.inj heq
  have hle := lastLine_le hlast
  have hcrlf : (ascii "\r\n").length = 2 := rfl
  refine ⟨lastLine, hlast, ?_⟩
  rw [flatMap_pieces (by decide), List.length_append, List.length_take, hcrlf]
  omega

section Lines
variable (hreq : (0 : Byte) ∉ req) (hlast : strstr req (ascii "\r\n\r\n") = some lastLine)
include hreq hlast

/-- At a line without a carriage return the test looks at this line alone. -/
theorem isConnection_line {rest : Bytes} (hst : st < lastLine + 2) (hcr : (13 : Byte) ∉ line)
    (hdrop : req.drop st = line ++ 13 :: rest) :
    numChars req st = line.length ∧
      (isConnection (field req st) ↔ ascii "Connection:" <+: line) := by
  have hname : (13 : Byte) ∉ ascii "Connection:" := by decide +kernel
  constructor
  · rw [numChars, hdrop]
    exact strcspn_append rest (fun y hy => by simpa [ascii] using ne_of_mem_of_not_mem hy hcr)
      (by decide)
  · rw [isConnection_iff hreq (cr_mem_drop hlast hst), hdrop, prefix_append_cons_iff hname]

/-- The loop stops at the first of the lines for the connection, or at none when there is
none. -/
theorem connectionAt_cases (hclean : ∀ l ∈ ls, (13 : Byte) ∉ l)
    (hdrop : req.drop starter = ls.flatMap (· ++ ascii "\r\n") ++ ascii "\r\n" ++ body)
    (hlen : starter + (ls.flatMap (· ++ ascii "\r\n")).length = lastLine + 2) :
    (∃ line st rest, ls.find? (ascii "Connection:").isPrefixOf = some line ∧
      ConnectionAt req lastLine starter st ∧ req.drop st = line ++ 13 :: 10 :: rest) ∨
    (ls.find? (ascii "Connection:").isPrefixOf = none ∧
      ∀ st, ¬ ConnectionAt req lastLine starter st) := by
  induction ls generalizing starter with
  | nil =>
    refine .inr ⟨rfl, fun st h => ?_⟩
    rw [List.flatMap_nil, List.length_nil] at hlen
    cases h <;> omega
  | cons l ls ih =>
    obtain ⟨hcr, hclean⟩ := List.forall_mem_cons.mp hclean
    have hcrlf : ascii "\r\n" = [13, 10] := rfl
    have hline : req.drop starter =
        l ++ 13 :: 10 :: (ls.flatMap (· ++ ascii "\r\n") ++ ascii "\r\n" ++ body) := by
      rw [hdrop, List.flatMap_cons, hcrlf]
      simp [List.append_assoc]
    rw [List.flatMap_cons, List.length_append, List.length_append, hcrlf, List.length_cons,
      List.length_singleton, ← hcrlf] at hlen
    have hlt : starter < lastLine + 2 := by omega
    obtain ⟨hnum, htest⟩ := isConnection_line hreq hlast hlt hcr hline
    by_cases hpre : ascii "Connection:" <+: l
    · refine .inl ⟨l, starter, _, ?_, .here starter hlt (htest.mpr hpre), hline⟩
      exact List.find?_cons_of_pos (List.isPrefixOf_iff_prefix.mpr hpre)
    · have hnext : req.drop (starter + (numChars req starter + 2)) =
          ls.flatMap (· ++ ascii "\r\n") ++ ascii "\r\n" ++ body := by
        rw [← List.drop_drop, hline, hnum, ← List.drop_drop, List.drop_left]
        rfl
      have hfind : (l :: ls).find? (ascii "Connection:").isPrefixOf =
          ls.find? (ascii "Connection:").isPrefixOf :=
        List.find?_cons_of_neg (mt List.isPrefixOf_iff_prefix.mp hpre)
      rw [hfind]
      obtain ⟨line, st, rest, hsome, hat, hst⟩ | ⟨hnone, hat⟩ := ih hclean hnext (by omega)
      · exact .inl ⟨line, st, rest, hsome, .next starter st hlt (mt htest.mp hpre) hat, hst⟩
      · refine .inr ⟨hnone, fun st h => ?_⟩
        cases h with
        | here _ _ hfield => exact hpre (htest.mp hfield)
        | next _ _ _ _ hrest => exact hat st hrest

end Lines

/-- From the end of the first line on the loop finds the line for the connection. -/
theorem Headed.connectionAt_cases (h : Headed req lines body) :
    ∃ lastLine, strstr req (ascii "\r\n\r\n") = some lastLine ∧
      ((∃ line st rest, connectionLine lines = some line ∧
        ConnectionAt req lastLine (strcspn req (ascii "\r") + 2) st ∧
          req.drop st = line ++ 13 :: 10 :: rest) ∨
      (connectionLine lines = none ∧
        ∀ st, ¬ ConnectionAt req lastLine (strcspn req (ascii "\r") + 2) st)) := by
  obtain ⟨lastLine, hlast, hlen⟩ := h.strstr_eq
  refine ⟨lastLine, hlast, ?_⟩
  have hreq := eq_of_readMessage h.read
  have hclean := h.clean
  rw [connectionLine]
  cases lines with
  | nil =>
    rw [List.flatMap_nil, List.length_nil] at hlen
    omega
  | cons first headers =>
    rw [List.forall_mem_cons] at hclean
    have hcrlf : ascii "\r\n" = [13, 10] := rfl
    have hline : req = first ++ 13 :: 10 :: (headers.flatMap (· ++ ascii "\r\n") ++
        ascii "\r\n" ++ body) := by
      rw [hreq, List.flatMap_cons, hcrlf]
      simp [List.append_assoc]
    have hspan : strcspn req (ascii "\r") = first.length := by
      rw [hline]
      exact strcspn_append _ (fun y hy => by
        simpa [ascii] using ne_of_mem_of_not_mem hy hclean.1.1) (by decide)
    rw [hspan]
    apply HttpRequest.connectionAt_cases h.nul_notMem hlast (fun l hl => (hclean.2 l hl).1)
    · nth_rewrite 1 [hline]
      rw [← List.drop_drop, List.drop_left]
      rfl
    · rw [List.flatMap_cons, List.length_append, List.length_append, hcrlf, List.length_cons,
        List.length_singleton, ← hcrlf] at hlen
      omega

/-! ### What is copied -/

/-- What is copied from a line stands twelve bytes after its beginning. -/
theorem getConnection_of_line {rest : Bytes} (hreq : (0 : Byte) ∉ req)
    (hlast : strstr req (ascii "\r\n\r\n") = some lastLine) (hcr : (13 : Byte) ∉ line)
    (hat : ConnectionAt req lastLine (strcspn req (ascii "\r") + 2) st)
    (hdrop : req.drop st = line ++ 13 :: rest) :
    11 ≤ line.length ∧ (parsedOn zeroed req).getConnection =
      (req.drop (st + 12)).take (min 10 (copyLength line.length)) := by
  obtain ⟨hlt, hfield⟩ := hat.found
  obtain ⟨hnum, -⟩ := isConnection_line hreq hlast hlt hcr hdrop
  have hzeros : (new zeroed)._connection.1 = List.replicate 16 0 := rfl
  have hsrc : (0 : Byte) ∉ req.drop (st + 12) := fun h => hreq (List.mem_of_mem_drop h)
  rw [getConnection_parsedOn hreq hlast hat, cstr_take_strncpy hzeros hsrc, ← hnum]
  exact ⟨(connection_line hreq hlast hlt hfield).2.1, rfl⟩

/-- The connection is what stands in the line, ten bytes at most, from one byte after the colon
on. -/
theorem Headed.getConnection_eq (h : Headed req lines body)
    (hne : connectionLine lines ≠ some (ascii "Connection:")) :
    (parsedOn zeroed req).getConnection = (((connectionLine lines).getD []).drop 12).take 10 := by
  obtain ⟨lastLine, hlast, ⟨line, st, rest, hfind, hat, hdrop⟩ | ⟨hfind, hnone⟩⟩ :=
    h.connectionAt_cases
  · obtain ⟨hcr, -⟩ := h.clean line (List.mem_of_mem_tail (List.mem_of_find?_eq_some hfind))
    obtain ⟨h11, hget⟩ := getConnection_of_line h.nul_notMem hlast hcr hat hdrop
    obtain ⟨value, rfl⟩ := List.isPrefixOf_iff_prefix.mp (List.find?_some hfind)
    have hname : (ascii "Connection:").length = 11 := rfl
    have hvalue : value ≠ [] := by
      rintro rfl
      exact hne (by rw [hfind, List.append_nil])
    obtain ⟨x, value, rfl⟩ := List.exists_cons_of_ne_nil hvalue
    have hlen : (ascii "Connection:" ++ x :: value).length = value.length + 12 := by
      rw [List.length_append, hname, List.length_cons]
      omega
    have hcopy : min 10 (copyLength (value.length + 12)) = min 10 value.length := by
      have := copyLength_of_le (show 11 ≤ value.length + 12 by omega)
      omega
    have hfrom : req.drop (st + 12) = value ++ 13 :: 10 :: rest := by
      rw [← List.drop_drop, hdrop]
      rfl
    have hdrop12 : (ascii "Connection:" ++ x :: value).drop 12 = value := rfl
    rw [hget, hlen, hcopy, hfrom, hfind, Option.getD_some, hdrop12,
      List.take_append_of_le_length (Nat.min_le_right _ _), ← List.take_eq_take_min]
  · rw [getConnection_of_none hlast hnone, hfind]
    rfl

/-- From a line that has nothing after its colon the copy begins with the line feed behind it. -/
theorem Headed.getConnection_of_bare (h : Headed req lines body)
    (hbare : connectionLine lines = some (ascii "Connection:")) :
    ∃ rest, (parsedOn zeroed req).getConnection = 10 :: rest := by
  obtain ⟨lastLine, hlast, ⟨line, st, rest, hfind, hat, hdrop⟩ | ⟨hfind, -⟩⟩ :=
    h.connectionAt_cases
  · obtain rfl : line = ascii "Connection:" := Option.some.inj (hfind.symm.trans hbare)
    obtain ⟨-, hget⟩ := getConnection_of_line h.nul_notMem hlast (by decide +kernel) hat hdrop
    have hfrom : req.drop (st + 12) = 10 :: rest := by
      rw [← List.drop_drop, hdrop]
      rfl
    have hcopy : min 10 (copyLength (ascii "Connection:").length) = 10 := by decide +kernel
    exact ⟨rest.take 9, by rw [hget, hfrom, hcopy, List.take_succ_cons]⟩
  · cases hfind.symm.trans hbare

theorem Headed.success (h : Headed req lines body) : ((new zeroed).parse req).1 = .success := by
  obtain ⟨lastLine, hlast, -⟩ := h.strstr_eq
  simp only [parse, hlast]

/-- The other lines and the body show in the connection exactly when its line has nothing after
the colon. -/
theorem ownLine_iff (h : Headed req lines body) :
    OwnLine req lines ↔ connectionLine lines ≠ some (ascii "Connection:") := by
  constructor
  · intro hline hbare
    obtain ⟨rest, hget⟩ := h.getConnection_of_bare hbare
    have hown := hline.own
    rw [hget, hbare, Option.getD_some, show (ascii "Connection:").drop 11 = [] from rfl,
      List.infix_nil] at hown
    cases hown
  · intro hne
    refine ⟨h.success, ?_, fun req' lines' body' h' heq => ?_⟩
    · rw [h.getConnection_eq hne]
      apply (List.take_prefix _ _).isInfix.trans
      rw [show 12 = 11 + 1 from rfl, ← List.drop_drop]
      exact (List.drop_suffix _ _).isInfix
    · rw [h.getConnection_eq hne, h'.getConnection_eq (by rwa [heq]), heq]

/-- A request for a connection to be kept, with a header before and behind. -/
def keptRequest : Bytes :=
  ascii "GET / HTTP/1.1\r\nHost: a\r\nConnection: keep-alive\r\nX: y\r\n\r\n"

theorem headed_keptRequest :
    Headed keptRequest [ascii "GET / HTTP/1.1", ascii "Host: a", ascii "Connection: keep-alive",
      ascii "X: y"] [] := by
  constructor <;> decide +kernel

theorem ownLine_iff_keptRequest :
    OwnLine keptRequest [ascii "GET / HTTP/1.1", ascii "Host: a",
        ascii "Connection: keep-alive", ascii "X: y"] ↔
      connectionLine [ascii "GET / HTTP/1.1", ascii "Host: a", ascii "Connection: keep-alive",
        ascii "X: y"] ≠ some (ascii "Connection:") :=
  ownLine_iff headed_keptRequest

/-- A line without a value is given the header behind it. -/
theorem not_ownLine_bare :
    ¬ ∀ (req : Bytes) (lines : List Bytes) (body : Bytes), Headed req lines body →
      OwnLine req lines := by
  intro h
  have hheaded : Headed (ascii "GET / HTTP/1.1\r\nConnection:\r\nX: y\r\n\r\n")
      [ascii "GET / HTTP/1.1", ascii "Connection:", ascii "X: y"] [] := by
    constructor <;> decide +kernel
  have hown := (h _ _ _ hheaded).own
  have hget : (parsedOn zeroed
      (ascii "GET / HTTP/1.1\r\nConnection:\r\nX: y\r\n\r\n")).getConnection =
        ascii "\nX: y\r\n\r\n" := by
    decide +kernel
  rw [hget] at hown
  exact absurd hown (by decide +kernel)

end MetricServer.Http.HttpRequest
