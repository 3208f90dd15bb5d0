import MetricServer.Http.Fields

/-! What the parser makes of a first line whose parts stand between single spaces. The line
ends for it at the first carriage return, and no more than 63 bytes of it are looked at;
of the target it keeps 15 bytes. -/

namespace MetricServer.Http.HttpRequest

open Base

variable {req a b s : Bytes} {n : ℕ}

/-- The part of a text before its first carriage return. -/
def beforeCr (s : Bytes) : Bytes := s.takeWhile (· ≠ 13)

/-! ### Tokens of a line -/

theorem strtokR_of_ne {x : Byte} (hx : x ≠ 32) (s : Bytes) :
    strtokR (x :: s) (ascii " ") =
      some ((x :: s).takeWhile (· ≠ 32), ((x :: s).dropWhile (· ≠ 32)).drop 1) := by
  have hdelim : ascii " " = [32] := rfl
  have hdrop : (x :: s).dropWhile (· ∈ ascii " ") = x :: s :=
    List.dropWhile_cons_of_neg (by simpa [hdelim] using hx)
  rw [strtokR, hdrop, if_neg (List.cons_ne_nil x s)]
  simp [hdelim]

/-- The line that is tokenised. -/
def line (req : Bytes) : Bytes := (beforeCr req).take 63

theorem cstr_firstHeader (hreq : (0 : Byte) ∉ req) : cstr (firstHeader req).1 = line req := by
  have hcspn : strcspn req (ascii "\r") = (beforeCr req).length := by
    simp [strcspn, beforeCr, ascii]
  have hline : req.take (min (strcspn req (ascii "\r")) 63) = line req := by
    obtain ⟨rest, hrest⟩ : beforeCr req <+: req := List.takeWhile_prefix _
    rw [hcspn, line]
    nth_rewrite 2 [← hrest]
    rw [List.take_append_of_le_length (Nat.min_le_left _ _), Nat.min_comm, ← List.take_eq_take_min]
  have hle : min (strcspn req (ascii "\r")) 63 ≤ req.length :=
    (Nat.min_le_left _ _).trans (strcspn_le _ _)
  have hzeros (k : ℕ) (hk : k ≤ 63) : ∃ rest, (zeros Byte 64).1.drop k = 0 :: rest := by
    refine ⟨List.replicate (63 - k) 0, ?_⟩
    rw [zeros, List.drop_replicate, ← List.replicate_succ]
    congr 1
    omega
  obtain ⟨rest, hrest⟩ := hzeros (min (strcspn req (ascii "\r")) 63) (Nat.min_le_right _ _)
  rw [firstHeader, strncpy_of_le _ _ hle, hrest, cstr_append_zero, hline]
  exact cstr_eq_self fun h => hreq ((List.takeWhile_subset _) (List.mem_of_mem_take h))

theorem beforeCr_append_of_mem (h : (13 : Byte) ∈ a) (s : Bytes) :
    beforeCr (a ++ s) = beforeCr a := by
  obtain ⟨a₁, a₂, rfl, h₁⟩ := List.eq_append_cons_of_mem h
  have hstop (c : Bytes) : beforeCr (a₁ ++ 13 :: c) = a₁ := by
    rw [beforeCr, List.takeWhile_append_of_pos fun x hx => by
      simpa using ne_of_mem_of_not_mem hx h₁]
    simp
  rw [List.append_assoc, List.cons_append, hstop, hstop]

theorem beforeCr_append_of_notMem (h : (13 : Byte) ∉ a) (s : Bytes) :
    beforeCr (a ++ s) = a ++ beforeCr s :=
  List.takeWhile_append_of_pos fun x hx => by simpa using ne_of_mem_of_not_mem hx h

theorem beforeCr_of_notMem (h : (13 : Byte) ∉ a) : beforeCr a = a := by
  have := beforeCr_append_of_notMem h []
  simpa [beforeCr] using this

/-- A space ends a part wherever the line ends. -/
theorem takeWhile_beforeCr (ha : (32 : Byte) ∉ a) (s : Bytes) :
    (beforeCr (a ++ 32 :: s)).takeWhile (· ≠ 32) = beforeCr a := by
  by_cases h : (13 : Byte) ∈ a
  · rw [beforeCr_append_of_mem h, List.takeWhile_eq_self_iff]
    intro x hx
    simpa using ne_of_mem_of_not_mem ((List.takeWhile_subset _) hx) ha
  · rw [beforeCr_append_of_notMem h, beforeCr_of_notMem h,
      List.takeWhile_append_of_pos fun x hx => by simpa using ne_of_mem_of_not_mem hx ha]
    simp [beforeCr]

/-- The next token of a line, of which `n` bytes are looked at. -/
theorem strtokR_line (hne : a ≠ []) (ha : (32 : Byte) ∉ a) (s : Bytes) (hn : 0 < n) :
    strtokR ((beforeCr (a ++ 32 :: s)).take n) (ascii " ") =
      if beforeCr a = [] then none
      else some ((beforeCr a).take n,
        (((beforeCr (a ++ 32 :: s)).take n).dropWhile (· ≠ 32)).drop 1) := by
  have htoken := takeWhile_beforeCr ha s
  obtain ⟨x, a, rfl⟩ := List.exists_cons_of_ne_nil hne
  obtain ⟨n, rfl⟩ := Nat.exists_eq_succ_of_ne_zero hn.ne'
  have hx : x ≠ 32 := fun h => ha (h ▸ List.mem_cons_self)
  by_cases hcr : x = 13
  · simp [beforeCr, hcr, strtokR]
  · have hcons (t : Bytes) : beforeCr (x :: t) = x :: beforeCr t :=
      List.takeWhile_cons_of_pos (by simpa using hcr)
    have hline : (beforeCr (x :: a ++ 32 :: s)).take (n + 1) =
        x :: (beforeCr (a ++ 32 :: s)).take n := by
      rw [List.cons_append, hcons, List.take_succ_cons]
    rw [if_neg (by rw [hcons]; exact List.cons_ne_nil _ _), ← htoken, List.take_takeWhile,
      Nat.succ_eq_add_one, hline, strtokR_of_ne hx]

/-- The first token of a line is its part before the first space. -/
theorem firstToken_eq (hreq : (0 : Byte) ∉ req) (hne : a ≠ []) (ha : (32 : Byte) ∉ a)
    (hline : req = a ++ 32 :: s) :
    firstToken req = if beforeCr a = [] then none else some ((beforeCr a).take 63) := by
  rw [firstToken, cstr_firstHeader hreq, line, hline, strtokR_line hne ha s (by omega)]
  split_ifs <;> rfl

/-- The second token of a line that begins with the method is the part after it. -/
theorem metricToken_eq (hreq : (0 : Byte) ∉ req) (hne : b ≠ []) (hb : (32 : Byte) ∉ b)
    (hline : req = ascii "GET" ++ 32 :: (b ++ 32 :: s)) :
    metricToken req = if beforeCr b = [] then none else some ((beforeCr b).take 59) := by
  have hget : ascii "GET" = [71, 69, 84] := rfl
  have hrest : (((beforeCr (ascii "GET" ++ 32 :: (b ++ 32 :: s))).take 63).dropWhile
      (· ≠ 32)).drop 1 = (beforeCr (b ++ 32 :: s)).take 59 := by
    simp [beforeCr, hget]
  rw [metricToken, cstr_firstHeader hreq, line, hline,
    strtokR_line (by decide) (by decide) _ (by omega), hrest, if_neg (by decide),
    Option.bind_some, strtokR_line hne hb s (by omega)]
  split_ifs <;> rfl

/-- There is no second token when the line ends in the first part. -/
theorem metricToken_of_mem (hreq : (0 : Byte) ∉ req) (hne : a ≠ []) (ha : (32 : Byte) ∉ a)
    (hcr : (13 : Byte) ∈ a) (hline : req = a ++ 32 :: s) : metricToken req = none := by
  have hrest : (((beforeCr (a ++ 32 :: s)).take 63).dropWhile (· ≠ 32)).drop 1 = [] := by
    have hnil : ((beforeCr a).take 63).dropWhile (· ≠ 32) = [] := by
      rw [List.dropWhile_eq_nil_iff]
      intro x hx
      simpa using ne_of_mem_of_not_mem ((List.takeWhile_subset _) (List.mem_of_mem_take hx)) ha
    rw [beforeCr_append_of_mem hcr, hnil, List.drop_nil]
  rw [metricToken, cstr_firstHeader hreq, line, hline, strtokR_line hne ha s (by omega), hrest]
  split_ifs <;> rfl

/-! ### On zeroed memory -/

/-- The object keeps 15 bytes of its second token. -/
theorem getMetric_zeroed {lastLine : ℕ} (hlast : strstr req (ascii "\r\n\r\n") = some lastLine) :
    (parsedOn zeroed req).getMetric = ((metricToken req).getD []).take 15 := by
  have hget (tok : Bytes) (hzero : (0 : Byte) ∉ tok)
      (h : ∃ rest, (parsedOn zeroed req)._metric.1 = tok ++ 0 :: rest) :
      (parsedOn zeroed req).getMetric = tok := by
    obtain ⟨rest, hrest⟩ := h
    rw [getMetric, hrest, List.append_assoc, List.cons_append, cstr_append_zero,
      cstr_eq_self hzero]
  have hmetric := (parse_fields hlast (new zeroed)).2
  cases htoken : metricToken req with
  | none =>
    rw [htoken] at hmetric
    refine hget [] (by simp) ?_
    obtain ⟨rest, hrest⟩ := new_metric zeroed
    exact ⟨rest, (congrArg Subtype.val hmetric).trans hrest⟩
  | some tok =>
    have hzero := zero_notMem_metricToken htoken
    rw [htoken] at hmetric
    refine hget (tok.take 15) (fun h => hzero (List.mem_of_mem_take h)) ?_
    rw [parsedOn, hmetric, Option.map_some, Option.getD_some, copyMetric]
    by_cases hlen : tok.length ≤ 14
    · rw [List.take_of_length_le (by omega)]
      exact strncpy_of_lt _ _ (by omega)
    · have hmin : min (tok.length + 1) 15 = 15 := by omega
      simp only [hmin]
      exact ⟨[], strncpy_of_le _ _ (by omega)⟩

theorem getType_parsedOn {lastLine : ℕ} (hlast : strstr req (ascii "\r\n\r\n") = some lastLine)
    (memory : HttpRequest) :
    (parsedOn memory req).getType = ((firstToken req).map typeOf).getD .httpNa :=
  (parse_fields hlast (new memory)).1

theorem typeOf_eq_get_iff (tok : Bytes) : typeOf tok = .httpGet ↔ tok = ascii "GET" := by
  rw [typeOf]
  split_ifs <;> simp_all

/-- The type is that of a request to read exactly when the line begins with that method. -/
theorem getType_parsedOn_iff {lastLine : ℕ}
    (hlast : strstr req (ascii "\r\n\r\n") = some lastLine) (hreq : (0 : Byte) ∉ req)
    (hne : a ≠ []) (ha : (32 : Byte) ∉ a) (hline : req = a ++ 32 :: s) (memory : HttpRequest) :
    (parsedOn memory req).getType = .httpGet ↔ beforeCr a = ascii "GET" := by
  rw [getType_parsedOn hlast, firstToken_eq hreq hne ha hline]
  split_ifs with hnil
  · exact iff_of_false nofun (hnil ▸ by decide)
  · rw [Option.map_some, Option.getD_some, typeOf_eq_get_iff]
    constructor
    · -- a method of 63 bytes or more is another one
      intro h
      have hlen := congrArg List.length h
      rw [List.length_take, show (ascii "GET").length = 3 from rfl] at hlen
      rwa [List.take_of_length_le (by omega)] at h
    · intro h
      rw [h]
      rfl

end MetricServer.Http.HttpRequest
