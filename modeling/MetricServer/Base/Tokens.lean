import MetricServer.Base.CString

/-! The first token of a string, as a function of the string: what stands between the
leading delimiters and the next one, nothing when only delimiters are left. A string
that is cut off has the tokens of the whole string, cut off where it is. -/

namespace MetricServer.Base

variable {α : Type*}

/-- Dropping from the first part of a list. -/
theorem dropWhile_take (p : α → Bool) (s : List α) (n : ℕ) :
    (s.take n).dropWhile p = (s.dropWhile p).take (n - (s.takeWhile p).length) := by
  induction s generalizing n with
  | nil => simp
  | cons x s ih =>
    cases n with
    | zero => simp
    | succ n =>
      rw [List.take_succ_cons]
      by_cases hx : p x
      · rw [List.dropWhile_cons_of_pos hx, List.dropWhile_cons_of_pos hx,
          List.takeWhile_cons_of_pos hx, List.length_cons, Nat.succ_sub_succ, ih]
      · rw [List.dropWhile_cons_of_neg hx, List.dropWhile_cons_of_neg hx,
          List.takeWhile_cons_of_neg hx, List.length_nil, Nat.sub_zero, List.take_succ_cons]

/-- Where the dropping stops. -/
theorem not_of_dropWhile_eq_cons {p : α → Bool} {s rest : List α} {x : α}
    (h : s.dropWhile p = x :: rest) : ¬ p x := by
  have hhead := List.head?_dropWhile_not p s
  rw [h] at hhead
  simpa using hhead

variable [DecidableEq α] {s delim : List α}

/-- The number of delimiters in front. -/
def lead (s delim : List α) : ℕ := (s.takeWhile (· ∈ delim)).length

def token (s delim : List α) : List α := (s.dropWhile (· ∈ delim)).takeWhile (· ∉ delim)

/-- What follows the first token, from its delimiter on. -/
def afterToken (s delim : List α) : List α := (s.dropWhile (· ∈ delim)).dropWhile (· ∉ delim)

theorem eq_append_token (s delim : List α) :
    ∃ front, front.length = lead s delim ∧ (∀ x ∈ front, x ∈ delim) ∧
      s = front ++ (token s delim ++ afterToken s delim) := by
  refine ⟨s.takeWhile (· ∈ delim), rfl, fun x hx => ?_, ?_⟩
  · simpa using List.mem_takeWhile_imp hx
  · rw [token, afterToken, List.takeWhile_append_dropWhile, List.takeWhile_append_dropWhile]

theorem token_take (s delim : List α) (n : ℕ) :
    token (s.take n) delim = (token s delim).take (n - lead s delim) := by
  rw [token, dropWhile_take, ← List.take_takeWhile]
  rfl

theorem afterToken_take (s delim : List α) (n : ℕ) :
    afterToken (s.take n) delim =
      (afterToken s delim).take (n - lead s delim - (token s delim).length) := by
  rw [afterToken, dropWhile_take, dropWhile_take]
  rfl

theorem token_eq_nil_iff : token s delim = [] ↔ s.dropWhile (· ∈ delim) = [] := by
  rw [token]
  cases h : s.dropWhile (· ∈ delim) with
  | nil => simp
  | cons x rest =>
    have hx : x ∉ delim := by simpa using not_of_dropWhile_eq_cons h
    simp [hx]

/-- The delimiter that ends a token is in front of what follows. -/
theorem token_drop_afterToken (s delim : List α) :
    token ((afterToken s delim).drop 1) delim = token (afterToken s delim) delim := by
  rw [afterToken]
  cases h : (s.dropWhile (· ∈ delim)).dropWhile (· ∉ delim) with
  | nil => rfl
  | cons x rest =>
    have hx : x ∈ delim := by simpa using not_of_dropWhile_eq_cons h
    rw [List.drop_succ_cons, List.drop_zero, token, token,
      List.dropWhile_cons_of_pos (by simpa using hx)]

/-- The scanner finds the first token, or that there is none. -/
theorem strtokR_eq (s delim : List α) :
    strtokR s delim =
      if token s delim = [] then none else some (token s delim, (afterToken s delim).drop 1) := by
  simp only [token_eq_nil_iff]
  rfl

theorem strtokR_map_fst (s delim : List α) :
    ((strtokR s delim).map Prod.fst).getD [] = token s delim := by
  rw [strtokR_eq]
  split_ifs with h
  · exact h.symm
  · rfl

/-- A first part without delimiters, before one, is the token. -/
theorem token_append {x : α} (hne : s ≠ []) (hs : ∀ y ∈ s, y ∉ delim) (hx : x ∈ delim)
    (t : List α) :
    lead (s ++ x :: t) delim = 0 ∧ token (s ++ x :: t) delim = s ∧
      afterToken (s ++ x :: t) delim = x :: t := by
  obtain ⟨y, s, rfl⟩ := List.exists_cons_of_ne_nil hne
  have hy : y ∉ delim := hs y List.mem_cons_self
  have hdrop : (y :: s ++ x :: t).dropWhile (· ∈ delim) = y :: s ++ x :: t :=
    List.dropWhile_cons_of_neg (by simpa using hy)
  have hall : ∀ z ∈ y :: s, decide (z ∉ delim) := by simpa using hs
  refine ⟨?_, ?_, ?_⟩
  · rw [lead, List.cons_append, List.takeWhile_cons_of_neg (by simpa using hy), List.length_nil]
  · rw [token, hdrop, List.takeWhile_append_of_pos hall,
      List.takeWhile_cons_of_neg (by simpa using hx), List.append_nil]
  · rw [afterToken, hdrop, List.dropWhile_append_of_pos hall,
      List.dropWhile_cons_of_neg (by simpa using hx)]

end MetricServer.Base
