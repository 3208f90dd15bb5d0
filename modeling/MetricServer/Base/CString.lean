import Mathlib.Data.List.TakeWhile
import Mathlib.Data.Vector.Basic

/-! C strings and character arrays over any alphabet whose zero is the
terminator. A string is the list of its bytes before the terminator; an array is
a vector, and every write carries the proof that it stays inside. The library
functions follow the C standard: `strcspn`, `strstr`, `strncpy` with its padding,
and the scanner `strtok_r` with the rest of the string as its saved pointer. -/

namespace MetricServer.Base

variable {α : Type*} [DecidableEq α]

/-! ### Searching -/

/-- The number of leading characters that are not in `reject`. -/
def strcspn (s reject : List α) : ℕ := (s.takeWhile (· ∉ reject)).length

/-- The offset of the first occurrence of `pat`. -/
def strstr : List α → List α → Option ℕ
  | [], pat => if pat = [] then some 0 else none
  | x :: s, pat => if pat.isPrefixOf (x :: s) then some 0 else (strstr s pat).map (· + 1)

theorem strcspn_le (s reject : List α) : strcspn s reject ≤ s.length :=
  (List.takeWhile_sublist _).length_le

/-- The offset is how far no character is rejected. -/
theorem le_strcspn_iff {s reject : List α} {k : ℕ} (hk : k ≤ s.length) :
    k ≤ strcspn s reject ↔ ∀ x ∈ s.take k, x ∉ reject := by
  induction s generalizing k with
  | nil => simp_all
  | cons x s ih =>
    cases k with
    | zero => simp
    | succ k =>
      have := ih (k := k) (by simpa using hk)
      by_cases hx : x ∈ reject <;> simp [strcspn, hx, ← this]

theorem strcspn_le_of_getElem? {s reject : List α} {k : ℕ} {x : α} (hk : s[k]? = some x)
    (hx : x ∈ reject) : strcspn s reject ≤ k := by
  obtain ⟨hlt, rfl⟩ := List.getElem?_eq_some_iff.mp hk
  by_contra hle
  have hall := (le_strcspn_iff hlt).mp (not_le.mp hle)
  exact hall _ (List.mem_take_iff_getElem.mpr ⟨k, by omega, rfl⟩) hx

/-- The first character that is rejected ends the span. -/
theorem strcspn_append {a reject : List α} {x : α} (s : List α) (ha : ∀ y ∈ a, y ∉ reject)
    (hx : x ∈ reject) : strcspn (a ++ x :: s) reject = a.length := by
  rw [strcspn, List.takeWhile_append_of_pos (by simpa using ha), List.takeWhile_cons_of_neg (by
    simpa using hx), List.append_nil]

/-- What follows a character that is rejected does not matter. -/
theorem strcspn_append_of_mem {a reject : List α} {x : α} (s : List α) (ha : x ∈ a)
    (hx : x ∈ reject) : strcspn (a ++ s) reject = strcspn a reject := by
  have hstop : (a.takeWhile (· ∉ reject)).length ≠ a.length := by
    intro h
    have hall := List.takeWhile_eq_self_iff.mp ((List.takeWhile_prefix _).eq_of_length h)
    exact absurd hx (by simpa using hall x ha)
  rw [strcspn, List.takeWhile_append, if_neg hstop, strcspn]

/-- Where the span before a character ends, the character stands. -/
theorem getElem?_strcspn {s : List α} {x : α} (h : x ∈ s) : s[strcspn s [x]]? = some x := by
  obtain ⟨a, b, rfl, ha⟩ := List.eq_append_cons_of_mem h
  have hspan : strcspn (a ++ x :: b) [x] = a.length :=
    strcspn_append b (fun y hy => by simpa using ne_of_mem_of_not_mem hy ha) List.mem_cons_self
  rw [hspan, List.getElem?_append_right le_rfl, Nat.sub_self, List.getElem?_cons_zero]

/-- An occurrence of the pattern is a way of writing the string around it. -/
theorem strstr_ne_none_iff (s pat : List α) : strstr s pat ≠ none ↔ pat <:+: s := by
  induction s with
  | nil => by_cases h : pat = [] <;> simp [strstr, h]
  | cons x s ih =>
    rw [strstr, List.infix_cons_iff, ← List.isPrefixOf_iff_prefix]
    by_cases h : pat.isPrefixOf (x :: s) <;> simp [h, ← ih]

theorem exists_strstr {s pat : List α} (h : pat <:+: s) : ∃ n, strstr s pat = some n :=
  Option.ne_none_iff_exists'.mp ((strstr_ne_none_iff s pat).mpr h)

theorem strstr_eq_none_iff (s pat : List α) : strstr s pat = none ↔ ¬ pat <:+: s := by
  rw [← strstr_ne_none_iff, not_not]

/-- At the offset found the pattern stands in the string. -/
theorem prefix_of_strstr {s pat : List α} {n : ℕ} (h : strstr s pat = some n) :
    pat <+: s.drop n := by
  induction s generalizing n with
  | nil =>
    rw [strstr] at h
    split at h
    next hp => simp [hp]
    next => cases h
  | cons x s ih =>
    rw [strstr] at h
    split at h
    next hp =>
      obtain rfl : 0 = n := by simpa using h
      simpa using hp
    next =>
      obtain ⟨m, hm, rfl⟩ := Option.map_eq_some_iff.mp h
      simpa using ih hm

/-- It ends in the string. -/
theorem length_le_of_strstr {s pat : List α} {n : ℕ} (h : strstr s pat = some n) :
    n + pat.length ≤ s.length := by
  induction s generalizing n with
  | nil =>
    rw [strstr] at h
    split at h
    next hpat =>
      cases h
      simp [hpat]
    next => cases h
  | cons x s ih =>
    rw [strstr] at h
    split at h
    next hpre =>
      cases h
      simpa using (List.isPrefixOf_iff_prefix.mp hpre).length_le
    next =>
      obtain ⟨m, hm, rfl⟩ := Option.map_eq_some_iff.mp h
      have := ih hm
      rw [List.length_cons]
      omega

/-- What follows an occurrence does not move it. -/
theorem strstr_append {s pat : List α} {n : ℕ} (t : List α) (h : strstr s pat = some n) :
    strstr (s ++ t) pat = some n := by
  induction s generalizing n with
  | nil =>
    rw [strstr] at h
    split at h
    next hp =>
      cases h
      cases t <;> simp [strstr, hp]
    next => cases h
  | cons x s ih =>
    rw [strstr] at h
    rw [List.cons_append, strstr]
    split at h
    next hp =>
      cases h
      have hp' : pat.isPrefixOf (x :: (s ++ t)) := by
        rw [List.isPrefixOf_iff_prefix] at hp ⊢
        exact hp.trans (List.prefix_append (x :: s) t)
      rw [if_pos hp']
    next hp =>
      obtain ⟨m, hm, rfl⟩ := Option.map_eq_some_iff.mp h
      have hlen : pat.length ≤ (x :: s).length :=
        ((prefix_of_strstr hm).length_le.trans (by simp)).trans (Nat.le_succ _)
      have hp' : ¬ pat.isPrefixOf (x :: (s ++ t)) := by
        rw [List.isPrefixOf_iff_prefix] at hp ⊢
        exact fun h => hp (List.prefix_of_prefix_length_le h (List.prefix_append (x :: s) t) hlen)
      rw [if_neg hp', ih hm]
      rfl

/-! ### Arrays -/

section Array
variable [Zero α] {n : ℕ}

/-- The string at the start of an array, or of the memory from there on. -/
def cstr (a : List α) : List α := a.takeWhile (· ≠ 0)

/-- The array ends the string it holds. -/
def Terminated (a : List.Vector α n) : Prop := 0 ∈ a.1

theorem zero_notMem_cstr (a : List α) : (0 : α) ∉ cstr a := by
  intro h
  simpa using List.mem_takeWhile_imp h

theorem cstr_eq_self {a : List α} (h : (0 : α) ∉ a) : cstr a = a := by
  rw [cstr, List.takeWhile_eq_self_iff]
  intro x hx
  simpa using ne_of_mem_of_not_mem hx h

/-- A terminator ends the string. -/
theorem cstr_append_zero (a b : List α) : cstr (a ++ 0 :: b) = cstr a := by
  by_cases h : (0 : α) ∈ a
  · obtain ⟨a₁, a₂, rfl, h₁⟩ := List.eq_append_cons_of_mem h
    have hstop (c : List α) : cstr (a₁ ++ 0 :: c) = a₁ := by
      rw [cstr, List.takeWhile_append_of_pos fun x hx => by simpa using ne_of_mem_of_not_mem hx h₁]
      simp
    rw [List.append_assoc, List.cons_append, hstop, hstop]
  · rw [cstr, List.takeWhile_append_of_pos fun x hx => by simpa using ne_of_mem_of_not_mem hx h,
      cstr_eq_self h]
    simp

/-- Nothing after the terminator is part of the string. -/
theorem cstr_append_of_mem {a : List α} (b : List α) (h : (0 : α) ∈ a) :
    cstr (a ++ b) = cstr a := by
  obtain ⟨a₁, a₂, rfl⟩ := List.append_of_mem h
  rw [List.append_assoc, List.cons_append, cstr_append_zero, cstr_append_zero]

/-- A string without a terminator goes on with what follows. -/
theorem cstr_append_of_notMem {a : List α} (b : List α) (h : (0 : α) ∉ a) :
    cstr (a ++ b) = a ++ cstr b := by
  rw [cstr, List.takeWhile_append_of_pos fun x hx => by simpa using ne_of_mem_of_not_mem hx h, cstr]

/-- `memset(a, 0, sizeof(a))`. -/
def zeros (α : Type*) [Zero α] (n : ℕ) : List.Vector α n := ⟨List.replicate n 0, by simp⟩

/-- `strncpy(dst, src, k)`: `k` characters are written, those of `src` first and
terminators after them. -/
def strncpy (dst : List.Vector α n) (src : List α) (k : ℕ) (hk : k ≤ n) : List.Vector α n :=
  ⟨src.take k ++ List.replicate (k - src.length) 0 ++ dst.1.drop k, by
    have := dst.2
    simp only [List.length_append, List.length_take, List.length_replicate, List.length_drop]
    omega⟩

/-- `dst[i] = '\0'`. -/
def setNul (dst : List.Vector α n) (i : ℕ) (_ : i < n) : List.Vector α n :=
  ⟨dst.1.set i 0, by simp⟩

omit [DecidableEq α] in
theorem strncpy_of_lt (dst : List.Vector α n) {src : List α} {k : ℕ} (hk : k ≤ n)
    (h : src.length < k) :
    ∃ rest, (strncpy dst src k hk).1 = src ++ 0 :: rest := by
  obtain ⟨m, hm⟩ : ∃ m, k - src.length = m + 1 := ⟨k - src.length - 1, by omega⟩
  refine ⟨List.replicate m 0 ++ dst.1.drop k, ?_⟩
  simp [strncpy, List.take_of_length_le h.le, hm, List.replicate_succ]

omit [DecidableEq α] in
theorem strncpy_of_le (dst : List.Vector α n) {src : List α} {k : ℕ} (hk : k ≤ n)
    (h : k ≤ src.length) : (strncpy dst src k hk).1 = src.take k ++ dst.1.drop k := by
  simp [strncpy, Nat.sub_eq_zero_of_le h]

omit [DecidableEq α] in
/-- Characters beyond the bound are not copied. -/
theorem strncpy_append (dst : List.Vector α n) {src : List α} (rest : List α) {k : ℕ} (hk : k ≤ n)
    (h : k ≤ src.length) : strncpy dst (src ++ rest) k hk = strncpy dst src k hk := by
  apply Subtype.ext
  rw [strncpy_of_le dst hk h, strncpy_of_le dst hk (by rw [List.length_append]; omega),
    List.take_append_of_le_length h]

omit [DecidableEq α] in
/-- What was copied does not depend on what the array held. -/
theorem take_strncpy (dst dst' : List.Vector α n) (src : List α) {k i : ℕ} (hk : k ≤ n)
    (hi : i ≤ k) :
    (strncpy dst src k hk).1.take i = (strncpy dst' src k hk).1.take i := by
  have hlen : i ≤ (src.take k ++ List.replicate (k - src.length) 0).length := by
    simp only [List.length_append, List.length_take, List.length_replicate]
    omega
  rw [strncpy, strncpy, List.take_append_of_le_length hlen, List.take_append_of_le_length hlen]

/-- What is copied into an array of terminators is the string it then holds. -/
theorem cstr_take_strncpy {dst : List.Vector α n} (hdst : dst.1 = List.replicate n 0)
    {src : List α} (hsrc : (0 : α) ∉ src) {k : ℕ} (hk : k ≤ n) (i : ℕ) :
    cstr ((strncpy dst src k hk).1.take i) = src.take (min i k) := by
  have hzeros (a : List α) (ha : (0 : α) ∉ a) (m : ℕ) : cstr (a ++ List.replicate m 0) = a := by
    cases m with
    | zero => rw [List.replicate_zero, List.append_nil, cstr_eq_self ha]
    | succ m => rw [List.replicate_succ, cstr_append_zero, cstr_eq_self ha]
  have harray : (strncpy dst src k hk).1 =
      src.take k ++ List.replicate (k - src.length + (n - k)) 0 := by
    simp only [strncpy, hdst, List.drop_replicate, List.append_assoc,
      List.replicate_append_replicate]
  rw [harray, List.take_append, List.take_take, List.take_replicate]
  exact hzeros _ (fun h => hsrc (List.mem_of_mem_take h)) _

omit [DecidableEq α] in
theorem terminated_setNul (a : List.Vector α n) {i : ℕ} (h : i < n) :
    Terminated (setNul a i h) := by
  refine List.mem_of_getElem? (i := i) ?_
  simp [setNul, h]

theorem cstr_setNul (a : List.Vector α n) {i : ℕ} (h : i < n) :
    cstr (setNul a i h).1 = cstr (a.1.take i) := by
  have hset : a.1.set i 0 = a.1.take i ++ 0 :: a.1.drop (i + 1) := by
    rw [List.set_eq_take_append_cons_drop, if_pos (by simpa using h)]
  exact (congrArg cstr hset).trans (cstr_append_zero _ _)

/-- The bytes a system call stores from offset `i` on. -/
def store (dst : List.Vector α n) (i : ℕ) (src : List α) (h : i + src.length ≤ n) :
    List.Vector α n :=
  ⟨dst.1.take i ++ src ++ dst.1.drop (i + src.length), by
    have := dst.2
    simp only [List.length_append, List.length_take, List.length_drop]
    omega⟩

end Array

/-! ### Tokens -/

/-- `strtok_r(s, delim, &saveptr)`: the next token and the string after its
delimiter, or nothing when only delimiters are left. -/
def strtokR (s delim : List α) : Option (List α × List α) :=
  let s := s.dropWhile (· ∈ delim)
  if s = [] then none
  else some (s.takeWhile (· ∉ delim), (s.dropWhile (· ∉ delim)).drop 1)

theorem strtokR_sublist {s delim tok rest : List α} (h : strtokR s delim = some (tok, rest)) :
    tok.Sublist s ∧ rest.Sublist s := by
  rw [strtokR] at h
  split at h
  next => cases h
  next =>
    cases h
    have hs : (s.dropWhile (· ∈ delim)).Sublist s := List.dropWhile_sublist _
    refine ⟨(List.takeWhile_sublist _).trans hs, ?_⟩
    exact (List.drop_sublist _ _).trans ((List.dropWhile_sublist _).trans hs)

end MetricServer.Base
