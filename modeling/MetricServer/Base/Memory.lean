import MetricServer.Base.CString

/-! The functions of `CString` on memory that ends, with every access checked. A pointer is
an offset, and the memory from it on is what a function reads, one character after
another; `none` is a character read behind the end of the memory, or one written outside
an array. On memory that holds a string, each function reads no further than its
terminator and has the result of its unchecked version. -/

namespace MetricServer.Base.Memory

variable {α : Type*} [DecidableEq α] [Zero α] {n : ℕ}

/-! ### Reading -/

/-- A pointer into the memory. -/
def point (mem : List α) (p : ℕ) : Option ℕ := if p < mem.length then some p else none

def strspn (accept : List α) : List α → Option ℕ
  | [] => none
  | x :: s => if x ≠ 0 ∧ x ∈ accept then (strspn accept s).map (· + 1) else some 0

def strcspn (reject : List α) : List α → Option ℕ
  | [] => none
  | x :: s => if x = 0 ∨ x ∈ reject then some 0 else (strcspn reject s).map (· + 1)

/-- The string that `strlen` and `strcmp` read. -/
def string : List α → Option (List α)
  | [] => none
  | x :: s => if x = 0 then some [] else (string s).map (x :: ·)

/-- The comparison with the pattern, up to the first character that differs. -/
def isAt : List α → List α → Option Bool
  | [], _ => some true
  | _ :: _, [] => none
  | y :: pat, x :: s => if y = x then isAt pat s else some false

def strstr (pat : List α) : List α → Option (Option ℕ)
  | [] => none
  | x :: s =>
    (isAt pat (x :: s)).bind fun found =>
      if found then some (some 0)
      else if x = 0 then some none
      else (strstr pat s).map (Option.map (· + 1))

/-! ### Writing -/

/-- `a[i] = x`. -/
def save (a : List.Vector α n) (i : ℕ) (x : α) : Option (List.Vector α n) :=
  if i < n then some ⟨a.1.set i x, by simp⟩ else none

/-- The terminators that `strncpy` fills up with. -/
def pad (a : List.Vector α n) (i : ℕ) : ℕ → Option (List.Vector α n)
  | 0 => some a
  | k + 1 => (save a i 0).bind fun a => pad a (i + 1) k

/-- `strncpy(a + i, s, k)`. -/
def strncpy (a : List.Vector α n) (i : ℕ) : ℕ → List α → Option (List.Vector α n)
  | 0, _ => some a
  | _ + 1, [] => none
  | k + 1, x :: s =>
    (save a i x).bind fun a => if x = 0 then pad a (i + 1) k else strncpy a (i + 1) k s

/-- `strtok_r` on an array from `p` on: the array, where the token is, and the saved pointer. -/
def strtokR (delim : List α) (a : List.Vector α n) (p : ℕ) :
    Option (List.Vector α n × Option ℕ × ℕ) :=
  (strspn delim (a.1.drop p)).bind fun skipped =>
    let tok := p + skipped
    a.1[tok]?.bind fun x =>
      if x = 0 then some (a, none, tok)
      else
        (strcspn delim (a.1.drop tok)).bind fun len =>
          a.1[tok + len]?.bind fun y =>
            if y = 0 then some (a, some tok, tok + len)
            else (save a (tok + len) 0).map fun a => (a, some tok, tok + len + 1)

/-! ### Strings in memory -/

/-- The memory holds the string at `p`. -/
def Holds (mem : List α) (p : ℕ) (s : List α) : Prop :=
  (0 : α) ∉ s ∧ ∃ more, mem.drop p = s ++ 0 :: more

variable {mem s delim : List α} {a : List.Vector α n} {p i k : ℕ}

omit [DecidableEq α] in
/-- A string holds its own ends. -/
theorem holds_drop (hs : (0 : α) ∉ s) (hp : p ≤ s.length) : Holds (s ++ [0]) p (s.drop p) :=
  ⟨fun h => hs (List.mem_of_mem_drop h), [], List.drop_append_of_le_length hp⟩

/-- Memory with a terminator holds the string before it. -/
theorem holds_cstr (h : (0 : α) ∈ mem) : Holds mem 0 (cstr mem) := by
  obtain ⟨front, more, rfl, hfront⟩ := List.eq_append_cons_of_mem h
  refine ⟨zero_notMem_cstr _, more, ?_⟩
  rw [cstr_append_zero, cstr_eq_self hfront, List.drop_zero]

theorem strcspn_of_holds (reject : List α) (h : Holds mem p s) :
    strcspn reject (mem.drop p) = some (Base.strcspn s reject) := by
  obtain ⟨hs, more, hmem⟩ := h
  rw [hmem]
  clear hmem
  induction s with
  | nil => simp [strcspn, Base.strcspn]
  | cons x s ih =>
    rw [List.mem_cons, not_or] at hs
    rw [List.cons_append, strcspn, Base.strcspn]
    by_cases hx : x ∈ reject
    · simp [hx]
    · rw [if_neg (by simp [hx, Ne.symm hs.1]), ih hs.2]
      simp [hx, Base.strcspn]

theorem string_of_holds (h : Holds mem p s) : string (mem.drop p) = some s := by
  obtain ⟨hs, more, hmem⟩ := h
  rw [hmem]
  clear hmem
  induction s with
  | nil => simp [string]
  | cons x s ih =>
    rw [List.mem_cons, not_or] at hs
    rw [List.cons_append, string, if_neg (Ne.symm hs.1), ih hs.2, Option.map_some]

/-- The comparison ends at the terminator at the latest. -/
theorem isAt_eq {pat : List α} (hpat : (0 : α) ∉ pat) (s more : List α) :
    isAt pat (s ++ 0 :: more) = some (pat.isPrefixOf s) := by
  induction pat generalizing s with
  | nil => simp [isAt]
  | cons y pat ih =>
    rw [List.mem_cons, not_or] at hpat
    cases s with
    | nil => simp [isAt, Ne.symm hpat.1]
    | cons x s =>
      rw [List.cons_append, isAt, List.isPrefixOf]
      split_ifs with hyx
      · simp [ih hpat.2, hyx]
      · simp [hyx]

theorem strstr_of_holds {pat : List α} (hpat : (0 : α) ∉ pat) (h : Holds mem p s) :
    strstr pat (mem.drop p) = some (Base.strstr s pat) := by
  obtain ⟨hs, more, hmem⟩ := h
  rw [hmem]
  clear hmem
  induction s with
  | nil =>
    have hat := isAt_eq hpat [] more
    rw [List.nil_append] at hat ⊢
    rw [strstr, hat, Option.bind_some]
    cases pat <;> simp [Base.strstr]
  | cons x s ih =>
    rw [List.mem_cons, not_or] at hs
    have hat := isAt_eq hpat (x :: s) more
    rw [List.cons_append] at hat ⊢
    rw [strstr, hat, Option.bind_some, Base.strstr, ih hs.2, if_neg (Ne.symm hs.1)]
    split_ifs <;> rfl

/-! ### Copies -/

section Copies
variable {l old r : List α}

omit [DecidableEq α] [Zero α] in
theorem save_eq {y : α} (x : α) (ha : a.1 = l ++ y :: r) :
    ∃ b, save a l.length x = some b ∧ b.1 = l ++ x :: r := by
  have hlt : l.length < n := by
    have := congrArg List.length ha
    rw [a.2, List.length_append, List.length_cons] at this
    omega
  refine ⟨_, if_pos hlt, ?_⟩
  show a.1.set l.length x = l ++ x :: r
  rw [ha, List.set_append_right _ _ le_rfl, Nat.sub_self, List.set_cons_zero]

omit [DecidableEq α] in
theorem pad_eq (ha : a.1 = l ++ old ++ r) :
    ∃ b, pad a l.length old.length = some b ∧ b.1 = l ++ List.replicate old.length 0 ++ r := by
  induction old generalizing a l with
  | nil => exact ⟨a, rfl, ha⟩
  | cons y old ih =>
    obtain ⟨b, hsave, hb⟩ := save_eq (0 : α) (show a.1 = l ++ y :: (old ++ r) by simp [ha])
    obtain ⟨c, hpad, hc⟩ := ih (show b.1 = (l ++ [0]) ++ old ++ r by simp [hb])
    rw [List.length_append, List.length_singleton] at hpad
    refine ⟨c, ?_, ?_⟩
    · rw [List.length_cons, pad, hsave, Option.bind_some, hpad]
    · simp [hc, List.replicate_succ]

/-- A copy reads the string up to its terminator at most and writes what it is told to. -/
theorem strncpy_eq (more : List α) (hs : (0 : α) ∉ s) (ha : a.1 = l ++ old ++ r) :
    ∃ b, strncpy a l.length old.length (s ++ 0 :: more) = some b ∧
      b.1 = l ++ (s.take old.length ++ List.replicate (old.length - s.length) 0) ++ r := by
  induction old generalizing a l s with
  | nil => exact ⟨a, rfl, by simpa using ha⟩
  | cons y old ih =>
    have hcons (b : List.Vector α n) (x : α) (hb : b.1 = l ++ x :: (old ++ r)) :
        b.1 = (l ++ [x]) ++ old ++ r := by simp [hb]
    cases s with
    | nil =>
      obtain ⟨b, hsave, hb⟩ := save_eq (0 : α) (show a.1 = l ++ y :: (old ++ r) by simp [ha])
      obtain ⟨c, hpad, hc⟩ := pad_eq (hcons b 0 hb)
      rw [List.length_append, List.length_singleton] at hpad
      refine ⟨c, ?_, ?_⟩
      · rw [List.nil_append, List.length_cons, strncpy, hsave, Option.bind_some, if_pos rfl, hpad]
      · simp [hc, List.replicate_succ]
    | cons x s =>
      rw [List.mem_cons, not_or] at hs
      obtain ⟨b, hsave, hb⟩ := save_eq x (show a.1 = l ++ y :: (old ++ r) by simp [ha])
      obtain ⟨c, hcopy, hc⟩ := ih hs.2 (hcons b x hb)
      rw [List.length_append, List.length_singleton] at hcopy
      refine ⟨c, ?_, ?_⟩
      · rw [List.cons_append, List.length_cons, strncpy, hsave, Option.bind_some,
          if_neg (Ne.symm hs.1), hcopy]
      · simp [hc]

theorem strncpy_of_holds (a : List.Vector α n) (h : Holds mem p s) (hk : k ≤ n) :
    strncpy a 0 k (mem.drop p) = some (Base.strncpy a s k hk) := by
  obtain ⟨hs, more, hmem⟩ := h
  have hlen : (a.1.take k).length = k := List.length_take_of_le (by rw [a.2]; exact hk)
  obtain ⟨b, hcopy, hb⟩ :=
    strncpy_eq (l := []) more hs (show a.1 = [] ++ a.1.take k ++ a.1.drop k by simp)
  rw [hlen, List.length_nil] at hcopy
  rw [hmem, hcopy]
  congr 1
  apply Subtype.ext
  rw [hb, hlen]
  rfl

omit [DecidableEq α] in
theorem save_zero_eq (a : List.Vector α n) (hi : i < n) : save a i 0 = some (setNul a i hi) :=
  if_pos hi

end Copies

/-! ### Tokens -/

theorem strspn_eq (hdelim : (0 : α) ∉ delim) (more : List α) :
    strspn delim (s ++ 0 :: more) = some (s.takeWhile (· ∈ delim)).length := by
  induction s with
  | nil => simp [strspn]
  | cons x s ih =>
    rw [List.cons_append, strspn, ih]
    by_cases hx : x ∈ delim
    · simp [hx, ne_of_mem_of_not_mem hx hdelim]
    · simp [hx]

omit [DecidableEq α] in
theorem exists_of_holds (h : Holds mem p s) :
    ∃ front more, front.length = p ∧ mem = front ++ (s ++ 0 :: more) := by
  obtain ⟨-, more, hmem⟩ := h
  have hlt := congrArg List.length hmem
  rw [List.length_drop, List.length_append, List.length_cons] at hlt
  exact ⟨mem.take p, more, List.length_take_of_le (by omega), by
    rw [← hmem, List.take_append_drop]⟩

omit [DecidableEq α] in
theorem holds_append {front more : List α} (hs : (0 : α) ∉ s)
    (hmem : mem = front ++ (s ++ 0 :: more)) : Holds mem front.length s :=
  ⟨hs, more, by rw [hmem, List.drop_left]⟩

/-- The array holds a token and the rest of the string at the two pointers, or there is none. -/
inductive Found (a : List.Vector α n) : Option ℕ → ℕ → Option (List α × List α) → Prop
  | none (saveptr : ℕ) : Found a none saveptr none
  | some {tok saveptr : ℕ} {word rest : List α} (htok : Holds a.1 tok word)
      (hrest : Holds a.1 saveptr rest) : Found a (some tok) saveptr (some (word, rest))

omit [DecidableEq α] [Zero α] in
theorem getElem?_length {l r : List α} (ha : a.1 = l ++ r) : a.1[l.length]? = r[0]? := by
  rw [ha, List.getElem?_append_right le_rfl, Nat.sub_self]

/-- The end of a token is the terminator of the string, or it is written over by one. -/
theorem found_of_end {l word rest more : List α} (hword : (0 : α) ∉ word) (hrest : (0 : α) ∉ rest)
    (ha : a.1 = l ++ (word ++ (rest ++ 0 :: more))) :
    ∃ b saveptr,
      (a.1[l.length + word.length]?.bind fun y =>
        if y = 0 then some (a, some l.length, l.length + word.length)
        else (save a (l.length + word.length) 0).map fun a =>
          (a, some l.length, l.length + word.length + 1)) = some (b, some l.length, saveptr) ∧
      Found b (some l.length) saveptr (some (word, rest.drop 1)) := by
  have hend : a.1 = (l ++ word) ++ (rest ++ 0 :: more) := by rw [ha, List.append_assoc]
  have hget := getElem?_length hend
  rw [List.length_append] at hget
  rw [hget]
  cases rest with
  | nil =>
    rw [List.nil_append] at ha
    have hnil := holds_append hrest hend
    rw [List.length_append] at hnil
    exact ⟨a, _, by simp, .some (holds_append hword ha) hnil⟩
  | cons d rest =>
    rw [List.mem_cons, not_or] at hrest
    obtain ⟨b, hsave, hb⟩ := save_eq (0 : α) hend
    have hbehind : b.1 = (l ++ word ++ [0]) ++ (rest ++ 0 :: more) := by
      simp [hb, List.append_assoc]
    have hnext := holds_append hrest.2 hbehind
    rw [List.length_append] at hsave
    rw [List.length_append, List.length_append, List.length_singleton] at hnext
    rw [List.append_assoc] at hb
    refine ⟨b, _, ?_, .some (holds_append hword hb) hnext⟩
    rw [List.cons_append, List.getElem?_cons_zero, Option.bind_some, if_neg (Ne.symm hrest.1),
      hsave, Option.map_some]

/-- The scanner finds the tokens of the string that the array holds. -/
theorem strtokR_of_holds (hdelim : (0 : α) ∉ delim) (h : Holds a.1 p s) :
    ∃ b tok saveptr, strtokR delim a p = some (b, tok, saveptr) ∧
      Found b tok saveptr (Base.strtokR s delim) := by
  obtain ⟨front, more, rfl, ha⟩ := exists_of_holds h
  have hskip : strspn delim (a.1.drop front.length) =
      some (s.takeWhile (· ∈ delim)).length := by
    rw [ha, List.drop_left, strspn_eq hdelim]
  -- the array behind the delimiters in front
  have hs : s = s.takeWhile (· ∈ delim) ++ s.dropWhile (· ∈ delim) :=
    List.takeWhile_append_dropWhile.symm
  have hnul : (0 : α) ∉ s.dropWhile (· ∈ delim) := fun hmem => h.1 ((List.dropWhile_subset _) hmem)
  generalize hlead : s.takeWhile (· ∈ delim) = lead at *
  generalize hs' : s.dropWhile (· ∈ delim) = s' at *
  have htok : a.1 = (front ++ lead) ++ (s' ++ 0 :: more) := by
    rw [ha, hs, List.append_assoc, List.append_assoc]
  have hchar := getElem?_length htok
  have hholds := holds_append hnul htok
  rw [List.length_append] at hchar hholds
  rw [strtokR, hskip, Option.bind_some, Base.strtokR, hs']
  simp only [hchar]
  cases s' with
  | nil => exact ⟨a, none, front.length + lead.length, by simp, .none _⟩
  | cons y s' =>
    have hsplit : y :: s' = (y :: s').takeWhile (· ∉ delim) ++ (y :: s').dropWhile (· ∉ delim) :=
      List.takeWhile_append_dropWhile.symm
    have hlen : Base.strcspn (y :: s') delim = ((y :: s').takeWhile (· ∉ delim)).length := rfl
    rw [List.cons_append, List.getElem?_cons_zero, Option.bind_some,
      if_neg (ne_of_mem_of_not_mem List.mem_cons_self hnul), strcspn_of_holds delim hholds,
      Option.bind_some, if_neg (List.cons_ne_nil y s'), hlen]
    generalize (y :: s').takeWhile (· ∉ delim) = word at *
    generalize (y :: s').dropWhile (· ∉ delim) = rest at *
    rw [hsplit, List.mem_append, not_or] at hnul
    rw [hsplit, List.append_assoc word] at htok
    obtain ⟨b, saveptr, hscan, hfound⟩ := found_of_end hnul.1 hnul.2 htok
    rw [List.length_append] at hscan hfound
    exact ⟨b, _, saveptr, hscan, hfound⟩

end MetricServer.Base.Memory
