import MetricServer.Base.CString
import Mathlib.Data.List.Basic

/-! Cutting a string at a separator, where it first occurs and wherever it occurs. What
was joined with a separator is found again by cutting when the separator's first character
stands nowhere else, neither in the parts nor later in the separator; a separator that is
doubled to end a block of parts is found when no part but the first is empty. -/

namespace MetricServer.Base

variable {α : Type*} [DecidableEq α] {s sep l : List α} {c : α}

/-! ### The first occurrence -/

/-- What stands before the first occurrence of the separator, and what after it. -/
def cut (s sep : List α) : Option (List α × List α) :=
  (strstr s sep).map fun n => (s.take n, s.drop (n + sep.length))

theorem cut_eq_none_iff : cut s sep = none ↔ ¬ sep <:+: s := by
  rw [cut, Option.map_eq_none_iff, strstr_eq_none_iff]

theorem eq_of_cut {a b : List α} (h : cut s sep = some (a, b)) : s = a ++ sep ++ b := by
  obtain ⟨n, hn, heq⟩ := Option.map_eq_some_iff.mp h
  cases heq
  obtain ⟨rest, hrest⟩ := prefix_of_strstr hn
  rw [← List.drop_drop, ← hrest, List.drop_left, List.append_assoc, hrest, List.take_append_drop]

/-- No occurrence begins before the first character of the separator does. -/
theorem strstr_append_of_notMem {t : List α} (hl : c ∉ l) (s : List α) :
    strstr (l ++ s) (c :: t) = (strstr s (c :: t)).map (· + l.length) := by
  induction l with
  | nil => simp
  | cons x l ih =>
    have hx : c ≠ x := fun h => hl (h ▸ List.mem_cons_self)
    have hpre : ¬ (c :: t).isPrefixOf (x :: (l ++ s)) := by simp [List.isPrefixOf, hx]
    rw [List.cons_append, strstr, if_neg hpre, ih fun h => hl (List.mem_cons_of_mem x h),
      Option.map_map]
    rfl

theorem cut_append_of_notMem {t : List α} (hl : c ∉ l) (s : List α) :
    cut (l ++ s) (c :: t) = (cut s (c :: t)).map fun p => (l ++ p.1, p.2) := by
  rw [cut, cut, strstr_append_of_notMem hl, Option.map_map, Option.map_map]
  congr 1
  funext n
  simp [Nat.add_comm n, List.take_length_add_append, Nat.add_assoc, List.drop_length_add_append]

theorem cut_cons_of_not_prefix {x : α} (h : ¬ sep <+: x :: s) :
    cut (x :: s) sep = (cut s sep).map fun p => (x :: p.1, p.2) := by
  have hstr : strstr (x :: s) sep = (strstr s sep).map (· + 1) := by
    rw [strstr, if_neg fun hpre => h (List.isPrefixOf_iff_prefix.mp hpre)]
  rw [cut, cut, hstr, Option.map_map, Option.map_map]
  congr 1
  funext n
  simp [Nat.succ_add]

/-- A separator at the start is cut off. -/
theorem cut_self (b : List α) : cut (sep ++ b) sep = some ([], b) := by
  have hstr : strstr (sep ++ b) sep = some 0 := by
    cases h : sep ++ b with
    | nil => simp [strstr, (List.append_eq_nil_iff.mp h).1]
    | cons x s =>
      have hpre : sep.isPrefixOf (x :: s) := by
        rw [List.isPrefixOf_iff_prefix, ← h]
        exact List.prefix_append sep b
      rw [strstr, if_pos hpre]
  rw [cut, hstr]
  simp

/-- What stands before a separator that is not begun in it is cut off. -/
theorem cut_append {t : List α} (hl : c ∉ l) (b : List α) :
    cut (l ++ c :: t ++ b) (c :: t) = some (l, b) := by
  rw [List.append_assoc, cut_append_of_notMem hl, cut_self]
  simp

theorem cut_of_notMem {t : List α} (hs : c ∉ s) : cut s (c :: t) = none := by
  rw [cut_eq_none_iff]
  exact fun h => hs (h.subset List.mem_cons_self)

/-- What follows does not move the first occurrence. -/
theorem cut_append_right {a b : List α} (t : List α) (h : cut s sep = some (a, b)) :
    cut (s ++ t) sep = some (a, b ++ t) := by
  obtain ⟨n, hn, heq⟩ := Option.map_eq_some_iff.mp h
  cases heq
  have hle := length_le_of_strstr hn
  rw [cut, strstr_append t hn, Option.map_some, List.take_append_of_le_length (by omega),
    List.drop_append_of_le_length hle]

omit [DecidableEq α] in
/-- A prefix without a character ends before it. -/
theorem prefix_append_cons_iff {pat t : List α} (h : c ∉ pat) :
    pat <+: s ++ c :: t ↔ pat <+: s := by
  constructor
  · intro hpre
    rcases le_or_gt pat.length s.length with hle | hlt
    · exact List.prefix_of_prefix_length_le hpre (List.prefix_append s _) hle
    · have hchar : s ++ [c] <+: s ++ c :: t := by
        rw [List.prefix_append_right_inj]
        exact ⟨t, rfl⟩
      have hcut := List.prefix_of_prefix_length_le hchar hpre
        (by rwa [List.length_append, List.length_singleton])
      exact absurd (hcut.subset (by simp)) h
  · exact fun hpre => hpre.trans (List.prefix_append s _)

omit [DecidableEq α] in
/-- A part without a character stands before it or after it. -/
theorem infix_append_cons_iff {pat t : List α} (h : c ∉ pat) :
    pat <:+: s ++ c :: t ↔ pat <:+: s ∨ pat <:+: t := by
  induction s with
  | nil =>
    have hnil : pat <+: c :: t ↔ pat <+: [] := prefix_append_cons_iff (s := []) h
    rw [List.nil_append, List.infix_cons_iff, hnil, List.prefix_nil, List.infix_nil]
  | cons x s ih =>
    have hcons : pat <+: x :: (s ++ c :: t) ↔ pat <+: x :: s :=
      prefix_append_cons_iff (s := x :: s) h
    rw [List.cons_append, List.infix_cons_iff, List.infix_cons_iff, hcons, ih, or_assoc]

/-! ### All occurrences -/

/-- The pieces after `fuel` cuts at most. -/
def piecesUpTo (sep : List α) : ℕ → List α → List (List α)
  | 0, s => [s]
  | fuel + 1, s =>
    match cut s sep with
    | none => [s]
    | some (piece, rest) => piece :: piecesUpTo sep fuel rest

/-- The pieces between the occurrences of the separator. -/
def pieces (s sep : List α) : List (List α) := piecesUpTo sep s.length s

theorem pieces_of_none (h : cut s sep = none) : pieces s sep = [s] := by
  rw [pieces]
  cases s.length with
  | zero => rfl
  | succ n => rw [piecesUpTo, h]

/-- Every cut takes a separator away, so that the length of the string is fuel enough. -/
theorem piecesUpTo_eq (hsep : sep ≠ []) {fuel fuel' : ℕ} (h : s.length ≤ fuel)
    (h' : s.length ≤ fuel') : piecesUpTo sep fuel s = piecesUpTo sep fuel' s := by
  have hpos : 0 < sep.length := List.length_pos_iff.mpr hsep
  have hshort (a b : List α) (hcut : cut s sep = some (a, b)) : b.length < s.length := by
    rw [eq_of_cut hcut, List.length_append, List.length_append]
    omega
  induction fuel generalizing s fuel' with
  | zero =>
    have hnone : cut s sep = none := by
      cases hcut : cut s sep with
      | none => rfl
      | some p => exact absurd (hshort p.1 p.2 hcut) (by omega)
    cases fuel' with
    | zero => rfl
    | succ n => rw [piecesUpTo, piecesUpTo, hnone]
  | succ fuel ih =>
    cases fuel' with
    | zero =>
      cases hcut : cut s sep with
      | none => rw [piecesUpTo, piecesUpTo, hcut]
      | some p => exact absurd (hshort p.1 p.2 hcut) (by omega)
    | succ fuel' =>
      rw [piecesUpTo, piecesUpTo]
      cases hcut : cut s sep with
      | none => rfl
      | some p =>
        have hlt := hshort p.1 p.2 hcut
        have hrest (a b : List α) (hcut : cut p.2 sep = some (a, b)) : b.length < p.2.length := by
          rw [eq_of_cut hcut, List.length_append, List.length_append]
          omega
        exact congrArg (p.1 :: ·) (ih (by omega) (by omega) hrest)

theorem pieces_of_cut {a b : List α} (hsep : sep ≠ []) (h : cut s sep = some (a, b)) :
    pieces s sep = a :: pieces b sep := by
  have hlen : b.length + sep.length ≤ s.length := by
    rw [eq_of_cut h, List.length_append, List.length_append]
    omega
  have hpos : 0 < sep.length := List.length_pos_iff.mpr hsep
  rw [pieces, piecesUpTo_eq hsep le_rfl (Nat.le_succ _), piecesUpTo, h]
  exact congrArg (a :: ·) (piecesUpTo_eq hsep (by omega) le_rfl)

/-- The pieces with a separator after each are the string with one more. -/
theorem flatMap_pieces (hsep : sep ≠ []) (s : List α) :
    (pieces s sep).flatMap (· ++ sep) = s ++ sep := by
  cases hcut : cut s sep with
  | none => simp [pieces_of_none hcut]
  | some p =>
    obtain ⟨a, b⟩ := p
    have heq := eq_of_cut hcut
    have hpos : 0 < sep.length := List.length_pos_iff.mpr hsep
    have hlt : b.length < s.length := by
      rw [heq, List.length_append, List.length_append]
      omega
    rw [pieces_of_cut hsep hcut, List.flatMap_cons, flatMap_pieces hsep b, heq]
    simp [List.append_assoc]
termination_by s.length

/-- Parts that were joined are the pieces. -/
theorem pieces_intercalate {t : List α} {ls : List (List α)} (hl : c ∉ l)
    (hls : ∀ l ∈ ls, c ∉ l) : pieces ((c :: t).intercalate (l :: ls)) (c :: t) = l :: ls := by
  induction ls generalizing l with
  | nil => rw [List.intercalate_singleton, pieces_of_none (cut_of_notMem hl)]
  | cons l' ls ih =>
    rw [List.intercalate_cons_cons, pieces_of_cut (List.cons_ne_nil c t) (cut_append hl _),
      ih (hls l' List.mem_cons_self) fun x hx => hls x (List.mem_cons_of_mem l' hx)]

/-- A block of parts ends at the first separator that is doubled. -/
theorem cut_block {t : List α} {ls : List (List α)} (ht : c ∉ t) (hl : c ∉ l)
    (hls : ∀ l ∈ ls, l ≠ [] ∧ c ∉ l) (body : List α) :
    cut ((l :: ls).flatMap (· ++ c :: t) ++ c :: t ++ body) (c :: t ++ c :: t) =
      some ((c :: t).intercalate (l :: ls), body) := by
  induction ls generalizing l with
  | nil =>
    have := cut_append (t := t ++ c :: t) hl body
    simpa [List.append_assoc] using this
  | cons l' ls ih =>
    obtain ⟨hne, hl'⟩ := hls l' List.mem_cons_self
    have hrest := ih hl' fun x hx => hls x (List.mem_cons_of_mem l' hx)
    have hsplit : (l :: l' :: ls).flatMap (· ++ c :: t) ++ c :: t ++ body =
        l ++ c :: (t ++ ((l' :: ls).flatMap (· ++ c :: t) ++ c :: t ++ body)) := by
      simp [List.append_assoc]
    -- the second part, which does not begin a separator, follows the first one's
    have hhead : ¬ c :: t <+: (l' :: ls).flatMap (· ++ c :: t) ++ c :: t ++ body := by
      intro h
      cases l' with
      | nil => exact hne rfl
      | cons x l' =>
        simp only [List.flatMap_cons, List.cons_append, List.cons_prefix_cons] at h
        exact hl' (h.1 ▸ List.mem_cons_self)
    rw [hsplit]
    generalize (l' :: ls).flatMap (· ++ c :: t) ++ c :: t ++ body = rest at hrest hhead
    have hpre : ¬ c :: (t ++ c :: t) <+: c :: (t ++ rest) :=
      fun h => hhead ((List.prefix_append_right_inj (c :: t)).mp h)
    rw [List.cons_append] at hrest ⊢
    rw [cut_append_of_notMem hl, cut_cons_of_not_prefix hpre, cut_append_of_notMem ht, hrest,
      List.intercalate_cons_cons]
    simp

end MetricServer.Base
