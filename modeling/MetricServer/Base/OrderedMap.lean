import Mathlib.Data.List.Sort
import Mathlib.Order.Defs.LinearOrder

/-! An ordered map as the list of its entries in strictly increasing key order,
with the two operations of the standard library's map that assign to an entry
found and that insert a missing key. -/

namespace MetricServer.Base

/-- A map whose entries are listed in increasing order of their keys. -/
structure OrderedMap (κ ν : Type*) [LinearOrder κ] where
  entries : List (κ × ν)
  sorted : (entries.map Prod.fst).Pairwise (· < ·)

namespace OrderedMap

variable {κ ν : Type*} [LinearOrder κ]

def empty : OrderedMap κ ν := ⟨[], List.Pairwise.nil⟩

/-- The value an entry holds, if the key has one. -/
def find (m : OrderedMap κ ν) (k : κ) : Option ν := (m.entries.find? (·.1 = k)).map Prod.snd

/-- `it->second = v` at the entry found for `k`. -/
def assign (m : OrderedMap κ ν) (k : κ) (v : ν) : OrderedMap κ ν where
  entries := m.entries.map fun e => if e.1 = k then (e.1, v) else e
  sorted := by
    rw [List.map_map]
    convert m.sorted using 2
    funext e
    by_cases h : e.1 = k <;> simp [h]

def insertEntry (k : κ) (v : ν) : List (κ × ν) → List (κ × ν)
  | [] => [(k, v)]
  | e :: es =>
    if k < e.1 then (k, v) :: e :: es
    else if k = e.1 then e :: es
    else e :: insertEntry k v es

theorem mem_insertEntry {k k' : κ} {v : ν} {es : List (κ × ν)}
    (h : k' ∈ (insertEntry k v es).map Prod.fst) : k' = k ∨ k' ∈ es.map Prod.fst := by
  induction es with
  | nil => simpa [insertEntry] using h
  | cons e es ih =>
    rw [insertEntry] at h
    split_ifs at h with hlt heq
    · simpa using h
    · exact .inr h
    · rw [List.map_cons, List.mem_cons] at h ⊢
      rcases h with rfl | h
      · exact .inr (.inl rfl)
      · exact (ih h).imp id .inr

theorem sorted_insertEntry (k : κ) (v : ν) (es : List (κ × ν))
    (hs : (es.map Prod.fst).Pairwise (· < ·)) :
    ((insertEntry k v es).map Prod.fst).Pairwise (· < ·) := by
  induction es with
  | nil => simp [insertEntry]
  | cons e es ih =>
    obtain ⟨he, hes⟩ := List.pairwise_cons.mp hs
    rw [insertEntry]
    split_ifs with hlt heq
    · refine List.pairwise_cons.mpr ⟨?_, hs⟩
      intro k' hk'
      rcases List.mem_cons.mp hk' with rfl | hk'
      · exact hlt
      · exact hlt.trans (he k' hk')
    · exact hs
    · refine List.pairwise_cons.mpr ⟨?_, ih hes⟩
      intro k' hk'
      rcases mem_insertEntry hk' with rfl | hk'
      · exact lt_of_le_of_ne (not_lt.mp hlt) (Ne.symm heq)
      · exact he k' hk'

/-- `insert(make_pair(k, v))`, which leaves an entry that is already there alone. -/
def insert (m : OrderedMap κ ν) (k : κ) (v : ν) : OrderedMap κ ν where
  entries := insertEntry k v m.entries
  sorted := sorted_insertEntry k v m.entries m.sorted

/-! ### What is found -/

section Find
variable {m m' : OrderedMap κ ν} {k k' : κ} {v : ν}

@[simp] theorem find_empty (k : κ) : (empty : OrderedMap κ ν).find k = none := rfl

/-- An entry is found, and what is found is an entry. -/
theorem mem_entries_iff : (k, v) ∈ m.entries ↔ m.find k = some v := by
  obtain ⟨es, hsorted⟩ := m
  rw [find]
  induction es with
  | nil => simp
  | cons e es ih =>
    obtain ⟨he, hes⟩ := List.pairwise_cons.mp hsorted
    rw [List.find?_cons]
    by_cases h : e.1 = k
    · have hnot : (k, v) ∉ es := by
        intro hmem
        exact absurd (he k (List.mem_map_of_mem hmem)) (by simp [h])
      simp [h, hnot, Prod.ext_iff, eq_comm]
    · have hne : (k, v) ≠ e := fun heq => h (heq ▸ rfl)
      simpa [h, hne] using ih hes

theorem find_assign (m : OrderedMap κ ν) (k : κ) (v : ν) (k' : κ) :
    (m.assign k v).find k' = if k' = k then (m.find k).map fun _ => v else m.find k' := by
  obtain ⟨es, hsorted⟩ := m
  simp only [find, assign]
  clear hsorted
  induction es with
  | nil => simp
  | cons e es ih =>
    simp only [List.map_cons, List.find?_cons]
    by_cases h : e.1 = k
    · by_cases hk : k' = k
      · simp [h, hk]
      · simp_all [Ne.symm hk]
    · by_cases hk : e.1 = k' <;> simp_all [eq_comm]

theorem find_insert (m : OrderedMap κ ν) (v : ν) (h : m.find k = none) (k' : κ) :
    (m.insert k v).find k' = if k' = k then some v else m.find k' := by
  obtain ⟨es, hsorted⟩ := m
  simp only [find, insert] at h ⊢
  clear hsorted
  induction es with
  | nil => by_cases hk : k = k' <;> simp [insertEntry, hk, eq_comm]
  | cons e es ih =>
    rw [List.find?_cons] at h
    by_cases he : e.1 = k
    · simp [he] at h
    · rw [insertEntry]
      by_cases hlt : k < e.1
      · rw [if_pos hlt, List.find?_cons]
        by_cases hk : k = k' <;> simp [hk, eq_comm]
      · have hrest := ih (by simpa [he] using h)
        rw [if_neg hlt, if_neg (Ne.symm he), List.find?_cons, List.find?_cons]
        by_cases hk : e.1 = k'
        · have hne : k' ≠ k := hk ▸ he
          simp [hk, hne]
        · simpa [hk] using hrest

theorem eq_of_entries (h : m.entries = m'.entries) : m = m' := by
  cases m
  cases m'
  congr

/-- A map is what is found in it. -/
theorem ext_find (h : ∀ k, m.find k = m'.find k) : m = m' := by
  have hnodup (m : OrderedMap κ ν) : m.entries.Nodup :=
    List.Nodup.of_map Prod.fst (m.sorted.imp ne_of_lt)
  have hperm : m.entries.Perm m'.entries := by
    rw [List.perm_ext_iff_of_nodup (hnodup m) (hnodup m')]
    rintro ⟨k, v⟩
    rw [mem_entries_iff, mem_entries_iff, h]
  exact eq_of_entries <| hperm.eq_of_pairwise (fun _ _ _ _ h h' => absurd h (not_lt_of_gt h'))
    (List.pairwise_map.mp m.sorted) (List.pairwise_map.mp m'.sorted)

end Find

/-! ### Upserts -/

/-- The entry for the key is assigned, or inserted when there is none. -/
def set (m : OrderedMap κ ν) (k : κ) (v : ν) : OrderedMap κ ν :=
  if (m.find k).isSome then m.assign k v else m.insert k v

theorem find_set (m : OrderedMap κ ν) (k : κ) (v : ν) (k' : κ) :
    (m.set k v).find k' = if k' = k then some v else m.find k' := by
  rw [set]
  cases h : m.find k with
  | none => simpa using find_insert m v h k'
  | some v' => simpa [h] using find_assign m k v k'

/-- The map after a list of upserts. -/
def setAll (m : OrderedMap κ ν) (calls : List (κ × ν)) : OrderedMap κ ν :=
  calls.foldl (fun m e => m.set e.1 e.2) m

/-- The last upsert of a key is found, or what was found before them. -/
theorem find_setAll [BEq κ] [LawfulBEq κ] (m : OrderedMap κ ν) (calls : List (κ × ν)) (k : κ) :
    (m.setAll calls).find k = (calls.reverse.lookup k).or (m.find k) := by
  induction calls generalizing m with
  | nil => simp [setAll]
  | cons e calls ih =>
    obtain ⟨k', v⟩ := e
    have hstep : m.setAll ((k', v) :: calls) = (m.set k' v).setAll calls := rfl
    rw [hstep, ih, find_set, List.reverse_cons, List.lookup_append, List.lookup_cons]
    cases calls.reverse.lookup k with
    | some v => rfl
    | none => by_cases h : k = k' <;> simp [h, beq_eq_false_iff_ne.mpr]

end OrderedMap

/-! ### Lists with distinct keys -/

section Lookup
variable {κ ν : Type*} [BEq κ] [LawfulBEq κ] {es : List (κ × ν)} {k : κ} {v : ν}

theorem lookup_eq_some_iff_mem (h : (es.map Prod.fst).Nodup) :
    es.lookup k = some v ↔ (k, v) ∈ es := by
  induction es with
  | nil => simp
  | cons e es ih =>
    obtain ⟨k', v'⟩ := e
    obtain ⟨hk', hes⟩ := List.nodup_cons.mp h
    rw [List.lookup_cons, List.mem_cons]
    by_cases hk : k = k'
    · have hnot : (k', v) ∉ es := fun hmem => hk' (List.mem_map.mpr ⟨_, hmem, rfl⟩)
      simp [hk, hnot, eq_comm]
    · simp [hk, beq_eq_false_iff_ne.mpr, ih hes]

theorem lookup_reverse (h : (es.map Prod.fst).Nodup) : es.reverse.lookup k = es.lookup k := by
  ext v
  have hreverse : (es.reverse.map Prod.fst).Nodup := by
    rw [List.map_reverse]
    exact List.nodup_reverse.mpr h
  rw [lookup_eq_some_iff_mem hreverse, lookup_eq_some_iff_mem h, List.mem_reverse]

end Lookup

end MetricServer.Base
