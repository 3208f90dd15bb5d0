import Mathlib.Data.List.Basic

/-! A ledger of resources over a log of events. Events acquire, use and release
resources; a log is disciplined when nothing is used or released after it was
released, orderly in some resources when none of these is used then, and settled
when everything acquired is released. All are read off the log alone, whatever the
events are; and so is what stands in it before an event. -/

namespace MetricServer.Base

/-- What an event does to the resources it names. -/
structure Ledger (ε ρ : Type*) where
  acquires : ε → ρ → Prop
  uses : ε → ρ → Prop
  releases : ε → ρ → Prop

namespace Ledger

variable {ε ρ : Type*} (L : Ledger ε ρ)

/-- The event uses or releases the resource. -/
def touches (e : ε) (r : ρ) : Prop := L.uses e r ∨ L.releases e r

def Acquired (log : List ε) (r : ρ) : Prop := ∃ e ∈ log, L.acquires e r

def Touched (log : List ε) (r : ρ) : Prop := ∃ e ∈ log, L.touches e r

def Released (log : List ε) (r : ρ) : Prop := ∃ e ∈ log, L.releases e r

/-- No resource is used or released once it has been released. -/
def Disciplined (log : List ε) : Prop :=
  log.Pairwise fun e e' => ∀ r, L.releases e r → ¬ L.touches e' r

/-- Every resource acquired has been released. -/
def Settled (log : List ε) : Prop := ∀ r, L.Acquired log r → L.Released log r

variable {L} {log log' : List ε} {e : ε} {r : ρ}

@[simp] theorem acquired_nil : ¬ L.Acquired [] r := by simp [Acquired]

@[simp] theorem touched_nil : ¬ L.Touched [] r := by simp [Touched]

@[simp] theorem released_nil : ¬ L.Released [] r := by simp [Released]

@[simp] theorem acquired_cons : L.Acquired (e :: log) r ↔ L.acquires e r ∨ L.Acquired log r := by
  simp [Acquired]

@[simp] theorem touched_cons : L.Touched (e :: log) r ↔ L.touches e r ∨ L.Touched log r := by
  simp [Touched]

@[simp] theorem released_cons : L.Released (e :: log) r ↔ L.releases e r ∨ L.Released log r := by
  simp [Released]

@[simp] theorem acquired_append :
    L.Acquired (log ++ log') r ↔ L.Acquired log r ∨ L.Acquired log' r := by
  simp [Acquired, or_and_right, exists_or]

@[simp] theorem touched_append :
    L.Touched (log ++ log') r ↔ L.Touched log r ∨ L.Touched log' r := by
  simp [Touched, or_and_right, exists_or]

@[simp] theorem released_append :
    L.Released (log ++ log') r ↔ L.Released log r ∨ L.Released log' r := by
  simp [Released, or_and_right, exists_or]

theorem Released.touched (h : L.Released log r) : L.Touched log r :=
  let ⟨e, he, hr⟩ := h
  ⟨e, he, .inr hr⟩

@[simp] theorem disciplined_nil : L.Disciplined [] := List.Pairwise.nil

/-- A log is extended safely by what leaves its released resources alone. -/
theorem disciplined_append : L.Disciplined (log ++ log') ↔
    L.Disciplined log ∧ L.Disciplined log' ∧ ∀ r, L.Released log r → ¬ L.Touched log' r := by
  rw [Disciplined, List.pairwise_append]
  refine and_congr_right fun _ => and_congr_right fun _ => ⟨?_, ?_⟩
  · rintro h r ⟨e, he, hr⟩ ⟨e', he', ht⟩
    exact h e he e' he' r hr ht
  · intro h e he e' he' r hr ht
    exact h r ⟨e, he, hr⟩ ⟨e', he', ht⟩

/-- Events that release nothing are disciplined. -/
theorem disciplined_of_not_released (h : ∀ r, ¬ L.Released log r) : L.Disciplined log := by
  induction log with
  | nil => exact disciplined_nil
  | cons e log ih =>
    refine List.pairwise_cons.mpr ⟨fun _ _ r hr => absurd (released_cons.mpr (.inl hr)) (h r), ?_⟩
    exact ih fun r hr => h r (released_cons.mpr (.inr hr))

variable {logs logs' : List (List ε)}

@[simp] theorem acquired_flatten : L.Acquired logs.flatten r ↔ ∃ l ∈ logs, L.Acquired l r := by
  induction logs with
  | nil => simp
  | cons l logs ih => simp [ih]

@[simp] theorem touched_flatten : L.Touched logs.flatten r ↔ ∃ l ∈ logs, L.Touched l r := by
  induction logs with
  | nil => simp
  | cons l logs ih => simp [ih]

@[simp] theorem released_flatten : L.Released logs.flatten r ↔ ∃ l ∈ logs, L.Released l r := by
  induction logs with
  | nil => simp
  | cons l logs ih => simp [ih]

/-- The logs touch no resource in common. -/
def Apart (L : Ledger ε ρ) (log log' : List ε) : Prop := ∀ r, L.Touched log r → ¬ L.Touched log' r

theorem Apart.symm (h : L.Apart log log') : L.Apart log' log := fun r hr hr' => h r hr' hr

/-- Disciplined logs that are apart are disciplined one after the other. -/
theorem disciplined_flatten (h : ∀ l ∈ logs, L.Disciplined l) (hapart : logs.Pairwise L.Apart) :
    L.Disciplined logs.flatten := by
  induction logs with
  | nil => simp
  | cons l logs ih =>
    obtain ⟨hl, hlogs⟩ := List.pairwise_cons.mp hapart
    rw [List.flatten_cons, disciplined_append]
    refine ⟨h l (by simp), ih (fun l' hl' => h l' (by simp [hl'])) hlogs, fun r hr ht => ?_⟩
    obtain ⟨l', hl', ht⟩ := touched_flatten.mp ht
    exact hl l' hl' r hr.touched ht

/-- They are in any order. -/
theorem disciplined_flatten_of_perm (h : ∀ l ∈ logs, L.Disciplined l)
    (hapart : logs.Pairwise L.Apart) (hperm : logs'.Perm logs) : L.Disciplined logs'.flatten :=
  disciplined_flatten (fun l hl => h l (hperm.mem_iff.mp hl))
    ((hperm.pairwise_iff fun h => h.symm).mpr hapart)

/-! ### Use after release -/

section Orderly
variable {Q Q' : ρ → Prop}

def Used (L : Ledger ε ρ) (log : List ε) (r : ρ) : Prop := ∃ e ∈ log, L.uses e r

/-- No resource in question is used once it has been released, even if it is released again. -/
def Orderly (L : Ledger ε ρ) (Q : ρ → Prop) (log : List ε) : Prop :=
  log.Pairwise fun e e' => ∀ r, Q r → L.releases e r → ¬ L.uses e' r

theorem Used.touched (h : L.Used log r) : L.Touched log r :=
  let ⟨e, he, hr⟩ := h
  ⟨e, he, .inl hr⟩

theorem Orderly.mono (h : L.Orderly Q log) (hQ : ∀ r, Q' r → Q r) : L.Orderly Q' log :=
  h.imp fun he r hr => he r (hQ r hr)

theorem orderly_append : L.Orderly Q (log ++ log') ↔
    L.Orderly Q log ∧ L.Orderly Q log' ∧ ∀ r, Q r → L.Released log r → ¬ L.Used log' r := by
  rw [Orderly, List.pairwise_append]
  refine and_congr_right fun _ => and_congr_right fun _ => ⟨?_, ?_⟩
  · rintro h r hr ⟨e, he, hrel⟩ ⟨e', he', huse⟩
    exact h e he e' he' r hr hrel huse
  · intro h e he e' he' r hr hrel huse
    exact h r hr ⟨e, he, hrel⟩ ⟨e', he', huse⟩

theorem orderly_of_not_used (h : ∀ r, ¬ L.Used log r) : L.Orderly Q log := by
  refine List.pairwise_of_forall_mem_list fun e _ e' he' r _ _ huse => ?_
  exact h r ⟨e', he', huse⟩

theorem orderly_of_not_released (h : ∀ r, ¬ L.Released log r) : L.Orderly Q log := by
  refine List.pairwise_of_forall_mem_list fun e he e' _ r _ hrel _ => ?_
  exact h r ⟨e, he, hrel⟩

/-- Orderly logs that are apart are orderly one after the other. -/
theorem orderly_flatten (h : ∀ l ∈ logs, L.Orderly Q l) (hapart : logs.Pairwise L.Apart) :
    L.Orderly Q logs.flatten := by
  induction logs with
  | nil => exact List.Pairwise.nil
  | cons l logs ih =>
    obtain ⟨hl, hlogs⟩ := List.pairwise_cons.mp hapart
    rw [List.flatten_cons, orderly_append]
    refine ⟨h l (by simp), ih (fun l' hl' => h l' (by simp [hl'])) hlogs, fun r _ hrel huse => ?_⟩
    obtain ⟨l', hl', ht⟩ := touched_flatten.mp huse.touched
    exact hl l' hl' r hrel.touched ht

end Orderly

end Ledger

/-! ### What stands before an event -/

section Past
variable {ε : Type*} {P P' : List ε → ε → Prop} {log log' : List ε}

/-- Every event meets `P` together with the events before it. -/
def Past (P : List ε → ε → Prop) (log : List ε) : Prop :=
  ∀ before e after, log = before ++ e :: after → P before e

theorem Past.mono (h : Past P log) (hP : ∀ before e, before <+: log → P before e → P' before e) :
    Past P' log := by
  intro before e after heq
  exact hP before e ⟨e :: after, heq.symm⟩ (h before e after heq)

theorem past_of_forall (h : ∀ before, ∀ e ∈ log, P before e) : Past P log := by
  rintro before e after rfl
  exact h before e (by simp)

theorem past_append :
    Past P (log ++ log') ↔ Past P log ∧ Past (fun before e => P (log ++ before) e) log' := by
  constructor
  · intro h
    refine ⟨fun before e after heq => h before e (after ++ log') ?_, fun before e after heq => ?_⟩
    · rw [heq, List.append_assoc, List.cons_append]
    · exact h (log ++ before) e after (by rw [heq, List.append_assoc])
  · rintro ⟨h, h'⟩ before e after heq
    obtain ⟨m, rfl, hm⟩ | ⟨m, hm, hcons⟩ := List.append_eq_append_iff.mp heq
    · exact h' m e after hm
    · cases m with
      | nil =>
        rw [List.append_nil] at hm
        have hfirst : P (log ++ []) e := h' [] e after hcons.symm
        rwa [List.append_nil, hm] at hfirst
      | cons e' m =>
        obtain ⟨rfl, rfl⟩ := List.cons.inj hcons
        exact h before e m hm

/-- Rewriting the events in the light of those before them changes none that stands as it is. -/
theorem mapIdx_eq_of_past {f : List ε → ε → ε} (h : Past (fun before e => f before e = e) log) :
    (log.mapIdx fun i e => f (log.take i) e) = log := by
  refine List.ext_getElem (by simp) fun i h₁ h₂ => ?_
  rw [List.getElem_mapIdx]
  exact h (log.take i) log[i] (log.drop (i + 1)) (by simp)

end Past

end MetricServer.Base
