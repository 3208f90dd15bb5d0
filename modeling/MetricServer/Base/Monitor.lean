import Mathlib.Logic.Function.Basic

/-! Monitors over any type of threads. A thread enters a free monitor, leaves it, waits,
which lets go of it, or wakes all that wait; a thread that waits comes back when it
was woken and the monitor is free, and for no other reason. Where the threads stand
is a function of their program counters, and each operation changes it for the
thread that performs it. -/

namespace MetricServer.Base

/-- The thread that holds the monitor, and those that wait to be woken. -/
structure Monitor (θ : Type*) where
  owner : Option θ
  waiting : List θ

/-- Where a thread stands to a monitor. A thread that waits may have been woken. -/
inductive Standing where
  | outside | holding | waiting
  deriving DecidableEq

namespace Monitor

variable {θ : Type*} [DecidableEq θ]

def free : Monitor θ := ⟨none, []⟩

def enter (m : Monitor θ) (t : θ) : Option (Monitor θ) :=
  if m.owner = none then some { m with owner := some t } else none

def exit (m : Monitor θ) (t : θ) : Option (Monitor θ) :=
  if m.owner = some t then some { m with owner := none } else none

/-- The thread lets go of the monitor and waits. -/
def wait (m : Monitor θ) (t : θ) : Option (Monitor θ) :=
  if m.owner = some t then some ⟨none, t :: m.waiting⟩ else none

/-- The thread comes back from its wait. -/
def resume (m : Monitor θ) (t : θ) : Option (Monitor θ) :=
  if m.owner = none ∧ t ∉ m.waiting then some { m with owner := some t } else none

def notifyAll (m : Monitor θ) (t : θ) : Option (Monitor θ) :=
  if m.owner = some t then some { m with waiting := [] } else none

section Waiting
variable {m m' : Monitor θ} {t : θ}

omit [DecidableEq θ] in
theorem waiting_enter (h : m.enter t = some m') : m'.waiting = m.waiting := by
  rw [enter] at h
  split at h
  next => cases h; rfl
  next => cases h

theorem waiting_exit (h : m.exit t = some m') : m'.waiting = m.waiting := by
  rw [exit] at h
  split at h
  next => cases h; rfl
  next => cases h

theorem mem_waiting_wait (h : m.wait t = some m') : t ∈ m'.waiting := by
  rw [wait] at h
  split at h
  next => cases h; exact List.mem_cons_self
  next => cases h

theorem notMem_waiting_of_resume (h : m.resume t = some m') : t ∉ m.waiting := by
  rw [resume] at h
  split at h
  next hfree => exact hfree.2
  next => cases h

theorem waiting_notifyAll (h : m.notifyAll t = some m') : m'.waiting = [] := by
  rw [notifyAll] at h
  split at h
  next => cases h; rfl
  next => cases h

end Waiting

/-- The threads stand as the monitor has it. -/
structure Fits (m : Monitor θ) (st : θ → Standing) : Prop where
  holds : ∀ t, m.owner = some t ↔ st t = .holding
  waits : ∀ t ∈ m.waiting, st t = .waiting

namespace Fits

variable {m m' : Monitor θ} {st : θ → Standing} {t t' : θ}

omit [DecidableEq θ] in
/-- No two threads hold a monitor. -/
theorem unique (h : m.Fits st) (ht : st t = .holding) (ht' : st t' = .holding) : t = t' :=
  Option.some.inj (((h.holds t).mpr ht).symm.trans ((h.holds t').mpr ht'))

omit [DecidableEq θ] in
theorem free (h : ∀ t, st t = .outside) : (Monitor.free : Monitor θ).Fits st :=
  ⟨fun t => by simp [Monitor.free, h t], by simp [Monitor.free]⟩

omit [DecidableEq θ] in
/-- A monitor that no thread holds is free. -/
theorem owner_eq_none (h : m.Fits st) (hout : ∀ t, st t ≠ .holding) : m.owner = none :=
  Option.eq_none_iff_forall_ne_some.mpr fun t ht => hout t ((h.holds t).mp ht)

/-- A thread that takes a free monitor stands in it from then on. -/
theorem take (h : m.Fits st) (hfree : m.owner = none) (ht : t ∉ m.waiting) :
    ({ m with owner := some t } : Monitor θ).Fits (Function.update st t .holding) := by
  refine ⟨fun t' => ?_, fun t' ht' => ?_⟩
  · rcases eq_or_ne t' t with rfl | hne
    · simp
    · have := (h.holds t').not.mp (by simp [hfree])
      simp [hne, hne.symm, this]
  · rw [Function.update_of_ne (ne_of_mem_of_not_mem ht' ht)]
    exact h.waits t' ht'

/-- A thread that lets go of the monitor stands elsewhere. -/
theorem release (h : m.Fits st) (howner : m.owner = some t) {w : Standing} (hw : w ≠ .holding) :
    ({ m with owner := none } : Monitor θ).Fits (Function.update st t w) := by
  refine ⟨fun t' => ?_, fun t' ht' => ?_⟩
  · rcases eq_or_ne t' t with rfl | hne
    · simp [hw]
    · have := (h.holds t').not.mp (by simp [howner, hne.symm])
      simp [hne, this]
  · have hne : t' ≠ t := by
      rintro rfl
      have := ((h.holds t').mp howner).symm.trans (h.waits t' ht')
      cases this
    rw [Function.update_of_ne hne]
    exact h.waits t' ht'

theorem enter (h : m.Fits st) (ht : st t = .outside) (hm : m.enter t = some m') :
    m'.Fits (Function.update st t .holding) := by
  rw [Monitor.enter] at hm
  split at hm
  next hfree =>
    cases hm
    exact h.take hfree fun hmem => by simp [h.waits t hmem] at ht
  next => cases hm

theorem resume (h : m.Fits st) (hm : m.resume t = some m') :
    m'.Fits (Function.update st t .holding) := by
  rw [Monitor.resume] at hm
  split at hm
  next hfree =>
    cases hm
    exact h.take hfree.1 hfree.2
  next => cases hm

theorem exit (h : m.Fits st) (hm : m.exit t = some m') :
    m'.Fits (Function.update st t .outside) := by
  rw [Monitor.exit] at hm
  split at hm
  next howner =>
    cases hm
    exact h.release howner (by decide)
  next => cases hm

theorem wait (h : m.Fits st) (hm : m.wait t = some m') :
    m'.Fits (Function.update st t .waiting) := by
  rw [Monitor.wait] at hm
  split at hm
  next howner =>
    cases hm
    have hrelease := h.release howner (w := .waiting) (by decide)
    refine ⟨hrelease.holds, fun t' ht' => ?_⟩
    obtain rfl | ht' := List.mem_cons.mp ht'
    · simp
    · exact hrelease.waits t' ht'
  next => cases hm

theorem notifyAll (h : m.Fits st) (hm : m.notifyAll t = some m') : m'.Fits st := by
  rw [Monitor.notifyAll] at hm
  split at hm
  next =>
    cases hm
    exact ⟨h.holds, by simp⟩
  next => cases hm

end Fits

end Monitor

end MetricServer.Base
