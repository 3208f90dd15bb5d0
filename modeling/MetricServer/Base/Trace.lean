import Mathlib.Data.List.Basic

/-! Runs of labelled steps. `Trace R s is t` says that the inputs `is` lead from
`s` to `t`, one step of `R` each; `when P R` keeps the steps whose input meets a
condition, so a trace of it is a run all of whose steps meet the condition. A
program that loops until it is done is a function into `Outcome`, and its runs
are the traces of its continuing steps. Two programs whose steps correspond have
runs that correspond. -/

namespace MetricServer.Base

variable {σ ι ρ : Type*}

/-- Steps between states, each under an input. -/
abbrev Steps (σ ι : Type*) := σ → ι → σ → Prop

inductive Trace (R : Steps σ ι) : σ → List ι → σ → Prop
  | nil (s : σ) : Trace R s [] s
  | cons {s t u : σ} {i : ι} {is : List ι} : R s i t → Trace R t is u → Trace R s (i :: is) u

/-- The steps of `R` taken from states and under inputs that meet `P`. -/
def when (P : σ → ι → Prop) (R : Steps σ ι) : Steps σ ι := fun s i t => P s i ∧ R s i t

namespace Trace

variable {R R' : Steps σ ι} {P : σ → ι → Prop} {I : σ → Prop} {s t u : σ} {is js : List ι} {i : ι}

theorem append (h : Trace R s is t) (h' : Trace R t js u) : Trace R s (is ++ js) u := by
  induction h with
  | nil => exact h'
  | cons hr _ ih => exact .cons hr (ih h')

theorem split : Trace R s (is ++ js) u → ∃ t, Trace R s is t ∧ Trace R t js u := by
  induction is generalizing s with
  | nil => exact fun h => ⟨s, .nil s, h⟩
  | cons i is ih =>
    rintro (_ | ⟨hr, h⟩)
    obtain ⟨t, hi, hj⟩ := ih h
    exact ⟨t, .cons hr hi, hj⟩

theorem mono (h : Trace R s is t) (hR : ∀ s i t, R s i t → R' s i t) : Trace R' s is t := by
  induction h with
  | nil s => exact .nil s
  | cons hr _ ih => exact .cons (hR _ _ _ hr) ih

/-- What holds at the start and is kept by every step holds at the end. -/
theorem invariant (h : Trace R s is t) (hI : ∀ i ∈ is, ∀ s t, I s → R s i t → I t) (hs : I s) :
    I t := by
  induction h with
  | nil => exact hs
  | cons hr _ ih =>
    exact ih (fun i hi => hI i (List.mem_cons_of_mem _ hi)) (hI _ List.mem_cons_self _ _ hs hr)

/-- Where every step lowers a measure the run is no longer than the measure is lowered. -/
theorem length_le {μ : σ → ℕ} (h : Trace R s is t) (hI : ∀ i s t, I s → R s i t → I t)
    (hμ : ∀ i s t, I s → R s i t → μ t < μ s) (hs : I s) : is.length + μ t ≤ μ s := by
  induction h with
  | nil => exact Nat.le_of_eq (Nat.zero_add _)
  | @cons s t u i is hr _ ih =>
    have hstep := hμ i s t hs hr
    have hrest := ih (hI i s t hs hr)
    rw [List.length_cons]
    omega

end Trace

/-- One step of a program: it goes on in a new state, or it is done. -/
inductive Outcome (σ ρ : Type*) where
  | next (s : σ)
  | done (r : ρ)

namespace Outcome

variable {p : σ → Bool} {q : ρ → Bool} {o : Outcome σ ρ}

/-- It goes on in a state that passes the test. -/
def goes (p : σ → Bool) : Outcome σ ρ → Bool
  | .next s => p s
  | .done _ => false

/-- It is done with a result that passes the test. -/
def ends (q : ρ → Bool) : Outcome σ ρ → Bool
  | .next _ => false
  | .done r => q r

/-- If it goes on, it does so in a state that meets `P`. -/
def onNext (P : σ → Prop) : Outcome σ ρ → Prop
  | .next s => P s
  | .done _ => True

instance (P : σ → Prop) [DecidablePred P] : (o : Outcome σ ρ) → Decidable (o.onNext P)
  | .next s => inferInstanceAs (Decidable (P s))
  | .done _ => inferInstanceAs (Decidable True)

theorem exists_of_goes (h : o.goes p) : ∃ s, o = .next s ∧ p s := by
  cases o with
  | next s => exact ⟨s, rfl, h⟩
  | done r => cases h

theorem exists_of_ends (h : o.ends q) : ∃ r, o = .done r ∧ q r := by
  cases o with
  | next s => cases h
  | done r => exact ⟨r, rfl, h⟩

end Outcome

/-- The continuing steps of a program. -/
def continues (step : σ → ι → Outcome σ ρ) : Steps σ ι := fun s i t => step s i = .next t

/-- The outcome of a program on a list of inputs, those after its end unread. -/
def runs (step : σ → ι → Outcome σ ρ) : σ → List ι → Outcome σ ρ
  | s, [] => .next s
  | s, i :: is =>
    match step s i with
    | .next t => runs step t is
    | .done r => .done r

theorem runs_append {step : σ → ι → Outcome σ ρ} (s : σ) (is js : List ι) :
    runs step s (is ++ js) =
      match runs step s is with
      | .next t => runs step t js
      | .done r => .done r := by
  induction is generalizing s with
  | nil => rfl
  | cons i is ih =>
    rw [List.cons_append, runs, runs]
    cases step s i with
    | next t => exact ih t
    | done r => rfl

section Simulation
variable {τ ϱ : Type*} {R : σ → τ → Prop} {Q : ρ → ϱ → Prop}

/-- Both go on, in states that correspond, or both are done, with results that correspond. -/
inductive Outcome.Rel (R : σ → τ → Prop) (Q : ρ → ϱ → Prop) :
    Outcome σ ρ → Outcome τ ϱ → Prop
  | next {s : σ} {t : τ} (h : R s t) : Outcome.Rel R Q (.next s) (.next t)
  | done {r : ρ} {q : ϱ} (h : Q r q) : Outcome.Rel R Q (.done r) (.done q)

/-- Programs correspond on every list of inputs if they do on every one. -/
theorem runs_rel {step : σ → ι → Outcome σ ρ} {step' : τ → ι → Outcome τ ϱ}
    (h : ∀ s t i, R s t → Outcome.Rel R Q (step s i) (step' t i)) {s : σ} {t : τ} (hst : R s t)
    (is : List ι) : Outcome.Rel R Q (runs step s is) (runs step' t is) := by
  induction is generalizing s t with
  | nil => exact .next hst
  | cons i is ih =>
    have hi := h s t i hst
    rw [runs, runs]
    generalize step s i = o at hi
    generalize step' t i = o' at hi
    cases hi with
    | next hst' => exact ih hst'
    | done hq => exact .done hq

end Simulation

theorem trace_of_runs {step : σ → ι → Outcome σ ρ} {s t : σ} {is : List ι}
    (h : runs step s is = .next t) : Trace (continues step) s is t := by
  induction is generalizing s with
  | nil =>
    obtain rfl : s = t := by simpa [runs] using h
    exact .nil s
  | cons i is ih =>
    rw [runs] at h
    split at h
    next u hu => exact .cons hu (ih h)
    next => cases h

theorem runs_of_trace {step : σ → ι → Outcome σ ρ} {s t : σ} {is : List ι}
    (h : Trace (continues step) s is t) : runs step s is = .next t := by
  induction h with
  | nil s => rfl
  | cons hstep _ ih =>
    rw [runs, hstep]
    exact ih

/-- A program that is done was brought to its last step by a run. -/
theorem exists_trace_of_runs {step : σ → ι → Outcome σ ρ} {s : σ} {is : List ι} {r : ρ}
    (h : runs step s is = .done r) :
    ∃ js i t, Trace (continues step) s js t ∧ step t i = .done r := by
  induction is generalizing s with
  | nil => cases h
  | cons i is ih =>
    rw [runs] at h
    split at h
    next u hu =>
      obtain ⟨js, j, t, htrace, hstep⟩ := ih h
      exact ⟨i :: js, j, t, .cons hu htrace, hstep⟩
    next r' hr' =>
      cases h
      exact ⟨[], i, s, .nil s, hr'⟩

/-- The steps of a program on a list of inputs all go on, from states and under inputs
that meet `P`. -/
def meets (P : σ → ι → Prop) [∀ s i, Decidable (P s i)] (step : σ → ι → Outcome σ ρ) :
    σ → List ι → Bool
  | _, [] => true
  | s, i :: is => decide (P s i) && (step s i).goes fun t => meets P step t is

theorem trace_of_meets {P : σ → ι → Prop} [∀ s i, Decidable (P s i)]
    {step : σ → ι → Outcome σ ρ} {s t : σ} {is : List ι} (h : runs step s is = .next t)
    (hm : meets P step s is) : Trace (when P (continues step)) s is t := by
  induction is generalizing s with
  | nil =>
    obtain rfl : s = t := by simpa [runs] using h
    exact .nil s
  | cons i is ih =>
    obtain ⟨hP, hm⟩ : P s i ∧ ((step s i).goes fun t => meets P step t is) = true := by
      simpa [meets] using hm
    obtain ⟨u, hu, hm⟩ := Outcome.exists_of_goes hm
    rw [runs, hu] at h
    exact .cons ⟨hP, hu⟩ (ih h hm)

/-- Every step that a program takes on a list of inputs, the last one included, is taken from a
state and under an input that meet `P`. -/
def along (P : σ → ι → Prop) (step : σ → ι → Outcome σ ρ) : σ → List ι → Prop
  | _, [] => True
  | s, i :: is => P s i ∧ (step s i).onNext fun t => along P step t is

instance decidableAlong (P : σ → ι → Prop) [∀ s i, Decidable (P s i)] (step : σ → ι → Outcome σ ρ) :
    (s : σ) → (is : List ι) → Decidable (along P step s is)
  | _, [] => inferInstanceAs (Decidable True)
  | s, i :: is =>
    have := fun t => decidableAlong P step t is
    inferInstanceAs (Decidable (P s i ∧ (step s i).onNext fun t => along P step t is))

end MetricServer.Base
