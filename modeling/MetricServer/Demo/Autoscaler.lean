import MetricServer.Base.Trace
import MetricServer.Demo.Messages

/-! The main loop of the autoscaler. It starts with one instance. Then it reads the loads
again and again, goes over the instances that it had at the time, and for the first one
that is busy makes another, as long as there are fewer than five, and tells the launcher
of it. -/

namespace MetricServer.Demo

open Base Http

/-- What `make_jitserver_instance` is given. -/
structure Instance where
  port : ℤ
  metricport : ℤ
  httpsmetricport : ℤ
  deriving DecidableEq

/-- A call of `send_new_port` that reached the launcher, and the bytes it sent. -/
structure Message where
  jitPort : ℤ
  metricPorts : List ℤ
  load : ℤ → Option ℤ
  bytes : Bytes

/-- What `main` holds, with the instances it has made and the messages it has sent. -/
structure Autoscaler where
  jitPort : ℤ
  metricPort : ℤ
  httpsPort : ℤ
  metricPorts : List ℤ
  new : Bool
  instances : List Instance
  sent : List Message

/-- What a call of `send_new_port` finds: whether the launcher takes the connection, and what
the calls of `send` take. -/
structure Delivery where
  connected : Bool
  results : List ℕ

/-- What a turn of the main loop reads: the ports and values of the query's result, and what the
call of `send_new_port` finds, if there is one. -/
structure Scrape where
  result : List (ℤ × ℤ)
  delivery : Delivery

/-- The dictionary that `get_metrics` makes, in which a later value replaces an earlier one. -/
def getMetrics (result : List (ℤ × ℤ)) (port : ℤ) : Option ℤ := result.reverse.lookup port

namespace Autoscaler

/-- `send_new_port`, which raises or does not come back unless it has a result. -/
def announce (s : Autoscaler) (load : ℤ → Option ℤ) (d : Delivery) :
    Outcome Autoscaler Autoscaler :=
  match sendNewPort d.connected s.jitPort s.metricPorts load d.results with
  | none => .done s
  | some bytes =>
    .next (if d.connected then
      { s with sent := s.sent ++ [⟨s.jitPort, s.metricPorts, load, bytes⟩] }
    else s)

def makeInstance (s : Autoscaler) : Autoscaler :=
  { s with instances := s.instances ++ [⟨s.jitPort, s.metricPort, s.httpsPort⟩] }

/-- The branch for a busy instance, up to its message. -/
def grow (s : Autoscaler) : Autoscaler :=
  let s := { s with
    jitPort := s.jitPort + 1
    metricPort := s.metricPort + 2
    httpsPort := s.httpsPort + 2 }
  let s := { s.makeInstance with new := true }
  { s with metricPorts := s.metricPorts ++ [s.metricPort] }

def scale (s : Autoscaler) (load : ℤ → Option ℤ) (d : Delivery) : Outcome Autoscaler Autoscaler :=
  s.grow.announce load d

/-- The turn of the loop over `metric_ports` for place `i`. -/
def turn (load : ℤ → Option ℤ) (d : Delivery) (s : Autoscaler) (i : ℕ) :
    Outcome Autoscaler Autoscaler :=
  match s.metricPorts[i]?.bind load with
  | some l => if 5 ≤ l ∧ s.metricPorts.length < 5 ∧ ¬ s.new then s.scale load d else .next s
  | none => .next s

/-- A turn of the main loop. -/
def iteration (s : Autoscaler) (r : Scrape) : Outcome Autoscaler Autoscaler :=
  runs (turn (getMetrics r.result) r.delivery) { s with new := false }
    (List.range s.metricPorts.length)

/-- The load in the first message. -/
def firstLoad (port : ℤ) : Option ℤ := if port = 7390 then some 0 else none

/-- What `main` does before its loop. -/
def start (d : Delivery) : Outcome Autoscaler Autoscaler :=
  announce (makeInstance ⟨3840, 7390, 7391, [7390], false, [], []⟩) firstLoad d

/-- After the given turns `main` is at the head of its loop. -/
def Reaches (d : Delivery) (rounds : List Scrape) (s : Autoscaler) : Prop :=
  ∃ s₀, start d = .next s₀ ∧ Trace (continues iteration) s₀ rounds s

/-! ### One turn of the main loop -/

variable {s t : Autoscaler} {load : ℤ → Option ℤ} {d : Delivery} {is : List ℕ} {i : ℕ}

/-- An instance with five clients or more. -/
def busy (s : Autoscaler) (load : ℤ → Option ℤ) : Bool :=
  s.metricPorts.any fun port => (load port).any (5 ≤ ·)

theorem announce_next (h : s.announce load d = .next t) :
    ∃ messages, t = { s with sent := s.sent ++ messages } := by
  rw [announce] at h
  split at h
  next => cases h
  next bytes =>
    obtain rfl := Outcome.next.inj h
    split_ifs
    · exact ⟨_, rfl⟩
    · exact ⟨[], by rw [List.append_nil]⟩

/-- After an instance was made nothing more is done in the turn. -/
theorem runs_turn_of_new (h : s.new) : runs (turn load d) s is = .next s := by
  induction is with
  | nil => rfl
  | cons i is ih =>
    have hturn : turn load d s i = .next s := by
      rw [turn]
      split
      · rw [if_neg (by simp [h])]
      · rfl
    rw [runs, hturn]
    exact ih

theorem new_of_scale (h : s.scale load d = .next t) : t.new := by
  obtain ⟨messages, rfl⟩ := announce_next h
  rfl

/-- The first busy instance among those looked at decides. -/
theorem runs_turn_eq (h : s.new = false) :
    runs (turn load d) s is =
      if s.metricPorts.length < 5 ∧
          is.any fun i => (s.metricPorts[i]?.bind load).any (5 ≤ ·) then
        s.scale load d
      else .next s := by
  induction is with
  | nil => simp [runs]
  | cons i is ih =>
    rw [runs, turn]
    cases hl : s.metricPorts[i]?.bind load with
    | none => simpa [hl] using ih
    | some l =>
      by_cases hle : 5 ≤ l
      · by_cases hlen : s.metricPorts.length < 5
        · simp only [hle, hlen, h, Bool.false_eq_true, not_false_iff, and_self, if_true]
          rw [if_pos ⟨trivial, by simp [hl, hle]⟩]
          cases hscale : s.scale load d with
          | next t => exact runs_turn_of_new (new_of_scale hscale)
          | done e => rfl
        · simpa [hlen] using ih
      · simpa [hl, hle] using ih

theorem any_range_getElem? {α : Type*} (l : List α) (p : Option α → Bool) :
    ((List.range l.length).any fun i => p l[i]?) = l.any fun a => p (some a) := by
  rw [Bool.eq_iff_iff, List.any_eq_true, List.any_eq_true]
  constructor
  · rintro ⟨i, hi, hp⟩
    have hlt := List.mem_range.mp hi
    rw [List.getElem?_eq_getElem hlt] at hp
    exact ⟨_, List.getElem_mem hlt, hp⟩
  · rintro ⟨a, ha, hp⟩
    obtain ⟨i, hi, rfl⟩ := List.getElem_of_mem ha
    exact ⟨i, List.mem_range.mpr hi, by rwa [List.getElem?_eq_getElem hi]⟩

/-- A turn of the main loop makes an instance when one is busy and there are fewer than five. -/
theorem iteration_eq (s : Autoscaler) (r : Scrape) :
    s.iteration r =
      if s.metricPorts.length < 5 ∧ s.busy (getMetrics r.result) then
        ({ s with new := false }).scale (getMetrics r.result) r.delivery
      else .next { s with new := false } := by
  have hany := any_range_getElem? s.metricPorts
    fun port => (port.bind (getMetrics r.result)).any (5 ≤ ·)
  rw [iteration, runs_turn_eq rfl]
  simp only [hany]
  rfl

end Autoscaler

/-! ### Inputs to try the loop on -/

/-- A launcher that takes all it is sent. -/
def Delivery.whole : Delivery := ⟨true, List.replicate 6 4⟩

/-- A query that finds five clients at the first instance. -/
def Scrape.busyFirst : Scrape := ⟨[(7390, 5)], .whole⟩

theorem Autoscaler.exists_reaches (rounds : List Scrape) (p : Autoscaler → Bool)
    (h : (Autoscaler.start .whole).goes fun s => (runs Autoscaler.iteration s rounds).goes p) :
    ∃ s, Autoscaler.Reaches .whole rounds s ∧ p s := by
  obtain ⟨s₀, h₀, h⟩ := Outcome.exists_of_goes h
  obtain ⟨s, hs, hp⟩ := Outcome.exists_of_goes h
  exact ⟨s, ⟨s₀, h₀, trace_of_runs hs⟩, hp⟩

end MetricServer.Demo
