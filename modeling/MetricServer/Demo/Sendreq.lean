import MetricServer.Base.Trace
import MetricServer.Demo.Messages
import Mathlib.Algebra.Order.Ring.Int

/-! `sendreq`, the loop of the request launcher. A round goes over the instances once and
fires at each as many requests as level it with the busiest; it may end in the middle of
a round, when no request is left. Between rounds `recvmsg` extends and overwrites the
lists the round went over, and what it leaves there is taken as given here. -/

namespace MetricServer.Demo

open Base

/-- What `sendreq` holds: the requests it has still to send, what it shares with `recvmsg`,
and its calls of `sendcmd`, the place of an instance and its port for each. -/
structure Sender where
  load : ℤ
  launcher : Launcher
  calls : List (ℕ × ℤ)

/-- It returns, and closes the socket unless that is done, or an exception ends it. -/
inductive End where
  | returned (s : Sender) (closes : Bool)
  | raised (s : Sender)

/-- Every port has a load. -/
def Launcher.Parallel (s : Launcher) : Prop := s.loads.length = s.ports.length

namespace Sender

variable {ι : Type*} {s t : Sender} {maxload l port : ℤ} {i n : ℕ}

/-- `num_iterations` for an instance of load `l`, when `load` requests are left. -/
def numIterations (maxload l load : ℤ) : ℤ := if 5 ≤ l then 0 else min (maxload - l) load

/-- The calls of `sendcmd` for the instance at place `i`. -/
def fire (s : Sender) (i : ℕ) (port n : ℤ) : Sender :=
  { s with load := s.load - n, calls := s.calls ++ List.replicate n.toNat (i, port) }

/-- `loads[i] = 4`. -/
def level (s : Sender) (i : ℕ) : Sender :=
  { s with launcher := { s.launcher with loads := s.launcher.loads.set i 4 } }

/-- The turn of the round for place `i`. -/
def turn (maxload : ℤ) (s : Sender) (i : ℕ) : Outcome Sender End :=
  match s.launcher.loads[i]?, s.launcher.ports[i]? with
  | some l, some port =>
    let s := s.fire i port (numIterations maxload l s.load)
    if s.load = 0 then .done (.returned s (!s.launcher.finished)) else .next (s.level i)
  | _, _ => .done (.raised s)

/-- The round over all places, when there are ports. -/
def round (s : Sender) : Outcome Sender End :=
  if 0 < s.launcher.ports.length then
    match s.launcher.loads.max? with
    | some m => runs (turn (max m 5)) s (List.range s.launcher.ports.length)
    | none => .done (.raised s)
  else .next s

/-- One turn of the outer loop; `recvmsg` has the effect given by its input. -/
def iteration (recvmsg : Launcher → ι → Launcher) (s : Sender) (i : ι) : Outcome Sender End :=
  match s.round with
  | .next s =>
    .next (if s.launcher.finished then s else { s with launcher := recvmsg s.launcher i })
  | .done e => .done e

/-! ### One turn -/

/-- No instance is given more than levels it, or more than there are. -/
theorem numIterations_spec (hmax : 5 ≤ maxload) {load : ℤ} (hload : 0 ≤ load) :
    0 ≤ numIterations maxload l load ∧ numIterations maxload l load ≤ load ∧
      (l ≤ maxload → numIterations maxload l load ≤ maxload - l) ∧
      (5 ≤ l → numIterations maxload l load = 0) ∧
      (l = 4 → 0 < load → 0 < numIterations maxload l load) := by
  rw [numIterations]
  split_ifs <;> omega

/-- The requests made so far of the instance at a place. -/
def fired (s : Sender) (i : ℕ) : ℕ := (s.calls.map Prod.fst).count i

@[simp] theorem level_ports : (s.level i).launcher.ports = s.launcher.ports := rfl

theorem level_loads : (s.level i).launcher.loads = s.launcher.loads.set i 4 := rfl

@[simp] theorem fired_level (j : ℕ) : (s.level i).fired j = s.fired j := rfl

@[simp] theorem fired_fire (n : ℤ) (j : ℕ) :
    (s.fire i port n).fired j = s.fired j + if i = j then n.toNat else 0 := by
  rw [fired, fire, List.map_append, List.count_append, List.map_replicate, List.count_replicate]
  simp [fired]

/-! ### The turns of a round -/

/-- What the turns from place `i` on have done when the state has gone from `s` to `t`. -/
structure Turns (maxload : ℤ) (i : ℕ) (s t : Sender) : Prop where
  conserved : t.calls.length + t.load = s.calls.length + s.load
  load_nonneg : 0 ≤ t.load
  load_le : t.load ≤ s.load
  fired_le : ∀ j l, s.launcher.loads[j]? = some l → t.fired j ≤ s.fired j + (maxload - l)
  fired_eq : ∀ j l, s.launcher.loads[j]? = some l → 5 ≤ l ∨ j < i → t.fired j = s.fired j
  parallel : t.launcher.loads.length = s.launcher.loads.length
  ports : t.launcher.ports = s.launcher.ports
  finished : t.launcher.finished = s.launcher.finished

/-- What the turns of a round start from. -/
structure Ready (maxload : ℤ) (s : Sender) : Prop where
  five_le : 5 ≤ maxload
  load_nonneg : 0 ≤ s.load
  le_maxload : ∀ l ∈ s.launcher.loads, l ≤ maxload
  parallel : s.launcher.Parallel

theorem Turns.refl (h : Ready maxload s) : Turns maxload i s s where
  conserved := rfl
  load_nonneg := h.load_nonneg
  load_le := le_rfl
  fired_le j l hl := by
    have := h.le_maxload l (List.mem_of_getElem? hl)
    omega
  fired_eq _ _ _ _ := rfl
  parallel := rfl
  ports := rfl
  finished := rfl

/-- The first turn fires what it may. -/
theorem turns_fire (port : ℤ) (h : Ready maxload s) (hl : s.launcher.loads[i]? = some l) :
    Turns maxload i s (s.fire i port (numIterations maxload l s.load)) := by
  obtain ⟨hnonneg, hall, hlevel, hzero, -⟩ :=
    numIterations_spec (l := l) h.five_le h.load_nonneg
  refine ⟨?_, ?_, ?_, fun j l' hl' => ?_, fun j l' hl' hspared => ?_, rfl, rfl, rfl⟩
  · simp only [fire, List.length_append, List.length_replicate, Nat.cast_add]
    omega
  · simp only [fire]
    omega
  · simp only [fire]
    omega
  · have hle := h.le_maxload l' (List.mem_of_getElem? hl')
    rw [fired_fire]
    split_ifs with hij
    · obtain rfl : l = l' := Option.some.inj (hl.symm.trans (hij ▸ hl'))
      have := hlevel hle
      omega
    · omega
  · rw [fired_fire]
    split_ifs with hij
    · obtain rfl : l = l' := Option.some.inj (hl.symm.trans (hij ▸ hl'))
      have := hzero (hspared.resolve_right (by omega))
      omega
    · rfl

/-- A turn fires at its instance alone, and then it returns or sets the load. -/
theorem turn_cases (h : Ready maxload s) (hi : i < s.launcher.ports.length) :
    ∃ t, Turns maxload i s t ∧ t.launcher = s.launcher ∧ (∀ j, j ≠ i → t.fired j = s.fired j) ∧
      (s.launcher.loads[i]? = some 4 → 0 < s.load → t.load < s.load) ∧
      Ready maxload (t.level i) ∧
      turn maxload s i =
        if t.load = 0 then .done (.returned t (!t.launcher.finished)) else .next (t.level i) := by
  obtain ⟨port, hport⟩ : ∃ port, s.launcher.ports[i]? = some port :=
    ⟨_, List.getElem?_eq_getElem hi⟩
  obtain ⟨l, hl⟩ : ∃ l, s.launcher.loads[i]? = some l :=
    ⟨_, List.getElem?_eq_getElem (hi.trans_eq h.parallel.symm)⟩
  have hfire := turns_fire port h hl
  refine ⟨s.fire i port (numIterations maxload l s.load), hfire, rfl, fun j hj => ?_,
    fun hfour hpos => ?_, ⟨h.five_le, hfire.load_nonneg, fun l' hl' => ?_, ?_⟩, ?_⟩
  · rw [fired_fire, if_neg hj.symm, Nat.add_zero]
  · have hprogress := (numIterations_spec (l := l) h.five_le h.load_nonneg).2.2.2.2
    have := hprogress (Option.some.inj (hl.symm.trans hfour)) hpos
    simp only [fire]
    omega
  · obtain hmem | rfl := List.mem_or_eq_of_mem_set hl'
    · exact h.le_maxload l' hmem
    · have := h.five_le
      omega
  · rw [Launcher.Parallel, level_loads, List.length_set]
    exact h.parallel
  · simp only [turn, hl, hport, fire]

/-- The turns after the first one go on from the load that it sets. -/
theorem Turns.after_level (h : Turns maxload i s t) {u : Sender} (hi : i < s.launcher.loads.length)
    (hlauncher : t.launcher = s.launcher) (hspared : ∀ j, j ≠ i → t.fired j = s.fired j)
    (h' : Turns maxload (i + 1) (t.level i) u) : Turns maxload i s u := by
  have hat : (t.level i).launcher.loads[i]? = some 4 := by
    rw [level_loads, hlauncher, List.getElem?_set_self hi]
  have hne (j : ℕ) (hj : j ≠ i) : (t.level i).launcher.loads[j]? = s.launcher.loads[j]? := by
    rw [level_loads, hlauncher, List.getElem?_set_ne hj.symm]
  refine ⟨h'.conserved.trans h.conserved, h'.load_nonneg, h'.load_le.trans h.load_le,
    fun j l hl => ?_, fun j l hl hor => ?_, ?_, h'.ports.trans h.ports,
    h'.finished.trans h.finished⟩
  · by_cases hj : j = i
    · subst hj
      rw [h'.fired_eq j 4 hat (.inr (Nat.lt_succ_self j))]
      exact h.fired_le j l hl
    · have := h'.fired_le j l (by rw [hne j hj, hl])
      rwa [fired_level, hspared j hj] at this
  · by_cases hj : j = i
    · subst hj
      rw [h'.fired_eq j 4 hat (.inr (Nat.lt_succ_self j))]
      exact h.fired_eq j l hl hor
    · rw [h'.fired_eq j l (by rw [hne j hj, hl]) (hor.imp_right fun hlt => by omega)]
      exact hspared j hj
  · rw [h'.parallel, ← h.parallel, level_loads, List.length_set]

/-- The turns for `n` places end with the last request, or they go over all of them and set
their loads. -/
theorem runs_turn_cases (h : Ready maxload s) (hn : i + n ≤ s.launcher.ports.length) :
    (∃ t, runs (turn maxload) s (List.range' i n) = .next t ∧ Turns maxload i s t ∧
      ∀ j, (j < i → t.launcher.loads[j]? = s.launcher.loads[j]?) ∧
        (i ≤ j → j < i + n → t.launcher.loads[j]? = some 4)) ∨
    ∃ t, runs (turn maxload) s (List.range' i n) = .done (.returned t (!t.launcher.finished)) ∧
      Turns maxload i s t ∧ t.load = 0 := by
  induction n generalizing i s with
  | zero => exact .inl ⟨s, rfl, .refl h, fun j => ⟨fun _ => rfl, fun _ _ => by omega⟩⟩
  | succ n ih =>
    have hi : i < s.launcher.ports.length := by omega
    obtain ⟨t, hfire, hlauncher, hspared, -, hready, hturn⟩ := turn_cases h hi
    replace hi := hi.trans_eq h.parallel.symm
    rw [List.range'_succ, runs, hturn]
    split_ifs with hzero
    · exact .inr ⟨t, rfl, hfire, hzero⟩
    · obtain ⟨u, hruns, hturns, hset⟩ | ⟨u, hruns, hturns, hdone⟩ :=
        ih hready (show i + 1 + n ≤ _ by rw [level_ports, hlauncher]; omega)
      · refine .inl ⟨u, hruns, hfire.after_level hi hlauncher hspared hturns,
          fun j => ⟨fun hj => ?_, fun hj hj' => ?_⟩⟩
        · rw [(hset j).1 (by omega), level_loads, hlauncher]
          exact List.getElem?_set_ne (by omega)
        · by_cases heq : i = j
          · subst heq
            rw [(hset i).1 (Nat.lt_succ_self i), level_loads, hlauncher]
            exact List.getElem?_set_self hi
          · exact (hset j).2 (by omega) (by omega)
      · exact .inr ⟨u, hruns, hfire.after_level hi hlauncher hspared hturns, hdone⟩

/-! ### A round -/

/-- A round over some ports begins with its turns. -/
theorem exists_round (hload : 0 ≤ s.load) (hparallel : s.launcher.Parallel)
    (hports : s.launcher.ports ≠ []) :
    ∃ m, s.launcher.loads.max? = some m ∧ Ready (max m 5) s ∧
      s.round = runs (turn (max m 5)) s (List.range' 0 s.launcher.ports.length) := by
  have hpos := List.length_pos_iff.mpr hports
  have hne : s.launcher.loads ≠ [] := by
    rw [← List.length_pos_iff, hparallel]
    exact hpos
  obtain ⟨m, hm⟩ := Option.ne_none_iff_exists'.mp (mt List.max?_eq_none_iff.mp hne)
  refine ⟨m, hm, ⟨by omega, hload, fun l hl => ?_, hparallel⟩, ?_⟩
  · have := (List.max?_eq_some_iff.mp hm).2 l hl
    omega
  · rw [round, if_pos hpos, hm, List.range_eq_range']

/-- It ends with the last request, or it leaves every load at four. -/
theorem round_cases (hload : 0 ≤ s.load) (hparallel : s.launcher.Parallel)
    (hports : s.launcher.ports ≠ []) :
    ∃ maxload,
      (∃ t, s.round = .next t ∧ Turns maxload 0 s t ∧ ∀ l ∈ t.launcher.loads, l = 4) ∨
      ∃ t, s.round = .done (.returned t (!t.launcher.finished)) ∧ Turns maxload 0 s t ∧
        t.load = 0 := by
  obtain ⟨m, -, hready, hround⟩ := exists_round hload hparallel hports
  refine ⟨max m 5, ?_⟩
  rw [hround]
  obtain ⟨t, hruns, hturns, hset⟩ | hdone := runs_turn_cases hready (Nat.zero_add _).le
  · refine .inl ⟨t, hruns, hturns, fun l hl => ?_⟩
    obtain ⟨j, hj⟩ := List.mem_iff_getElem?.mp hl
    have hlt := (List.getElem?_eq_some_iff.mp hj).1
    rw [hturns.parallel, hparallel] at hlt
    exact Option.some.inj (hj.symm.trans ((hset j).2 (Nat.zero_le j) (by omega)))
  · exact .inr hdone

/-- From loads of four a round that leaves requests has sent one at least. -/
theorem load_lt_of_round (hload : 0 ≤ s.load) (hparallel : s.launcher.Parallel)
    (hports : s.launcher.ports ≠ []) (hfour : ∀ l ∈ s.launcher.loads, l = 4)
    (h : s.round = .next t) : t.load < s.load := by
  obtain ⟨m, -, hready, hround⟩ := exists_round hload hparallel hports
  have hpos := List.length_pos_iff.mpr hports
  obtain ⟨n, hn⟩ := Nat.exists_eq_add_one.mpr hpos
  obtain ⟨u, hfire, hlauncher, -, hprogress, hready', hturn⟩ := turn_cases hready hpos
  have hfirst : s.launcher.loads[0]? = some 4 := by
    obtain ⟨l, hl⟩ : ∃ l, s.launcher.loads[0]? = some l :=
      ⟨_, List.getElem?_eq_getElem (hpos.trans_eq hparallel.symm)⟩
    rw [hl, hfour l (List.mem_of_getElem? hl)]
  rw [hround, hn, List.range'_succ, runs, hturn] at h
  split_ifs at h with hzero
  -- requests are left after the first turn, so that there were some before it
  have hsome : 0 < s.load := by
    have := hfire.load_nonneg
    have := hfire.load_le
    omega
  have hless := hprogress hfirst hsome
  obtain ⟨v, hruns, hturns, -⟩ | ⟨v, hruns, -⟩ :=
    runs_turn_cases hready' (show 0 + 1 + n ≤ _ by rw [level_ports, hlauncher]; omega)
  · obtain rfl : v = t := by simpa using hruns.symm.trans h
    exact hturns.load_le.trans_lt hless
  · cases hruns.symm.trans h

end Sender

end MetricServer.Demo
