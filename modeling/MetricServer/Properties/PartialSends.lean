import MetricServer.Demo.Messages
import Mathlib.Data.Stream.Init

/-! Sending an integer whatever part of it each call takes. The loop of the autoscaler
slices its message at what the last call took, not at the sum, so that only a call that
takes the whole message ends it: after a shorter one the calls that follow are offered
less than the whole, and the loop goes on for ever. -/

namespace MetricServer.Demo

open Http

variable {n : ℤ} {msg : Bytes}

/-! ### One integer -/

/-- The loop on a message comes to its end when `send` returns these numbers, and what the
calls took is the message. -/
def SendsExactly (msg : Bytes) (returns : Stream' ℕ) : Prop :=
  ∃ k rest, sendLoop msg 0 (returns.take k) = some (msg, rest)

theorem sendLoop_of_pack (h : pack n = some msg) (results : List ℕ) :
    sendLoop msg 0 results = sendInt n results := by
  rw [sendInt, h, Option.bind_some]

/-- After a first call that takes a part the loop does not end. -/
theorem sendLoop_take_eq_none (h : pack n = some msg) {returns : Stream' ℕ}
    (hshort : returns.get 0 < 4) (k : ℕ) : sendLoop msg 0 (returns.take k) = none := by
  obtain ⟨hn, rfl⟩ := pack_eq_some_iff.mp h
  obtain ⟨hlen, -⟩ := hn.spec
  cases k with
  | zero =>
    rw [Stream'.take_zero, sendLoop, if_pos (by omega)]
  | succ k =>
    have hhead : returns.head < 4 := hshort
    rw [Stream'.take_succ, sendLoop, if_pos (by omega), Option.map_eq_none_iff]
    apply sendLoop_eq_none
    · omega
    · omega

/-- The loop sends an integer exactly when its first call takes all four bytes. -/
theorem sendsExactly_iff (h : pack n = some msg) (returns : Stream' ℕ) :
    SendsExactly msg returns ↔ 4 ≤ returns.get 0 := by
  constructor
  · rintro ⟨k, rest, hsent⟩
    by_contra hshort
    rw [sendLoop_take_eq_none h (not_le.mp hshort)] at hsent
    cases hsent
  · intro hall
    obtain ⟨hn, rfl⟩ := pack_eq_some_iff.mp h
    refine ⟨1, [], ?_⟩
    rw [sendLoop_of_pack h, sendInt_eq_some_iff]
    exact ⟨hn, rfl, returns.head, hall, rfl⟩

theorem sendsExactly_iff_whole :
    SendsExactly [0, 0, 15, 0] (Stream'.const 4) ↔ 4 ≤ (Stream'.const 4).get 0 :=
  sendsExactly_iff (n := 3840) (by decide) _

/-- Two bytes a call, which are never more than are offered, send the first two and then the
last two for ever. -/
theorem not_sendsExactly_halves :
    ¬ ∀ (n : ℤ) (msg : Bytes) (returns : Stream' ℕ), pack n = some msg →
      (∀ i, 1 ≤ returns.get i ∧ returns.get i ≤ 2) → SendsExactly msg returns := by
  intro h
  have hpack : pack 3840 = some [0, 0, 15, 0] := by decide
  obtain ⟨k, rest, hsent⟩ :=
    h 3840 [0, 0, 15, 0] (Stream'.const 2) hpack fun i => ⟨Nat.le_succ 1, le_rfl⟩
  have hnone := sendLoop_take_eq_none hpack (show (Stream'.const 2).get 0 < 4 by decide) k
  cases hnone.symm.trans hsent

/-! ### The message about a new port -/

/-- A beginning of a stream that is long enough shows its first `n` values. -/
theorem exists_take_iff (P : ℕ → Prop) (returns : Stream' ℕ) (n : ℕ) :
    (∃ k taken rest, taken.length = n ∧ (∀ x ∈ taken, P x) ∧ returns.take k = taken ++ rest) ↔
      ∀ i < n, P (returns.get i) := by
  constructor
  · rintro ⟨k, taken, rest, rfl, htaken, heq⟩ i hi
    have hlong := congrArg List.length heq
    rw [Stream'.length_take, List.length_append] at hlong
    have hget : taken[i]? = some (returns.get i) := by
      rw [← List.getElem?_append_left hi, ← heq, Stream'.getElem?_take (by omega)]
    exact htaken _ (List.mem_of_getElem? hget)
  · intro hall
    refine ⟨n, returns.take n, [], Stream'.length_take _ _, fun x hx => ?_,
      (List.append_nil _).symm⟩
    obtain ⟨i, hi⟩ := List.mem_iff_getElem?.mp hx
    have hlt := (List.getElem?_eq_some_iff.mp hi).1
    rw [Stream'.length_take] at hlt
    rw [Stream'.getElem?_take hlt, Option.some.injEq] at hi
    exact hi ▸ hall i hlt

/-- The whole message is sent exactly when the first call for each of its integers takes all
of it. -/
theorem sendNewPort_take_iff {jitPort : ℤ} {metricPorts : List ℤ} {load : ℤ → Option ℤ}
    (hport : Packable jitPort) (hvalues : ∀ v ∈ metricPorts.filterMap load, Packable v)
    (returns : Stream' ℕ) :
    (∃ k, sendNewPort true jitPort metricPorts load (returns.take k) =
        some (word jitPort ++ (metricPorts.filterMap load).flatMap word)) ↔
      ∀ i ≤ (metricPorts.filterMap load).length, 4 ≤ returns.get i := by
  simp only [sendNewPort_eq_some_iff hport hvalues, exists_take_iff (4 ≤ ·), Nat.lt_succ_iff]

end MetricServer.Demo
