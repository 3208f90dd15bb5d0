import MetricServer.Demo.Autoscaler
import MetricServer.Demo.Sendreq

/-! The demo's two programs side by side. The autoscaler's messages wait at the launcher's
socket in the order in which they were sent, and the launcher takes them one at a time
between its rounds. The last of them may be one that `send_new_port` did not send whole:
there the autoscaler has come to its end, or it hangs. A program that has come to its
end takes no step any more. -/

namespace MetricServer.Demo

open Base Http

structure Joint where
  autoscaler : Autoscaler
  scaling : Bool
  sender : Sender
  sending : Bool
  accepted : ℕ

/-- What happens next: a turn of the autoscaler's main loop, or a turn of `sendreq` that takes the
next connection, whose bytes arrive as given, or the connection of the call of `send_new_port`
that did not come back, of which the port and the given bytes were sent, or a turn whose call of
`accept` times out. -/
inductive Act where
  | scrape (r : Scrape)
  | accept (arrivals : List (Option ℕ))
  | broken (rest : Bytes) (arrivals : List (Option ℕ))
  | timeout

/-- The state in which `sendreq` ends. -/
def End.sender : End → Sender
  | .returned s _ => s
  | .raised s => s

namespace Joint

/-- Both programs at their start, the autoscaler past its first message. -/
def initial (s : Autoscaler) (load : ℤ) : Joint :=
  ⟨s, true, ⟨load, ⟨false, [], []⟩, []⟩, true, 0⟩

def scrape (y : Joint) (r : Scrape) : Joint :=
  if y.scaling then
    match y.autoscaler.iteration r with
    | .next s => { y with autoscaler := s }
    | .done s => { y with autoscaler := s, scaling := false }
  else y

/-- A turn of `sendreq`, which takes the connection if it comes to its call of `recvmsg`. -/
def receive (y : Joint) (accepted : Option Connection) : Joint :=
  if y.sending then
    match Sender.iteration Launcher.recvmsg y.sender accepted with
    | .next s =>
      { y with
        sender := s
        accepted := y.accepted +
          if accepted.isSome ∧ ¬ y.sender.launcher.finished then 1 else 0 }
    | .done e => { y with sender := e.sender, sending := false }
  else y

def step (y : Joint) : Act → Joint
  | .scrape r => y.scrape r
  | .accept arrivals =>
    match y.autoscaler.sent[y.accepted]? with
    | some m => y.receive (some ⟨m.bytes, arrivals⟩)
    | none => y
  | .broken rest arrivals =>
    if ¬ y.scaling ∧ y.accepted = y.autoscaler.sent.length then
      y.receive (some ⟨word y.autoscaler.jitPort ++ rest, arrivals⟩)
    else y
  | .timeout => y.receive none

end Joint

/-! ### What a connection gives -/

/-- A call of `recv` times out, or it takes some of the bytes. -/
theorem Connection.recv_cases (c : Connection) {n : ℕ} (hn : 0 < n) :
    c.recv n = none ∨ ∃ m arrivals, 0 < m ∧ m ≤ n ∧
      c.recv n = some (c.stream.take m, ⟨c.stream.drop m, arrivals⟩) := by
  obtain ⟨stream, arrivals⟩ := c
  match arrivals with
  | [] => exact .inr ⟨n, [], hn, le_rfl, rfl⟩
  | none :: _ => exact .inl rfl
  | some k :: arrivals => exact .inr ⟨min n (max k 1), arrivals, by omega, by omega, rfl⟩

/-- What the loop collects, if no call times out, is the next bytes of the stream. -/
theorem Connection.collect_eq_some {fuel : ℕ} {x y : Bytes} {c c' : Connection}
    (hx : x.length ≤ 4) (hfuel : 4 ≤ x.length + fuel) (h : collect fuel x c = some (y, c')) :
    y = x ++ c.stream.take (4 - x.length) := by
  induction fuel generalizing x c with
  | zero =>
    have hzero : 4 - x.length = 0 := by omega
    obtain ⟨rfl, -⟩ := Prod.mk.inj (Option.some.inj h)
    rw [hzero, List.take_zero, List.append_nil]
  | succ fuel ih =>
    rw [collect] at h
    split_ifs at h with hlt
    · obtain hnone | ⟨m, arrivals, hm, hle, hrecv⟩ :=
        c.recv_cases (show 0 < 4 - x.length by omega)
      · rw [hnone] at h
        cases h
      · rw [hrecv] at h
        have hlen : (c.stream.take m).length = min m c.stream.length := List.length_take
        by_cases hnil : c.stream.take m = []
        · have hstream : c.stream = [] := by
            rw [hnil, List.length_nil] at hlen
            exact List.eq_nil_of_length_eq_zero (by omega)
          simp only [hnil, if_true] at h
          obtain ⟨rfl, -⟩ := Prod.mk.inj (Option.some.inj h)
          rw [hstream, List.take_nil, List.append_nil]
        · have hpos : 0 < (c.stream.take m).length := List.length_pos_iff.mpr hnil
          simp only [hnil, if_false] at h
          have hrest := ih (by rw [List.length_append]; omega)
            (by rw [List.length_append]; omega) h
          rw [hrest, List.length_append, ← Nat.sub_sub, List.append_assoc,
            (take_rest c.stream hle).1]
    · have hzero : 4 - x.length = 0 := by omega
      obtain ⟨rfl, -⟩ := Prod.mk.inj (Option.some.inj h)
      rw [hzero, List.take_zero, List.append_nil]

theorem Connection.readInt_eq_some {c c' : Connection} {v : ℤ} (h : c.readInt = some (v, c')) :
    v = unpack (filled (c.stream.take 4)) := by
  obtain ⟨⟨y, c₁⟩, hcollect, heq⟩ := Option.map_eq_some_iff.mp h
  obtain ⟨rfl, -⟩ := Prod.mk.inj heq
  rw [collect_eq_some (by simp) (by simp) hcollect]
  rfl

theorem Launcher.readLoads_ports (n i : ℕ) (c : Connection) (l : Launcher) :
    (readLoads n i c l).ports = l.ports := by
  induction n generalizing i c l with
  | zero => rfl
  | succ n ih =>
    rw [readLoads]
    split
    · rfl
    · exact ih _ _ _

/-- However a message arrives, the launcher adds its port, or it stops taking messages. -/
theorem Launcher.ports_recvmsg {l : Launcher} (hfinished : l.finished = false) {port : ℤ}
    (hport : Packable port) (rest : Bytes) (arrivals : List (Option ℕ)) :
    (l.recvmsg (some ⟨word port ++ rest, arrivals⟩)).ports = l.ports ++ [port] ∨
      ((l.recvmsg (some ⟨word port ++ rest, arrivals⟩)).ports = l.ports ∧
        (l.recvmsg (some ⟨word port ++ rest, arrivals⟩)).finished) := by
  obtain ⟨hlen, hunpack⟩ := hport.spec
  simp only [recvmsg, hfinished, Bool.false_eq_true, if_false]
  split
  · exact .inr ⟨rfl, rfl⟩
  next v c hread =>
    have hv := Connection.readInt_eq_some hread
    have hfilled : filled (word port) = word port := by simp [filled, hlen]
    rw [← hlen, List.take_left, hfilled, hunpack] at hv
    exact .inl (by rw [readLoads_ports, hv])

/-- A message that arrives without a timeout gives its port, and its values to the first ports. -/
theorem Launcher.recvmsg_told {l : Launcher} (hfinished : l.finished = false)
    (hparallel : l.Parallel) {port : ℤ} (hport : Packable port) {vs : List ℤ}
    (hvs : ∀ v ∈ vs, Packable v) {m : ℕ} (hm : vs.length + m = l.ports.length + 1)
    {arrivals : List (Option ℕ)} (harrivals : none ∉ arrivals) :
    l.recvmsg (some ⟨word port ++ vs.flatMap word, arrivals⟩) =
      { l with ports := l.ports ++ [port], loads := vs ++ List.replicate m 0 } := by
  obtain ⟨hlen, hunpack⟩ := hport.spec
  have hfilled : filled (word port) = word port := by simp [filled, hlen]
  have hfirst : words 1 (word port ++ vs.flatMap word) = [port] := by
    rw [words, ← hlen, List.take_left, hfilled, hunpack]
    rfl
  rw [recvmsg_eq hfinished hparallel harrivals, hfirst, ← hlen, List.drop_left, ← hm,
    words_flatMap hvs]

end MetricServer.Demo
