import MetricServer.Http.Bytes
import Mathlib.Algebra.Group.Int.Defs
import Mathlib.Data.List.Basic

/-! The demo's two programs and the messages between them. The autoscaler tells a new
port and the loads it knows as four bytes each, and the request launcher reads one number
for every port it has, with zeros where the stream ends. What a call of `send` or `recv`
moves is an input; a loop that runs out of results has not ended, and an integer that does
not fit raises. -/

namespace MetricServer.Demo

open Http

/-! ### Integers on the wire -/

/-- `struct.pack("!i", n)`, which raises when the integer does not fit. -/
def pack (n : ℤ) : Option Bytes :=
  if -2 ^ 31 ≤ n ∧ n < 2 ^ 31 then
    let u := (n % 2 ^ 32).toNat
    some [UInt8.ofNat (u / 2 ^ 24), UInt8.ofNat (u / 2 ^ 16), UInt8.ofNat (u / 2 ^ 8),
      UInt8.ofNat u]
  else none

/-- `struct.unpack("!i", x)[0]` on four bytes. -/
def unpack (x : Bytes) : ℤ :=
  let u : ℕ := x.foldl (fun u b => u * 256 + b.toNat) 0
  if u < 2 ^ 31 then u else u - 2 ^ 32

/-! ### The autoscaler -/

/-- The loop that sends one message: `num_bytes` is what the last call took, not the sum.
Every call takes one byte at least of those offered. -/
def sendLoop (msg : Bytes) : ℕ → List ℕ → Option (Bytes × List ℕ)
  | numBytes, [] => if numBytes < msg.length then none else some ([], [])
  | numBytes, k :: results =>
    if numBytes < msg.length then
      let n := min (max k 1) (msg.length - numBytes)
      (sendLoop msg n results).map fun p => ((msg.drop numBytes).take n ++ p.1, p.2)
    else some ([], k :: results)

def sendInt (n : ℤ) (results : List ℕ) : Option (Bytes × List ℕ) :=
  (pack n).bind fun msg => sendLoop msg 0 results

/-- The loop over `metric_ports`, which skips a port that has no load. -/
def sendLoads (load : ℤ → Option ℤ) : List ℤ → List ℕ → Option (Bytes × List ℕ)
  | [], results => some ([], results)
  | x :: metricPorts, results =>
    match load x with
    | none => sendLoads load metricPorts results
    | some v =>
      (sendInt v results).bind fun p =>
        (sendLoads load metricPorts p.2).map fun q => (p.1 ++ q.1, q.2)

/-- The bytes that `send_new_port` sends; none when the launcher cannot be reached. -/
def sendNewPort (connected : Bool) (jitPort : ℤ) (metricPorts : List ℤ) (load : ℤ → Option ℤ)
    (results : List ℕ) : Option Bytes :=
  if connected then
    (sendInt jitPort results).bind fun p =>
      (sendLoads load metricPorts p.2).map fun q => p.1 ++ q.1
  else some []

/-! ### The launcher -/

/-- An accepted connection: the bytes still to come, and how many of them each call of
`recv` finds there, none when it times out. -/
structure Connection where
  stream : Bytes
  arrivals : List (Option ℕ)

/-- `connection.recv(n)`: one byte at least unless the stream is at its end. After the
arrivals given all bytes are there. -/
def Connection.recv (c : Connection) (n : ℕ) : Option (Bytes × Connection) :=
  match c.arrivals with
  | [] => some (c.stream.take n, ⟨c.stream.drop n, []⟩)
  | none :: _ => none
  | some k :: arrivals =>
    let n := min n (max k 1)
    some (c.stream.take n, ⟨c.stream.drop n, arrivals⟩)

/-- The loop that collects four bytes in `x`. Every turn adds a byte or leaves. -/
def Connection.collect : ℕ → Bytes → Connection → Option (Bytes × Connection)
  | 0, x, c => some (x, c)
  | fuel + 1, x, c =>
    if x.length < 4 then
      match c.recv (4 - x.length) with
      | none => none
      | some (t, c) => if t = [] then some (x, c) else collect fuel (x ++ t) c
    else some (x, c)

/-- `x + (4-len(x)) * b'\x00'`. -/
def filled (x : Bytes) : Bytes := x ++ List.replicate (4 - x.length) 0

/-- The next integer, filled up with zeros at the end of the stream. -/
def Connection.readInt (c : Connection) : Option (ℤ × Connection) :=
  (collect 4 [] c).map fun p => (unpack (filled p.1), p.2)

/-- The launcher's `finished`, `ports` and `loads`. -/
structure Launcher where
  finished : Bool
  ports : List ℤ
  loads : List ℤ
  deriving DecidableEq

namespace Launcher

/-- The loop that reads `n` loads, from position `i` on. -/
def readLoads : ℕ → ℕ → Connection → Launcher → Launcher
  | 0, _, _, s => s
  | n + 1, i, c, s =>
    match c.readInt with
    | none => { s with finished := true }
    | some (v, c) => readLoads n (i + 1) c { s with loads := s.loads.set i v }

/-- `recvmsg`; `accept` gives no connection when it times out. -/
def recvmsg (s : Launcher) (accepted : Option Connection) : Launcher :=
  if s.finished then s
  else
    match accepted with
    | none => { s with finished := true }
    | some c =>
      match c.readInt with
      | none => { s with finished := true }
      | some (newPort, c) =>
        let s := { s with ports := s.ports ++ [newPort], loads := s.loads ++ [0] }
        readLoads s.ports.length 0 c s

end Launcher

/-! ### What is sent -/

/-- An integer that can be sent. -/
def Packable (n : ℤ) : Prop := -2 ^ 31 ≤ n ∧ n < 2 ^ 31

instance (n : ℤ) : Decidable (Packable n) := inferInstanceAs (Decidable (_ ∧ _))

/-- The bytes of a message that is sent as one. -/
def word (n : ℤ) : Bytes := (pack n).getD []

theorem pack_eq_some_iff {n : ℤ} {msg : Bytes} :
    pack n = some msg ↔ Packable n ∧ msg = word n := by
  have hpack : pack n ≠ none ↔ Packable n := by simp [pack, Packable]
  rw [word, ← hpack]
  cases pack n <;> simp [eq_comm]

theorem Packable.spec {n : ℤ} (h : Packable n) : (word n).length = 4 ∧ unpack (word n) = n := by
  have hrange : -2 ^ 31 ≤ n ∧ n < 2 ^ 31 := h
  rw [word, pack, if_pos hrange, Option.getD_some]
  refine ⟨rfl, ?_⟩
  obtain ⟨u, hu⟩ : ∃ u, u = (n % 2 ^ 32).toNat := ⟨_, rfl⟩
  have hword : (((0 * 256 + u / 2 ^ 24 % 2 ^ 8) * 256 + u / 2 ^ 16 % 2 ^ 8) * 256 +
      u / 2 ^ 8 % 2 ^ 8) * 256 + u % 2 ^ 8 = u := by omega
  simp only [unpack, List.foldl_cons, List.foldl_nil, UInt8.toNat_ofNat', ← hu, hword]
  split_ifs <;> omega

/-- After a call that takes a part no other call takes the whole, and the loop goes on. -/
theorem sendLoop_eq_none {msg : Bytes} {numBytes : ℕ} (hpos : 0 < numBytes)
    (hlt : numBytes < msg.length) (results : List ℕ) : sendLoop msg numBytes results = none := by
  induction results generalizing numBytes with
  | nil => rw [sendLoop, if_pos hlt]
  | cons k results ih =>
    rw [sendLoop, if_pos hlt]
    exact Option.map_eq_none_iff.mpr (ih (by omega) (by omega))

/-- A message is sent whole by one call, or the loop does not end. -/
theorem sendInt_eq_some_iff {n : ℤ} {results rest : List ℕ} {sent : Bytes} :
    sendInt n results = some (sent, rest) ↔
      Packable n ∧ sent = word n ∧ ∃ k, 4 ≤ k ∧ results = k :: rest := by
  rw [sendInt]
  by_cases hn : Packable n
  · obtain ⟨hlen, -⟩ := hn.spec
    rw [pack_eq_some_iff.mpr ⟨hn, rfl⟩, Option.bind_some, and_iff_right hn]
    cases results with
    | nil => simp [sendLoop, hlen]
    | cons k results =>
      rw [sendLoop, if_pos (by omega), Nat.sub_zero, hlen, List.drop_zero]
      by_cases hk : 4 ≤ k
      · have hall : min (max k 1) 4 = (word n).length := by omega
        have hend : sendLoop (word n) (word n).length results = some ([], results) := by
          cases results <;> simp [sendLoop]
        simp only [hall, hend, List.take_length]
        simp [hk, eq_comm]
      · simp only [sendLoop_eq_none (show 0 < min (max k 1) 4 by omega)
          (show min (max k 1) 4 < (word n).length by omega)]
        simp [hk]
  · have hnone : pack n = none := if_neg hn
    simp [hnone, hn]

theorem sendLoads_eq_some_iff {load : ℤ → Option ℤ} {metricPorts : List ℤ}
    {results rest : List ℕ} {sent : Bytes} :
    sendLoads load metricPorts results = some (sent, rest) ↔
      (∀ v ∈ metricPorts.filterMap load, Packable v) ∧
        sent = (metricPorts.filterMap load).flatMap word ∧
        ∃ taken, taken.length = (metricPorts.filterMap load).length ∧ (∀ k ∈ taken, 4 ≤ k) ∧
          results = taken ++ rest := by
  induction metricPorts generalizing results sent with
  | nil => simp [sendLoads, eq_comm]
  | cons x metricPorts ih =>
    rw [sendLoads]
    cases hx : load x with
    | none =>
      rw [List.filterMap_cons_none hx]
      exact ih
    | some v =>
      rw [List.filterMap_cons_some hx, List.forall_mem_cons, List.flatMap_cons, List.length_cons]
      constructor
      · intro h
        obtain ⟨⟨sent₁, rest₁⟩, h₁, h⟩ := Option.bind_eq_some_iff.mp h
        obtain ⟨⟨sent₂, rest₂⟩, h₂, heq⟩ := Option.map_eq_some_iff.mp h
        obtain ⟨rfl, rfl⟩ := Prod.mk.inj heq
        obtain ⟨hv, rfl, k, hk, rfl⟩ := sendInt_eq_some_iff.mp h₁
        obtain ⟨hvs, rfl, taken, htaken, htake, rfl⟩ := ih.mp h₂
        exact ⟨⟨hv, hvs⟩, rfl, k :: taken, by simp [htaken],
          List.forall_mem_cons.mpr ⟨hk, htake⟩, rfl⟩
      · rintro ⟨⟨hv, hvs⟩, rfl, taken, htaken, htake, rfl⟩
        obtain ⟨k, taken, rfl⟩ := List.exists_cons_of_length_eq_add_one htaken
        obtain ⟨hk, htake⟩ := List.forall_mem_cons.mp htake
        have hfirst : sendInt v (k :: (taken ++ rest)) = some (word v, taken ++ rest) :=
          sendInt_eq_some_iff.mpr ⟨hv, rfl, k, hk, rfl⟩
        have hrest := ih.mpr ⟨hvs, rfl, taken, by simpa using htaken, htake, rfl⟩
        rw [List.cons_append]
        exact Option.bind_eq_some_iff.mpr ⟨_, hfirst, Option.map_eq_some_iff.mpr ⟨_, hrest, rfl⟩⟩

section NewPort
variable {jitPort : ℤ} {metricPorts : List ℤ} {load : ℤ → Option ℤ} {results : List ℕ}
  (hport : Packable jitPort) (hvalues : ∀ v ∈ metricPorts.filterMap load, Packable v)
include hport hvalues

/-- The message about a new port is sent by one call for each of its integers, or some loop
does not end. -/
theorem sendNewPort_eq_some_iff :
    sendNewPort true jitPort metricPorts load results =
        some (word jitPort ++ (metricPorts.filterMap load).flatMap word) ↔
      ∃ taken rest, taken.length = (metricPorts.filterMap load).length + 1 ∧
        (∀ k ∈ taken, 4 ≤ k) ∧ results = taken ++ rest := by
  rw [sendNewPort, if_pos rfl]
  constructor
  · intro h
    obtain ⟨⟨sent₁, rest₁⟩, h₁, h⟩ := Option.bind_eq_some_iff.mp h
    obtain ⟨⟨sent₂, rest₂⟩, h₂, -⟩ := Option.map_eq_some_iff.mp h
    obtain ⟨-, -, first, hfirst, rfl⟩ := sendInt_eq_some_iff.mp h₁
    obtain ⟨-, -, taken, hlen, htaken, rfl⟩ := sendLoads_eq_some_iff.mp h₂
    exact ⟨first :: taken, rest₂, by rw [List.length_cons, hlen],
      List.forall_mem_cons.mpr ⟨hfirst, htaken⟩, rfl⟩
  · rintro ⟨taken, rest, hlen, htaken, rfl⟩
    obtain ⟨first, taken, rfl⟩ := List.exists_cons_of_length_eq_add_one hlen
    obtain ⟨hfirst, htaken⟩ := List.forall_mem_cons.mp htaken
    have h₁ : sendInt jitPort (first :: (taken ++ rest)) = some (word jitPort, taken ++ rest) :=
      sendInt_eq_some_iff.mpr ⟨hport, rfl, first, hfirst, rfl⟩
    have h₂ : sendLoads load metricPorts (taken ++ rest) =
        some ((metricPorts.filterMap load).flatMap word, rest) :=
      sendLoads_eq_some_iff.mpr ⟨hvalues, rfl, taken, by simpa using hlen, htaken, rfl⟩
    rw [List.cons_append, h₁, Option.bind_some, h₂, Option.map_some]

/-- It ends when every call takes all it is offered, and these are its bytes. -/
theorem sendNewPort_eq (hresults : ∀ k ∈ results, 4 ≤ k)
    (henough : metricPorts.length < results.length) :
    sendNewPort true jitPort metricPorts load results =
      some (word jitPort ++ (metricPorts.filterMap load).flatMap word) := by
  have hle := List.length_filterMap_le load metricPorts
  exact (sendNewPort_eq_some_iff hport hvalues).mpr
    ⟨results.take ((metricPorts.filterMap load).length + 1), _,
      List.length_take_of_le (by omega), fun k hk => hresults k (List.mem_of_mem_take hk),
      (List.take_append_drop _ results).symm⟩

end NewPort

/-! ### What is read -/

/-- Integers that are read one after another, zeros after the end of the stream. -/
def words : ℕ → Bytes → List ℤ
  | 0, _ => []
  | n + 1, stream => unpack (filled (stream.take 4)) :: words n (stream.drop 4)

theorem Connection.recv_eq {c : Connection} {n : ℕ} (hn : 0 < n) (h : none ∉ c.arrivals) :
    ∃ m arrivals, 0 < m ∧ m ≤ n ∧ none ∉ arrivals ∧
      c.recv n = some (c.stream.take m, ⟨c.stream.drop m, arrivals⟩) := by
  obtain ⟨stream, arrivals⟩ := c
  match arrivals, h with
  | [], _ => exact ⟨n, [], hn, le_rfl, by simp, rfl⟩
  | none :: _, h => exact absurd List.mem_cons_self h
  | some k :: arrivals, h =>
    exact ⟨min n (max k 1), arrivals, by omega, by omega,
      fun hmem => h (List.mem_cons_of_mem _ hmem), rfl⟩

/-- Taking a part and then the rest is taking both. -/
theorem take_rest (s : Bytes) {m n : ℕ} (h : m ≤ n) :
    s.take m ++ (s.drop m).take (n - (s.take m).length) = s.take n ∧
      (s.drop m).drop (n - (s.take m).length) = s.drop n := by
  rcases le_or_gt m s.length with hle | hlt
  · have hsum : m + (n - m) = n := by omega
    rw [List.length_take_of_le hle, ← List.take_add, List.drop_drop, hsum]
    exact ⟨rfl, rfl⟩
  · rw [List.take_of_length_le hlt.le, List.drop_of_length_le hlt.le,
      List.take_of_length_le (show s.length ≤ n by omega),
      List.drop_of_length_le (show s.length ≤ n by omega)]
    simp

/-- The loop collects what is missing, as far as the stream goes. -/
theorem Connection.collect_eq (fuel : ℕ) (x : Bytes) {c : Connection} (hx : x.length ≤ 4)
    (hfuel : 4 ≤ x.length + fuel) (h : none ∉ c.arrivals) :
    ∃ arrivals, none ∉ arrivals ∧
      collect fuel x c =
        some (x ++ c.stream.take (4 - x.length), ⟨c.stream.drop (4 - x.length), arrivals⟩) := by
  induction fuel generalizing x c with
  | zero =>
    have hzero : 4 - x.length = 0 := by omega
    exact ⟨c.arrivals, h, by simp [collect, hzero]⟩
  | succ fuel ih =>
    rw [collect]
    split_ifs with hlt
    · obtain ⟨m, arrivals, hm, hle, harrivals, hrecv⟩ :=
        c.recv_eq (show 0 < 4 - x.length by omega) h
      rw [hrecv]
      have hlen : (c.stream.take m).length = min m c.stream.length := List.length_take
      by_cases hnil : c.stream.take m = []
      · have hstream : c.stream = [] := by
          rw [hnil, List.length_nil] at hlen
          exact List.eq_nil_of_length_eq_zero (by omega)
        exact ⟨arrivals, harrivals, by simp [hstream]⟩
      · have hpos : 0 < (c.stream.take m).length := List.length_pos_iff.mpr hnil
        obtain ⟨arrivals', harrivals', hcollect⟩ :=
          ih (x ++ c.stream.take m) (c := ⟨c.stream.drop m, arrivals⟩)
            (by rw [List.length_append]; omega) (by rw [List.length_append]; omega) harrivals
        refine ⟨arrivals', harrivals', ?_⟩
        simp only [hnil, if_false]
        obtain ⟨htake, hdrop⟩ := take_rest c.stream hle
        rw [hcollect, List.length_append, ← Nat.sub_sub, List.append_assoc, htake, hdrop]
    · have hzero : 4 - x.length = 0 := by omega
      exact ⟨c.arrivals, h, by simp [hzero]⟩

/-- Integers that were sent are read, and zeros after them. -/
theorem words_flatMap {vs : List ℤ} (h : ∀ v ∈ vs, Packable v) (m : ℕ) :
    words (vs.length + m) (vs.flatMap word) = vs ++ List.replicate m 0 := by
  induction vs with
  | nil =>
    rw [List.length_nil, Nat.zero_add, List.flatMap_nil, List.nil_append]
    induction m with
    | zero => rfl
    | succ m ih =>
      have hzero : unpack (filled []) = 0 := by decide
      rw [words, List.take_nil, List.drop_nil, ih, hzero, List.replicate_succ]
  | cons v vs ih =>
    obtain ⟨hv, hvs⟩ := List.forall_mem_cons.mp h
    obtain ⟨hlen, hunpack⟩ := hv.spec
    have hfilled : filled (word v) = word v := by simp [filled, hlen]
    rw [List.length_cons, Nat.add_right_comm, words, List.flatMap_cons, ← hlen, List.take_left,
      List.drop_left, hfilled, hunpack, ih hvs, List.cons_append]

/-- However its bytes arrive, an integer is the next four of them. -/
theorem Connection.readInt_eq {c : Connection} (h : none ∉ c.arrivals) :
    ∃ arrivals, none ∉ arrivals ∧
      c.readInt = some (unpack (filled (c.stream.take 4)), ⟨c.stream.drop 4, arrivals⟩) := by
  obtain ⟨arrivals, harrivals, hcollect⟩ := collect_eq 4 [] (by simp) (by simp) h
  exact ⟨arrivals, harrivals, by rw [readInt, hcollect]; rfl⟩

/-- The loop replaces the loads from its position on. -/
theorem Launcher.readLoads_eq (before after : List ℤ) {n : ℕ} {c : Connection} {s : Launcher}
    (hn : after.length = n) (hloads : s.loads = before ++ after) (h : none ∉ c.arrivals) :
    readLoads n before.length c s = { s with loads := before ++ words n c.stream } := by
  induction n generalizing c s before after with
  | zero =>
    rw [List.eq_nil_of_length_eq_zero hn] at hloads
    simp [readLoads, words, ← hloads]
  | succ n ih =>
    obtain ⟨v, after, rfl⟩ := List.exists_cons_of_length_eq_add_one hn
    obtain ⟨arrivals, harrivals, hread⟩ := Connection.readInt_eq h
    rw [readLoads, hread]
    have hset : s.loads.set before.length (unpack (filled (c.stream.take 4))) =
        (before ++ [unpack (filled (c.stream.take 4))]) ++ after := by
      simp [hloads]
    have hrest := ih (before ++ [unpack (filled (c.stream.take 4))]) after
      (s := { s with loads := s.loads.set before.length (unpack (filled (c.stream.take 4))) })
      (c := ⟨c.stream.drop 4, arrivals⟩) (by simpa using hn) hset harrivals
    rw [List.length_append, List.length_singleton] at hrest
    exact hrest.trans (by simp [words])

/-- A connection without a timeout gives the new port and a load for every port. -/
theorem Launcher.recvmsg_eq {c : Connection} {s : Launcher} (hfinished : s.finished = false)
    (hparallel : s.loads.length = s.ports.length) (h : none ∉ c.arrivals) :
    recvmsg s (some c) =
      { s with
        ports := s.ports ++ words 1 c.stream
        loads := words (s.ports.length + 1) (c.stream.drop 4) } := by
  obtain ⟨arrivals, harrivals, hread⟩ := Connection.readInt_eq h
  simp only [recvmsg, hfinished, hread, Bool.false_eq_true, if_false]
  have hloads :
      (s.loads ++ [0]).length = (s.ports ++ [unpack (filled (c.stream.take 4))]).length := by
    simp [hparallel]
  exact (readLoads_eq [] (s.loads ++ [0]) hloads rfl harrivals).trans (by simp [words])

end MetricServer.Demo
