/-
**Posting a metric.**

`NewMetricsProvider` and `Post` of `pkg/clients/monitor.go`. With the strategy `Discard` a post is meant not
to wait: it tries to send twice, then takes up to a quarter of the queue away, and sends. The stream reads
from the queue at the same time, between any two operations of the post. `NewMetricsProvider` chooses the
queue by the strategy, but does not store the strategy in the provider; so `Post` finds neither bit set,
and sends with a plain `p.postQueue <- metric`.

* `Act` — the steps of one call of `Post`, and those of the stream.
* `Free` — the property: the call gets to its end by its own steps, wherever it stands; then the metric is
  the last in the queue, behind a suffix of what was there, and no more than a quarter is dropped.
* `free_of_discard` — a provider that has both bits set has it, for every queue.
* `free_iff` — a provider made with both has it exactly if the queue is not full; without `Discard` nothing
  is dropped in any case.
* `full_queue_blocks` — a full queue, on which the call waits for the stream.
-/

import Kubecc.Lib.Liveness

namespace Kubecc.Clients.MetricsProvider

open Kubecc.Lib

abbrev QueueStrategy := BitVec 64

def buffered : QueueStrategy := 1

def discard : QueueStrategy := 2

/-- What `Post` uses of a provider: the capacity of its queue, and `queueStrategy`. -/
structure Provider where
  capacity : Nat
  queueStrategy : QueueStrategy

/-- **`NewMetricsProvider(ctx, client, qs)`**. The field `queueStrategy` is left at its zero value. -/
def newMetricsProvider (qs : QueueStrategy) : Provider :=
  ⟨if qs &&& buffered ≠ 0 then 1000000 else 0, 0⟩

/-! ### A call of `Post` -/

/-- Where the call stands: at its beginning, in the plain send, in the first select, before it looks at
`Buffered`, in the second select, at the top of the loop, in the last send, and at its end. -/
inductive Phase
  | called
  | block
  | first
  | checkBuffered
  | second
  | drain (i : Nat)
  | done
  | returned
deriving DecidableEq

/-- The phases with a `p.postQueue <- metric`. -/
def Phase.sends : Phase → Bool
  | .block | .first | .second | .done => true
  | _ => false

/-- The phases with a `default`, and where it leads. -/
def Phase.default : Phase → Option Phase
  | .first => some .checkBuffered
  | .second => some (.drain 0)
  | _ => none

/-- The queue, whether the stream waits for a metric, and the call. `taken` and `dropped` record what the
stream has got and what the call has thrown away. -/
structure State (Metric : Type) where
  postQueue : List Metric
  reading : Bool
  phase : Phase
  taken : List Metric
  dropped : List Metric

inductive Event
  | stream
  | post
deriving DecidableEq

variable {Metric : Type}

/-- A send does not have to wait. A channel without a buffer hands over to a receiver that waits. -/
def Ready (p : Provider) (state : State Metric) : Prop :=
  state.postQueue.length < p.capacity ∨ p.capacity = 0 ∧ state.reading = true

inductive Act (p : Provider) (metric : Metric) : State Metric → Event → State Metric → Prop
  -- HandleStream, which may also be busy or gone
  | listen {state} (reading : Bool) : Act p metric state .stream { state with reading }
  | take {state} {first : Metric} {rest : List Metric} : state.reading = true →
      state.postQueue = first :: rest →
      Act p metric state .stream
        { state with postQueue := rest, reading := false, taken := state.taken ++ [first] }
  -- Post
  | block {state} : state.phase = .called → p.queueStrategy &&& discard = 0 →
      Act p metric state .post { state with phase := .block }
  | discard {state} : state.phase = .called → p.queueStrategy &&& discard ≠ 0 →
      Act p metric state .post { state with phase := .first }
  | send {state} : state.phase.sends = true → state.postQueue.length < p.capacity →
      Act p metric state .post
        { state with postQueue := state.postQueue ++ [metric], phase := .returned }
  | handOver {state} : state.phase.sends = true → p.capacity = 0 → state.reading = true →
      Act p metric state .post
        { state with reading := false, taken := state.taken ++ [metric], phase := .returned }
  | default {state} {phase : Phase} : state.phase.default = some phase → ¬ Ready p state →
      Act p metric state .post { state with phase }
  | unbuffered {state} : state.phase = .checkBuffered → p.queueStrategy &&& buffered = 0 →
      Act p metric state .post { state with phase := .returned, dropped := state.dropped ++ [metric] }
  | retry {state} : state.phase = .checkBuffered → p.queueStrategy &&& buffered ≠ 0 →
      Act p metric state .post { state with phase := .second }
  | drop {state} {i : Nat} {first : Metric} {rest : List Metric} : state.phase = .drain i →
      i < p.capacity / 4 → state.postQueue = first :: rest →
      Act p metric state .post
        { state with postQueue := rest, phase := .drain (i + 1), dropped := state.dropped ++ [first] }
  | empty {state} {i : Nat} : state.phase = .drain i → i < p.capacity / 4 → state.postQueue = [] →
      Act p metric state .post { state with phase := .done }
  | drained {state} {i : Nat} : state.phase = .drain i → p.capacity / 4 ≤ i →
      Act p metric state .post { state with phase := .done }

def start (queue : List Metric) (reading : Bool) : State Metric := ⟨queue, reading, .called, [], []⟩

/-! ### The property -/

/-- What the call leaves: the metric is the last in the queue, what is before it is a suffix of the old
queue, and at most a quarter of the capacity is dropped. -/
def Posted (p : Provider) (metric : Metric) (queue : List Metric) (state : State Metric) : Prop :=
  ∃ kept, state.postQueue = kept ++ [metric] ∧ kept <:+ queue ∧ state.dropped.length ≤ p.capacity / 4

/-- **The post does not wait for the stream**, whatever that does meanwhile. -/
def Free (p : Provider) (metric : Metric) (queue : List Metric) : Prop :=
  ∀ reading state, Leads (Act p metric) (fun _ _ => True) (start queue reading) state →
    Inevitable (Act p metric) (fun _ event => event = .post) (fun state => state.phase = .returned) state ∧
      ∀ event next, Act p metric state event next → state.phase ≠ .returned → next.phase = .returned →
        Posted p metric queue next

def Lossless (p : Provider) (metric : Metric) (queue : List Metric) : Prop :=
  ∀ reading state, Leads (Act p metric) (fun _ _ => True) (start queue reading) state → state.dropped = []

/-! ### The invariant -/

/-- **The invariant**: up to the send the queue is a suffix of the old one; the loop has dropped no more
than it has gone round, and makes room; the plain send is the way without `Discard`. -/
def Kept (p : Provider) (queue : List Metric) (state : State Metric) : Prop :=
  match state.phase with
  | .called => state.postQueue <:+ queue ∧ state.dropped = []
  | .block => p.queueStrategy &&& discard = 0 ∧ state.postQueue <:+ queue ∧ state.dropped = []
  | .first | .checkBuffered | .second =>
    p.queueStrategy &&& discard ≠ 0 ∧ state.postQueue <:+ queue ∧ state.dropped = []
  | .drain i => p.queueStrategy &&& discard ≠ 0 ∧ state.postQueue <:+ queue ∧
      state.dropped.length ≤ i ∧ i ≤ p.capacity / 4 ∧ (0 < i → state.postQueue.length < p.capacity)
  | .done => p.queueStrategy &&& discard ≠ 0 ∧ state.postQueue <:+ queue ∧
      state.dropped.length ≤ p.capacity / 4 ∧ (0 < p.capacity / 4 → state.postQueue.length < p.capacity)
  | .returned => p.queueStrategy &&& discard = 0 → state.dropped = []

section Steps

variable {p : Provider} {metric : Metric} {queue : List Metric} {state next : State Metric} {event : Event}

theorem Kept.shrink (kept : Kept p queue state) {rest : List Metric} (suffix : rest <:+ state.postQueue)
    {reading : Bool} {taken : List Metric} :
    Kept p queue { state with postQueue := rest, reading, taken } := by
  obtain ⟨postQueue, _, phase, _, dropped⟩ := state
  have shorter := suffix.length_le
  cases phase with
  | called => exact ⟨suffix.trans kept.1, kept.2⟩
  | block | first | checkBuffered | second => exact ⟨kept.1, suffix.trans kept.2.1, kept.2.2⟩
  | drain i =>
    obtain ⟨set, inside, count, bound, room⟩ := kept
    exact ⟨set, suffix.trans inside, count, bound, fun turned => lt_of_le_of_lt shorter (room turned)⟩
  | done =>
    obtain ⟨set, inside, count, room⟩ := kept
    exact ⟨set, suffix.trans inside, count, fun turned => lt_of_le_of_lt shorter (room turned)⟩
  | returned => exact kept

theorem Kept.sends (kept : Kept p queue state) (sends : state.phase.sends = true) :
    state.postQueue <:+ queue ∧ state.dropped.length ≤ p.capacity / 4 ∧
      (p.queueStrategy &&& discard = 0 → state.dropped = []) := by
  obtain ⟨postQueue, reading, phase, taken, dropped⟩ := state
  cases phase with
  | block | first | second =>
    obtain ⟨way, inside, rfl⟩ := kept
    exact ⟨inside, Nat.zero_le _, fun _ => rfl⟩
  | done => exact ⟨kept.2.1, kept.2.2.1, fun unset => absurd unset kept.1⟩
  | called | checkBuffered | drain | returned => exact absurd sends nofun

theorem kept_act (fits : queue.length ≤ p.capacity) (kept : Kept p queue state)
    (act : Act p metric state event next) : Kept p queue next := by
  obtain ⟨postQueue, reading, phase, taken, dropped⟩ := state
  cases act with
  | listen reading => exact kept.shrink (List.suffix_refl postQueue)
  | take _ is =>
    obtain rfl : postQueue = _ := is
    exact kept.shrink (List.suffix_cons _ _)
  | block is unset =>
    obtain rfl : phase = _ := is
    exact ⟨unset, kept.1, kept.2⟩
  | discard is set =>
    obtain rfl : phase = _ := is
    exact ⟨set, kept.1, kept.2⟩
  | send sends | handOver sends => exact (kept.sends sends).2.2
  | default leads full =>
    cases phase with
    | first =>
      obtain rfl := Option.some.inj leads
      exact kept
    | second =>
      obtain rfl := Option.some.inj leads
      exact ⟨kept.1, kept.2.1, (congrArg List.length kept.2.2).le, Nat.zero_le _, nofun⟩
    | called | block | checkBuffered | drain | done | returned => exact absurd leads nofun
  | unbuffered is =>
    obtain rfl : phase = _ := is
    exact fun unset => absurd unset kept.1
  | retry is =>
    obtain rfl : phase = _ := is
    exact kept
  | @drop i first rest is turn there =>
    obtain rfl : phase = _ := is
    obtain rfl : postQueue = _ := there
    obtain ⟨set, inside, count, bound, room⟩ := kept
    have shorter := inside.length_le
    refine ⟨set, (List.suffix_cons first rest).trans inside, ?_, turn, fun _ => ?_⟩
    · show (dropped ++ [first]).length ≤ i + 1
      rw [List.length_append]
      exact Nat.succ_le_succ count
    · exact lt_of_lt_of_le (Nat.lt_succ_self rest.length) (shorter.trans fits)
  | empty is turn there =>
    obtain rfl : phase = _ := is
    obtain rfl : postQueue = _ := there
    obtain ⟨set, inside, count, bound, room⟩ := kept
    refine ⟨set, inside, count.trans bound, fun quarter => ?_⟩
    show 0 < p.capacity
    omega
  | drained is turned =>
    obtain rfl : phase = _ := is
    obtain ⟨set, inside, count, bound, room⟩ := kept
    exact ⟨set, inside, count.trans bound, fun quarter => room (lt_of_lt_of_le quarter turned)⟩

theorem kept (fits : queue.length ≤ p.capacity) {reading : Bool}
    (leads : Leads (Act p metric) (fun _ _ => True) (start queue reading) state) : Kept p queue state :=
  leads.invariant (Kept p queue) (show Kept p queue (start queue reading) from ⟨List.suffix_refl queue, rfl⟩)
    fun kept _ act => kept_act fits kept act

/-! ### The end of the call -/

/-- What the call has still to do. -/
def Phase.rank (quarter : Nat) : Phase → Nat
  | .called => quarter + 6
  | .first => quarter + 5
  | .checkBuffered => quarter + 4
  | .second => quarter + 3
  | .drain i => quarter - i + 2
  | .block | .done => 1
  | .returned => 0

theorem rank_act (act : Act p metric state .post next) (open_ : state.phase ≠ .returned) :
    next.phase.rank (p.capacity / 4) < state.phase.rank (p.capacity / 4) := by
  obtain ⟨postQueue, reading, phase, taken, dropped⟩ := state
  cases act with
  | block is | discard is | unbuffered is | retry is | drop is | empty is | drained is =>
    obtain rfl : phase = _ := is
    simp only [Phase.rank]
    omega
  | send sends | handOver sends =>
    cases phase with
    | returned => exact absurd rfl open_
    | called | block | first | checkBuffered | second | drain | done =>
      simp only [Phase.rank]
      omega
  | default leads =>
    cases phase with
    | first | second =>
      obtain rfl := Option.some.inj leads
      simp only [Phase.rank]
      omega
    | called | block | checkBuffered | drain | done | returned => exact absurd leads nofun

/-- What is needed for a post not to wait: room for the plain send, or both bits and a queue of which a
quarter can be taken away. -/
structure Room (p : Provider) (queue : List Metric) : Prop where
  fits : queue.length ≤ p.capacity
  plain : p.queueStrategy &&& discard = 0 → queue.length < p.capacity
  bits : p.queueStrategy &&& discard ≠ 0 → p.queueStrategy &&& buffered ≠ 0 ∧ 4 ≤ p.capacity

theorem Room.capacity_pos (room : Room p queue) : 0 < p.capacity := by
  by_cases unset : p.queueStrategy &&& discard = 0
  · exact Nat.zero_lt_of_lt (room.plain unset)
  · have large := (room.bits unset).2
    omega

theorem Room.possible (room : Room p queue) (kept : Kept p queue state) (open_ : state.phase ≠ .returned) :
    ∃ next, Act p metric state .post next := by
  -- a send and the `default` beside it: one of the two is possible
  have select : ∀ phase, state.phase.sends = true → state.phase.default = some phase →
      ∃ next, Act p metric state .post next := by
    intro phase sends leads
    by_cases ready : Ready p state
    · rcases ready with short | ⟨none, reading⟩
      · exact ⟨_, .send sends short⟩
      · exact ⟨_, .handOver sends none reading⟩
    · exact ⟨_, .default leads ready⟩
  obtain ⟨postQueue, reading, phase, taken, dropped⟩ := state
  cases phase with
  | called =>
    by_cases unset : p.queueStrategy &&& discard = 0
    · exact ⟨_, .block rfl unset⟩
    · exact ⟨_, .discard rfl unset⟩
  | block => exact ⟨_, .send rfl (lt_of_le_of_lt kept.2.1.length_le (room.plain kept.1))⟩
  | first => exact select _ rfl rfl
  | checkBuffered => exact ⟨_, .retry rfl (room.bits kept.1).1⟩
  | second => exact select _ rfl rfl
  | drain i =>
    rcases Nat.lt_or_ge i (p.capacity / 4) with turn | turned
    · cases postQueue with
      | nil => exact ⟨_, .empty rfl turn rfl⟩
      | cons first rest => exact ⟨_, .drop rfl turn rfl⟩
    · exact ⟨_, .drained rfl turned⟩
  | done =>
    have large := (room.bits kept.1).2
    exact ⟨_, .send rfl (kept.2.2.2 (by omega))⟩
  | returned => exact absurd rfl open_

theorem Room.posted (room : Room p queue) (kept : Kept p queue state) (act : Act p metric state event next)
    (open_ : state.phase ≠ .returned) (ends : next.phase = .returned) : Posted p metric queue next := by
  cases act with
  | listen | take => exact absurd ends open_
  | send sends =>
    obtain ⟨inside, count, _⟩ := kept.sends sends
    exact ⟨state.postQueue, rfl, inside, count⟩
  | handOver _ none => exact absurd room.capacity_pos (by omega)
  | unbuffered is unset =>
    rw [Kept, is] at kept
    exact absurd unset (room.bits kept.1).1
  | default leads =>
    obtain ⟨postQueue, reading, phase, taken, dropped⟩ := state
    obtain rfl : _ = Phase.returned := ends
    cases phase <;> exact absurd leads nofun
  | block | discard | retry | drop | empty | drained => exact absurd ends nofun

theorem Room.free (room : Room p queue) (metric : Metric) : Free p metric queue := by
  intro reading state leads
  have kept := kept room.fits leads
  refine ⟨Inevitable.of_rank (Kept p queue) (fun state => state.phase.rank (p.capacity / 4)) ?_ ?_ kept,
    fun event next act open_ ends => room.posted kept act open_ ends⟩
  · intro state event next kept open_ ok act
    subst ok
    exact ⟨kept_act room.fits kept act, rank_act act open_⟩
  · intro state kept open_
    obtain ⟨next, act⟩ := room.possible kept open_
    exact ⟨.post, next, rfl, act⟩

/-- **A post that may discard does not wait**, whatever the queue. -/
theorem free_of_discard (bits : p.queueStrategy = buffered ||| discard) (large : 4 ≤ p.capacity)
    (fits : queue.length ≤ p.capacity) (metric : Metric) : Free p metric queue :=
  Room.free ⟨fits, fun unset => absurd unset (by rw [bits]; decide), fun _ => ⟨by rw [bits]; decide, large⟩⟩
    metric

theorem not_free_of_full (plain : p.queueStrategy &&& discard = 0) (positive : 0 < p.capacity)
    (full : queue.length = p.capacity) (metric : Metric) : ¬ Free p metric queue := by
  intro free
  have blocked : Leads (Act p metric) (fun _ _ => True) (start queue false)
      { start queue false with phase := .block } := .step .start trivial (.block rfl plain)
  refine not_inevitable_of_stuck (by nofun) ?_ (free false _ blocked).1
  rintro _ next rfl act
  cases act with
  | send _ short => exact absurd full short.ne
  | handOver _ none => exact absurd none positive.ne'
  | default leads => exact absurd leads nofun
  | block is | discard is | unbuffered is | retry is | drop is | empty is | drained is => exact absurd is nofun

theorem lossless_of_plain (plain : p.queueStrategy &&& discard = 0) (fits : queue.length ≤ p.capacity)
    (metric : Metric) : Lossless p metric queue := by
  intro reading state leads
  have kept := kept fits leads
  obtain ⟨postQueue, reading, phase, taken, dropped⟩ := state
  cases phase with
  | called => exact kept.2
  | block => exact kept.2.2
  | returned => exact kept plain
  | first | checkBuffered | second | drain | done => exact absurd plain kept.1

end Steps

/-! ### The providers that are made -/

theorem plain_newMetricsProvider (qs : QueueStrategy) : (newMetricsProvider qs).queueStrategy &&& discard = 0 :=
  BitVec.zero_and

theorem capacity_newMetricsProvider :
    (newMetricsProvider (buffered ||| discard)).capacity = 1000000 := by
  have set : (buffered ||| discard) &&& buffered ≠ 0 := by decide
  rw [newMetricsProvider, if_pos set]

/-- **A post does not wait exactly if the queue is not full**, with a provider made with `Buffered` and
`Discard`; and with one made without `Discard` nothing is dropped. -/
theorem free_iff (metric : Metric) (queue : List Metric) (fits : queue.length ≤ 1000000) :
    (Free (newMetricsProvider (buffered ||| discard)) metric queue ∧
      ∀ qs, qs &&& discard = 0 → ∀ old : List Metric, old.length ≤ (newMetricsProvider qs).capacity →
        Lossless (newMetricsProvider qs) metric old) ↔ queue.length < 1000000 := by
  constructor
  · rintro ⟨free, _⟩
    refine lt_of_le_of_ne fits fun full => ?_
    exact not_free_of_full (plain_newMetricsProvider _) (by rw [capacity_newMetricsProvider]; decide)
      (full.trans capacity_newMetricsProvider.symm) metric free
  · intro short
    refine ⟨Room.free ⟨?_, fun _ => ?_, fun set => absurd (plain_newMetricsProvider _) set⟩ metric,
      fun qs _ old fits => lossless_of_plain (plain_newMetricsProvider qs) fits metric⟩
    · rwa [capacity_newMetricsProvider]
    · rwa [capacity_newMetricsProvider]

theorem free_short_queue : [1, 2].length ≤ 1000000 ∧
    Free (newMetricsProvider (buffered ||| discard)) 3 [1, 2] :=
  ⟨by decide, ((free_iff 3 [1, 2] (by decide)).mpr (by decide)).1⟩

/-- **A full queue blocks the poster.** -/
theorem full_queue_blocks : (List.replicate 1000000 0).length ≤ 1000000 ∧
    ¬ Free (newMetricsProvider (buffered ||| discard)) 1 (List.replicate 1000000 0) := by
  have full : (List.replicate 1000000 0).length = 1000000 := List.length_replicate
  exact ⟨full.le, not_free_of_full (plain_newMetricsProvider _)
    (by rw [capacity_newMetricsProvider]; decide) (full.trans capacity_newMetricsProvider.symm) 1⟩

end Kubecc.Clients.MetricsProvider
