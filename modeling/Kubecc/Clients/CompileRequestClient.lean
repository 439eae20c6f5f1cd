/-
**The compile request client.**

`CompileRequestClient` of `pkg/clients/scheduler.go`: `Compile` calls, `LoadNewStream` calls and the
one `recvWorker` goroutine, over the map `pending` of waiting calls.

A call sends its request on the stream and only then stores its channel in `pending`. `recvWorker`
takes a response off the stream and looks its ID up, or is told that the stream has failed and hands
the error to every channel in the map. A call that leaves because the context is done closes its
channel and leaves its entry behind.

* `Inv` — who is in `pending`, whom `recvWorker` is sending to, and what has been consumed.
* `served_of_registered` — in every run in which `recvWorker` finds nobody between `Send` and `Store`
  and no call leaves through the context, no call waits for what has already been consumed, and
  `recvWorker` never sends on a closed channel.
* `unregistered_runs` — the two runs that go wrong without this.
-/

import Kubecc.Lib.Process
import Kubecc.Go.Strings
import Mathlib.Data.Finset.Basic

namespace Kubecc.Clients

open Kubecc.Lib Kubecc.Go

abbrev StreamId := Nat

abbrev RequestId := GoString

variable {Value : Type}

/-- `types.CompileResponse`: the request it answers, and the rest. -/
structure CompileResponse (Value : Type) where
  requestID : RequestId
  value : Value
deriving DecidableEq

inductive Result (Value : Type)
  | value (response : CompileResponse Value)
  | recvError
  | sendError
  | contextError
deriving DecidableEq

/-- Where a `Compile` call stands. `sent` still holds `streamLock`; `unlocked` has not yet stored its
channel; `returning` has not yet run its deferred `close(wait)`. -/
inductive Compile (Value : Type)
  | called
  | locked
  | sent (stream : StreamId)
  | unlocked (stream : StreamId)
  | waiting (stream : StreamId)
  | sendFailed
  | returning (result : Result Value)
deriving DecidableEq

/-- Where a `LoadNewStream` call stands. -/
inductive Load
  | called
  | locked
  | stored
  | signalled
deriving DecidableEq

/-- The calls in progress. A call is known by its request ID. -/
inductive Proc (Value : Type)
  | compile (id : RequestId) (state : Compile Value)
  | load (stream : StreamId) (state : Load)
deriving DecidableEq

/-- Where `recvWorker` stands. `errored` has received an error and not yet begun `Range`; `range todo`
has still to visit the keys `todo` of the map it began with. -/
inductive RecvWorker (Value : Type)
  | top
  | check
  | parked
  | woken
  | read
  | receiving (stream : StreamId)
  | received (response : CompileResponse Value)
  | deliver (response : CompileResponse Value)
  | errored (stream : StreamId)
  | range (todo : Finset RequestId)
  | rangeSend (id : RequestId) (todo : Finset RequestId)
  | rangeDelete (id : RequestId) (todo : Finset RequestId)
  | resetLock
  | reset
  | panicked

/-- The client's fields and its goroutine, and what the streams have carried. The channel stored for a
key of `pending` is the one of the call with that ID, and `closed` says whether that call has closed
it. `called`, `sent`, `consumed` and `failed` record the IDs in use, what was sent on a stream, the
responses taken off a stream, and the streams whose error has been received. -/
structure Mem (Value : Type) where
  stream : Option StreamId
  streamLock : Bool
  pending : Finset RequestId
  recvWorker : RecvWorker Value
  contextDone : Bool
  closed : RequestId → Bool
  called : RequestId → Bool
  sent : StreamId → RequestId → Bool
  consumed : RequestId → Bool
  failed : StreamId → Bool

abbrev State (Value : Type) := Config (Mem Value) (Proc Value)

inductive Event (Value : Type)
  | compile (id : RequestId)
  | load (stream : StreamId)
  | cancel
  | response (stream : StreamId) (response : CompileResponse Value)
  | failure (stream : StreamId)
  | lookup (id : RequestId)
  | scan (stream : StreamId)
  | leave (id : RequestId)
  | notReady (id : RequestId)
  | returned (id : RequestId) (result : Result Value)
  | internal

/-- **The steps of the client.** The scheduler answers on a stream only what was sent on it, and a
stream whose error has been received accepts no further message. -/
inductive Act : Rules (Mem Value) (Proc Value) (Event Value)
  -- the environment
  | call {mem} (id : RequestId) : mem.called id = false →
      Act (.compile id) mem [] { mem with called := Function.update mem.called id true }
        [.compile id .called]
  | load {mem} (stream : StreamId) : Act (.load stream) mem [] mem [.load stream .called]
  | cancel {mem} : Act .cancel mem [] { mem with contextDone := true } []
  -- LoadNewStream
  | loadLock {mem} {stream : StreamId} : mem.streamLock = false →
      Act .internal mem [.load stream .called] { mem with streamLock := true }
        [.load stream .locked]
  | loadStore {mem} {stream : StreamId} :
      Act .internal mem [.load stream .locked] { mem with stream := some stream }
        [.load stream .stored]
  | loadSignal {mem} {stream : StreamId} : mem.recvWorker = .parked →
      Act .internal mem [.load stream .stored] { mem with recvWorker := .woken }
        [.load stream .signalled]
  | loadSignalNobody {mem} {stream : StreamId} : mem.recvWorker ≠ .parked →
      Act .internal mem [.load stream .stored] mem [.load stream .signalled]
  | loadUnlock {mem} {stream : StreamId} :
      Act .internal mem [.load stream .signalled] { mem with streamLock := false } []
  -- Compile
  | lock {mem} {id : RequestId} : mem.streamLock = false →
      Act .internal mem [.compile id .called] { mem with streamLock := true } [.compile id .locked]
  | notReady {mem} {id : RequestId} : mem.stream = none →
      Act (.notReady id) mem [.compile id .locked] { mem with streamLock := false } []
  | send {mem} {id : RequestId} {stream : StreamId} : mem.stream = some stream →
      mem.failed stream = false →
      Act .internal mem [.compile id .locked]
        { mem with
          sent := Function.update mem.sent stream (Function.update (mem.sent stream) id true) }
        [.compile id (.sent stream)]
  | sendError {mem} {id : RequestId} {stream : StreamId} : mem.stream = some stream →
      Act .internal mem [.compile id .locked] mem [.compile id .sendFailed]
  | unlock {mem} {id : RequestId} {stream : StreamId} :
      Act .internal mem [.compile id (.sent stream)] { mem with streamLock := false }
        [.compile id (.unlocked stream)]
  | unlockFailed {mem} {id : RequestId} :
      Act .internal mem [.compile id .sendFailed] { mem with streamLock := false }
        [.compile id (.returning .sendError)]
  | store {mem} {id : RequestId} {stream : StreamId} :
      Act .internal mem [.compile id (.unlocked stream)]
        { mem with pending := insert id mem.pending } [.compile id (.waiting stream)]
  | leave {mem} {id : RequestId} {stream : StreamId} : mem.contextDone = true →
      Act (.leave id) mem [.compile id (.waiting stream)] mem
        [.compile id (.returning .contextError)]
  | close {mem} {id : RequestId} {result : Result Value} :
      Act (.returned id result) mem [.compile id (.returning result)]
        { mem with closed := Function.update mem.closed id true } []
  -- recvWorker, until it has a stream
  | top {mem} : mem.recvWorker = .top → mem.streamLock = false →
      Act .internal mem [] { mem with recvWorker := .check, streamLock := true } []
  | park {mem} : mem.recvWorker = .check → mem.stream = none →
      Act .internal mem [] { mem with recvWorker := .parked, streamLock := false } []
  | wake {mem} : mem.recvWorker = .woken → mem.streamLock = false →
      Act .internal mem [] { mem with recvWorker := .check, streamLock := true } []
  | ready {mem} : mem.recvWorker = .check → mem.stream ≠ none →
      Act .internal mem [] { mem with recvWorker := .read, streamLock := false } []
  -- recvWorker, the inner loop
  | read {mem} {stream : StreamId} : mem.recvWorker = .read → mem.stream = some stream →
      Act .internal mem [] { mem with recvWorker := .receiving stream } []
  | readNil {mem} : mem.recvWorker = .read → mem.stream = none →
      Act .internal mem [] { mem with recvWorker := .panicked } []
  | response {mem} {stream : StreamId} (response : CompileResponse Value) :
      mem.recvWorker = .receiving stream → mem.sent stream response.requestID = true →
      Act (.response stream response) mem []
        { mem with
          recvWorker := .received response
          consumed := Function.update mem.consumed response.requestID true } []
  | failure {mem} {stream : StreamId} : mem.recvWorker = .receiving stream →
      Act (.failure stream) mem []
        { mem with
          recvWorker := .errored stream
          failed := Function.update mem.failed stream true } []
  | found {mem} {response : CompileResponse Value} : mem.recvWorker = .received response →
      response.requestID ∈ mem.pending →
      Act (.lookup response.requestID) mem []
        { mem with
          recvWorker := .deliver response
          pending := mem.pending.erase response.requestID } []
  | notFound {mem} {response : CompileResponse Value} : mem.recvWorker = .received response →
      response.requestID ∉ mem.pending →
      Act (.lookup response.requestID) mem [] { mem with recvWorker := .read } []
  | deliver {mem} {response : CompileResponse Value} {stream : StreamId} :
      mem.recvWorker = .deliver response →
      Act .internal mem [.compile response.requestID (.waiting stream)]
        { mem with recvWorker := .read } [.compile response.requestID (.returning (.value response))]
  | deliverClosed {mem} {response : CompileResponse Value} : mem.recvWorker = .deliver response →
      mem.closed response.requestID = true →
      Act .internal mem [] { mem with recvWorker := .panicked } []
  -- recvWorker, Range over pending; a key stored meanwhile may be visited too
  | scan {mem} {stream : StreamId} : mem.recvWorker = .errored stream →
      Act (.scan stream) mem [] { mem with recvWorker := .range mem.pending } []
  | visit {mem} {todo : Finset RequestId} (id : RequestId) : mem.recvWorker = .range todo →
      id ∈ mem.pending →
      Act .internal mem [] { mem with recvWorker := .rangeSend id (todo.erase id) } []
  | rangeSend {mem} {id : RequestId} {todo : Finset RequestId} {stream : StreamId} :
      mem.recvWorker = .rangeSend id todo →
      Act .internal mem [.compile id (.waiting stream)]
        { mem with recvWorker := .rangeDelete id todo } [.compile id (.returning .recvError)]
  | rangeSendClosed {mem} {id : RequestId} {todo : Finset RequestId} :
      mem.recvWorker = .rangeSend id todo → mem.closed id = true →
      Act .internal mem [] { mem with recvWorker := .panicked } []
  | rangeDelete {mem} {id : RequestId} {todo : Finset RequestId} :
      mem.recvWorker = .rangeDelete id todo →
      Act .internal mem []
        { mem with recvWorker := .range todo, pending := mem.pending.erase id } []
  | rangeEnd {mem} : mem.recvWorker = .range ∅ →
      Act .internal mem [] { mem with recvWorker := .resetLock } []
  | resetLock {mem} : mem.recvWorker = .resetLock → mem.streamLock = false →
      Act .internal mem [] { mem with recvWorker := .reset, streamLock := true } []
  | reset {mem} : mem.recvWorker = .reset →
      Act .internal mem []
        { mem with recvWorker := .top, stream := none, streamLock := false } []

def initial (stream : Option StreamId) : State Value where
  mem :=
    { stream := stream, streamLock := false, pending := ∅, recvWorker := .top, contextDone := false
      closed := fun _ => false, called := fun _ => false, sent := fun _ _ => false
      consumed := fun _ => false, failed := fun _ => false }
  procs := 0

/-! ### Who waits, and what is still to come -/

def callOf (id : RequestId) : Proc Value → ℕ
  | .compile id' _ => if id' = id then 1 else 0
  | .load _ _ => 0

def unsent (id : RequestId) : Proc Value → ℕ
  | .compile id' .called => if id' = id then 1 else 0
  | .compile id' .locked => if id' = id then 1 else 0
  | _ => 0

def unstored (id : RequestId) : Proc Value → ℕ
  | .compile id' (.sent _) => if id' = id then 1 else 0
  | .compile id' (.unlocked _) => if id' = id then 1 else 0
  | _ => 0

/-- A call that has sent its request on this stream is between `Send` and `Store`. -/
def unstoredOn (stream : StreamId) : Proc Value → ℕ
  | .compile _ (.sent stream') => if stream' = stream then 1 else 0
  | .compile _ (.unlocked stream') => if stream' = stream then 1 else 0
  | _ => 0

def waitingFor (id : RequestId) : Proc Value → ℕ
  | .compile id' (.waiting _) => if id' = id then 1 else 0
  | _ => 0

/-- The call with this ID, which sent its request on this stream, waits on its channel. -/
def waitingOn (id : RequestId) (stream : StreamId) : Proc Value → ℕ
  | .compile id' (.waiting stream') => if id' = id ∧ stream' = stream then 1 else 0
  | _ => 0

/-- `recvWorker` is in `value.(chan response) <- ...` or `ch.(chan response) <- ...` on the channel of
the call with this ID. -/
def SendingTo (id : RequestId) : RecvWorker Value → Prop
  | .deliver response => response.requestID = id
  | .rangeSend id' _ => id' = id
  | _ => False

/-- `recvWorker` has a response for this ID in hand and has not looked it up. -/
def LookingUp (id : RequestId) : RecvWorker Value → Prop
  | .received response => response.requestID = id
  | _ => False

/-- `Range` is at this key or has still to visit it. -/
def Ranging (id : RequestId) : RecvWorker Value → Prop
  | .range todo => id ∈ todo
  | .rangeSend id' todo => id' = id ∨ id ∈ todo
  | .rangeDelete _ todo => id ∈ todo
  | _ => False

/-- **A delivery to the call with this ID is still to come.** -/
def Due (mem : Mem Value) (id : RequestId) : Prop :=
  SendingTo id mem.recvWorker ∨ Ranging id mem.recvWorker ∨
    id ∈ mem.pending ∧ (LookingUp id mem.recvWorker ∨ ∃ stream, mem.recvWorker = .errored stream)

/-- **Every response reaches its caller**: no call waits, with nothing still to come, for a response
or an error that `recvWorker` has already taken off the stream, and `recvWorker` does not send on a
channel that its call has closed. -/
structure Served (config : State Value) : Prop where
  due : ∀ id stream, Proc.compile id (.waiting stream) ∈ config.procs →
    config.mem.consumed id = true ∨ config.mem.failed stream = true → Due config.mem id
  open_ : ∀ id, SendingTo id config.mem.recvWorker → config.mem.closed id = false
  alive : config.mem.recvWorker ≠ .panicked

/-- The runs in which `recvWorker` looks an ID up, or begins to range over `pending`, only while no
call it concerns is between `Send` and `Store`, and in which no call leaves through the context. -/
def Registered (config : State Value) : Event Value → Prop
  | .lookup id => total (unstored id) config.procs = 0
  | .scan stream => total (unstoredOn stream) config.procs = 0
  | .leave _ => False
  | _ => True

/-! ### The invariant -/

section Invariant

/-- `recvWorker` has delivered an error to the call with this ID and not yet deleted its key. -/
def Deleting (id : RequestId) : RecvWorker Value → Prop
  | .rangeDelete id' _ => id' = id
  | _ => False

/-- `recvWorker` has just reset `rc.stream`, or waits for one. -/
def Streamless : RecvWorker Value → Prop
  | .top | .check | .parked | .woken => True
  | _ => False

structure Inv (config : State Value) : Prop where
  once : ∀ id, total (callOf id) config.procs + (config.mem.closed id).toNat ≤
    (config.mem.called id).toNat
  sent : ∀ stream id, total (unsent id) config.procs + (config.mem.sent stream id).toNat ≤
    (config.mem.called id).toNat
  consumed : ∀ id, total (unsent id) config.procs + (config.mem.consumed id).toNat ≤
    (config.mem.called id).toNat
  stored : ∀ id ∈ config.mem.pending,
    0 < total (waitingFor id) config.procs ∨ Deleting id config.mem.recvWorker
  waiting : ∀ id, 0 < total (waitingFor id) config.procs →
    id ∈ config.mem.pending ∨ SendingTo id config.mem.recvWorker
  taken : ∀ response, config.mem.recvWorker = .deliver response →
    response.requestID ∉ config.mem.pending
  sending : ∀ id, SendingTo id config.mem.recvWorker → 0 < total (waitingFor id) config.procs
  deleting : ∀ id, Deleting id config.mem.recvWorker → config.mem.called id = true ∧
    total (unsent id) config.procs + total (unstored id) config.procs +
      total (waitingFor id) config.procs = 0
  looking : ∀ id, LookingUp id config.mem.recvWorker → config.mem.consumed id = true
  looked : ∀ id, config.mem.consumed id = true → LookingUp id config.mem.recvWorker ∨
    total (unstored id) config.procs = 0 ∧ id ∉ config.mem.pending
  failed : ∀ stream, config.mem.failed stream = true → config.mem.recvWorker = .errored stream ∨
    total (unstoredOn stream) config.procs = 0
  ranged : ∀ id stream, config.mem.failed stream = true →
    0 < total (waitingOn id stream) config.procs →
    config.mem.recvWorker = .errored stream ∨ Ranging id config.mem.recvWorker
  visited : ∀ id todo, config.mem.recvWorker = .rangeSend id todo ∨
    config.mem.recvWorker = .rangeDelete id todo → id ∉ todo
  ranging : ∀ id, Ranging id config.mem.recvWorker → id ∈ config.mem.pending
  streamless : config.mem.stream = none → Streamless config.mem.recvWorker
  alive : config.mem.recvWorker ≠ .panicked

variable {config next : State Value} {event : Event Value}

theorem places_le_callOf (id : RequestId) (procs : Multiset (Proc Value)) :
    total (unsent id) procs + total (unstored id) procs + total (waitingFor id) procs ≤
      total (callOf id) procs := by
  rw [← total_eq_add fun _ _ => rfl, ← total_eq_add fun _ _ => rfl]
  refine total_le_total (fun proc => ?_) procs
  rcases proc with ⟨id', _ | _ | _ | _ | _ | _ | _⟩ | _ <;>
    simp [unsent, unstored, waitingFor, callOf]

theorem Inv.place (inv : Inv config) (id : RequestId) :
    total (unsent id) config.procs + total (unstored id) config.procs +
      total (waitingFor id) config.procs + (config.mem.closed id).toNat ≤ 1 := by
  have once := inv.once id
  have places := places_le_callOf id config.procs
  have one := Bool.toNat_le (config.mem.called id)
  omega

theorem Inv.notClosed (inv : Inv config) {id : RequestId}
    (sends : SendingTo id config.mem.recvWorker) : config.mem.closed id = false := by
  have place := inv.place id
  have waits := inv.sending id sends
  by_contra closed
  rw [Bool.not_eq_false] at closed
  rw [closed, Bool.toNat_true] at place
  omega

variable {mem mem' : Mem Value} {acting left : List (Proc Value)} {rest : Multiset (Proc Value)}

theorem total_fire (weight : Proc Value → ℕ) (procs : List (Proc Value)) :
    total weight (↑procs + rest) = (procs.map weight).sum + total weight rest := by
  rw [total_add]
  rfl

theorem sum_none (weight : Proc Value → ℕ) : (([] : List (Proc Value)).map weight).sum = 0 := rfl

theorem sum_one (weight : Proc Value → ℕ) (proc : Proc Value) :
    ([proc].map weight).sum = weight proc := rfl

theorem Inv.unclosed {procs : Multiset (Proc Value)} (inv : Inv ⟨mem, procs⟩) {id : RequestId}
    (sends : SendingTo id mem.recvWorker) (closed : mem.closed id = true) : False :=
  Bool.false_ne_true ((inv.notClosed sends).symm.trans closed)

theorem le_called {called : RequestId → Bool} {name id : RequestId} {count : ℕ}
    (new : called name = false) (here : count ≤ (called id).toNat) :
    (if name = id then 1 else 0) + count ≤ (Function.update called name true id).toNat := by
  by_cases same : name = id
  · subst same
    rw [new, Bool.toNat_false] at here
    rw [if_pos rfl, Function.update_self, Bool.toNat_true]
    omega
  · rw [if_neg same, Function.update_of_ne (Ne.symm same), Nat.zero_add]
    exact here

theorem once_act (act : Act event mem acting mem' left) (inv : Inv ⟨mem, ↑acting + rest⟩)
    (id : RequestId) :
    total (@callOf Value id) (↑left + rest) + (mem'.closed id).toNat ≤ (mem'.called id).toNat := by
  have here : total (@callOf Value id) (↑acting + rest) + (mem.closed id).toNat ≤
    (mem.called id).toNat := inv.once id
  rw [total_fire] at here ⊢
  cases act with
  | call name new =>
    simp only [sum_none, sum_one, callOf, Nat.zero_add, Nat.add_assoc] at here ⊢
    exact le_called new here
  | @close _ name =>
    simp only [sum_none, sum_one, callOf] at here ⊢
    by_cases same : name = id
    · subst same
      rw [if_pos rfl] at here
      rw [Function.update_self, Bool.toNat_true]
      omega
    · rw [if_neg same] at here
      rw [Function.update_of_ne (Ne.symm same)]
      exact here
  | notReady =>
    simp only [sum_none]
    omega
  | _ => exact here

theorem sent_act (act : Act event mem acting mem' left) (inv : Inv ⟨mem, ↑acting + rest⟩)
    (stream : StreamId) (id : RequestId) :
    total (@unsent Value id) (↑left + rest) + (mem'.sent stream id).toNat ≤
      (mem'.called id).toNat := by
  have here : total (@unsent Value id) (↑acting + rest) + (mem.sent stream id).toNat ≤
    (mem.called id).toNat := inv.sent stream id
  rw [total_fire] at here ⊢
  cases act with
  | call name new =>
    simp only [sum_none, sum_one, unsent, Nat.zero_add, Nat.add_assoc] at here ⊢
    exact le_called new here
  | @send _ name other =>
    simp only [sum_one, unsent] at here ⊢
    by_cases same : name = id
    · -- the call is the only one with this ID, so nothing was sent for it
      rw [if_pos same] at here
      have one := Bool.toNat_le (mem.called id)
      have sent := Bool.toNat_le (Function.update mem.sent other
        (Function.update (mem.sent other) name true) stream id)
      omega
    · rw [if_neg same] at here
      have unchanged : Function.update mem.sent other (Function.update (mem.sent other) name true)
          stream id = mem.sent stream id := by
        by_cases on : stream = other
        · subst on
          rw [Function.update_self, Function.update_of_ne (Ne.symm same)]
        · rw [Function.update_of_ne on]
      rw [unchanged]
      exact here
  | notReady | sendError =>
    simp only [sum_none, sum_one, unsent]
    omega
  | _ => exact here

theorem consumed_act (act : Act event mem acting mem' left) (inv : Inv ⟨mem, ↑acting + rest⟩)
    (id : RequestId) :
    total (@unsent Value id) (↑left + rest) + (mem'.consumed id).toNat ≤ (mem'.called id).toNat := by
  have here : total (@unsent Value id) (↑acting + rest) + (mem.consumed id).toNat ≤
    (mem.called id).toNat := inv.consumed id
  cases act with
  | call name new =>
    simp only [total_fire, sum_none, sum_one, unsent, Nat.zero_add, Nat.add_assoc] at here ⊢
    exact le_called new here
  | @response _ stream response _ sent =>
    by_cases same : id = response.requestID
    · subst same
      have known := inv.sent stream response.requestID
      simp only [sent] at known
      simp only [Function.update_self]
      exact known
    · simp only [Function.update_of_ne same]
      exact here
  | notReady | sendError | send =>
    simp only [total_fire, sum_none, sum_one, unsent] at here ⊢
    omega
  | _ =>
    rw [total_fire] at here ⊢
    exact here

theorem stored_act (act : Act event mem acting mem' left) (inv : Inv ⟨mem, ↑acting + rest⟩)
    (ok : Registered ⟨mem, ↑acting + rest⟩ event) (id : RequestId) (member : id ∈ mem'.pending) :
    0 < total (@waitingFor Value id) (↑left + rest) ∨ Deleting id mem'.recvWorker := by
  have here : id ∈ mem.pending → 0 < total (@waitingFor Value id) (↑acting + rest) ∨
    Deleting id mem.recvWorker := inv.stored id
  rw [total_fire] at here ⊢
  cases act with
  | @store _ name =>
    rcases Finset.mem_insert.mp member with same | member
    · rw [sum_one, waitingFor, if_pos same.symm]
      omega
    · refine (here member).imp_left fun waits => ?_
      simp only [sum_one, waitingFor] at waits ⊢
      omega
  | leave => exact ok.elim
  | @deliver _ response stream is =>
    have other : response.requestID ≠ id := by
      rintro rfl
      exact inv.taken response is member
    rw [is] at here
    refine (here member).imp (fun waits => ?_) False.elim
    simp only [sum_one, waitingFor, if_neg other] at waits ⊢
    exact waits
  | @rangeSend _ name todo stream is =>
    by_cases same : name = id
    · exact .inr same
    · rw [is] at here
      refine (here member).imp (fun waits => ?_) False.elim
      simp only [sum_one, waitingFor, if_neg same] at waits ⊢
      exact waits
  | found is =>
    rw [is] at here
    exact (here (Finset.mem_of_mem_erase member)).imp_right False.elim
  | rangeDelete is =>
    rw [is] at here
    obtain ⟨other, member⟩ := Finset.mem_erase.mp member
    exact (here member).imp_right fun deletes => absurd deletes.symm other
  | loadSignal is | top is | park is | wake is | ready is | read is | readNil is | response _ is
  | failure is | notFound is | deliverClosed is | scan is | visit _ is | rangeSendClosed is
  | rangeEnd is | resetLock is | reset is =>
    rw [is] at here
    exact (here member).imp_right False.elim
  | _ => exact here member

theorem waiting_act (act : Act event mem acting mem' left) (inv : Inv ⟨mem, ↑acting + rest⟩)
    (id : RequestId) (waits : 0 < total (@waitingFor Value id) (↑left + rest)) :
    id ∈ mem'.pending ∨ SendingTo id mem'.recvWorker := by
  have here : 0 < total (@waitingFor Value id) (↑acting + rest) → id ∈ mem.pending ∨
    SendingTo id mem.recvWorker := inv.waiting id
  have place := inv.place id
  have single : total (@waitingFor Value id) (↑acting + rest) ≤ 1 := by
    simp only at place
    omega
  rw [total_fire] at here single waits
  cases act with
  | @store _ name =>
    by_cases same : id = name
    · exact .inl (Finset.mem_insert.mpr (.inl same))
    · simp only [sum_one, waitingFor, if_neg (Ne.symm same)] at waits here
      exact (here waits).imp_left Finset.mem_insert_of_mem
  | leave =>
    simp only [sum_one, waitingFor] at waits here
    exact here (by omega)
  | @found _ response is =>
    rw [is] at here
    by_cases same : response.requestID = id
    · exact .inr same
    · have member := (here waits).resolve_right not_false
      exact .inl (Finset.mem_erase_of_ne_of_mem (Ne.symm same) member)
  | @deliver _ response stream is =>
    simp only [sum_one, waitingFor] at waits here single
    by_cases same : response.requestID = id
    · rw [if_pos same] at single
      omega
    · rw [if_neg same, is] at here
      exact .inl ((here waits).resolve_right same)
  | @rangeSend _ name todo stream is =>
    simp only [sum_one, waitingFor] at waits here single
    by_cases same : name = id
    · rw [if_pos same] at single
      omega
    · rw [if_neg same, is] at here
      exact .inl ((here waits).resolve_right same)
  | deliverClosed is closed | rangeSendClosed is closed => exact (inv.unclosed (is ▸ rfl) closed).elim
  | @rangeDelete _ name todo is =>
    rw [is] at here
    have member := (here waits).resolve_right not_false
    refine .inl (Finset.mem_erase_of_ne_of_mem ?_ member)
    rintro rfl
    have gone := (inv.deleting id (is ▸ rfl)).2
    simp only [total_fire] at gone
    omega
  | loadSignal is | top is | park is | wake is | ready is | read is | readNil is | response _ is
  | failure is | notFound is | scan is | visit _ is | rangeEnd is | resetLock is | reset is =>
    rw [is] at here
    exact (here waits).imp_right False.elim
  | _ => exact here waits

theorem taken_act (act : Act event mem acting mem' left) (inv : Inv ⟨mem, ↑acting + rest⟩)
    (response : CompileResponse Value) (delivers : mem'.recvWorker = .deliver response) :
    response.requestID ∉ mem'.pending := by
  cases act with
  | @store _ name stream =>
    -- the call that is delivered to waits, so it is not the one that stores its channel now
    have here : response.requestID ∉ mem.pending := inv.taken response delivers
    have waits := inv.sending response.requestID (show SendingTo _ mem.recvWorker from delivers ▸ rfl)
    have place := inv.place response.requestID
    refine fun member => (Finset.mem_insert.mp member).elim (fun same => ?_) here
    simp only [total_fire, sum_one, unstored, waitingFor, if_pos same.symm] at waits place
    omega
  | @found _ other =>
    obtain rfl := RecvWorker.deliver.inj delivers
    exact Finset.notMem_erase _ _
  | loadSignal | top | park | wake | ready | read | readNil | response | failure | notFound | deliver
  | deliverClosed | scan | visit | rangeSend | rangeSendClosed | rangeDelete | rangeEnd | resetLock
  | reset => exact absurd delivers nofun
  | _ => exact inv.taken response delivers

theorem sending_act (act : Act event mem acting mem' left) (inv : Inv ⟨mem, ↑acting + rest⟩)
    (ok : Registered ⟨mem, ↑acting + rest⟩ event) (id : RequestId)
    (sends : SendingTo id mem'.recvWorker) : 0 < total (@waitingFor Value id) (↑left + rest) := by
  have here : SendingTo id mem.recvWorker → 0 < total (@waitingFor Value id) (↑acting + rest) :=
    inv.sending id
  have stored : id ∈ mem.pending → 0 < total (@waitingFor Value id) (↑acting + rest) ∨
    Deleting id mem.recvWorker := inv.stored id
  rw [total_fire] at here stored ⊢
  cases act with
  | store =>
    have waits := here sends
    simp only [sum_one, waitingFor] at waits ⊢
    omega
  | leave => exact ok.elim
  | @found _ response is member =>
    obtain rfl : response.requestID = id := sends
    rw [is] at stored
    exact (stored member).resolve_right not_false
  | @visit _ todo name is member =>
    obtain rfl : name = id := sends
    rw [is] at stored
    exact (stored member).resolve_right not_false
  | loadSignal | top | park | wake | ready | read | readNil | response | failure | notFound | deliver
  | deliverClosed | scan | rangeSend | rangeSendClosed | rangeDelete | rangeEnd | resetLock | reset =>
    exact sends.elim
  | _ => exact here sends

theorem deleting_act (act : Act event mem acting mem' left) (inv : Inv ⟨mem, ↑acting + rest⟩)
    (id : RequestId) (deletes : Deleting id mem'.recvWorker) :
    mem'.called id = true ∧ total (@unsent Value id) (↑left + rest) +
      total (@unstored Value id) (↑left + rest) + total (@waitingFor Value id) (↑left + rest) = 0 := by
  have here : Deleting id mem.recvWorker → mem.called id = true ∧
    total (@unsent Value id) (↑acting + rest) + total (@unstored Value id) (↑acting + rest) +
      total (@waitingFor Value id) (↑acting + rest) = 0 := inv.deleting id
  simp only [total_fire] at here ⊢
  cases act with
  | call name new =>
    obtain ⟨called, gone⟩ := here deletes
    have other : name ≠ id := by
      rintro rfl
      exact Bool.false_ne_true (new.symm.trans called)
    simp only [sum_none, sum_one, unsent, unstored, waitingFor, if_neg other,
      Function.update_of_ne (Ne.symm other)] at gone ⊢
    exact ⟨called, gone⟩
  | notReady | send | sendError | unlock | unlockFailed | store | leave =>
    refine ⟨(here deletes).1, ?_⟩
    have gone := (here deletes).2
    simp only [sum_none, sum_one, unsent, unstored, waitingFor] at gone ⊢
    omega
  | @rangeSend _ name todo stream is =>
    -- the call that has got the error is at no other place
    obtain rfl : name = id := deletes
    have once := inv.once name
    have place := inv.place name
    simp only [total_fire, sum_one, callOf, unsent, unstored, waitingFor, if_pos] at once place ⊢
    refine ⟨Bool.eq_true_of_not_eq_false fun unused => ?_, by omega⟩
    rw [unused, Bool.toNat_false] at once
    omega
  | loadSignal | top | park | wake | ready | read | readNil | response | failure | found | notFound
  | deliver | deliverClosed | scan | visit | rangeSendClosed | rangeDelete | rangeEnd | resetLock
  | reset => exact deletes.elim
  | _ => exact here deletes

theorem looking_act (act : Act event mem acting mem' left) (inv : Inv ⟨mem, ↑acting + rest⟩)
    (id : RequestId) (looks : LookingUp id mem'.recvWorker) : mem'.consumed id = true := by
  cases act with
  | @response _ stream response =>
    obtain rfl : response.requestID = id := looks
    exact Function.update_self _ _ _
  | loadSignal | top | park | wake | ready | read | readNil | failure | found | notFound | deliver
  | deliverClosed | scan | visit | rangeSend | rangeSendClosed | rangeDelete | rangeEnd | resetLock
  | reset => exact looks.elim
  | _ => exact inv.looking id looks

theorem looked_act (act : Act event mem acting mem' left) (inv : Inv ⟨mem, ↑acting + rest⟩)
    (ok : Registered ⟨mem, ↑acting + rest⟩ event) (id : RequestId) (consumed : mem'.consumed id = true) :
    LookingUp id mem'.recvWorker ∨
      total (@unstored Value id) (↑left + rest) = 0 ∧ id ∉ mem'.pending := by
  have here : mem.consumed id = true → LookingUp id mem.recvWorker ∨
    total (@unstored Value id) (↑acting + rest) = 0 ∧ id ∉ mem.pending := inv.looked id
  cases act with
  | @send _ name stream =>
    -- what is consumed was sent, so this is another call
    have notSent := inv.consumed id
    have one := Bool.toNat_le (mem.called id)
    have is : mem.consumed id = true := consumed
    simp only [total_fire, sum_one, unsent, is, Bool.toNat_true] at notSent
    have other : name ≠ id := by
      rintro rfl
      rw [if_pos rfl] at notSent
      omega
    simp only [total_fire, sum_one, unstored, if_neg other] at here ⊢
    exact here consumed
  | @store _ name stream =>
    refine (here consumed).imp_right fun ⟨stored, absent⟩ => ?_
    simp only [total_fire, sum_one, unstored] at stored ⊢
    have other : name ≠ id := by
      rintro rfl
      rw [if_pos rfl] at stored
      omega
    rw [if_neg other] at stored
    refine ⟨stored, fun member => ?_⟩
    exact (Finset.mem_insert.mp member).elim (fun same => other same.symm) absent
  | @response _ stream response is =>
    by_cases same : id = response.requestID
    · exact .inl same.symm
    · rw [is] at here
      simp only [Function.update_of_ne same] at consumed
      exact .inr ((here consumed).resolve_left not_false)
  | @found _ response is =>
    rw [is] at here
    by_cases same : response.requestID = id
    · subst same
      exact .inr ⟨ok, Finset.notMem_erase _ _⟩
    · obtain ⟨stored, absent⟩ := (here consumed).resolve_left same
      exact .inr ⟨stored, fun member => absent (Finset.mem_of_mem_erase member)⟩
  | @notFound _ response is absent =>
    rw [is] at here
    by_cases same : response.requestID = id
    · subst same
      exact .inr ⟨ok, absent⟩
    · exact .inr ((here consumed).resolve_left same)
  | rangeDelete is =>
    rw [is] at here
    obtain ⟨stored, absent⟩ := (here consumed).resolve_left not_false
    exact .inr ⟨stored, fun member => absent (Finset.mem_of_mem_erase member)⟩
  | loadSignal is | top is | park is | wake is | ready is | read is | readNil is | failure is
  | deliver is | deliverClosed is | scan is | visit _ is | rangeSend is | rangeSendClosed is
  | rangeEnd is | resetLock is | reset is =>
    rw [is] at here
    rw [total_fire] at here ⊢
    exact .inr ((here consumed).resolve_left not_false)
  | _ =>
    rw [total_fire] at here ⊢
    exact here consumed

theorem failed_act (act : Act event mem acting mem' left) (inv : Inv ⟨mem, ↑acting + rest⟩)
    (ok : Registered ⟨mem, ↑acting + rest⟩ event) (stream : StreamId)
    (failed : mem'.failed stream = true) :
    mem'.recvWorker = .errored stream ∨ total (@unstoredOn Value stream) (↑left + rest) = 0 := by
  have here : mem.failed stream = true → mem.recvWorker = .errored stream ∨
    total (@unstoredOn Value stream) (↑acting + rest) = 0 := inv.failed stream
  cases act with
  | @send _ name other _ works =>
    have differs : other ≠ stream := by
      rintro rfl
      exact Bool.false_ne_true (works.symm.trans failed)
    simp only [total_fire, sum_one, unstoredOn, if_neg differs] at here ⊢
    exact here failed
  | store =>
    refine (here failed).imp_right fun stored => ?_
    simp only [total_fire, sum_one, unstoredOn] at stored ⊢
    omega
  | @failure _ other is =>
    by_cases same : stream = other
    · exact .inl (congrArg _ same.symm)
    · rw [is] at here
      simp only [Function.update_of_ne same] at failed
      exact .inr ((here failed).resolve_left nofun)
  | @scan _ other is =>
    refine .inr ((here failed).elim (fun errored => ?_) fun stored => stored)
    obtain rfl := RecvWorker.errored.inj (is.symm.trans errored)
    exact ok
  | loadSignal is | top is | park is | wake is | ready is | read is | readNil is | response _ is
  | found is | notFound is | deliver is | deliverClosed is | visit _ is | rangeSend is
  | rangeSendClosed is | rangeDelete is | rangeEnd is | resetLock is | reset is =>
    rw [is] at here
    rw [total_fire] at here ⊢
    exact .inr ((here failed).resolve_left nofun)
  | _ =>
    rw [total_fire] at here ⊢
    exact here failed

theorem waitingOn_le_waitingFor (id : RequestId) (stream : StreamId)
    (procs : Multiset (Proc Value)) :
    total (waitingOn id stream) procs ≤ total (waitingFor id) procs := by
  refine total_le_total (fun proc => ?_) procs
  rcases proc with ⟨id', _ | _ | _ | _ | _ | _ | _⟩ | _ <;>
    simp only [waitingOn, waitingFor, le_refl]
  exact ite_one_le_ite_one And.left

theorem ranged_act (act : Act event mem acting mem' left) (inv : Inv ⟨mem, ↑acting + rest⟩)
    (id : RequestId) (stream : StreamId) (failed : mem'.failed stream = true)
    (waits : 0 < total (@waitingOn Value id stream) (↑left + rest)) :
    mem'.recvWorker = .errored stream ∨ Ranging id mem'.recvWorker := by
  have here : mem.failed stream = true → 0 < total (@waitingOn Value id stream) (↑acting + rest) →
    mem.recvWorker = .errored stream ∨ Ranging id mem.recvWorker := inv.ranged id stream
  have one := inv.place id
  have on := waitingOn_le_waitingFor id stream rest
  simp only [total_fire] at here waits one
  cases act with
  | @store _ name other =>
    by_cases same : other = stream
    · subst same
      refine .inl ((inv.failed other failed).resolve_right fun stored => ?_)
      simp only [total_fire, sum_one, unstoredOn, if_pos] at stored
      omega
    · have differs : ¬ (name = id ∧ other = stream) := fun both => same both.2
      simp only [sum_one, waitingOn, if_neg differs] at waits here
      exact here failed waits
  | leave =>
    simp only [sum_one, waitingOn] at waits here
    exact here failed (by omega)
  | @failure _ other is =>
    by_cases same : stream = other
    · exact .inl (congrArg _ same.symm)
    · rw [is] at here
      simp only [Function.update_of_ne same] at failed
      exact ((here failed waits).resolve_left nofun).elim
  | scan is =>
    have any : 0 < total (@waitingFor Value id) (↑([] : List (Proc Value)) + rest) := by
      rw [sum_none] at waits
      rw [total_fire, sum_none]
      omega
    have stored : id ∈ mem.pending ∨ SendingTo id mem.recvWorker := inv.waiting id any
    rw [is] at stored
    exact .inr (stored.resolve_right not_false)
  | @visit _ todo name is member =>
    rw [is] at here
    have ranges := (here failed waits).resolve_left nofun
    by_cases same : name = id
    · exact .inr (.inl same)
    · exact .inr (.inr (Finset.mem_erase_of_ne_of_mem (Ne.symm same) ranges))
  | @rangeSend _ name todo other is =>
    simp only [sum_one, waitingOn, waitingFor] at waits here one
    by_cases same : name = id
    · rw [if_pos same] at one
      omega
    · have differs : ¬ (name = id ∧ other = stream) := fun both => same both.1
      rw [if_neg differs, is] at here
      exact .inr (((here failed waits).resolve_left nofun).resolve_left same)
  | rangeDelete is =>
    rw [is] at here
    exact .inr ((here failed waits).resolve_left nofun)
  | rangeEnd is =>
    rw [is] at here
    exact absurd ((here failed waits).resolve_left nofun) (Finset.notMem_empty id)
  | @deliver _ response other is =>
    rw [is] at here
    simp only [sum_one, waitingOn] at waits here
    exact ((here failed (by omega)).resolve_left nofun).elim
  | deliverClosed is closed | rangeSendClosed is closed => exact (inv.unclosed (is ▸ rfl) closed).elim
  | loadSignal is | top is | park is | wake is | ready is | read is | readNil is | response _ is
  | found is | notFound is | resetLock is | reset is =>
    rw [is] at here
    exact ((here failed waits).resolve_left nofun).elim
  | _ => exact here failed waits

theorem visited_act (act : Act event mem acting mem' left) (inv : Inv ⟨mem, ↑acting + rest⟩)
    (id : RequestId) (todo : Finset RequestId) (visits : mem'.recvWorker = .rangeSend id todo ∨
      mem'.recvWorker = .rangeDelete id todo) : id ∉ todo := by
  cases act with
  | @visit _ before name is =>
    obtain ⟨rfl, rfl⟩ := RecvWorker.rangeSend.inj (visits.resolve_right nofun)
    exact Finset.notMem_erase _ _
  | rangeSend is =>
    obtain ⟨rfl, rfl⟩ := RecvWorker.rangeDelete.inj (visits.resolve_left nofun)
    exact inv.visited _ _ (.inl is)
  | loadSignal | top | park | wake | ready | read | readNil | response | failure | found | notFound
  | deliver | deliverClosed | scan | rangeSendClosed | rangeDelete | rangeEnd | resetLock | reset =>
    exact visits.elim nofun nofun
  | _ => exact inv.visited id todo visits

theorem ranging_act (act : Act event mem acting mem' left) (inv : Inv ⟨mem, ↑acting + rest⟩)
    (id : RequestId) (ranges : Ranging id mem'.recvWorker) : id ∈ mem'.pending := by
  have here : Ranging id mem.recvWorker → id ∈ mem.pending := inv.ranging id
  cases act with
  | store => exact Finset.mem_insert_of_mem (here ranges)
  | scan => exact ranges
  | @visit _ todo name is member =>
    rw [is] at here
    rcases ranges with rfl | later
    · exact member
    · exact here (Finset.mem_of_mem_erase later)
  | rangeSend is =>
    rw [is] at here
    exact here (.inr ranges)
  | @rangeDelete _ name todo is =>
    rw [is] at here
    refine Finset.mem_erase_of_ne_of_mem ?_ (here ranges)
    rintro rfl
    exact inv.visited id todo (.inr is) ranges
  | loadSignal | top | park | wake | ready | read | readNil | response | failure | found | notFound
  | deliver | deliverClosed | rangeSendClosed | rangeEnd | resetLock | reset => exact ranges.elim
  | _ => exact here ranges

theorem streamless_act (act : Act event mem acting mem' left) (inv : Inv ⟨mem, ↑acting + rest⟩)
    (absent : mem'.stream = none) : Streamless mem'.recvWorker := by
  have here : mem.stream = none → Streamless mem.recvWorker := inv.streamless
  cases act with
  | loadStore => exact absurd absent nofun
  | loadSignal | top | park | wake | reset => trivial
  | ready _ some => exact absurd absent some
  | readNil is | response _ is | failure is | found is | notFound is | deliver is | deliverClosed is
  | scan is | visit _ is | rangeSend is | rangeSendClosed is | rangeDelete is | rangeEnd is
  | resetLock is | read is =>
    rw [is] at here
    exact (here absent).elim
  | _ => exact here absent

theorem alive_act (act : Act event mem acting mem' left) (inv : Inv ⟨mem, ↑acting + rest⟩) :
    mem'.recvWorker ≠ .panicked := by
  cases act with
  | readNil is none =>
    have streamless : Streamless mem.recvWorker := inv.streamless none
    rw [is] at streamless
    exact streamless.elim
  | deliverClosed is closed | rangeSendClosed is closed => exact (inv.unclosed (is ▸ rfl) closed).elim
  | loadSignal | top | park | wake | ready | read | response | failure | found | notFound | deliver
  | scan | visit | rangeSend | rangeDelete | rangeEnd | resetLock | reset => exact nofun
  | _ => exact inv.alive

theorem inv_initial (stream : Option StreamId) : Inv (initial stream : State Value) := by
  constructor <;> simp [initial, SendingTo, LookingUp, Ranging, Deleting, Streamless]

theorem inv_step (inv : Inv config) (ok : Registered config event)
    (step : Step Act config event next) : Inv next := by
  cases step with
  | fire rest act =>
    exact {
      once := once_act act inv
      sent := sent_act act inv
      consumed := consumed_act act inv
      stored := stored_act act inv ok
      waiting := waiting_act act inv
      taken := taken_act act inv
      sending := sending_act act inv ok
      deleting := deleting_act act inv
      looking := looking_act act inv
      looked := looked_act act inv ok
      failed := failed_act act inv ok
      ranged := ranged_act act inv
      visited := visited_act act inv
      ranging := ranging_act act inv
      streamless := streamless_act act inv
      alive := alive_act act inv }

/-- The invariant is enough: what a waiting call waits for is still in its entry of `pending`, or in
the hands of `recvWorker`. -/
theorem Inv.served (inv : Inv config) : Served config where
  due := by
    intro id stream member gone
    have waits : 0 < total (waitingOn id stream) config.procs :=
      total_pos_iff.mpr ⟨_, member, by simp [waitingOn]⟩
    have stored := inv.waiting id (waits.trans_le (waitingOn_le_waitingFor id stream _))
    rcases gone with consumed | failed
    · rcases inv.looked id consumed with looks | ⟨-, missing⟩
      · rcases stored with member | sends
        · exact .inr (.inr ⟨member, .inl looks⟩)
        · exact .inl sends
      · exact .inl (stored.resolve_left missing)
    · rcases inv.ranged id stream failed waits with errored | ranges
      · rcases stored with member | sends
        · exact .inr (.inr ⟨member, .inr ⟨stream, errored⟩⟩)
        · exact .inl sends
      · exact .inr (.inl ranges)
  open_ := fun _ sends => inv.notClosed sends
  alive := inv.alive

end Invariant

/-- **Every response reaches its caller**, in every run in which `recvWorker` meets no call it concerns
between `Send` and `Store`, and no call leaves through the context. -/
theorem served_of_registered (stream : Option StreamId) (config : State Value)
    (reach : Reach Act Registered (initial stream) config) : Served config :=
  (reach.invariant Inv (inv_initial stream) inv_step).served

/-! ### Runs in which a call is not registered -/

section Runs

def answer : CompileResponse Unit := ⟨bytes "id", ()⟩

/-- A run up to a call that has sent its request and not yet stored its channel, while `recvWorker`
waits for a message. -/
theorem sent_and_receiving (allowed : State Unit → Event Unit → Prop)
    (ok : ∀ config event, event = .internal ∨ event = .compile (bytes "id") → allowed config event) :
    ∃ mem, Reach Act allowed (initial (some 0)) (.ofList mem [.compile (bytes "id") (.unlocked 0)]) ∧
      mem.recvWorker = .receiving 0 ∧ mem.stream = some 0 ∧ mem.sent 0 (bytes "id") = true ∧
      mem.pending = ∅ := by
  have h0 : Reach Act allowed (initial (some 0)) (.ofList (initial (some 0) : State Unit).mem []) :=
    .start
  have h1 := h0.next [] [] (.top rfl rfl) (ok _ _ (.inl rfl)) (by decide)
  have h2 := h1.next [] [] (.ready rfl nofun) (ok _ _ (.inl rfl)) (by decide)
  have h3 := h2.next [] [] (.read rfl rfl) (ok _ _ (.inl rfl)) (by decide)
  have h4 := h3.next [] [] (.call (bytes "id") rfl) (ok _ _ (.inr rfl)) (by decide)
  have h5 := h4.next [.compile (bytes "id") .called] [] (.lock rfl) (ok _ _ (.inl rfl)) (by decide)
  have h6 := h5.next [.compile (bytes "id") .locked] [] (.send rfl rfl) (ok _ _ (.inl rfl))
    (by decide)
  have h7 := h6.next [.compile (bytes "id") (.sent 0)] [] .unlock (ok _ _ (.inl rfl)) (by decide)
  exact ⟨_, h7, rfl, rfl, rfl, rfl⟩

/-- **What goes wrong otherwise.** The response is looked up between `Send` and `Store`, and the call
then waits for it; or the call leaves through the context, and `recvWorker` sends on the channel it
has closed. -/
theorem unregistered_runs :
    (∃ config : State Unit, Reach Act (fun _ event => ∀ id, event ≠ .leave id)
      (initial (some 0)) config ∧
        Proc.compile (bytes "id") (.waiting 0) ∈ config.procs ∧
        config.mem.consumed (bytes "id") = true ∧ ¬ Due config.mem (bytes "id")) ∧
    (∃ config : State Unit, Reach Act (fun config event => (∃ id, event = .leave id) ∨
      Registered config event) (initial (some 0)) config ∧
        SendingTo (bytes "id") config.mem.recvWorker ∧ config.mem.closed (bytes "id") = true) := by
  constructor
  · obtain ⟨mem, h0, receiving, stream, sent, pending⟩ := sent_and_receiving
      (fun _ event => ∀ id, event ≠ .leave id) fun _ _ which => by rcases which with rfl | rfl <;> simp
    have h1 := h0.next [] [.compile (bytes "id") (.unlocked 0)] (.response answer receiving sent)
      (by simp) (by decide)
    have h2 := h1.next [] [.compile (bytes "id") (.unlocked 0)] (.notFound rfl (by simp [pending]))
      (by simp) (by decide)
    have h3 := h2.next [.compile (bytes "id") (.unlocked 0)] [] .store (by simp) (by decide)
    refine ⟨_, h3, by simp [Config.ofList], by simp [Config.ofList, answer], ?_⟩
    simp [Config.ofList, Due, SendingTo, Ranging, LookingUp]
  · obtain ⟨mem, h0, receiving, stream, sent, pending⟩ := sent_and_receiving
      (fun config event => (∃ id, event = .leave id) ∨ Registered config event)
      fun _ _ which => by rcases which with rfl | rfl <;> exact .inr trivial
    have h1 := h0.next [.compile (bytes "id") (.unlocked 0)] [] .store (.inr trivial) (by decide)
    have h2 := h1.next [] [.compile (bytes "id") (.waiting 0)] .cancel (.inr trivial) (by decide)
    have h3 := h2.next [.compile (bytes "id") (.waiting 0)] [] (.leave rfl) (.inl ⟨_, rfl⟩)
      (by decide)
    have h4 := h3.next [.compile (bytes "id") (.returning .contextError)] [] .close (.inr trivial)
      (by decide)
    have h5 := h4.next [] [] (.response answer receiving sent) (.inr trivial) (by decide)
    have h6 := h5.next [] [] (.found rfl (by simp [answer])) (.inr rfl) (by decide)
    exact ⟨_, h6, rfl, by simp [Config.ofList]⟩

/-- A run in which the response is looked up after `Store`: it is on its way to its call. -/
theorem served_answer :
    ∃ config : State Unit, Reach Act Registered (initial (some 0)) config ∧
      Proc.compile (bytes "id") (.waiting 0) ∈ config.procs ∧
      config.mem.consumed (bytes "id") = true ∧ Served config := by
  obtain ⟨mem, h0, receiving, stream, sent, pending⟩ := sent_and_receiving Registered
    fun _ _ which => by rcases which with rfl | rfl <;> exact trivial
  have h1 := h0.next [.compile (bytes "id") (.unlocked 0)] [] .store trivial (by decide)
  have h2 := h1.next [] [.compile (bytes "id") (.waiting 0)] (.response answer receiving sent)
    trivial (by decide)
  have h3 := h2.next [] [.compile (bytes "id") (.waiting 0)] (.found rfl (by simp [answer])) rfl
    (by decide)
  exact ⟨_, h3, by simp [Config.ofList], by simp [Config.ofList, answer],
    served_of_registered _ _ h3⟩

end Runs

end Kubecc.Clients
