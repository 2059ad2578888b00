import PrefillFabric.Lib.Machine
import PrefillFabric.Scheduler.Completion
import PrefillFabric.Scheduler.Control
import PrefillFabric.Scheduler.Cycle
import PrefillFabric.Scheduler.Submit

/-!
# The scheduler as a machine

Every public operation that changes a scheduler is an `Op`; a `Call` is an
operation together with the time its clock shows. `scheduler env` is the machine
that starts fresh and takes calls, `schedulerFrom env σ` the one that starts from a
given state.
-/

namespace PrefillFabric

/-- The operations of a scheduler. -/
inductive Op
  | submitWithTokens (req : PrefillRequest) (tokens : List UInt32)
  | runCycle
  | reportCompletion (result : MemberResult)
  | cancel (req : RequestId)
  | cancelGeneration (req : RequestId) (onlyGen : Generation)
  | forceRetry (req : RequestId)
  | registerWorker (w : WorkerDescriptor)
  | unregisterWorker (w : WorkerId)
  | workerLost (w : WorkerId)
  | rollEpoch
  | attachExecutor (ex : Option Executor) (backend : String)

/-- An operation at a time. -/
structure Call where
  now : Nanoseconds := 0
  op : Op

/-- What an operation returns. -/
inductive Reply
  | status (result : Result Unit)
  | batch (batch : DispatchBatch)
  | cancelled (result : CancelResult)

namespace Reply

/-- Whether a reply reports success; a batch always does. -/
def accepted : Reply → Bool
  | status result => isOk result
  | batch _ => true
  | cancelled result => result.applied

/-- The members a reply hands out for execution. -/
def members : Reply → List ExecutableMember
  | batch b => b.members
  | _ => []

end Reply

/-- One call. -/
def Impl.step (env : Env) (σ : Impl) (c : Call) : Impl × Reply :=
  match c.op with
  | .submitWithTokens req tokens => (σ.submitWithTokens env c.now req tokens).map id .status
  | .runCycle => (σ.runCycle env c.now).map id .batch
  | .reportCompletion result => (σ.reportCompletion env c.now result).map id .status
  | .cancel req => (σ.cancel c.now req).map id .cancelled
  | .cancelGeneration req onlyGen => (σ.cancelGeneration req onlyGen).map id .cancelled
  | .forceRetry req => (σ.forceRetry env c.now req).map id .status
  | .registerWorker w => (σ.registerWorker c.now w).map id .status
  | .unregisterWorker w => (σ.unregisterWorker c.now w).map id .status
  | .workerLost w => (σ.workerLost c.now w, .status (.ok ()))
  | .rollEpoch => (σ.rollEpoch c.now, .status (.ok ()))
  | .attachExecutor ex backend => (σ.attachExecutor ex backend, .status (.ok ()))

theorem Impl.step_runCycle (env : Env) (σ : Impl) (now : Nanoseconds) :
    σ.step env ⟨now, .runCycle⟩ = ((σ.runCycle env now).1, .batch (σ.runCycle env now).2) :=
  Prod.map_apply' id Reply.batch (σ.runCycle env now)

/-- The machine that starts from a given state. -/
def schedulerFrom (env : Env) (σ : Impl) : Machine Impl Call Reply where
  init := σ
  step := Impl.step env

/-- A scheduler from its construction on. -/
def scheduler (env : Env) : Machine Impl Call Reply := schedulerFrom env (Impl.fresh env)

end PrefillFabric
