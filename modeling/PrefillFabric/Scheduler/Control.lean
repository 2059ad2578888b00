import PrefillFabric.Scheduler.State

/-!
# Cancellation, retry, workers and the epoch

The operations by which the outside interferes with work that is under way: a
caller cancels or retries a request, a worker registers, retires or is lost, the
operator rolls the epoch.

Two of them do less than their siblings. `forceRetry` on a request in flight drops
the *whole* group the request is in, where completion, expiry and cancellation only
take the one member out; and it has put the request out of flight before it finds
that the retry budget is exhausted. `rollEpoch` and a registration under another
boot number change what a completion is checked against and leave the requests in
flight alone, where `workerLost` puts them back in the queue.
-/

namespace PrefillFabric

/-- What a cancellation reports. -/
structure CancelResult where
  applied : Bool
  wasTerminal : Bool
  code : ErrorCode
  message : String
deriving DecidableEq, Repr

/-- Out of flight and out of its group, without a reservation. -/
def Rs.withdrawn (s : Rs) : Rs :=
  { s.dropReservation with inFlight := false, currentGroup := .nil }

namespace Impl

/-! ### Cancellation -/

/-- Cancel a request; in flight, at the next chunk boundary. -/
def cancel (now : Nanoseconds) (req : RequestId) (σ : Impl) : Impl × CancelResult :=
  match σ.requests.lookup req with
  | none => (σ, ⟨false, false, .notFound, "unknown request"⟩)
  | some s =>
    if s.lifecycle.isTerminal then
      (σ, ⟨false, true, .terminalCancelled, "request already terminal"⟩)
    else if s.inFlight then
      let s := { s with cancelPending := true }.note
        "cancel requested; authoritative at next safe chunk boundary"
      ((σ.setRequest req s).record now "cancel" req s.attempt "pending chunk boundary",
        ⟨true, false, .ok, "cancellation pending at chunk boundary"⟩)
    else
      let σ := σ.releaseReservation s
      let σ := σ.count fun st => { st with cancelled := st.cancelled + 1 }
      let σ := σ.charge s.request.tenantId (·.settle s.request.remainingPrefillTokens)
      let σ := if s.currentGroup.isNil then σ else σ.detachMember s.currentGroup req
      let s := { s.dropReservation with lifecycle := .cancelled, currentGroup := .nil }.note
        "cancelled while waiting"
      ((σ.setRequest req s).record now "cancel" req s.attempt "waiting",
        ⟨true, false, .ok, "cancelled"⟩)

/-- Cancel a request if the generation in flight is the given one. -/
def cancelGeneration (req : RequestId) (onlyGen : Generation) (σ : Impl) : Impl × CancelResult :=
  match σ.requests.lookup req with
  | none => (σ, ⟨false, false, .notFound, "unknown request"⟩)
  | some s =>
    if s.lifecycle.isTerminal then
      (σ, ⟨false, true, .terminalCancelled, "request already terminal"⟩)
    else if s.inFlight ∧ s.currentGeneration = onlyGen then
      (σ.setRequest req ({ s with cancelPending := true }.note
          "generation cancel requested; authoritative at chunk boundary"),
        ⟨true, false, .ok, "generation cancellation pending"⟩)
    else (σ, ⟨false, false, .notFound, "generation not in-flight"⟩)

/-! ### Retry -/

/-- The first half of a forced retry: a request in flight gives back its reservation
and its group is dropped, whoever else is in it. -/
def withdraw (req : RequestId) (s : Rs) (σ : Impl) : Impl :=
  let σ := σ.releaseReservation s
  let σ :=
    match σ.groups.lookup s.currentGroup with
    | some gs => if s.currentGroup.isNil then σ else σ.eraseGroup s.currentGroup gs
    | none => σ
  σ.setRequest req s.withdrawn

/-- The second half: a new attempt, if the budget allows one. -/
def retryWithinBudget (env : Env) (now : Nanoseconds) (req : RequestId) (s : Rs) (σ : Impl) :
    Impl × Result Unit :=
  if s.request.maxRetries ≤ s.retriesUsed then
    (σ, .error ⟨.capacityExceeded, "retry budget exhausted"⟩)
  else
    let attempt : AttemptId := ⟨σ.nextAttemptValue⟩
    let s := (s.beginAttempt env attempt).note
      ("forced retry; new attempt " ++ toString attempt.value)
    let σ := { σ with nextAttemptValue := σ.nextAttemptValue + 1 }
    let σ := σ.count fun st => { st with retried := st.retried + 1 }
    ((σ.setRequest req s).record now "retry" req attempt "forced", .ok ())

/-- Retry a request from the start under a new attempt. -/
def forceRetry (env : Env) (now : Nanoseconds) (req : RequestId) (σ : Impl) :
    Impl × Result Unit :=
  match σ.requests.lookup req with
  | none => (σ, .error ⟨.notFound, "unknown request"⟩)
  | some s =>
    if s.lifecycle.isTerminal then
      (σ, .error ⟨.illegalState, "cannot retry a terminal request"⟩)
    else if s.inFlight then
      retryWithinBudget env now req s.withdrawn (σ.withdraw req s)
    else retryWithinBudget env now req s σ

/-! ### Workers -/

/-- The boot number a worker registers under: its own, or else the next one. -/
def registeredBoot (σ : Impl) (w : WorkerDescriptor) : WorkerBootId :=
  if w.bootId.isNil then ⟨σ.nextBootValue⟩ else w.bootId

/-- Register a worker. One that brings no boot number is given one, and one whose
state is not known is taken to be ready. -/
def registerWorker (now : Nanoseconds) (w : WorkerDescriptor) (σ : Impl) : Impl × Result Unit :=
  if w.workerId.isNil then (σ, .error ⟨.invalidArgument, "worker id is nil"⟩)
  else
    let desc := { w with
      bootId := σ.registeredBoot w
      state := if w.state = .unknown then .ready else w.state }
    -- a new record: no unit is busy in it, whatever groups the worker has
    let σ := { σ with
      nextBootValue := if w.bootId.isNil then σ.nextBootValue + 1 else σ.nextBootValue
      workers := σ.workers.insert w.workerId { desc := desc } }
    (σ.record now "worker-register" .nil .nil ("id=" ++ toString w.workerId.value), .ok ())

/-- Retire a worker. -/
def unregisterWorker (now : Nanoseconds) (w : WorkerId) (σ : Impl) : Impl × Result Unit :=
  match σ.workers.lookup w with
  | none => (σ, .error ⟨.notFound, "unknown worker"⟩)
  | some ws =>
    let σ := { σ with
      workers := σ.workers.insert w { ws with desc := { ws.desc with state := .retired } } }
    (σ.record now "worker-retire" .nil .nil ("id=" ++ toString w.value), .ok ())

/-- Put a request back in the queue if it is in flight: the chunk that was under
way is done again, under the same attempt. -/
def recoverMember (now : Nanoseconds) (σ : Impl) (rid : RequestId) : Impl :=
  match σ.requests.lookup rid with
  | none => σ
  | some s =>
    if s.inFlight ∧ s.lifecycle = .dispatched then
      let σ := σ.releaseReservation s
      let s := { s.dropReservation with
        inFlight := false
        recoveredWork := true
        currentGeneration := .nil
        lifecycle := .queued }.note "recovered after worker loss"
      (σ.setRequest rid s).record now "worker-lost" rid s.attempt "recovered"
    else σ

/-- Recover the members of a group if it is on the lost worker, and drop it. -/
def loseGroup (now : Nanoseconds) (w : WorkerId) (σ : Impl) (gid : GroupId) : Impl :=
  match σ.groups.lookup gid with
  | none => σ
  | some gs =>
    if gs.worker = w then
      let σ := gs.outstanding.foldl (recoverMember now) σ
      { σ with groups := σ.groups.erase gid }
    else σ

/-- Mark a worker as lost. -/
def markLost (w : WorkerId) (σ : Impl) : Impl :=
  { σ with
    workers := AList.modify w
      (fun ws => { ws with busyUnits := 0, desc := { ws.desc with state := .lost } }) σ.workers }

/-- A worker is lost: everything in flight in its groups goes back to the queue. -/
def workerLost (now : Nanoseconds) (w : WorkerId) (σ : Impl) : Impl :=
  ((σ.groups.keys.foldl (loseGroup now w) σ).markLost w).record now "worker-lost" .nil .nil
    ("id=" ++ toString w.value)

/-- Attach an in-process executor to the local worker. -/
def attachExecutor (ex : Option Executor) (backend : String) (σ : Impl) : Impl :=
  let backend := if backend = "" then (ex.map (·.backend)).getD kBackendCpu else backend
  match σ.workers.lookup .nil with
  | none =>
    { σ with
      nextBootValue := σ.nextBootValue + 1
      workers := σ.workers.insert .nil
        { desc :=
            { bootId := ⟨σ.nextBootValue⟩
              host := "local"
              backend := backend
              capacityUnits := 1
              state := .ready }
          localExec := ex } }
  | some ws =>
    { σ with
      workers := σ.workers.insert .nil
        { ws with desc := { ws.desc with backend := backend, state := .ready }, localExec := ex } }

/-! ### The epoch -/

/-- Roll the epoch. -/
def rollEpoch (now : Nanoseconds) (σ : Impl) : Impl :=
  let epoch : Epoch := ⟨σ.epoch.value + 1⟩
  ({ σ with epoch := epoch } : Impl).record now "epoch-roll" .nil .nil
    ("epoch=" ++ toString epoch.value)

end Impl

end PrefillFabric
