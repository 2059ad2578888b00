import PrefillFabric.Scheduler.State

/-!
# Completions

`reportCompletion` checks the authority a result was produced under and then
applies it. The checks are `checkAuthority`, which either finds the request the
result is for or a `Refusal`; a refused result leaves nothing behind but a counter
and an event (`refuse`). The application is `applyCompletion`: the request leaves
flight, the outcome decides what becomes of it (`settleOutcome`), and its
reservation and its place in its group are given up.
-/

namespace PrefillFabric

/-! ### Refusals -/

/-- Why a completion is refused, in the order in which the reasons are looked for. -/
inductive Refusal
  | noEpoch
  | staleEpoch
  | unknownRequest
  | staleBoot
  | staleAttempt
  | staleGeneration
  | terminal
  | noInFlight
  | otherWorker
deriving DecidableEq, Repr

namespace Refusal

/-- The error returned. -/
def error : Refusal → ErrorInfo
  | noEpoch => ⟨.illegalState, "completion carries no epoch"⟩
  | staleEpoch => ⟨.staleEpoch, "stale scheduler epoch"⟩
  | unknownRequest => ⟨.unknownRequest, "unknown request"⟩
  | staleBoot => ⟨.staleWorker, "stale worker boot id"⟩
  | staleAttempt => ⟨.staleAttempt, "stale attempt"⟩
  | staleGeneration => ⟨.staleGeneration, "stale chunk/work generation"⟩
  | terminal => ⟨.terminalCancelled, "completion for terminal request"⟩
  | noInFlight => ⟨.duplicateCompletion, "no in-flight work for this generation"⟩
  | otherWorker => ⟨.staleWorker, "completion from a different worker"⟩

/-- The detail of the event recorded, for the refusals that record one. -/
def detail : Refusal → Option String
  | staleEpoch => some "epoch"
  | staleBoot => some "worker-boot"
  | staleAttempt => some "attempt"
  | staleGeneration => some "generation"
  | terminal => some "terminal"
  | noInFlight => some "no-inflight"
  | noEpoch | unknownRequest | otherWorker => none

/-- The counter a refusal adds to. -/
def counted (st : Stats) : Refusal → Stats
  | staleEpoch | staleBoot | staleAttempt | staleGeneration | otherWorker =>
    { st with staleAuthorityRejected := st.staleAuthorityRejected + 1 }
  | terminal | noInFlight =>
    { st with duplicateCompletionRejected := st.duplicateCompletionRejected + 1 }
  | noEpoch | unknownRequest => st

end Refusal

namespace Impl

/-- Refuse a completion. -/
def refuse (now : Nanoseconds) (result : MemberResult) (why : Refusal) (σ : Impl) :
    Impl × Result Unit :=
  let σ := σ.count fun st => why.counted st
  match why.detail with
  | some detail =>
    (σ.record now "stale" result.requestId result.attemptId detail, .error why.error)
  | none => (σ, .error why.error)

/-- Whether the boot number of a result is that of the worker it names, as the
worker is registered now. -/
def bootCurrent (σ : Impl) (result : MemberResult) : Bool :=
  match σ.workers.lookup result.worker with
  | none => false
  | some ws => ws.desc.bootId = result.boot

/-- The checks of a result against the record of its request. -/
def checkRecord (σ : Impl) (result : MemberResult) (s : Rs) : Option Refusal :=
  if (!result.worker.isNil || !result.boot.isNil) && !σ.bootCurrent result then some .staleBoot
  else if result.attemptId ≠ s.attempt then some .staleAttempt
  else if result.generation ≠ s.currentGeneration then some .staleGeneration
  else if s.lifecycle.isTerminal then some .terminal
  else if !s.inFlight then some .noInFlight
  -- nil is nobody here, and elsewhere the local worker
  else if !result.worker.isNil && result.worker ≠ s.dispatchedWorker then some .otherWorker
  else none

/-- The authority checks: the record of the request the result is for, or the first
reason to refuse it. -/
def checkAuthority (σ : Impl) (result : MemberResult) : Except Refusal Rs :=
  if result.epoch.isNil then .error .noEpoch
  else if result.epoch ≠ σ.epoch then .error .staleEpoch
  else
    match σ.requests.lookup result.requestId with
    | none => .error .unknownRequest
    | some s =>
      match σ.checkRecord result s with
      | some why => .error why
      | none => .ok s

end Impl

/-! ### Application -/

/-- The chunk in flight is accounted for: what every accepted result does to the
record of its request. -/
def Rs.landed (env : Env) (s : Rs) : Rs :=
  { s with
    inFlight := false
    chunksDone := s.chunksDone + 1
    completedUncached := s.completedUncached + s.nextChunk.tokenCount
    completedTokenTotal := s.completedTokenTotal + s.nextChunk.tokenCount
    normalizedService :=
      env.fpu.add s.normalizedService (env.fpu.ofUInt64 (.ofNat s.nextChunk.tokenCount)) }

namespace Impl

/-- The tenant's side of a request that is over. -/
def settleTenant (σ : Impl) (s : Rs) : Impl :=
  σ.charge s.request.tenantId (·.settle s.request.remainingPrefillTokens)

/-- A request has failed for good. -/
def failRequest (now : Nanoseconds) (s : Rs) (line detail : String) (σ : Impl) : Impl × Rs :=
  let σ := σ.count fun st => { st with failedNonRetryable := st.failedNonRetryable + 1 }
  let σ := σ.settleTenant s
  (σ.record now "fail" s.request.requestId s.attempt detail,
    { s with lifecycle := .failedNonRetryable }.note line)

/-- A request is cancelled by a completion. -/
def cancelRequest (now : Nanoseconds) (s : Rs) (line detail : String) (σ : Impl) : Impl × Rs :=
  let σ := σ.count fun st => { st with cancelled := st.cancelled + 1 }
  let σ := σ.settleTenant s
  (σ.record now "cancel" s.request.requestId s.attempt detail,
    { s with lifecycle := .cancelled, cancelPending := false }.note line)

/-- A chunk has succeeded: the request is cancelled if that is pending, goes on to
its next chunk, or is complete. The index of the next chunk is computed in 32
bits. -/
def settleSuccess (now : Nanoseconds) (s : Rs) (σ : Impl) : Impl × Rs :=
  if s.cancelPending then
    cancelRequest now s "cancelled at chunk boundary" "chunk-boundary" σ
  else if (s.nextChunkIndex + 1) % 2 ^ 32 < s.plan.chunks.length then
    (σ, { s with
      nextChunkIndex := (s.nextChunkIndex + 1) % 2 ^ 32
      lifecycle := .queued }.note "chunk complete; advancing to next chunk")
  else
    let σ := σ.count fun st => { st with completed := st.completed + 1 }
    let σ := σ.charge s.request.tenantId fun ts =>
      { ts with completedRequests := ts.completedRequests + 1 }
    let σ := σ.settleTenant s
    (σ.record now "complete" s.request.requestId s.attempt "ok",
      { s with lifecycle := .completed }.note "prefill completed")

/-- What the outcome of a result makes of its request. -/
def settleOutcome (env : Env) (now : Nanoseconds) (result : MemberResult) (s : Rs) (σ : Impl) :
    Impl × Rs :=
  match result.outcome with
  | .staleRejected =>
    -- counted, and nothing else: the lifecycle stays what it was
    (σ.count fun st => { st with staleAuthorityRejected := st.staleAuthorityRejected + 1 }, s)
  | .retryableFailure =>
    if s.retriesUsed < s.request.maxRetries then
      let attempt : AttemptId := ⟨σ.nextAttemptValue⟩
      let σ := { σ with nextAttemptValue := σ.nextAttemptValue + 1 }
      let σ := σ.count fun st => { st with retried := st.retried + 1 }
      (σ.record now "retry" s.request.requestId attempt ("attempt " ++ toString attempt.value),
        (s.beginAttempt env attempt).note
          ("retryable failure; new attempt " ++ toString attempt.value))
    else
      failRequest now s "retry budget exhausted; non-retryable failure" "non-retryable" σ
  | .nonRetryableFailure =>
    failRequest now s ("non-retryable failure: " ++ result.message) result.message σ
  | .cancelled => cancelRequest now s "cancelled" "completion" σ
  | .expired =>
    let σ := σ.count fun st =>
      { st with expired := st.expired + 1, deadlineMissed := st.deadlineMissed + 1 }
    (σ.settleTenant s, { s with lifecycle := .expired }.note "expired during execution")
  | .success => settleSuccess now s σ
  | .needsNextChunk => settleSuccess now s σ

/-- Apply an accepted result to the request whose record was found. -/
def applyCompletion (env : Env) (now : Nanoseconds) (result : MemberResult) (s : Rs) (σ : Impl) :
    Impl :=
  let σ := σ.count fun st =>
    { st with
      completedTokens := st.completedTokens + s.nextChunk.tokenCount
      executionLatencyTotalNs := st.executionLatencyTotalNs + (now - s.dispatchTime)
      executionLatencySamples := st.executionLatencySamples + 1 }
  let σ := σ.charge s.request.tenantId fun ts =>
    { ts with scheduledTokens := ts.scheduledTokens + s.nextChunk.tokenCount }
  let (σ, s) := settleOutcome env now result (s.landed env) σ
  let σ := σ.releaseReservation s
  let σ :=
    if s.currentGroup.isNil then σ else σ.detachMember s.currentGroup s.request.requestId
  let σ := σ.setRequest result.requestId { s.dropReservation with currentGroup := .nil }
  σ.count fun st => { st with remainingPrefillTokens := σ.remainingTokens }

/-- Report the completion of a member. -/
def reportCompletion (env : Env) (now : Nanoseconds) (result : MemberResult) (σ : Impl) :
    Impl × Result Unit :=
  match σ.checkAuthority result with
  | .error why => σ.refuse now result why
  | .ok s => (σ.applyCompletion env now result s, .ok ())

end Impl

end PrefillFabric
