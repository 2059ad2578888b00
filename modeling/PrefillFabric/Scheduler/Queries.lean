import PrefillFabric.Scheduler.State

/-!
# Queries

What a scheduler tells about its requests without changing anything: how many there are,
how many are in flight, whether one is over, why one is where it is, and the snapshot for an
observer.

Counts of requests by what has become of them are not queries of the scheduler, which
keeps counters and accounts instead; `Impl.countIn`, `Impl.liveCount` and `Impl.liveOf` say
what these are meant to count. No request is ever forgotten, so those that are over and
those that are not make up the table (`Impl.overCount_add_liveCount`).
-/

namespace PrefillFabric

/-- What an observer is shown of a scheduler. -/
structure Snapshot where
  stats : Stats
  queueDepth : ℕ
  waitingTokens : ℕ
  remainingPrefillTokens : UInt64
  reservedMemoryBytes : ℕ
  completedRequests : ℕ
  waitingRequestIds : List RequestId
  runningRequestIds : List RequestId
  runningRequests : ℕ

/-- Why a request is where it is. -/
structure Explain where
  requestId : RequestId
  attemptId : AttemptId
  lifecycle : String
  trace : List String

namespace Impl

/-- The number of requests the scheduler knows. -/
def requestCount (σ : Impl) : ℕ := AList.size σ.requests

/-- The number of requests in flight. -/
def runningCount (σ : Impl) : ℕ := (σ.requestList.filter (·.inFlight)).length

/-- Whether a request is known to be over. -/
def isTerminal (σ : Impl) (req : RequestId) : Bool :=
  match σ.requests.lookup req with
  | none => false
  | some s => s.lifecycle.isTerminal

/-- The state of a request. -/
def lifecycle (σ : Impl) (req : RequestId) : Option Lifecycle :=
  (σ.requests.lookup req).map (·.lifecycle)

/-- The generation of a request that was handed out last. -/
def currentGeneration (σ : Impl) (req : RequestId) : Generation :=
  match σ.requests.lookup req with
  | none => .nil
  | some s => s.currentGeneration

/-- Why a request is where it is. -/
def explain (σ : Impl) (req : RequestId) : Result Explain :=
  match σ.requests.lookup req with
  | none => .error ⟨.notFound, "unknown request"⟩
  | some s =>
    .ok
      { requestId := req
        attemptId := s.attempt
        lifecycle := s.lifecycle.name
        trace := s.trace }

/-- The requests in flight. -/
def runningRequestIds (σ : Impl) : List RequestId :=
  (σ.requests.entries.filter fun e => e.2.inFlight).map (·.1)

/-- The snapshot of a state. -/
def snapshot (σ : Impl) : Snapshot where
  stats := σ.stats
  queueDepth := σ.queuedCount
  waitingTokens := σ.waitingTokens
  remainingPrefillTokens := σ.remainingTokens
  reservedMemoryBytes := σ.mem.reserved
  completedRequests := σ.stats.completed
  waitingRequestIds := (σ.requests.entries.filter fun e =>
    e.2.lifecycle == .queued && !e.2.inFlight).map (·.1)
  runningRequestIds := σ.runningRequestIds
  runningRequests := σ.runningRequestIds.length

/-! ### What there is to count -/

/-- The number of requests in a stage of their life. -/
def countIn (σ : Impl) (l : Lifecycle) : ℕ := (σ.requestList.filter (·.lifecycle == l)).length

/-- The number of requests that are not over. -/
def liveCount (σ : Impl) : ℕ := (σ.requestList.filter fun s => !s.lifecycle.isTerminal).length

/-- The number of requests that are over. -/
def overCount (σ : Impl) : ℕ := (σ.requestList.filter (·.lifecycle.isTerminal)).length

/-- The requests of a tenant that are not over. -/
def liveOf (σ : Impl) (t : TenantId) : List Rs :=
  σ.requestList.filter fun s => !s.lifecycle.isTerminal && s.request.tenantId == t

theorem overCount_add_liveCount (σ : Impl) : σ.overCount + σ.liveCount = σ.requestCount := by
  have hlength : σ.requestList.length = σ.requestCount := by
    rw [requestList, List.length_map, requestCount, AList.size, AList.keys, List.keys,
      List.length_map]
  rw [← hlength, overCount, liveCount, ← List.length_eq_length_filter_add]

end Impl

end PrefillFabric
