import PrefillFabric.Scheduler.State

/-!
# Snapshots

`exportState` writes down what is to survive a scheduler: the epoch, the generation and
attempt counters, and a record of every request, worker and tenant. `importState` reads
a snapshot back into a scheduler. The counters never go back, requests, groups and
tenants are replaced, workers are overwritten; a request that was dispatched is queued
again, and its chunk is executed once more.

Boot, group and reservation counters are not in a snapshot, nor are the estimates, the
retry budget and the placement of a request.

To read a snapshot back is to search every plan for the chunk to go on with, and the index of
this search has 32 bits: a search need not come to an end. `PersistedState.Returns` says that all
of them do. Where it fails `import_state` does not return and keeps the lock; `importState` then
has a value as well, but there is no such state.
-/

namespace PrefillFabric

/-! ### Records -/

/-- What is kept of a request. -/
structure PersistedRequestRecord where
  requestId : RequestId := .nil
  attemptId : AttemptId := .nil
  tenantId : TenantId := .nil
  model : ModelKey := {}
  adapterId : AdapterId := .nil
  relation : AdapterRelation := .none
  promptTokenCount : UInt64 := 0
  cachedTokens : UInt64 := 0
  completedUncachedTokens : ℕ := 0
  currentGeneration : Generation := .nil
  parentGeneration : Generation := .nil
  nextChunkTokenStart : ℕ := 0
  workKind : WorkKind := .fullPrompt
  lifecycle : Lifecycle := .submitted
  priority : ℤ := 0
  tenantWeight : Double := .one
  normalizedService : Double := .zero
  completedTokenTotal : ℕ := 0
  needsRecoveryFullPrefill : Bool := false
  vocab : VocabSpec := {}
  numericMode : NumericMode := .fp32
  latencyClass : LatencyClass := .standard
  deadlineNs : Nanoseconds := 0
  arrivalNs : Nanoseconds := 0
  hasDeadline : Bool := false
  hasQueueDelay : Bool := false
  maxQueueDelayNs : Nanoseconds := 0

/-- What is kept of a worker. -/
structure PersistedWorkerRecord where
  workerId : WorkerId := .nil
  bootId : WorkerBootId := .nil
  host : String := ""
  port : UInt32 := 0
  backend : String := kBackendAny
  state : WorkerState := .unknown
  capacityUnits : UInt64 := 1

/-- What is kept of a tenant. -/
structure PersistedTenantRecord where
  tenantId : TenantId := .nil
  weight : Double := .one
  scheduledTokens : ℕ := 0
  completedRequests : ℕ := 0
  waitTotalNs : Nanoseconds := 0
  outstanding : ℕ := 0
  normalizedService : Double := .zero

/-- A snapshot. -/
structure PersistedState where
  epoch : Epoch := .nil
  nextGenerationValue : ℕ := 1
  nextAttemptValue : ℕ := 1
  requests : List PersistedRequestRecord := []
  workers : List PersistedWorkerRecord := []
  tenants : List PersistedTenantRecord := []
  wasCleanShutdown : Bool := false

/-! ### Export -/

/-- The record of a request. -/
def Rs.persisted (r : RequestId) (s : Rs) : PersistedRequestRecord where
  requestId := r
  attemptId := s.attempt
  tenantId := s.request.tenantId
  model := s.request.model
  adapterId := s.request.adapterId
  relation := s.request.adapterRelation
  promptTokenCount := s.request.promptTokenCount
  cachedTokens := s.request.reusablePrefix.tokenCount
  completedUncachedTokens := s.completedUncached
  currentGeneration := s.currentGeneration
  parentGeneration := (s.plan.chunks.head?.map (·.parentGeneration)).getD .nil
  nextChunkTokenStart :=
    if s.hasPendingChunk then s.nextChunk.tokenStart else s.request.remainingPrefillTokens
  workKind := s.lastWorkKind
  lifecycle := s.lifecycle
  priority := s.request.priority
  tenantWeight := s.request.tenantWeight
  normalizedService := s.normalizedService
  completedTokenTotal := s.completedTokenTotal
  needsRecoveryFullPrefill := s.inFlight
  vocab := s.request.vocab
  numericMode := s.request.numericMode
  latencyClass := s.request.latencyClass
  deadlineNs := s.request.deadline.getD 0
  arrivalNs := s.admitTime
  hasDeadline := s.request.deadline.isSome
  hasQueueDelay := s.request.maxQueueDelay.isSome
  maxQueueDelayNs := s.request.maxQueueDelay.getD 0

/-- The record of a worker. -/
def Ws.persisted (w : WorkerId) (ws : Ws) : PersistedWorkerRecord where
  workerId := w
  bootId := ws.desc.bootId
  host := ws.desc.host
  port := ws.desc.port
  backend := ws.desc.backend
  state := ws.desc.state
  capacityUnits := ws.desc.capacityUnits

/-- The record of a tenant. -/
def TenantService.persisted (t : TenantId) (ts : TenantService) : PersistedTenantRecord where
  tenantId := t
  weight := ts.weight
  scheduledTokens := ts.scheduledTokens
  completedRequests := ts.completedRequests
  waitTotalNs := ts.waitTotalNs
  outstanding := ts.outstanding
  normalizedService := ts.normalizedService

/-- Take a snapshot. The tenants are visited in the order of their identities. -/
def Impl.exportState (σ : Impl) : PersistedState where
  epoch := σ.epoch
  nextGenerationValue := σ.nextGenerationValue
  nextAttemptValue := σ.nextAttemptValue
  requests := σ.requests.entries.map fun e => e.2.persisted e.1
  workers := σ.workers.entries.map fun e => e.2.persisted e.1
  tenants := (σ.tenants.entries.insertionSort fun a b => a.1.value ≤ b.1.value).map
    fun e => e.2.persisted e.1
  wasCleanShutdown := σ.groups.entries.isEmpty

/-! ### Import -/

namespace PersistedRequestRecord

/-- The request of a record; what is not in the record is at its default. -/
def request (rec : PersistedRequestRecord) : PrefillRequest where
  requestId := rec.requestId
  tenantId := rec.tenantId
  model := rec.model
  adapterId := rec.adapterId
  adapterRelation := rec.relation
  promptTokenCount := rec.promptTokenCount
  reusablePrefix := { tokenCount := rec.cachedTokens }
  vocab := rec.vocab
  numericMode := rec.numericMode
  latencyClass := rec.latencyClass
  priority := rec.priority
  tenantWeight := rec.tenantWeight
  arrivalTime := rec.arrivalNs
  deadline := if rec.hasDeadline then some rec.deadlineNs else none
  maxQueueDelay := if rec.hasQueueDelay then some rec.maxQueueDelayNs else none

/-- The search for a chunk of a plan with a given start, from an index on, for a number of rounds.
The index has 32 bits, and the number of chunks has 64: past its greatest value the index is zero
again. -/
def searchFrom (plan : PrefillPlan) (start : ℕ) : ℕ → UInt32 → Option ℕ
  | 0, _ => none
  | rounds + 1, i =>
    match plan.chunks[i.toNat]? with
    | none => some 0
    | some c => if c.tokenStart = start then some i.toNat else searchFrom plan start rounds (i + 1)

/-- The index of the first chunk of a plan with a given start, or zero. There is none if the search
is not over after `2 ^ 32` rounds: the index has then come round, and it goes on for ever. -/
def indexForTokenStart (plan : PrefillPlan) (start : ℕ) : Option ℕ :=
  searchFrom plan start (2 ^ 32) 0

/-- The search for the chunk to go on with, if there is one, comes to an end. -/
def SearchEnds (env : Env) (rec : PersistedRequestRecord) : Prop :=
  rec.nextChunkTokenStart < rec.request.remainingPrefillTokens →
    (indexForTokenStart (ChunkPlanner.plan env rec.request rec.attemptId .nil)
      rec.nextChunkTokenStart).isSome

/-- The scheduler's record of a request, as recovered, if the search for its chunk comes to an
end. -/
def recovered (env : Env) (rec : PersistedRequestRecord) : Rs :=
  let plan := ChunkPlanner.plan env rec.request rec.attemptId .nil
  let remaining := rec.request.remainingPrefillTokens
  let done := decide (remaining ≤ rec.nextChunkTokenStart)
  let s : Rs :=
    { request := rec.request
      attempt := rec.attemptId
      lifecycle := rec.lifecycle
      plan := plan
      nextChunkIndex :=
        if done then plan.chunks.length % 2 ^ 32
        else (indexForTokenStart plan rec.nextChunkTokenStart).getD 0
      completedUncached := if done then remaining else 0
      completedTokenTotal := rec.completedTokenTotal
      currentGeneration := rec.currentGeneration
      normalizedService := rec.normalizedService
      admitTime := rec.arrivalNs
      lastWorkKind := rec.workKind
      trace := ["recovered from persistence"] }
  -- what was under way is done again
  if s.lifecycle = .dispatched ∨ s.lifecycle = .running then
    { s with lifecycle := .queued, currentGeneration := .nil, recoveredWork := true }.note
      "reconciled in-flight-at-death work conservatively (redo chunk)"
  else s

end PersistedRequestRecord

/-- **Reading a snapshot back comes to an end**: the search for the chunk of every request does. -/
def PersistedState.Returns (env : Env) (st : PersistedState) : Prop :=
  ∀ rec ∈ st.requests, rec.SearchEnds env

namespace Impl

/-- Recover one request, and charge it to its tenant unless it is over. -/
def importRequest (env : Env) (σ : Impl) (rec : PersistedRequestRecord) : Impl :=
  let s := rec.recovered env
  (σ.setRequest rec.requestId s).charge rec.tenantId fun ts =>
    let ts := if ts.weight.le .zero then { ts with weight := rec.tenantWeight } else ts
    if s.lifecycle.isTerminal then ts
    else
      { ts with
        outstanding := ts.outstanding + 1
        admittedTokens := ts.admittedTokens + .ofNat s.request.remainingPrefillTokens }

/-- Overwrite one worker. -/
def importWorker (σ : Impl) (rec : PersistedWorkerRecord) : Impl :=
  let ws := (σ.workers.lookup rec.workerId).getD {}
  { σ with
    workers := σ.workers.insert rec.workerId
      { desc := { ws.desc with
          workerId := rec.workerId
          bootId := rec.bootId
          host := rec.host
          port := rec.port
          backend := rec.backend
          state := rec.state
          capacityUnits := rec.capacityUnits } } }

/-- Overwrite one tenant. -/
def importTenant (σ : Impl) (rec : PersistedTenantRecord) : Impl :=
  { σ with
    tenants := σ.tenants.insert rec.tenantId
      { weight := rec.weight
        scheduledTokens := rec.scheduledTokens
        completedRequests := rec.completedRequests
        waitTotalNs := rec.waitTotalNs
        outstanding := rec.outstanding
        normalizedService := rec.normalizedService } }

/-- The scheduler a snapshot is read into, once it is cleared. -/
def cleared (st : PersistedState) (σ : Impl) : Impl :=
  { σ with
    epoch := st.epoch
    nextGenerationValue := max σ.nextGenerationValue st.nextGenerationValue
    nextAttemptValue := max σ.nextAttemptValue st.nextAttemptValue
    requests := ∅
    groups := ∅
    tenants := ∅ }

/-- Read a snapshot back, if this comes to an end. -/
def importState (env : Env) (now : Nanoseconds) (st : PersistedState) (σ : Impl) : Impl :=
  let σ := σ.cleared st
  let σ := st.requests.foldl (importRequest env) σ
  let σ := st.workers.foldl importWorker σ
  -- the accounts that the requests have just been charged to are overwritten
  let σ := st.tenants.foldl importTenant σ
  let σ := σ.count fun stats => { stats with remainingPrefillTokens := σ.remainingTokens }
  σ.record now "recover" .nil .nil ("epoch=" ++ toString σ.epoch.value)

end Impl

end PrefillFabric
