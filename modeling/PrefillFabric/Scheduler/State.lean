import Mathlib.Data.List.Sort
import Mathlib.Data.UInt
import PrefillFabric.Chunking
import PrefillFabric.Executor
import PrefillFabric.Memory

/-!
# The state of the scheduler

`Impl` is everything a scheduler owns: its requests, groups, workers and tenants,
the memory governor, the token resolver, the statistics, the event log and the
counters identities are drawn from. Operations take the time they read from the
clock as an argument; an operation holds the scheduler's lock throughout, so it is
one step.

The blocks of code that several operations share – releasing a reservation, taking
a request out of its group, charging a tenant – are functions here, and each
operation is written with them.
-/

namespace PrefillFabric

/-! ### Accounting records -/

/-- Service accounting of one tenant. The admitted tokens are a 64-bit sum. -/
structure TenantService where
  weight : Double := .one
  scheduledTokens : ℕ := 0
  completedRequests : ℕ := 0
  waitTotalNs : Nanoseconds := 0
  outstanding : ℕ := 0
  normalizedService : Double := .zero
  admittedTokens : UInt64 := 0

namespace TenantService

/-- One request fewer, and never fewer than none. -/
def leave (ts : TenantService) : TenantService := { ts with outstanding := ts.outstanding - 1 }

/-- Take back the tokens a request was admitted with, if that many are on the
books. -/
def refund (ts : TenantService) (rem : ℕ) : TenantService :=
  if UInt64.ofNat rem ≤ ts.admittedTokens then
    { ts with admittedTokens := ts.admittedTokens - .ofNat rem }
  else ts

/-- A request of the tenant is over and its tokens are given back. -/
def settle (ts : TenantService) (rem : ℕ) : TenantService := ts.leave.refund rem

end TenantService

/-- Cumulative statistics, as far as the scheduler writes them. -/
structure Stats where
  submitted : ℕ := 0
  admitted : ℕ := 0
  rejected : ℕ := 0
  cancelled : ℕ := 0
  retried : ℕ := 0
  completed : ℕ := 0
  failedNonRetryable : ℕ := 0
  expired : ℕ := 0
  deadlineMissed : ℕ := 0
  groupsFormed : ℕ := 0
  scheduledTokens : ℕ := 0
  completedTokens : ℕ := 0
  staleAuthorityRejected : ℕ := 0
  duplicateCompletionRejected : ℕ := 0
  queueDelayExceeded : ℕ := 0
  queueDepth : ℕ := 0
  waitingTokens : ℕ := 0
  remainingPrefillTokens : UInt64 := 0
  queueLatencyTotalNs : Nanoseconds := 0
  executionLatencyTotalNs : Nanoseconds := 0
  queueLatencySamples : ℕ := 0
  executionLatencySamples : ℕ := 0
  rejectionByReason : Table ErrorCode ℕ := ∅
  groupSizeDistribution : Table ℕ ℕ := ∅

/-- Add one under a key. -/
def countUnder {κ : Type} [DecidableEq κ] (t : Table κ ℕ) (k : κ) : Table κ ℕ :=
  t.insert k ((t.lookup k).getD 0 + 1)

/-- A structured runtime event. -/
structure Event where
  timeNs : Nanoseconds
  type : String
  requestId : RequestId
  attemptId : AttemptId
  detail : String

/-- The event stream, which retains the latest events up to its capacity. -/
structure EventLog where
  events : List Event := []
  capacity : ℕ := 10000

/-- Record an event. -/
def EventLog.record (log : EventLog) (e : Event) : EventLog :=
  let events := log.events ++ [e]
  { log with events := if log.capacity < events.length then events.tail else events }

/-! ### Requests, groups and workers -/

/-- What the scheduler knows about a request. -/
structure Rs where
  request : PrefillRequest := {}
  attempt : AttemptId := .nil
  lifecycle : Lifecycle := .submitted
  plan : PrefillPlan := {}
  nextChunkIndex : ℕ := 0
  completedUncached : ℕ := 0
  completedTokenTotal : ℕ := 0
  currentGeneration : Generation := .nil
  reservation : ReservationId := .nil
  reservedBytes : ℕ := 0
  inFlight : Bool := false
  currentGroup : GroupId := .nil
  dispatchedWorker : WorkerId := .nil
  dispatchTime : Nanoseconds := 0
  lastWorkKind : WorkKind := .fullPrompt
  retriesUsed : ℤ := 0
  normalizedService : Double := .zero
  agingCycles : ℕ := 0
  admitTime : Nanoseconds := 0
  firstDispatchTime : Nanoseconds := 0
  chunksDone : ℕ := 0
  cancelPending : Bool := false
  recoveredWork : Bool := false
  trace : List String := []

namespace Rs

/-- Append a line to the explanation of a request. -/
def note (s : Rs) (line : String) : Rs := { s with trace := s.trace ++ [line] }

/-- Whether a chunk is left to execute. -/
def hasPendingChunk (s : Rs) : Bool := decide (s.nextChunkIndex < s.plan.chunks.length)

/-- The chunk to execute next. -/
def nextChunk (s : Rs) : PrefillChunk := s.plan.chunks.getD s.nextChunkIndex {}

theorem getElem?_nextChunkIndex {s : Rs} (h : s.nextChunkIndex < s.plan.chunks.length) :
    s.plan.chunks[s.nextChunkIndex]? = some s.nextChunk := by
  rw [nextChunk, List.getD_eq_getElem?_getD, List.getElem?_eq_getElem h, Option.getD_some]

/-- The tokens of the chunk to execute next. -/
def pendingTokenCount (s : Rs) : ℕ := if s.hasPendingChunk then s.nextChunk.tokenCount else 0

/-- Forget the reservation, if there is one. -/
def dropReservation (s : Rs) : Rs :=
  if s.reservation.isNil then s else { s with reservation := .nil, reservedBytes := 0 }

/-- Start over under a new attempt. -/
def beginAttempt (env : Env) (s : Rs) (attempt : AttemptId) : Rs :=
  { s with
    retriesUsed := s.retriesUsed + 1
    attempt := attempt
    plan := ChunkPlanner.plan env s.request attempt .nil
    nextChunkIndex := 0
    completedUncached := 0
    completedTokenTotal := 0
    currentGeneration := .nil
    lifecycle := .queued
    lastWorkKind := .retried
    recoveredWork := false }

end Rs

/-- A dispatched group. The outstanding members are an ordered set. -/
structure Gs where
  group : ExecutionGroup := {}
  worker : WorkerId := .nil
  outstanding : List RequestId := []

/-- Add a request to an ordered set of requests. -/
def insertOutstanding (r : RequestId) (l : List RequestId) : List RequestId :=
  if r ∈ l then l else l.orderedInsert (fun a b => a.value ≤ b.value) r

/-- Remove a request from a set of requests. -/
def eraseOutstanding (r : RequestId) (l : List RequestId) : List RequestId :=
  l.filter fun x => x ≠ r

theorem mem_insertOutstanding {r x : RequestId} {l : List RequestId} :
    x ∈ insertOutstanding r l ↔ x = r ∨ x ∈ l := by
  rw [insertOutstanding]
  split
  case isTrue h => exact ⟨Or.inr, fun hx => hx.elim (fun he => he ▸ h) id⟩
  case isFalse => exact List.mem_orderedInsert _

theorem mem_eraseOutstanding {r x : RequestId} {l : List RequestId} :
    x ∈ eraseOutstanding r l ↔ x ∈ l ∧ x ≠ r := by
  rw [eraseOutstanding, List.mem_filter, decide_eq_true_iff]

/-- A registered worker. -/
structure Ws where
  desc : WorkerDescriptor := {}
  busyUnits : ℕ := 0
  localExec : Option Executor := none

/-! ### The scheduler -/

/-- Everything a scheduler owns. -/
structure Impl where
  mem : MemoryGovernor
  tokenResolver : InMemoryTokenResolver := ∅
  events : EventLog := {}
  stats : Stats := {}
  epoch : Epoch := ⟨1⟩
  nextGenerationValue : ℕ := 1
  nextAttemptValue : ℕ := 1
  nextGroupValue : ℕ := 1
  nextReservationValue : ℕ := 1
  nextBootValue : ℕ := 1
  requests : Table RequestId Rs := ∅
  groups : Table GroupId Gs := ∅
  workers : Table WorkerId Ws := ∅
  tenants : Table TenantId TenantService := ∅

namespace Impl

/-- A fresh scheduler. It has one worker, the local one, under the nil identity. -/
def fresh (env : Env) : Impl where
  mem := { maxBytes := env.usableMemoryBytes, headroom := env.cfg.memoryHeadroomBytes.toNat }
  nextBootValue := 2
  workers := (∅ : Table WorkerId Ws).insert .nil
    { desc :=
        { workerId := .nil
          bootId := ⟨1⟩
          host := "local"
          backend := kBackendCpu
          capacityUnits := 1
          state := .ready } }

/-- Write a request's record. -/
def setRequest (σ : Impl) (r : RequestId) (s : Rs) : Impl :=
  { σ with requests := σ.requests.insert r s }

/-- Append a line to the explanation of a request. -/
def noteRequest (σ : Impl) (r : RequestId) (line : String) : Impl :=
  { σ with requests := AList.modify r (·.note line) σ.requests }

/-- Change the statistics. -/
def count (σ : Impl) (f : Stats → Stats) : Impl := { σ with stats := f σ.stats }

/-- Change a tenant's account, which is opened at the first mention. -/
def charge (σ : Impl) (t : TenantId) (f : TenantService → TenantService) : Impl :=
  { σ with tenants := σ.tenants.insert t (f ((σ.tenants.lookup t).getD {})) }

/-- Record an event. -/
def record (σ : Impl) (now : Nanoseconds) (type : String) (r : RequestId) (a : AttemptId)
    (detail : String) : Impl :=
  { σ with events := σ.events.record ⟨now, type, r, a, detail⟩ }

/-- Release the reservation a request holds, if it holds one. -/
def releaseReservation (σ : Impl) (s : Rs) : Impl :=
  if s.reservation.isNil then σ else { σ with mem := σ.mem.release s.reservation }

/-- Give back one unit of a worker's capacity. -/
def freeWorker (σ : Impl) (w : WorkerId) : Impl :=
  { σ with
    workers := AList.modify w (fun ws => { ws with busyUnits := ws.busyUnits - 1 }) σ.workers }

/-- Drop a group and free its worker. -/
def eraseGroup (σ : Impl) (gid : GroupId) (gs : Gs) : Impl :=
  { σ.freeWorker gs.worker with groups := σ.groups.erase gid }

/-- Take a request out of a group; the last one to leave frees the worker. -/
def detachMember (σ : Impl) (gid : GroupId) (r : RequestId) : Impl :=
  match σ.groups.lookup gid with
  | none => σ
  | some gs =>
    let left := eraseOutstanding r gs.outstanding
    if left.isEmpty then σ.eraseGroup gid gs
    else { σ with groups := σ.groups.insert gid { gs with outstanding := left } }

/-! ### Counting requests -/

/-- The requests, in the order an iteration visits them. -/
def requestList (σ : Impl) : List Rs := σ.requests.entries.map (·.2)

/-- Requests that wait. -/
def queuedCount (σ : Impl) : ℕ :=
  (σ.requestList.filter fun s => s.lifecycle == .queued && !s.inFlight).length

/-- Tokens of the chunks that wait. -/
def waitingTokens (σ : Impl) : ℕ :=
  ((σ.requestList.filter fun s => s.lifecycle == .queued && !s.inFlight).map
    (·.pendingTokenCount)).sum

/-- Tokens still to be prefilled, in 64 bits. -/
def remainingTokens (σ : Impl) : UInt64 :=
  ((σ.requestList.filter fun s => !s.lifecycle.isTerminal).map fun s =>
    UInt64.ofNat s.request.remainingPrefillTokens - .ofNat s.completedUncached).sum

end Impl

end PrefillFabric
