import PrefillFabric.Lib.Table

/-!
# Identities, enumerations and error values

The vocabulary of the runtime: strongly typed identities, the enumerations that
classify work, requests and workers, and the error values every fallible
operation returns.

Two conventions hold throughout the model.

* An identity wraps a number; the number `0` is the *nil* identity, which several
  checks of the scheduler treat as “not given”. Numbers the runtime itself hands
  out – attempts, generations, groups, reservations, boot numbers, epochs – come
  from counters that are never reset; the counters are unbounded here, a 64-bit
  counter incremented once per event not wrapping within any run.
* A quantity supplied from outside (a token count, an estimate, a limit of the
  configuration) is a `UInt64`, so that its range is part of its type; what the
  runtime computes from such quantities is a natural number, reduced modulo
  `2 ^ 64` or `2 ^ 32` where the source's arithmetic can wrap.
-/

namespace PrefillFabric

/-! ### Strong identities -/

/-- The kinds of identity; identities of different kinds do not mix. -/
inductive IdTag
  | request
  | attempt
  | tenant
  | worker
  | workerBoot
  | epoch
  | adapter
  | device
  | group
  | generation
  | reservation

/-- A strongly typed identity. -/
structure StrongId (tag : IdTag) where
  /-- The number wrapped. -/
  value : ℕ
deriving DecidableEq, Repr

namespace StrongId

variable {tag : IdTag}

/-- The nil identity. -/
def nil : StrongId tag := ⟨0⟩

/-- Whether an identity is nil. -/
def isNil (i : StrongId tag) : Bool := i.value == 0

instance : Inhabited (StrongId tag) := ⟨nil⟩

@[simp] theorem isNil_nil : (nil : StrongId tag).isNil = true := rfl

theorem isNil_eq_true {i : StrongId tag} : i.isNil = true ↔ i = nil := by
  obtain ⟨v⟩ := i
  simp [isNil, nil]

theorem isNil_eq_false {i : StrongId tag} : i.isNil = false ↔ i ≠ nil := by
  rw [← Bool.not_eq_true, isNil_eq_true]

theorem ne_nil_of_pos {i : StrongId tag} (h : 0 < i.value) : i ≠ nil := by
  rintro rfl
  exact absurd h (Nat.lt_irrefl 0)

end StrongId

abbrev RequestId := StrongId .request
abbrev AttemptId := StrongId .attempt
abbrev TenantId := StrongId .tenant
abbrev WorkerId := StrongId .worker
abbrev WorkerBootId := StrongId .workerBoot
abbrev Epoch := StrongId .epoch
abbrev AdapterId := StrongId .adapter
abbrev DeviceId := StrongId .device
abbrev GroupId := StrongId .group
abbrev Generation := StrongId .generation
abbrev ReservationId := StrongId .reservation

/-! ### Enumerations -/

/-- Numeric precision. -/
inductive NumericMode
  | fp32
  | fp16
  | bf16
  | fp8
  | int8
  | mixed
deriving DecidableEq, Repr

/-- Latency class, from the least to the most urgent. -/
inductive LatencyClass
  | bestEffort
  | standard
  | latencySensitive
  | interactive
  | realTime
deriving DecidableEq, Repr

/-- The number behind a latency class, which is what the scheduler compares. -/
def LatencyClass.rank : LatencyClass → ℕ
  | .bestEffort => 0
  | .standard => 1
  | .latencySensitive => 2
  | .interactive => 3
  | .realTime => 4

/-- Input layout family. -/
inductive InputLayout
  | seqMajor
  | batchMajor
  | packed
  | block
deriving DecidableEq, Repr

/-- Prefill work kinds. -/
inductive WorkKind
  | fullPrompt
  | partialPrompt
  | chunked
  | continuation
  | reusedSuffix
  | retried
  | cancelled
  | deadlineExpired
  | split
  | merged
  | workerRecovered
  | staleRejected
deriving DecidableEq, Repr

/-- How an adapter relates to its base model. -/
inductive AdapterRelation
  | none
  | sameBase
  | baseAdapter
  | distinct
deriving DecidableEq, Repr

/-- Request lifecycle states. -/
inductive Lifecycle
  | submitted
  | admitted
  | queued
  | formed
  | reserved
  | dispatched
  | running
  | awaitingRetry
  | completed
  | failedNonRetryable
  | cancelled
  | expired
  | rejected
deriving DecidableEq, Repr

/-- The name of a state. -/
def Lifecycle.name : Lifecycle → String
  | .submitted => "submitted"
  | .admitted => "admitted"
  | .queued => "queued"
  | .formed => "formed"
  | .reserved => "reserved"
  | .dispatched => "dispatched"
  | .running => "running"
  | .awaitingRetry => "awaiting_retry"
  | .completed => "completed"
  | .failedNonRetryable => "failed_non_retryable"
  | .cancelled => "cancelled"
  | .expired => "expired"
  | .rejected => "rejected"

/-- `is_terminal_lifecycle`. -/
def Lifecycle.isTerminal : Lifecycle → Bool
  | .completed => true
  | .cancelled => true
  | .expired => true
  | .failedNonRetryable => true
  | .rejected => true
  | _ => false

/-- Per-member outcome of an execution group. -/
inductive MemberOutcome
  | success
  | needsNextChunk
  | retryableFailure
  | nonRetryableFailure
  | cancelled
  | expired
  | staleRejected
deriving DecidableEq, Repr

/-- Worker health states. -/
inductive WorkerState
  | unknown
  | registered
  | ready
  | busy
  | lost
  | retired
deriving DecidableEq, Repr

/-- Stage of a memory reservation. -/
inductive ReservationKind
  | queued
  | planned
  | reserved
  | dispatched
  | running
deriving DecidableEq, Repr

/-! ### Compound identities -/

/-- Model identity: a name and a revision. -/
structure ModelKey where
  name : String := ""
  revision : String := ""
deriving DecidableEq, Repr

/-- Tokenizer and vocabulary. -/
structure VocabSpec where
  tokenizer : String := ""
  vocabSize : UInt64 := 0
deriving DecidableEq, Repr

/-- The backend of the CPU executor. -/
def kBackendCpu : String := "cpu"

/-- The backend that matches every other. -/
def kBackendAny : String := "*"

/-- Times are nanoseconds on an arbitrary origin. -/
abbrev Nanoseconds := ℤ

/-! ### Errors -/

/-- Structured error codes. -/
inductive ErrorCode
  | ok
  | invalidArgument
  | outOfRange
  | notFound
  | alreadyExists
  | illegalState
  | preconditionFailed
  | capacityExceeded
  | notImplemented
  | unsupported
  | overflow
  | rejected
  | admissionRejectedTerminal
  | deadlineExpired
  | deadlineImpossible
  | memoryUnavailable
  | noCompatibleWorker
  | noCapacity
  | backpressure
  | queuedDelayExceeded
  | unknownRequest
  | unknownAttempt
  | unknownTenant
  | unknownModel
  | duplicateRequest
  | invalidReusablePrefix
  | staleEpoch
  | staleWorker
  | staleAttempt
  | staleGeneration
  | duplicateCompletion
  | terminalCancelled
  | supersededRetry
  | retryableFailure
  | nonRetryableFailure
  | memberFailed
  | executorFailure
  | kernelFailure
  | deviceFailure
  | cudaUnavailable
  | cudaError
  | corruptState
  | checksumMismatch
  | truncation
  | unknownVersion
  | malformedFrame
  | oversizedFrame
  | protocolViolation
  | ioFailure
  | serviceUnavailable
  | alreadyDispatching
  | maxCode
deriving DecidableEq, Repr

/-- The number behind an error code. The codes come in groups of a hundred. -/
def ErrorCode.number : ErrorCode → ℕ
  | .ok => 0
  | .invalidArgument => 100
  | .outOfRange => 101
  | .notFound => 102
  | .alreadyExists => 103
  | .illegalState => 104
  | .preconditionFailed => 105
  | .capacityExceeded => 106
  | .notImplemented => 107
  | .unsupported => 108
  | .overflow => 109
  | .rejected => 200
  | .admissionRejectedTerminal => 201
  | .deadlineExpired => 202
  | .deadlineImpossible => 203
  | .memoryUnavailable => 204
  | .noCompatibleWorker => 205
  | .noCapacity => 206
  | .backpressure => 207
  | .queuedDelayExceeded => 208
  | .unknownRequest => 300
  | .unknownAttempt => 301
  | .unknownTenant => 302
  | .unknownModel => 303
  | .duplicateRequest => 304
  | .invalidReusablePrefix => 305
  | .staleEpoch => 306
  | .staleWorker => 307
  | .staleAttempt => 308
  | .staleGeneration => 309
  | .duplicateCompletion => 310
  | .terminalCancelled => 311
  | .supersededRetry => 312
  | .retryableFailure => 400
  | .nonRetryableFailure => 401
  | .memberFailed => 402
  | .executorFailure => 403
  | .kernelFailure => 404
  | .deviceFailure => 405
  | .cudaUnavailable => 406
  | .cudaError => 407
  | .corruptState => 500
  | .checksumMismatch => 501
  | .truncation => 502
  | .unknownVersion => 503
  | .malformedFrame => 504
  | .oversizedFrame => 505
  | .protocolViolation => 506
  | .ioFailure => 507
  | .serviceUnavailable => 600
  | .alreadyDispatching => 601
  | .maxCode => 700

/-- An error code with its text. -/
structure ErrorInfo where
  code : ErrorCode := .ok
  message : String := ""
deriving DecidableEq, Repr

/-- What a fallible operation returns. -/
abbrev Result (α : Type) := Except ErrorInfo α

/-- Whether an operation succeeded. -/
def isOk {α : Type} : Result α → Bool
  | .ok _ => true
  | .error _ => false

end PrefillFabric
