import PrefillFabric.Persistence.Snapshot

/-!
# The messages of the protocol

A message has a kind and a field for everything any kind of message carries; which of the
fields matter is a matter of the kind, and the others are at their defaults. The records here
are those the bytes of a frame are made from, as in the persistence format: numbers are words,
texts are bytes, and an enumeration is any number of its underlying type.

What no frame carries, and nothing here reads, is left out: the sizes of a device, the notes
on a worker, and the statistics that are not sent.
-/

namespace PrefillFabric

/-! ### Enumerations -/

instance : Enumeration MemberOutcome where
  values := [.success, .needsNextChunk, .retryableFailure, .nonRetryableFailure, .cancelled,
    .expired, .staleRejected]
  mem_values v := by cases v <;> decide
  length_values := by decide

/-- An error code, by its number. -/
def ErrorCode.coded (c : ErrorCode) : Coded ErrorCode := ⟨.ofNat c.number⟩

theorem ErrorCode.coded_nonneg (c : ErrorCode) : 0 ≤ c.coded.code := by
  cases c <;> decide

namespace Wire

/-- What a frame is about. -/
inductive MsgKind
  | hello
  | workerRegister
  | workerRegisterAck
  | submit
  | submitAck
  | cancel
  | cancelAck
  | queryState
  | state
  | queryExplain
  | explainResp
  | queryStats
  | statsResp
  | dispatch
  | completion
  | shutdown
  | shutdownAck
  | ping
  | pong
  | rollEpoch
  | error
deriving DecidableEq, Repr

namespace MsgKind

/-- The kinds, in the order of their numbers; the first number is one. -/
def all : List MsgKind :=
  [hello, workerRegister, workerRegisterAck, submit, submitAck, cancel, cancelAck, queryState,
    state, queryExplain, explainResp, queryStats, statsResp, dispatch, completion, shutdown,
    shutdownAck, ping, pong, rollEpoch, error]

/-- The byte of a kind. -/
def toByte (k : MsgKind) : UInt8 := .ofNat (all.idxOf k + 1)

/-- The kind of a byte, if it is one. -/
def ofByte? (b : UInt8) : Option MsgKind := if b = 0 then none else all[b.toNat - 1]?

@[simp] theorem ofByte?_toByte (k : MsgKind) : ofByte? k.toByte = some k := by
  cases k <;> decide

end MsgKind

/-! ### Records -/

/-- An error code with its text. -/
structure ErrorInfo where
  code : Coded ErrorCode := {}
  message : Str := []
deriving DecidableEq

/-- A device, as far as it is sent or set. -/
structure DeviceDescriptor where
  id : UInt64 := 0
  name : Str := []
  backend : Str := kBackendCpu.toUTF8.data.toList
  available : Bool := false
deriving DecidableEq

/-- A worker as it registers. -/
structure WorkerDescriptor where
  workerId : UInt64 := 0
  bootId : UInt64 := 0
  host : Str := []
  port : UInt32 := 0
  backend : Str := kBackendAny.toUTF8.data.toList
  devices : List DeviceDescriptor := []
  state : Coded WorkerState := {}
  capacityUnits : UInt64 := 1
deriving DecidableEq

/-- Metadata of a reusable prefix. -/
structure ReusablePrefixMetadata where
  tokenCount : UInt64 := 0
  fingerprint : Str := []
  validated : Bool := false
deriving DecidableEq

/-- A prefill submission. -/
structure PrefillRequest where
  requestId : UInt64 := 0
  tenantId : UInt64 := 0
  model : ModelKey := {}
  adapterId : UInt64 := 0
  adapterRelation : Coded AdapterRelation := {}
  vocab : VocabSpec := {}
  promptTokenCount : UInt64 := 0
  reusablePrefix : ReusablePrefixMetadata := {}
  inputShape : InputShape := {}
  inputLayout : Coded InputLayout := {}
  numericMode : Coded NumericMode := {}
  backend : Str := kBackendAny.toUTF8.data.toList
  device : UInt64 := 0
  deviceMatch : Str := []
  latencyClass : Coded LatencyClass := ⟨1⟩
  deadline : Option Int64 := none
  priority : Int32 := 0
  tenantWeight : Double := .one
  arrivalTime : Int64 := 0
  maxQueueDelay : Option Int64 := none
  memoryEstimateBytes : UInt64 := 0
  computeEstimate : UInt64 := 0
  maxRetries : Int32 := 2
  requester : Str := []
deriving DecidableEq

/-- What decides whether two requests may be packed together. -/
structure CompatibilityKey where
  model : ModelKey := {}
  baseModel : Str := []
  relation : Coded AdapterRelation := {}
  backend : Str := kBackendAny.toUTF8.data.toList
  device : UInt64 := 0
  layout : Coded InputLayout := {}
  numericMode : Coded NumericMode := {}
  vocab : VocabSpec := {}
  executorFamily : Str := []
  policyFingerprint : Str := []
deriving DecidableEq

/-- One chunk of one request, as a member of an execution group. -/
structure ExecutableMember where
  requestId : UInt64 := 0
  attemptId : UInt64 := 0
  generation : UInt64 := 0
  parentGeneration : UInt64 := 0
  tokenStart : UInt64 := 0
  tokenCount : UInt64 := 0
  workKind : Coded WorkKind := {}
  memoryEstimateBytes : UInt64 := 0
  computeEstimate : UInt64 := 0
  assignedWorker : UInt64 := 0
  memberIndex : UInt32 := 0
deriving DecidableEq

/-- The unit of execution. -/
structure ExecutionGroup where
  groupId : UInt64 := 0
  key : CompatibilityKey := {}
  backend : Str := kBackendAny.toUTF8.data.toList
  device : UInt64 := 0
  members : List ExecutableMember := []
  totalTokenCount : UInt64 := 0
  maxMemoryEstimateBytes : UInt64 := 0
  sumComputeEstimate : UInt64 := 0
deriving DecidableEq

/-- The outcome of one member, with the authority it was produced under. -/
structure MemberResult where
  requestId : UInt64 := 0
  attemptId : UInt64 := 0
  generation : UInt64 := 0
  outcome : Coded MemberOutcome := {}
  tokensCompleted : UInt64 := 0
  digest : UInt64 := 0
  failureCode : Coded ErrorCode := {}
  message : Str := []
  nextTokenStart : UInt64 := 0
  requiresNextChunk : Bool := false
  epoch : UInt64 := 0
  worker : UInt64 := 0
  boot : UInt64 := 0
deriving DecidableEq

/-- The statistics that are sent. -/
structure Stats where
  submitted : UInt64 := 0
  admitted : UInt64 := 0
  rejected : UInt64 := 0
  cancelled : UInt64 := 0
  retried : UInt64 := 0
  completed : UInt64 := 0
  failedNonRetryable : UInt64 := 0
  expired : UInt64 := 0
  deadlineMissed : UInt64 := 0
  groupsFormed : UInt64 := 0
  scheduledTokens : UInt64 := 0
  completedTokens : UInt64 := 0
  chunkCount : UInt64 := 0
  staleAuthorityRejected : UInt64 := 0
  duplicateCompletionRejected : UInt64 := 0
  queueDepth : UInt64 := 0
  waitingTokens : UInt64 := 0
  runningRequests : UInt64 := 0
  remainingPrefillTokens : UInt64 := 0
  queueLatencyTotalNs : Int64 := 0
  executionLatencyTotalNs : Int64 := 0
  queueLatencySamples : UInt64 := 0
  executionLatencySamples : UInt64 := 0
deriving DecidableEq

/-- Why a request is where it is. -/
structure Explain where
  requestId : UInt64 := 0
  attemptId : UInt64 := 0
  lifecycle : Str := []
  trace : List Str := []
deriving DecidableEq

/-- What a cancellation reports. -/
structure CancelResult where
  applied : Bool := false
  wasTerminal : Bool := false
  code : Coded ErrorCode := {}
  message : Str := []
deriving DecidableEq

/-- A message. -/
structure Message where
  kind : MsgKind := .hello
  worker : WorkerDescriptor := {}
  epoch : UInt64 := 0
  workers : List WorkerDescriptor := []
  request : PrefillRequest := {}
  tokens : List UInt32 := []
  error : ErrorInfo := {}
  requestId : UInt64 := 0
  attemptId : UInt64 := 0
  generation : UInt64 := 0
  lifecycle : Coded Lifecycle := {}
  applied : Bool := false
  accepted : Bool := false
  group : ExecutionGroup := {}
  memberTokens : List UInt32 := []
  memberTokenOffsets : List UInt64 := []
  memberResults : List MemberResult := []
  stats : Stats := {}
  explain : Explain := {}
  cancelResult : CancelResult := {}
deriving DecidableEq

/-! ### The hash of a key -/

/-- The bytes an enumeration has in memory. -/
def memoryBytes {κ : Type} (c : Coded κ) : List UInt8 := Codec.leBytes 4 c.code.toUInt32.toNat

/-- The hash of a key over its fields, one after the other. -/
def CompatibilityKey.hash (k : CompatibilityKey) : UInt64 :=
  [k.model.name, k.model.revision, k.baseModel, memoryBytes k.relation, k.backend,
    Codec.leBytes 8 k.device.toNat, memoryBytes k.layout, memoryBytes k.numericMode,
    k.vocab.tokenizer, Codec.leBytes 8 k.vocab.vocabSize.toNat, k.executorFamily,
    k.policyFingerprint].foldl fnv1a64 1469598103934665603

end Wire

end PrefillFabric
