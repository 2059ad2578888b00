import PrefillFabric.Protocol.Message

/-!
# Frames

The body of a frame is the version, the kind and the payload. `encodeBody` lays a message out,
field after field as its kind has it; `decodeBody` reads the fields of a kind off the payload
and leaves the rest of the message at its defaults.

Two things are not as in the persistence format. The reader of a payload does not ask whether
anything is left when it is done, so that a body may be followed by anything. And the reader
of the statistics, unlike every other one, does not fail when it runs out of bytes: it goes on
with what it has.
-/

namespace PrefillFabric

open Codec

namespace Wire

/-- The version of the protocol. -/
def kProtocolVersion : UInt8 := 1

/-! ### Layouts -/

section

open ByteWriter

/-- The layout of a worker. Of its devices the first is written, or a nil one. -/
def encWorker (wd : WorkerDescriptor) : List Item :=
  [u64 wd.workerId, u64 wd.bootId, str wd.host, u32 wd.port, str wd.backend, enum wd.state,
    u64 wd.capacityUnits, u64 ((wd.devices.head?.map (·.id)).getD 0),
    str ((wd.devices.head?.map (·.name)).getD [])]

/-- The layout of a value that may be missing: a flag, and the value or zero. -/
def encOptional (t : Option Int64) : List Item := [bool t.isSome, i64 (t.getD 0)]

/-- The layout of a request. -/
def encReq (r : PrefillRequest) : List Item :=
  [u64 r.requestId, u64 r.tenantId, str r.model.name, str r.model.revision, u64 r.adapterId,
    enum r.adapterRelation, str r.vocab.tokenizer, u64 r.vocab.vocabSize, u64 r.promptTokenCount,
    u64 r.reusablePrefix.tokenCount, bool r.reusablePrefix.validated,
    str r.reusablePrefix.fingerprint, u64 r.inputShape.seqLen, u64 r.inputShape.hiddenDim,
    u64 r.inputShape.numHeads, u64 r.inputShape.headDim, enum r.inputLayout, enum r.numericMode,
    str r.backend, u64 r.device, str r.deviceMatch, enum r.latencyClass] ++
  encOptional r.deadline ++
  [u32 r.priority.toUInt32, f64 r.tenantWeight, i64 r.arrivalTime] ++
  encOptional r.maxQueueDelay ++
  [u64 r.memoryEstimateBytes, u64 r.computeEstimate, u32 r.maxRetries.toUInt32, str r.requester]

/-- The layout of a member. -/
def encMember (m : ExecutableMember) : List Item :=
  [u64 m.requestId, u64 m.attemptId, u64 m.generation, u64 m.parentGeneration, u64 m.tokenStart,
    u64 m.tokenCount, enum m.workKind, u64 m.memoryEstimateBytes, u64 m.computeEstimate,
    u64 m.assignedWorker, u32 m.memberIndex]

/-- The layout of a result. The failure code is written as one byte. -/
def encMres (r : MemberResult) : List Item :=
  [u64 r.requestId, u64 r.attemptId, u64 r.generation, enum r.outcome, u64 r.tokensCompleted,
    u64 r.digest, enum r.failureCode, str r.message, u64 r.nextTokenStart,
    bool r.requiresNextChunk, u64 r.epoch, u64 r.worker, u64 r.boot]

/-- The layout of a group. Its key is written as a hash; the number of members is of 32
bits. -/
def encGroup (g : ExecutionGroup) : List Item :=
  [u64 g.groupId, str g.backend, u64 g.device, u64 g.key.hash, u32 (.ofNat g.members.length)] ++
  g.members.flatMap encMember ++
  [u64 g.totalTokenCount, u64 g.maxMemoryEstimateBytes, u64 g.sumComputeEstimate]

/-- The layout of the statistics. -/
def encStats (st : Stats) : List Item :=
  [u64 st.submitted, u64 st.admitted, u64 st.rejected, u64 st.cancelled, u64 st.retried,
    u64 st.completed, u64 st.failedNonRetryable, u64 st.expired, u64 st.deadlineMissed,
    u64 st.groupsFormed, u64 st.scheduledTokens, u64 st.completedTokens, u64 st.chunkCount,
    u64 st.staleAuthorityRejected, u64 st.duplicateCompletionRejected, u64 st.queueDepth,
    u64 st.waitingTokens, u64 st.runningRequests, u64 st.remainingPrefillTokens,
    i64 st.queueLatencyTotalNs, i64 st.executionLatencyTotalNs, u64 st.queueLatencySamples,
    u64 st.executionLatencySamples]

/-- The layout of a list: its length, and its entries one after the other. -/
def encCounted {α : Type} (enc : α → List Item) (as : List α) : List Item :=
  count as.length :: as.flatMap enc

/-- The layout of the payload of a message. -/
def encPayload (msg : Message) : List Item :=
  match msg.kind with
  | .hello => []
  | .workerRegister => encWorker msg.worker
  | .workerRegisterAck => u64 msg.epoch :: encWorker msg.worker
  | .submit => encReq msg.request ++ encCounted (fun t => [u32 t]) msg.tokens
  | .submitAck =>
    [u64 msg.requestId, bool msg.accepted, code msg.error.code, str msg.error.message,
      u64 msg.attemptId]
  | .cancel => [u64 msg.requestId]
  | .cancelAck =>
    -- of the result of a cancellation one field is written, and of the error both
    [u64 msg.requestId, bool msg.applied, bool msg.cancelResult.wasTerminal, code msg.error.code,
      str msg.error.message]
  | .queryState => []
  | .state => u64 msg.epoch :: encCounted encWorker msg.workers
  | .queryExplain => [u64 msg.requestId]
  | .explainResp =>
    -- an error is not written
    [u64 msg.requestId, u64 msg.attemptId, enum msg.lifecycle, u64 msg.generation] ++
      encCounted (fun line => [str line]) msg.explain.trace
  | .queryStats => []
  | .statsResp => encStats msg.stats
  | .dispatch =>
    encGroup msg.group ++ encCounted (fun t => [u32 t]) msg.memberTokens ++
      encCounted (fun o => [u64 o]) msg.memberTokenOffsets ++ [u64 msg.epoch, u64 msg.worker.bootId]
  | .completion => encCounted encMres msg.memberResults
  | .shutdown => []
  | .shutdownAck => []
  | .ping => []
  | .pong => []
  | .rollEpoch => []
  | .error => [code msg.error.code, str msg.error.message]

/-- The body of the frame of a message. -/
def encodeBody (msg : Message) : Result (List UInt8) :=
  .ok (bytesOf (u8 kProtocolVersion :: u8 msg.kind.toByte :: encPayload msg))

/-- The frame of a message, which is its body: the length in front is added by the socket. -/
def encodeFrame (msg : Message) : Result (List UInt8) := encodeBody msg

end

/-! ### Readers -/

section

open ByteReader

/-- A worker. A device is made of what is sent unless it is nil. -/
def decWorker : ByteReader WorkerDescriptor := do
  let workerId ← u64
  let bootId ← u64
  let host ← str
  let port ← u32
  let backend ← str
  let state ← enum
  let capacityUnits ← u64
  let id ← u64
  let name ← str
  pure
    { workerId, bootId, host, port, backend, state, capacityUnits
      devices := if id = 0 then [] else [{ id, name, backend, available := true }] }

/-- A value that may be missing. -/
def decOptional : ByteReader (Option Int64) := do
  let given ← bool
  let value ← i64
  pure (if given then some value else none)

/-- A request. -/
def decReq : ByteReader PrefillRequest := do
  let requestId ← u64
  let tenantId ← u64
  let name ← str
  let revision ← str
  let adapterId ← u64
  let adapterRelation ← enum
  let tokenizer ← str
  let vocabSize ← u64
  let promptTokenCount ← u64
  let tokenCount ← u64
  let validated ← bool
  let fingerprint ← str
  let seqLen ← u64
  let hiddenDim ← u64
  let numHeads ← u64
  let headDim ← u64
  let inputLayout ← enum
  let numericMode ← enum
  let backend ← str
  let device ← u64
  let deviceMatch ← str
  let latencyClass ← enum
  let deadline ← decOptional
  let priority ← u32
  let tenantWeight ← f64
  let arrivalTime ← i64
  let maxQueueDelay ← decOptional
  let memoryEstimateBytes ← u64
  let computeEstimate ← u64
  let maxRetries ← u32
  let requester ← str
  pure
    { requestId, tenantId, model := { name, revision }, adapterId, adapterRelation
      vocab := { tokenizer, vocabSize }, promptTokenCount
      reusablePrefix := { tokenCount, fingerprint, validated }
      inputShape := { seqLen, hiddenDim, numHeads, headDim }, inputLayout, numericMode, backend
      device, deviceMatch, latencyClass, deadline, priority := priority.toInt32, tenantWeight
      arrivalTime, maxQueueDelay, memoryEstimateBytes, computeEstimate
      maxRetries := maxRetries.toInt32, requester }

/-- A member. -/
def decMember : ByteReader ExecutableMember := do
  let requestId ← u64
  let attemptId ← u64
  let generation ← u64
  let parentGeneration ← u64
  let tokenStart ← u64
  let tokenCount ← u64
  let workKind ← enum
  let memoryEstimateBytes ← u64
  let computeEstimate ← u64
  let assignedWorker ← u64
  let memberIndex ← u32
  pure
    { requestId, attemptId, generation, parentGeneration, tokenStart, tokenCount, workKind
      memoryEstimateBytes, computeEstimate, assignedWorker, memberIndex }

/-- A result. -/
def decMres : ByteReader MemberResult := do
  let requestId ← u64
  let attemptId ← u64
  let generation ← u64
  let outcome ← enum
  let tokensCompleted ← u64
  let digest ← u64
  let failureCode ← enum
  let message ← str
  let nextTokenStart ← u64
  let requiresNextChunk ← bool
  let epoch ← u64
  let worker ← u64
  let boot ← u64
  pure
    { requestId, attemptId, generation, outcome, tokensCompleted, digest, failureCode, message
      nextTokenStart, requiresNextChunk, epoch, worker, boot }

/-- A group. Of its key there is only the hash, which is kept as a text. -/
def decGroup : ByteReader ExecutionGroup := do
  let groupId ← u64
  let backend ← str
  let device ← u64
  let hash ← u64
  let size ← u32
  let members ← many decMember size.toNat
  let totalTokenCount ← u64
  let maxMemoryEstimateBytes ← u64
  let sumComputeEstimate ← u64
  pure
    { groupId, backend, device
      key := { policyFingerprint := (toString hash.toNat).toUTF8.data.toList }, members
      totalTokenCount, maxMemoryEstimateBytes, sumComputeEstimate }

/-- The statistics. A number that cannot be read is zero. -/
def decStats : ByteReader Stats := do
  let submitted ← orDefault u64 0
  let admitted ← orDefault u64 0
  let rejected ← orDefault u64 0
  let cancelled ← orDefault u64 0
  let retried ← orDefault u64 0
  let completed ← orDefault u64 0
  let failedNonRetryable ← orDefault u64 0
  let expired ← orDefault u64 0
  let deadlineMissed ← orDefault u64 0
  let groupsFormed ← orDefault u64 0
  let scheduledTokens ← orDefault u64 0
  let completedTokens ← orDefault u64 0
  let chunkCount ← orDefault u64 0
  let staleAuthorityRejected ← orDefault u64 0
  let duplicateCompletionRejected ← orDefault u64 0
  let queueDepth ← orDefault u64 0
  let waitingTokens ← orDefault u64 0
  let runningRequests ← orDefault u64 0
  let remainingPrefillTokens ← orDefault u64 0
  let queueLatencyTotalNs ← orDefault i64 0
  let executionLatencyTotalNs ← orDefault i64 0
  let queueLatencySamples ← orDefault u64 0
  let executionLatencySamples ← orDefault u64 0
  pure
    { submitted, admitted, rejected, cancelled, retried, completed, failedNonRetryable, expired
      deadlineMissed, groupsFormed, scheduledTokens, completedTokens, chunkCount
      staleAuthorityRejected, duplicateCompletionRejected, queueDepth, waitingTokens
      runningRequests, remainingPrefillTokens, queueLatencyTotalNs, executionLatencyTotalNs
      queueLatencySamples, executionLatencySamples }

/-- A list that is preceded by its length, which must be reasonable. -/
def decCounted {α : Type} (limit : ℕ) (what : String) (r : ByteReader α) : ByteReader (List α) :=
  counted limit ⟨.protocolViolation, what⟩ r

/-- The payload of a message of a kind. -/
def decPayload : MsgKind → ByteReader Message
  | .hello => pure { kind := .hello }
  | .workerRegister => do
    let worker ← decWorker
    pure { kind := .workerRegister, worker }
  | .workerRegisterAck => do
    let epoch ← u64
    let worker ← decWorker
    pure { kind := .workerRegisterAck, epoch, worker }
  | .submit => do
    let request ← decReq
    let tokens ← decCounted (2 ^ 26) "token count unreasonable" u32
    pure { kind := .submit, request, tokens }
  | .submitAck => do
    let requestId ← u64
    let accepted ← bool
    let code ← code
    let message ← str
    let attemptId ← u64
    pure { kind := .submitAck, requestId, accepted, error := { code, message }, attemptId }
  | .cancel => do
    let requestId ← u64
    pure { kind := .cancel, requestId }
  | .cancelAck => do
    let requestId ← u64
    let applied ← bool
    let wasTerminal ← bool
    let code ← code
    let message ← str
    pure
      { kind := .cancelAck, requestId, applied, cancelResult := { wasTerminal }
        error := { code, message } }
  | .queryState => pure { kind := .queryState }
  | .state => do
    let epoch ← u64
    let workers ← decCounted (2 ^ 20) "worker count unreasonable" decWorker
    pure { kind := .state, epoch, workers }
  | .queryExplain => do
    let requestId ← u64
    pure { kind := .queryExplain, requestId }
  | .explainResp => do
    let requestId ← u64
    let attemptId ← u64
    let lifecycle ← enum
    let generation ← u64
    let trace ← decCounted (2 ^ 22) "trace length unreasonable" str
    pure { kind := .explainResp, requestId, attemptId, lifecycle, generation, explain := { trace } }
  | .queryStats => pure { kind := .queryStats }
  | .statsResp => do
    let stats ← decStats
    pure { kind := .statsResp, stats }
  | .dispatch => do
    let group ← decGroup
    let memberTokens ← decCounted (2 ^ 28) "member_tokens too large" u32
    let memberTokenOffsets ← decCounted (2 ^ 20) "member offsets too large" u64
    let epoch ← u64
    let bootId ← u64
    pure
      { kind := .dispatch, group, memberTokens, memberTokenOffsets, epoch, worker := { bootId } }
  | .completion => do
    let memberResults ← decCounted (2 ^ 22) "completion count unreasonable" decMres
    pure { kind := .completion, memberResults }
  | .shutdown => pure { kind := .shutdown }
  | .shutdownAck => pure { kind := .shutdownAck }
  | .ping => pure { kind := .ping }
  | .pong => pure { kind := .pong }
  | .rollEpoch => pure { kind := .rollEpoch }
  | .error => do
    let code ← code
    let message ← str
    pure { kind := .error, error := { code, message } }

end

/-- The message of a body whose version and kind have been read off. What is left of the
payload once it has been read does not matter. -/
def decodeBody (version : UInt8) (kind : MsgKind) (payload : List UInt8) : Result Message :=
  if version ≠ kProtocolVersion then
    .error ⟨.protocolViolation, "unsupported protocol version"⟩
  else (decPayload kind payload).map (·.1)

/-- The message of a body. -/
def decodeFrame : List UInt8 → Result Message
  | version :: kindByte :: payload =>
    match MsgKind.ofByte? kindByte with
    | none => .error ⟨.malformedFrame, "unknown message kind byte"⟩
    | some kind => decodeBody version kind payload
  | _ => .error ⟨.malformedFrame, "frame body too small"⟩

end Wire

end PrefillFabric
