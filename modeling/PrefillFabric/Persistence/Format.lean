import PrefillFabric.Persistence.Bytes

/-!
# The persistence format

A blob is a header, with a magic number, a version, flags, the length of the payload and
its checksum, and the payload: the epoch and the counters, whether the shutdown was clean,
and the records of requests, workers and tenants, each list preceded by its length.

The records here are those the bytes are made from. They are what a scheduler exports down
to the width of every number, and they have what a scheduler does not set: the magic
number, the version and the size of the last chunk.

Each record has a layout (`writeReq`, `writeWorker`, `writeTenant`, `writePayload`) and a
reader. The reader reads back what is laid out, if it fits, and accepts nothing that is not
laid out in the same way.
-/

namespace PrefillFabric

open Codec

namespace Wire

/-! ### Records -/

/-- The bytes of a string. -/
abbrev Str := List UInt8

/-- A model and its revision. -/
structure ModelKey where
  name : Str := []
  revision : Str := []
deriving DecidableEq

/-- A vocabulary. -/
structure VocabSpec where
  tokenizer : Str := []
  vocabSize : UInt64 := 0
deriving DecidableEq

/-- What is kept of a request. -/
structure PersistedRequestRecord where
  requestId : UInt64 := 0
  attemptId : UInt64 := 0
  tenantId : UInt64 := 0
  model : ModelKey := {}
  adapterId : UInt64 := 0
  relation : Coded AdapterRelation := {}
  promptTokenCount : UInt64 := 0
  cachedTokens : UInt64 := 0
  completedUncachedTokens : UInt64 := 0
  currentGeneration : UInt64 := 0
  parentGeneration : UInt64 := 0
  nextChunkTokenStart : UInt64 := 0
  workKind : Coded WorkKind := {}
  lifecycle : Coded Lifecycle := {}
  priority : Int32 := 0
  tenantWeight : Double := .one
  normalizedService : Double := .zero
  lastChunkTokenCount : UInt64 := 0
  completedTokenTotal : UInt64 := 0
  needsRecoveryFullPrefill : Bool := false
  vocab : VocabSpec := {}
  numericMode : Coded NumericMode := {}
  latencyClass : Coded LatencyClass := ⟨1⟩
  deadlineNs : Int64 := 0
  arrivalNs : Int64 := 0
  hasDeadline : Bool := false
  hasQueueDelay : Bool := false
  maxQueueDelayNs : Int64 := 0
deriving DecidableEq

/-- What is kept of a worker. -/
structure PersistedWorkerRecord where
  workerId : UInt64 := 0
  bootId : UInt64 := 0
  host : Str := []
  port : UInt32 := 0
  backend : Str := kBackendAny.toUTF8.data.toList
  state : Coded WorkerState := {}
  capacityUnits : UInt64 := 1
deriving DecidableEq

/-- What is kept of a tenant. -/
structure PersistedTenantRecord where
  tenantId : UInt64 := 0
  weight : Double := .one
  scheduledTokens : UInt64 := 0
  completedRequests : UInt64 := 0
  waitTotalNs : Int64 := 0
  outstanding : UInt64 := 0
  normalizedService : Double := .zero
deriving DecidableEq

/-- `PRF1`. -/
def kPersistenceMagic : UInt32 := 0x50524631

/-- The version of the format. -/
def kPersistenceVersion : UInt32 := 1

/-- A snapshot. -/
structure PersistedState where
  magic : UInt32 := kPersistenceMagic
  version : UInt32 := kPersistenceVersion
  epoch : UInt64 := 0
  nextGenerationValue : UInt64 := 1
  nextAttemptValue : UInt64 := 1
  requests : List PersistedRequestRecord := []
  workers : List PersistedWorkerRecord := []
  tenants : List PersistedTenantRecord := []
  wasCleanShutdown : Bool := false
deriving DecidableEq

/-- The header of a blob. -/
structure Header where
  magic : UInt32
  version : UInt32
  flags : UInt32
  payloadLen : UInt64
  checksum : UInt64

/-! ### Layouts -/

section

open ByteWriter

/-- The layout of a request. -/
def writeReq (r : PersistedRequestRecord) : List Item :=
  [u64 r.requestId, u64 r.attemptId, u64 r.tenantId, str r.model.name, str r.model.revision,
    u64 r.adapterId, enum r.relation, u64 r.promptTokenCount, u64 r.cachedTokens,
    u64 r.completedUncachedTokens, u64 r.currentGeneration, u64 r.parentGeneration,
    u64 r.nextChunkTokenStart, enum r.workKind, enum r.lifecycle, u32 r.priority.toUInt32,
    f64 r.tenantWeight, f64 r.normalizedService, u64 r.lastChunkTokenCount,
    u64 r.completedTokenTotal, bool r.needsRecoveryFullPrefill, str r.vocab.tokenizer,
    u64 r.vocab.vocabSize, enum r.numericMode, enum r.latencyClass, i64 r.deadlineNs,
    i64 r.arrivalNs, bool r.hasDeadline, bool r.hasQueueDelay, i64 r.maxQueueDelayNs]

/-- The layout of a worker. -/
def writeWorker (a : PersistedWorkerRecord) : List Item :=
  [u64 a.workerId, u64 a.bootId, str a.host, u32 a.port, str a.backend, enum a.state,
    u64 a.capacityUnits]

/-- The layout of a tenant. -/
def writeTenant (t : PersistedTenantRecord) : List Item :=
  [u64 t.tenantId, f64 t.weight, u64 t.scheduledTokens, u64 t.completedRequests,
    i64 t.waitTotalNs, u64 t.outstanding, f64 t.normalizedService]

/-- The layout of the payload. -/
def writePayload (st : PersistedState) : List Item :=
  [u64 st.epoch, u64 st.nextGenerationValue, u64 st.nextAttemptValue, bool st.wasCleanShutdown] ++
    (count st.requests.length :: st.requests.flatMap writeReq) ++
    (count st.workers.length :: st.workers.flatMap writeWorker) ++
    (count st.tenants.length :: st.tenants.flatMap writeTenant)

/-- What the checksum starts from. -/
def checksumSeed : UInt64 := 1469598103934665603

/-- The layout of the header. -/
def writeHeader (h : Header) : List Item :=
  [u32 h.magic, u32 h.version, u32 h.flags, u64 h.payloadLen, u64 h.checksum]

/-- A payload with a header in front of it. -/
def frame (magic version flags : UInt32) (payload : List UInt8) : List UInt8 :=
  bytesOf (writeHeader
    { magic, version, flags
      payloadLen := .ofNat payload.length
      checksum := fnv1a64 checksumSeed payload }) ++ payload

end

/-- The blob of a snapshot. -/
def serializeState (st : PersistedState) : Result (List UInt8) :=
  .ok (frame st.magic st.version 0 (bytesOf (writePayload st)))

/-! ### Readers -/

section

open ByteReader

/-- A request. -/
def readReq : ByteReader PersistedRequestRecord := do
  let requestId ← u64
  let attemptId ← u64
  let tenantId ← u64
  let name ← str
  let revision ← str
  let adapterId ← u64
  let relation ← enum
  let promptTokenCount ← u64
  let cachedTokens ← u64
  let completedUncachedTokens ← u64
  let currentGeneration ← u64
  let parentGeneration ← u64
  let nextChunkTokenStart ← u64
  let workKind ← enum
  let lifecycle ← enum
  let priority ← u32
  let tenantWeight ← f64
  let normalizedService ← f64
  let lastChunkTokenCount ← u64
  let completedTokenTotal ← u64
  let needsRecoveryFullPrefill ← bool
  let tokenizer ← str
  let vocabSize ← u64
  let numericMode ← enum
  let latencyClass ← enum
  let deadlineNs ← i64
  let arrivalNs ← i64
  let hasDeadline ← bool
  let hasQueueDelay ← bool
  let maxQueueDelayNs ← i64
  pure
    { requestId, attemptId, tenantId, model := { name, revision }, adapterId, relation,
      promptTokenCount, cachedTokens, completedUncachedTokens, currentGeneration,
      parentGeneration, nextChunkTokenStart, workKind, lifecycle, priority := priority.toInt32,
      tenantWeight, normalizedService, lastChunkTokenCount, completedTokenTotal,
      needsRecoveryFullPrefill, vocab := { tokenizer, vocabSize }, numericMode, latencyClass,
      deadlineNs, arrivalNs, hasDeadline, hasQueueDelay, maxQueueDelayNs }

/-- A worker. -/
def readWorker : ByteReader PersistedWorkerRecord := do
  let workerId ← u64
  let bootId ← u64
  let host ← str
  let port ← u32
  let backend ← str
  let state ← enum
  let capacityUnits ← u64
  pure { workerId, bootId, host, port, backend, state, capacityUnits }

/-- A tenant. -/
def readTenant : ByteReader PersistedTenantRecord := do
  let tenantId ← u64
  let weight ← f64
  let scheduledTokens ← u64
  let completedRequests ← u64
  let waitTotalNs ← i64
  let outstanding ← u64
  let normalizedService ← f64
  pure
    { tenantId, weight, scheduledTokens, completedRequests, waitTotalNs, outstanding,
      normalizedService }

/-- The payload, for a blob with the given magic number and version. -/
def readPayload (magic version : UInt32) : ByteReader PersistedState := do
  let epoch ← u64
  let nextGenerationValue ← u64
  let nextAttemptValue ← u64
  let wasCleanShutdown ← bool
  let requests ← counted (2 ^ 24) ⟨.corruptState, "unreasonable request count"⟩ readReq
  let workers ← counted (2 ^ 20) ⟨.corruptState, "unreasonable worker count"⟩ readWorker
  let tenants ← counted (2 ^ 20) ⟨.corruptState, "unreasonable tenant count"⟩ readTenant
  pure
    { magic, version, epoch, nextGenerationValue, nextAttemptValue, requests, workers, tenants,
      wasCleanShutdown }

/-- The header. -/
def readHeader : ByteReader Header := do
  let magic ← u32
  let version ← u32
  let flags ← u32
  let payloadLen ← u64
  let checksum ← u64
  pure { magic, version, flags, payloadLen, checksum }

end

/-- The checks on a request that has been read: the first problem found, if any. -/
def validateRecord (rec : PersistedRequestRecord) : Result Unit :=
  if rec.lifecycle.code < 0 ∨ 12 < rec.lifecycle.code then
    .error ⟨.corruptState, "bad lifecycle in record"⟩
  else if rec.promptTokenCount < rec.cachedTokens then
    .error ⟨.corruptState, "cached_tokens exceeds prompt length"⟩
  else .ok ()

/-- The checks on all requests, one after the other. -/
def validateRecords : List PersistedRequestRecord → Result Unit
  | [] => .ok ()
  | rec :: recs =>
    match validateRecord rec with
    | .error e => .error e
    | .ok () => validateRecords recs

/-- The snapshot in a blob whose header has been read, from the bytes after it. -/
def deserializeRest (header : Header) (rest : List UInt8) : Result PersistedState :=
  if header.magic ≠ kPersistenceMagic then .error ⟨.corruptState, "bad magic"⟩
  else if header.version ≠ kPersistenceVersion then
    .error ⟨.unknownVersion, "unsupported persistence version"⟩
  else if rest.length < header.payloadLen.toNat then
    .error ⟨.truncation, "payload length exceeds blob"⟩
  else if fnv1a64 checksumSeed (rest.take header.payloadLen.toNat) ≠ header.checksum then
    .error ⟨.checksumMismatch, "checksum mismatch"⟩
  else
    match readPayload header.magic header.version (rest.take header.payloadLen.toNat) with
    | .error e => .error e
    | .ok (st, left) =>
      if left ≠ [] then .error ⟨.corruptState, "trailing bytes in payload"⟩
      else (validateRecords st.requests).map fun _ => st

/-- The snapshot in a blob. -/
def deserializeState (blob : List UInt8) : Result PersistedState :=
  match readHeader blob with
  | .error e => .error e
  | .ok (header, rest) => deserializeRest header rest

/-! ### What is laid out is read back -/

section

open ByteReader

/-- **A request that fits**: each enumeration fits in a byte, the lifecycle is a declared
one, strings are of a reasonable length, and no more tokens are cached than there are. -/
structure PersistedRequestRecord.Fits (r : PersistedRequestRecord) : Prop where
  name : r.model.name.length ≤ 2 ^ 32
  revision : r.model.revision.length ≤ 2 ^ 32
  tokenizer : r.vocab.tokenizer.length ≤ 2 ^ 32
  relation : r.relation.Fits
  workKind : r.workKind.Fits
  numericMode : r.numericMode.Fits
  latencyClass : r.latencyClass.Fits
  lifecycle : 0 ≤ r.lifecycle.code ∧ r.lifecycle.code ≤ 12
  cachedTokens : r.cachedTokens ≤ r.promptTokenCount

/-- **A worker that fits.** -/
structure PersistedWorkerRecord.Fits (a : PersistedWorkerRecord) : Prop where
  host : a.host.length ≤ 2 ^ 32
  backend : a.backend.length ≤ 2 ^ 32
  state : a.state.Fits

/-- **A snapshot that fits**: of this format, with records that fit, and not too many. -/
structure PersistedState.Fits (st : PersistedState) : Prop where
  magic : st.magic = kPersistenceMagic
  version : st.version = kPersistenceVersion
  requests : ∀ r ∈ st.requests, r.Fits
  workers : ∀ a ∈ st.workers, a.Fits
  requestCount : st.requests.length ≤ 2 ^ 24
  workerCount : st.workers.length ≤ 2 ^ 20
  tenantCount : st.tenants.length ≤ 2 ^ 20

theorem PersistedRequestRecord.Fits.lifecycle_fits {r : PersistedRequestRecord} (h : r.Fits) :
    r.lifecycle.Fits :=
  ⟨h.lifecycle.1, Int32.lt_of_le_of_lt h.lifecycle.2 (by decide)⟩

theorem reads_readReq {r : PersistedRequestRecord} (h : r.Fits) :
    Reads readReq (bytesOf (writeReq r)) r := by
  have hpriority : r.priority.toUInt32.toInt32 = r.priority := Int32.toInt32_toUInt32 _
  have hreads : Reads readReq (bytesOf (writeReq r))
      { r with priority := r.priority.toUInt32.toInt32 } :=
    (reads_u64 _).bind <| (reads_u64 _).bind <| (reads_u64 _).bind <| (reads_str h.name).bind <|
    (reads_str h.revision).bind <| (reads_u64 _).bind <| (reads_enum h.relation).bind <|
    (reads_u64 _).bind <| (reads_u64 _).bind <| (reads_u64 _).bind <| (reads_u64 _).bind <|
    (reads_u64 _).bind <| (reads_u64 _).bind <| (reads_enum h.workKind).bind <|
    (reads_enum h.lifecycle_fits).bind <| (reads_u32 _).bind <| (reads_f64 _).bind <|
    (reads_f64 _).bind <| (reads_u64 _).bind <| (reads_u64 _).bind <| (reads_bool _).bind <|
    (reads_str h.tokenizer).bind <| (reads_u64 _).bind <| (reads_enum h.numericMode).bind <|
    (reads_enum h.latencyClass).bind <| (reads_i64 _).bind <| (reads_i64 _).bind <|
    (reads_bool _).bind <| (reads_bool _).bind <| (reads_i64 _).bind <| .pure _
  rwa [hpriority] at hreads

theorem reads_readWorker {a : PersistedWorkerRecord} (h : a.Fits) :
    Reads readWorker (bytesOf (writeWorker a)) a :=
  (reads_u64 _).bind <| (reads_u64 _).bind <| (reads_str h.host).bind <| (reads_u32 _).bind <|
    (reads_str h.backend).bind <| (reads_enum h.state).bind <| (reads_u64 _).bind <| .pure _

theorem reads_readTenant (t : PersistedTenantRecord) :
    Reads readTenant (bytesOf (writeTenant t)) t :=
  (reads_u64 _).bind <| (reads_f64 _).bind <| (reads_u64 _).bind <| (reads_u64 _).bind <|
    (reads_i64 _).bind <| (reads_u64 _).bind <| (reads_f64 _).bind <| .pure _

theorem reads_readPayload {st : PersistedState} (h : st.Fits) :
    Reads (readPayload st.magic st.version) (bytesOf (writePayload st)) st := by
  have hrequests := reads_counted (by decide) ⟨.corruptState, "unreasonable request count"⟩
    (fun r hr => reads_readReq (h.requests r hr)) h.requestCount
  have hworkers := reads_counted (by decide) ⟨.corruptState, "unreasonable worker count"⟩
    (fun a ha => reads_readWorker (h.workers a ha)) h.workerCount
  have htenants := reads_counted (by decide) ⟨.corruptState, "unreasonable tenant count"⟩
    (fun t _ => reads_readTenant t) h.tenantCount
  have hreads : Reads (readPayload st.magic st.version) _ st :=
    (reads_u64 _).bind <| (reads_u64 _).bind <| (reads_u64 _).bind <| (reads_bool _).bind <|
    hrequests.bind <| hworkers.bind <| htenants.bind <| .pure _
  simpa only [writePayload, bytesOf_append, bytesOf_cons, bytesOf_nil, List.append_nil,
    List.append_assoc] using hreads

theorem reads_readHeader (h : Header) : Reads readHeader (bytesOf (writeHeader h)) h :=
  (reads_u32 _).bind <| (reads_u32 _).bind <| (reads_u32 _).bind <| (reads_u64 _).bind <|
    (reads_u64 _).bind <| .pure _

theorem validateRecord_eq_ok {r : PersistedRequestRecord} (h : r.Fits) :
    validateRecord r = .ok () := by
  have hlifecycle : ¬(r.lifecycle.code < 0 ∨ 12 < r.lifecycle.code) := by
    rintro (hlt | hgt)
    · exact absurd hlt (Int32.not_lt.mpr h.lifecycle.1)
    · exact absurd hgt (Int32.not_lt.mpr h.lifecycle.2)
  rw [validateRecord, if_neg hlifecycle, if_neg (UInt64.not_lt.mpr h.cachedTokens)]

theorem validateRecords_eq_ok {rs : List PersistedRequestRecord} (h : ∀ r ∈ rs, r.Fits) :
    validateRecords rs = .ok () := by
  induction rs with
  | nil => rfl
  | cons r rs ih =>
    simp only [validateRecords, validateRecord_eq_ok (h r List.mem_cons_self)]
    exact ih fun x hx => h x (List.mem_cons_of_mem r hx)

/-! ### What is accepted is laid out in the same way -/

theorem parses_readReq : Parses readReq [] writeReq :=
  .bind parses_u64 fun _ => .bind parses_u64 fun _ => .bind parses_u64 fun _ =>
  .bind parses_str fun _ => .bind parses_str fun _ => .bind parses_u64 fun _ =>
  .bind parses_enum fun _ => .bind parses_u64 fun _ => .bind parses_u64 fun _ =>
  .bind parses_u64 fun _ => .bind parses_u64 fun _ => .bind parses_u64 fun _ =>
  .bind parses_u64 fun _ => .bind parses_enum fun _ => .bind parses_enum fun _ =>
  .bind parses_u32 fun _ => .bind parses_f64 fun _ => .bind parses_f64 fun _ =>
  .bind parses_u64 fun _ => .bind parses_u64 fun _ => .bind parses_bool fun _ =>
  .bind parses_str fun _ => .bind parses_u64 fun _ => .bind parses_enum fun _ =>
  .bind parses_enum fun _ => .bind parses_i64 fun _ => .bind parses_i64 fun _ =>
  .bind parses_bool fun _ => .bind parses_bool fun _ => .bind parses_i64 fun _ =>
  .pure (by simp [writeReq])

theorem parses_readWorker : Parses readWorker [] writeWorker :=
  .bind parses_u64 fun _ => .bind parses_u64 fun _ => .bind parses_str fun _ =>
  .bind parses_u32 fun _ => .bind parses_str fun _ => .bind parses_enum fun _ =>
  .bind parses_u64 fun _ => .pure rfl

theorem parses_readTenant : Parses readTenant [] writeTenant :=
  .bind parses_u64 fun _ => .bind parses_f64 fun _ => .bind parses_u64 fun _ =>
  .bind parses_u64 fun _ => .bind parses_i64 fun _ => .bind parses_u64 fun _ =>
  .bind parses_f64 fun _ => .pure rfl

theorem parses_readPayload (magic version : UInt32) :
    Parses (readPayload magic version) [] writePayload :=
  .bind parses_u64 fun _ => .bind parses_u64 fun _ => .bind parses_u64 fun _ =>
  .bind parses_bool fun _ => .bind (parses_counted _ _ parses_readReq) fun _ =>
  .bind (parses_counted _ _ parses_readWorker) fun _ =>
  .bind (parses_counted _ _ parses_readTenant) fun _ => .pure rfl

theorem parses_readHeader : Parses readHeader [] writeHeader :=
  .bind parses_u32 fun _ => .bind parses_u32 fun _ => .bind parses_u32 fun _ =>
  .bind parses_u64 fun _ => .bind parses_u64 fun _ => .pure rfl

/-- The header is read off the first 28 bytes, and off any. -/
theorem fixed_readHeader : Fixed readHeader 28 errTrunc :=
  .bind fixed_u32 fun _ => .bind fixed_u32 fun _ => .bind fixed_u32 fun _ =>
  .bind fixed_u64 fun _ => .bind fixed_u64 fun _ => .pure _ _

end

end Wire

end PrefillFabric
