import PrefillFabric.Types

/-!
# Requests, chunks and plans

A prefill request, the checks it must pass before admission, and the chunks its
remaining work is cut into. What the scheduler governs is never the prompt but
`PrefillRequest.remainingPrefillTokens`, what is left of it once the reusable
prefix has been taken off.

The request's weight is a binary64 number. It is kept as its bits, on which the
comparisons of the source are computed (`Double.lt`, `Double.le`, `Double.eq`);
no operation of the model looks further into it.
-/

namespace PrefillFabric

/-! ### Doubles -/

/-- A binary64 number, by its bits. -/
structure Double where
  bits : UInt64
deriving DecidableEq, Repr

namespace Double

/-- The bits below the sign. -/
def magnitude (d : Double) : ℕ := d.bits.toNat % 2 ^ 63

/-- Neither a number nor an infinity. -/
def isNaN (d : Double) : Bool := decide (2047 * 2 ^ 52 < d.magnitude)

/-- A number whose order is the order of the doubles that are not NaN; both zeros
give `0`. -/
def signed (d : Double) : ℤ := if d.bits.toNat < 2 ^ 63 then d.magnitude else -d.magnitude

/-- `a < b`. -/
def lt (a b : Double) : Bool := !a.isNaN && !b.isNaN && decide (a.signed < b.signed)

/-- `a <= b`. -/
def le (a b : Double) : Bool := !a.isNaN && !b.isNaN && decide (a.signed ≤ b.signed)

/-- `a == b`. -/
def eq (a b : Double) : Bool := !a.isNaN && !b.isNaN && decide (a.signed = b.signed)

/-- The double `0.0`. -/
def zero : Double := ⟨0⟩

/-- The double `1.0`. -/
def one : Double := ⟨4607182418800017408⟩

end Double

/-- **The floating-point operations** the runtime rests on. Nothing is assumed of
them but their types: whatever they round to, every result below holds. -/
structure FloatUnit where
  /-- Addition of doubles. -/
  add : Double → Double → Double
  /-- Division of doubles. -/
  div : Double → Double → Double
  /-- The cast of an unsigned number to a double. -/
  ofUInt64 : UInt64 → Double
  /-- The product of a number and a double, cast back. -/
  fraction : UInt64 → Double → UInt64
  /-- `a / b * c` computed as long doubles and cast back. -/
  scale : UInt64 → UInt64 → UInt64 → UInt64

/-- A whole number as a double, rounded towards zero. -/
def Double.ofNat (n : ℕ) : Double :=
  if n = 0 then .zero
  else ⟨.ofNat ((1022 + n.log2) * 2 ^ 52 + n * 2 ^ 52 / 2 ^ n.log2)⟩

/-- The significand of a positive double, as a whole number. -/
def Double.significand (d : Double) : ℕ := 2 ^ 52 + d.magnitude % 2 ^ 52

/-- The whole part of the product of a number and a positive double below `2 ^ 53`. -/
def Double.times (n : ℕ) (d : Double) : ℕ :=
  n * d.significand * 2 ^ (d.magnitude / 2 ^ 52) / 2 ^ 1075

/-- **Arithmetic rounded towards zero**, to run the model on: the machine's wherever
the result is a whole number. -/
def FloatUnit.truncated : FloatUnit where
  add a b := .ofNat (Double.times 1 a + Double.times 1 b)
  div a b := .ofNat (Double.times 1 a / Double.times 1 b)
  ofUInt64 n := .ofNat n.toNat
  fraction n d := .ofNat (Double.times n.toNat d)
  scale a b c := .ofNat (a.toNat * c.toNat / b.toNat)

/-! ### Requests -/

/-- Metadata of a reusable prefix. -/
structure ReusablePrefixMetadata where
  /-- The number of leading tokens already represented. -/
  tokenCount : UInt64 := 0
  fingerprint : String := ""
  validated : Bool := false
deriving DecidableEq, Repr

/-- Shape the executor may require. -/
structure InputShape where
  seqLen : UInt64 := 0
  hiddenDim : UInt64 := 0
  numHeads : UInt64 := 0
  headDim : UInt64 := 0
deriving DecidableEq, Repr

/-- A prefill submission. -/
structure PrefillRequest where
  requestId : RequestId := .nil
  tenantId : TenantId := .nil
  model : ModelKey := {}
  adapterId : AdapterId := .nil
  adapterRelation : AdapterRelation := .none
  vocab : VocabSpec := {}
  promptTokenCount : UInt64 := 0
  reusablePrefix : ReusablePrefixMetadata := {}
  inputShape : InputShape := {}
  inputLayout : InputLayout := .seqMajor
  numericMode : NumericMode := .fp32
  backend : String := kBackendAny
  device : DeviceId := .nil
  deviceMatch : String := ""
  latencyClass : LatencyClass := .standard
  deadline : Option Nanoseconds := none
  priority : ℤ := 0
  tenantWeight : Double := .one
  arrivalTime : Nanoseconds := 0
  maxQueueDelay : Option Nanoseconds := none
  memoryEstimateBytes : UInt64 := 0
  computeEstimate : UInt64 := 0
  maxRetries : ℤ := 2
  requester : String := ""

namespace PrefillRequest

/-- The prefill work left after the reusable prefix. -/
def remainingPrefillTokens (req : PrefillRequest) : ℕ :=
  if req.promptTokenCount ≤ req.reusablePrefix.tokenCount then 0
  else req.promptTokenCount.toNat - req.reusablePrefix.tokenCount.toNat

/-- Whether the request claims a reusable prefix that is not empty. -/
def hasValidReusablePrefix (req : PrefillRequest) : Bool :=
  req.reusablePrefix.validated && decide (0 < req.reusablePrefix.tokenCount)

/-- The checks before admission: the first problem found, if any. -/
def validate (req : PrefillRequest) : ErrorInfo :=
  if req.requestId.isNil then ⟨.invalidArgument, "request_id is nil"⟩
  else if req.tenantId.isNil then ⟨.invalidArgument, "tenant_id is nil"⟩
  else if req.promptTokenCount == 0 then
    ⟨.invalidArgument, "prompt_token_count must be > 0"⟩
  else if req.promptTokenCount < req.reusablePrefix.tokenCount then
    ⟨.invalidReusablePrefix, "reusable prefix exceeds prompt length"⟩
  else if req.reusablePrefix.validated && req.reusablePrefix.tokenCount == 0 then
    ⟨.invalidReusablePrefix, "validated reusable prefix has zero tokens"⟩
  else if req.tenantWeight.le .zero then
    ⟨.invalidArgument, "tenant_weight must be > 0"⟩
  else if req.maxRetries < 0 then ⟨.invalidArgument, "max_retries must be >= 0"⟩
  else if req.deadline.any fun d => decide (d < req.arrivalTime) then
    ⟨.deadlineImpossible, "deadline before arrival"⟩
  else if req.maxQueueDelay.any fun d => decide (d < 0) then
    ⟨.invalidArgument, "max_queue_delay must be >= 0"⟩
  else ⟨.ok, ""⟩

theorem remainingPrefillTokens_eq (req : PrefillRequest) :
    req.remainingPrefillTokens =
      req.promptTokenCount.toNat - req.reusablePrefix.tokenCount.toNat := by
  rw [remainingPrefillTokens]
  split
  case isTrue h =>
    have := UInt64.le_iff_toNat_le.mp h
    omega
  case isFalse => rfl

theorem remainingPrefillTokens_lt (req : PrefillRequest) : req.remainingPrefillTokens < 2 ^ 64 := by
  rw [remainingPrefillTokens_eq]
  exact lt_of_le_of_lt (Nat.sub_le _ _) req.promptTokenCount.toNat_lt

/-- A request that passes the checks has a reusable prefix within its prompt. -/
theorem reusablePrefix_le_of_validate {req : PrefillRequest} (h : req.validate.code = .ok) :
    req.reusablePrefix.tokenCount.toNat ≤ req.promptTokenCount.toNat := by
  by_contra hc
  have hlt : req.promptTokenCount < req.reusablePrefix.tokenCount :=
    UInt64.lt_iff_toNat_lt.mpr (by omega)
  simp only [validate, hlt, if_true] at h
  split_ifs at h

/-- A request that passes the checks has a prompt. -/
theorem promptTokenCount_pos_of_validate {req : PrefillRequest} (h : req.validate.code = .ok) :
    0 < req.promptTokenCount.toNat := by
  by_contra hc
  have hzero : (req.promptTokenCount == 0) = true :=
    beq_iff_eq.mpr (UInt64.toNat_inj.mp (Nat.eq_zero_of_not_pos hc))
  simp only [validate, hzero, if_true] at h
  split_ifs at h

end PrefillRequest

/-! ### Chunks and plans -/

/-- One chunk of a request's remaining prefill. -/
structure PrefillChunk where
  requestId : RequestId := .nil
  attemptId : AttemptId := .nil
  groupId : GroupId := .nil
  tokenStart : ℕ := 0
  tokenCount : ℕ := 0
  chunkIndex : ℕ := 0
  generation : Generation := .nil
  parentGeneration : Generation := .nil
  workKind : WorkKind := .fullPrompt
  memoryEstimateBytes : UInt64 := 0
  computeEstimate : UInt64 := 0
  deadline : Option Nanoseconds := none

/-- The range of a chunk, as the pair of its start and its length. -/
def PrefillChunk.range (c : PrefillChunk) : ℕ × ℕ := (c.tokenStart, c.tokenCount)

/-- The checks on a chunk against its request: the first problem found, if any. The end of the
chunk is computed in 64 bits. -/
def PrefillChunk.validate (c : PrefillChunk) (req : PrefillRequest) : ErrorInfo :=
  if c.requestId ≠ req.requestId then ⟨.invalidArgument, "chunk request_id mismatch"⟩
  else if c.tokenCount = 0 then ⟨.invalidArgument, "chunk token_count must be > 0"⟩
  else if req.remainingPrefillTokens < (c.tokenStart + c.tokenCount) % 2 ^ 64 then
    ⟨.outOfRange, "chunk exceeds remaining prefill extent"⟩
  else ⟨.ok, ""⟩

/-- An ordered plan of chunks for a request's remaining prefill. -/
structure PrefillPlan where
  request : PrefillRequest := {}
  chunks : List PrefillChunk := []
  totalChunkTokens : ℕ := 0
  totalChunkCount : ℕ := 0

end PrefillFabric
