import PrefillFabric.Request

/-!
# Groups, results and executors

What the scheduler hands to an executor and what comes back: descriptors of
workers, the members of an execution group, the result of a member, and the
resolver through which an executor reaches the tokens of a prompt.

An executor sees a prompt only through `resolveTokens`, which points into the
buffer at an offset; it then reads as many tokens from there as the member has.
`readTokens` is that read, for a buffer of anything. Read from the buffer that
holds its own indices it gives the *positions* the executor touches
(`ExecutableMember.positions`), and the tokens read are the tokens at those
positions (`readTokens_eq_map`).
-/

namespace PrefillFabric

/-! ### Workers -/

/-- A worker as it registers. -/
structure WorkerDescriptor where
  workerId : WorkerId := .nil
  bootId : WorkerBootId := .nil
  host : String := ""
  port : UInt32 := 0
  backend : String := kBackendAny
  state : WorkerState := .unknown
  capacityUnits : UInt64 := 1
  info : String := ""

/-! ### Groups -/

/-- The typed attributes that decide whether two requests may be packed together. -/
structure CompatibilityKey where
  model : ModelKey := {}
  baseModel : String := ""
  relation : AdapterRelation := .none
  backend : String := kBackendAny
  device : DeviceId := .nil
  layout : InputLayout := .seqMajor
  numericMode : NumericMode := .fp32
  vocab : VocabSpec := {}
  executorFamily : String := ""
  policyFingerprint : String := ""
deriving DecidableEq, Repr

/-- One chunk of one request, as a member of an execution group. -/
structure ExecutableMember where
  requestId : RequestId := .nil
  attemptId : AttemptId := .nil
  generation : Generation := .nil
  parentGeneration : Generation := .nil
  tokenStart : ℕ := 0
  tokenCount : ℕ := 0
  workKind : WorkKind := .fullPrompt
  memoryEstimateBytes : UInt64 := 0
  computeEstimate : UInt64 := 0
  assignedWorker : WorkerId := .nil
  memberIndex : ℕ := 0
deriving DecidableEq, Repr

/-- The unit of execution. The two sums are 64-bit sums. -/
structure ExecutionGroup where
  groupId : GroupId := .nil
  key : CompatibilityKey := {}
  backend : String := kBackendAny
  device : DeviceId := .nil
  members : List ExecutableMember := []
  totalTokenCount : ℕ := 0
  maxMemoryEstimateBytes : UInt64 := 0
  sumComputeEstimate : UInt64 := 0

/-! ### Results -/

/-- The outcome of one member, with the authority it was produced under. -/
structure MemberResult where
  requestId : RequestId := .nil
  attemptId : AttemptId := .nil
  generation : Generation := .nil
  outcome : MemberOutcome := .success
  tokensCompleted : ℕ := 0
  digest : UInt64 := 0
  failureCode : ErrorCode := .ok
  message : String := ""
  nextTokenStart : ℕ := 0
  requiresNextChunk : Bool := false
  epoch : Epoch := .nil
  worker : WorkerId := .nil
  boot : WorkerBootId := .nil

/-- What an executor returns for a group. -/
structure ExecutorResult where
  groupSucceeded : Bool := false
  members : List MemberResult := []
  executorFamily : String := ""

/-! ### Token payloads -/

/-- The tokens of every registered prompt. -/
abbrev InMemoryTokenResolver := Table RequestId (List UInt32)

/-- Register a prompt's tokens, which must be as many as the request announces. -/
def InMemoryTokenResolver.registerRequest (t : InMemoryTokenResolver) (req : PrefillRequest)
    (tokens : List UInt32) : Result InMemoryTokenResolver :=
  if tokens.length ≠ req.promptTokenCount.toNat then
    .error ⟨.invalidArgument, "token buffer length != prompt_token_count"⟩
  else .ok (t.insert req.requestId tokens)

section Reading

variable {α : Type}

/-- The buffer from an offset on, if it is long enough; the bound is computed in 64
bits. -/
def pointInto (buf : List α) (offset count : ℕ) : Option (List α) :=
  if buf.length < (offset + count) % 2 ^ 64 then none else some (buf.drop offset)

/-- What an executor reads through the pointer it was given. -/
def readTokens (buf : List α) (offset count : ℕ) : Option (List α) :=
  (pointInto buf offset count).map (List.take count)

end Reading

/-- The pointer to a range of a request's tokens. -/
def InMemoryTokenResolver.resolveTokens (t : InMemoryTokenResolver) (r : RequestId)
    (offset count : ℕ) : Result (List UInt32) :=
  match (t.lookup r).bind fun tokens => pointInto tokens offset count with
  | some tokens => .ok tokens
  | none => .error ⟨.unknownRequest, "no token data for request"⟩

/-- The positions of a prompt of the given length that an executor reads for a
member. -/
def ExecutableMember.positions (m : ExecutableMember) (promptLength : ℕ) : List ℕ :=
  (readTokens (List.range promptLength) m.tokenStart m.tokenCount).getD []

/-- The tokens read are the tokens at the positions read. -/
theorem readTokens_eq_map (tokens : List UInt32) (offset count : ℕ) :
    readTokens tokens offset count =
      (readTokens (List.range tokens.length) offset count).map
        (List.map fun i => tokens.getD i 0) := by
  have hbuf : tokens = (List.range tokens.length).map fun i => tokens.getD i 0 := by
    refine List.ext_getElem (by simp) fun i h _ => ?_
    simp [List.getD_eq_getElem?_getD, h]
  simp only [readTokens, pointInto, List.length_range]
  split_ifs
  · rfl
  · rw [Option.map_some, Option.map_some, Option.map_some, List.map_take, List.map_drop, ← hbuf]

/-- A member within the prompt makes the executor read its own range. -/
theorem ExecutableMember.positions_eq (m : ExecutableMember) {promptLength : ℕ}
    (hle : m.tokenStart + m.tokenCount ≤ promptLength) (hlt : promptLength < 2 ^ 64) :
    m.positions promptLength = List.range' m.tokenStart m.tokenCount := by
  have hmod : (m.tokenStart + m.tokenCount) % 2 ^ 64 = m.tokenStart + m.tokenCount :=
    Nat.mod_eq_of_lt (by omega)
  rw [positions, readTokens, pointInto, hmod, List.length_range, if_neg (by omega)]
  obtain ⟨rest, rfl⟩ : ∃ rest, promptLength = m.tokenStart + (m.tokenCount + rest) :=
    ⟨promptLength - (m.tokenStart + m.tokenCount), by omega⟩
  rw [Option.map_some, Option.getD_some, List.range_eq_range', ← List.range'_append_1,
    List.drop_left' (List.length_range'), ← List.range'_append_1,
    List.take_left' (List.length_range'), Nat.zero_add]

/-! ### Executors -/

/-- The executor contract: a backend and what it does with a group. -/
structure Executor where
  backend : String
  execute : ExecutionGroup → InMemoryTokenResolver → Result ExecutorResult

def kFfM1 : UInt64 := 0x5851F42D4C957F2D
def kFfM2 : UInt64 := 0x94D049BB133111EB
def kFfM3 : UInt64 := 0x9E3779B97F4A7C15
def kFfM4 : UInt64 := 0xBF58476D1CE4E5B9

/-- The mixing of a token with its absolute position. -/
def ffTokenPositionValue (token position : UInt64) : UInt64 :=
  (token * kFfM1) ^^^ (position * kFfM2) ^^^ (position <<< (7 : UInt64))

/-- One round of the identity hash. -/
def ffMix (h v : UInt64) : UInt64 :=
  h ^^^ (v + kFfM3 + (h <<< (6 : UInt64)) + (h >>> (2 : UInt64)))

/-- The digest of a member over the tokens it was given. -/
def ffMemberDigest (r : RequestId) (a : AttemptId) (g : Generation) (tokens : List UInt32)
    (tokenStart : ℕ) : UInt64 :=
  let acc := tokens.zipIdx.foldl (fun acc p =>
    acc + ffTokenPositionValue p.1.toUInt64 (.ofNat (tokenStart + p.2))) 0
  let h := kFfM3 ^^^ .ofNat r.value
  let h := ffMix (ffMix (ffMix h (.ofNat a.value)) (.ofNat g.value)) (.ofNat tokens.length)
  h ^^^ (acc * kFfM4)

/-- The result of one member on the CPU. -/
def CpuExecutor.executeMember (tokens : InMemoryTokenResolver) (m : ExecutableMember) :
    MemberResult :=
  let mr : MemberResult :=
    { requestId := m.requestId
      attemptId := m.attemptId
      generation := m.generation
      tokensCompleted := m.tokenCount
      nextTokenStart := (m.tokenStart + m.tokenCount) % 2 ^ 64 }
  if m.tokenCount = 0 then
    { mr with
      outcome := .nonRetryableFailure
      failureCode := .invalidArgument
      message := "zero-token member" }
  else
    match tokens.resolveTokens m.requestId m.tokenStart m.tokenCount with
    | .error e =>
      { mr with outcome := .nonRetryableFailure, failureCode := e.code, message := e.message }
    | .ok tok =>
      { mr with
        digest := ffMemberDigest m.requestId m.attemptId m.generation (tok.take m.tokenCount)
          m.tokenStart }

/-- The CPU executor. -/
def cpuExecutor : Executor where
  backend := kBackendCpu
  execute group tokens :=
    let members := group.members.map (CpuExecutor.executeMember tokens)
    .ok
      { groupSucceeded := members.all fun mr => mr.outcome == .success
        members := members
        executorFamily := kBackendCpu }

end PrefillFabric
