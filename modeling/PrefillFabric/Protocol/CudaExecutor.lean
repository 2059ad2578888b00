import PrefillFabric.Protocol.Worker

/-!
# The executor on the device

The second executor sums the values of a member's tokens on a device: one thread for each token,
in blocks of 256, and each thread adds its value to one accumulator. The mixing of the values and
the chain over the identities are written a second time there, and the two executors are meant to
give the same digest.

What the device does is data of the model. `DeviceCalls` has the status of every call that the
executor looks at, and the order in which the threads of a launch take effect. That a launch runs
each of its threads once is the hypothesis that this order is a permutation of `launch`; that
additions are atomic is that each thread is one step of a fold. The calls whose status the executor
ignores (clearing the accumulator, waiting, copying it back) are taken to succeed.

The index of a thread is a product and a sum of 32 bits. Up to `2 ^ 31 - 256` tokens it does not
wrap, so the threads have the indices `0, 1, …` in the order they are listed
(`map_index_grid`), the guard leaves those below the number of tokens, and the sum does not depend
on the order (`reduce_eq_of_perm`). So the digest is the one of the CPU (`digest_executeMember`),
and so is the result of the member (`executeMember_eq_executeWith`).
-/

namespace PrefillFabric

namespace CudaExecutor

/-! ### The kernel -/

def kDevM1 : UInt64 := 0x5851F42D4C957F2D
def kDevM2 : UInt64 := 0x94D049BB133111EB

/-- A thread of a launch. -/
structure Thread where
  blockIdx : UInt32
  threadIdx : UInt32
deriving DecidableEq, Repr

/-- The threads of a block. -/
def blockDim : UInt32 := 256

/-- The index a thread works on; it is computed in 32 bits and then widened. -/
def Thread.index (t : Thread) : ℤ := ((t.blockIdx * blockDim + t.threadIdx).toNat : ℤ)

/-- What one thread does with the accumulator. -/
def ffReduceKernel (tokens : List UInt32) (tokenStart : UInt64) (n : ℤ) (acc : UInt64)
    (thread : Thread) : UInt64 :=
  let idx := thread.index
  if n ≤ idx then acc
  else
    let pos := tokenStart + .ofNat idx.toNat
    let t := (tokens.getD idx.toNat 0).toUInt64
    let v := (t * kDevM1) ^^^ (pos * kDevM2) ^^^ ((pos <<< (7 : UInt64)) &&& ~~~(0 : UInt64))
    acc + v

/-- One round of the identity hash. -/
def mixId (h v : UInt64) : UInt64 :=
  h ^^^ (v + 0x9e3779b97f4a7c15 + (h <<< (6 : UInt64)) + (h >>> (2 : UInt64)))

/-! ### The executor -/

/-- The number of tokens as the executor handles it, a signed number of 64 bits. -/
def tokenLong (count : ℕ) : ℤ := (Int64.ofInt count).toInt

/-- The number of blocks launched for so many tokens, a signed number of 32 bits. -/
def blocks (n : ℤ) : ℤ := (Int32.ofInt ((n + 255).tdiv 256)).toInt

/-- The threads of so many blocks. -/
def grid (blocks : ℕ) : List Thread :=
  (List.range blocks).flatMap fun b => (List.range 256).map fun t => ⟨.ofNat b, .ofNat t⟩

/-- The threads launched for a member of so many tokens. -/
def launch (count : ℕ) : List Thread := grid (blocks (tokenLong count)).toNat

/-- What the device does for one member: the error of each call that the executor checks, and the
order in which the threads of the launch take effect. -/
structure DeviceCalls where
  mallocTokens : Option String := none
  mallocAcc : Option String := none
  copyTokens : Option String := none
  launched : Option String := none
  order : List Thread

/-- The first error among the calls that are checked. -/
def DeviceCalls.error (calls : DeviceCalls) : Option String :=
  calls.mallocTokens <|> calls.mallocAcc <|> calls.copyTokens <|> calls.launched

/-- The result of one member on the device. -/
def executeMember (calls : DeviceCalls) (resolve : RequestId → ℕ → ℕ → Result (List UInt32))
    (m : ExecutableMember) : MemberResult :=
  let mr : MemberResult :=
    { requestId := m.requestId
      attemptId := m.attemptId
      generation := m.generation
      tokensCompleted := m.tokenCount
      nextTokenStart := (m.tokenStart + m.tokenCount) % 2 ^ 64 }
  if m.tokenCount = 0 then
    { mr with
      outcome := .nonRetryableFailure
      failureCode := .invalidArgument
      message := "zero-token cuda member" }
  else
    match resolve m.requestId m.tokenStart m.tokenCount with
    | .error e =>
      { mr with outcome := .nonRetryableFailure, failureCode := e.code, message := e.message }
    | .ok tok =>
      match calls.error with
      | some why =>
        { mr with outcome := .nonRetryableFailure, failureCode := .cudaError, message := why }
      | none =>
        let n := tokenLong m.tokenCount
        let acc := calls.order.foldl
          (ffReduceKernel (tok.take n.toNat) (.ofNat m.tokenStart) n) 0
        let h := kFfM3 ^^^ .ofNat m.requestId.value
        let h := mixId h (.ofNat m.attemptId.value)
        let h := mixId h (.ofNat m.generation.value)
        let h := mixId h (.ofInt n)
        { mr with digest := h ^^^ (acc * kFfM4) }

/-! ### The two mixings -/

theorem ofInt_natCast (k : ℕ) : UInt64.ofInt k = .ofNat k := by
  have hmod : ((k : ℤ) % 2 ^ 64).toNat = k % 2 ^ 64 := by omega
  rw [UInt64.ofInt, hmod, UInt64.ofNat_mod_size]

theorem mixId_eq_ffMix : mixId = ffMix := rfl

/-- A thread adds the value of the token at its index, or nothing. -/
theorem ffReduceKernel_eq (tokens : List UInt32) (tokenStart : UInt64) (n : ℤ) (acc : UInt64)
    (t : Thread) : ffReduceKernel tokens tokenStart n acc t =
      if n ≤ t.index then acc
      else acc + ffTokenPositionValue (tokens.getD t.index.toNat 0).toUInt64
        (tokenStart + .ofNat t.index.toNat) := by
  simp [ffReduceKernel, ffTokenPositionValue, kDevM1, kDevM2, kFfM1, kFfM2]

/-! ### The indices of a launch -/

theorem tokenLong_eq {count : ℕ} (h : count ≤ 2 ^ 31 - 256) : tokenLong count = count :=
  Int64.toInt_ofInt_of_le (by omega) (by omega)

theorem blocks_eq {count : ℕ} (h : count ≤ 2 ^ 31 - 256) :
    blocks count = ((count + 255) / 256 : ℕ) := by
  have hdiv : ((count : ℤ) + 255).tdiv 256 = ((count + 255) / 256 : ℕ) := by
    rw [Int.tdiv_eq_ediv_of_nonneg (by omega)]
    omega
  rw [blocks, hdiv]
  exact Int32.toInt_ofInt_of_le (by omega) (by omega)

theorem launch_eq {count : ℕ} (h : count ≤ 2 ^ 31 - 256) :
    launch count = grid ((count + 255) / 256) := by
  rw [launch, tokenLong_eq h, blocks_eq h, Int.toNat_natCast]

theorem index_mk {b t : ℕ} (ht : t < 256) (h : b * 256 + 256 ≤ 2 ^ 32) :
    (⟨.ofNat b, .ofNat t⟩ : Thread).index = ((b * 256 + t : ℕ) : ℤ) := by
  have hdim : blockDim.toNat = 256 := rfl
  rw [Thread.index, UInt32.toNat_add, UInt32.toNat_mul, hdim, UInt32.toNat_ofNat',
    UInt32.toNat_ofNat', Nat.mod_eq_of_lt (by omega : b < 2 ^ 32),
    Nat.mod_eq_of_lt (by omega : t < 2 ^ 32), Nat.mod_eq_of_lt (by omega : b * 256 < 2 ^ 32),
    Nat.mod_eq_of_lt (by omega)]

theorem grid_succ (b : ℕ) :
    grid (b + 1) = grid b ++ (List.range 256).map fun t => ⟨.ofNat b, .ofNat t⟩ := by
  have hrange : List.range (b + 1) = List.range b ++ [b] := List.range_succ
  rw [grid, hrange, List.flatMap_append, List.flatMap_singleton]
  rfl

/-- **The threads have the indices `0, 1, …`**, as long as these fit in 32 bits. -/
theorem map_index_grid {blocks : ℕ} (h : blocks * 256 ≤ 2 ^ 32) :
    (grid blocks).map Thread.index = (List.range (blocks * 256)).map fun i : ℕ => (i : ℤ) := by
  induction blocks with
  | zero => rfl
  | succ b ih =>
    have hmul : (b + 1) * 256 = b * 256 + 256 := Nat.succ_mul b 256
    rw [hmul] at h
    have hfit : b * 256 ≤ 2 ^ 32 := (Nat.le_add_right _ 256).trans h
    have hlast : ((List.range 256).map fun t => (⟨.ofNat b, .ofNat t⟩ : Thread)).map
        Thread.index = ((List.range 256).map (b * 256 + ·)).map fun i : ℕ => (i : ℤ) := by
      rw [List.map_map, List.map_map]
      exact List.map_congr_left fun t ht => index_mk (List.mem_range.mp ht) h
    rw [grid_succ, List.map_append, ih hfit, hlast, hmul, List.range_add, List.map_append]

/-- Of the indices of a launch, those below the number of tokens are all of these, once each. -/
theorem filter_index_launch {count : ℕ} (h : count ≤ 2 ^ 31 - 256) :
    ((launch count).map Thread.index).filter (fun i => decide (i < (count : ℤ))) =
      (List.range count).map fun i : ℕ => (i : ℤ) := by
  obtain ⟨rest, hrest⟩ : ∃ rest, (count + 255) / 256 * 256 = count + rest :=
    ⟨(count + 255) / 256 * 256 - count, by omega⟩
  rw [launch_eq h, map_index_grid (by omega), hrest, List.range_add, List.map_append,
    List.filter_append, List.filter_eq_self.mpr, List.filter_eq_nil_iff.mpr, List.append_nil]
  · intro i hi
    simp only [List.mem_map, List.mem_range] at hi
    obtain ⟨-, ⟨k, -, rfl⟩, rfl⟩ := hi
    simp
  · intro i hi
    simp only [List.mem_map, List.mem_range] at hi
    obtain ⟨k, hk, rfl⟩ := hi
    simpa using hk

/-! ### The sum -/

section Reduce

variable (tokens : List UInt32) (tokenStart : UInt64) (n : ℤ)

/-- **The order of the additions does not matter.** -/
theorem reduce_eq_of_perm {order order' : List Thread} (h : order.Perm order') (acc : UInt64) :
    order.foldl (ffReduceKernel tokens tokenStart n) acc =
      order'.foldl (ffReduceKernel tokens tokenStart n) acc := by
  refine h.foldl_eq' (fun s _ t _ z => ?_) acc
  simp only [ffReduceKernel_eq]
  split_ifs
  · rfl
  · rfl
  · rfl
  · rw [UInt64.add_assoc, UInt64.add_assoc]
    exact congrArg (z + ·) (UInt64.add_comm _ _)

/-- The threads beyond the tokens add nothing. -/
theorem reduce_eq_filter (order : List Thread) (acc : UInt64) :
    order.foldl (ffReduceKernel tokens tokenStart n) acc =
      ((order.map Thread.index).filter fun i => decide (i < n)).foldl (fun acc i =>
        acc + ffTokenPositionValue (tokens.getD i.toNat 0).toUInt64
          (tokenStart + .ofNat i.toNat)) acc := by
  induction order generalizing acc with
  | nil => rfl
  | cons t order ih =>
    rw [List.foldl_cons, ih, ffReduceKernel_eq, List.map_cons, List.filter_cons]
    by_cases hlt : t.index < n
    · rw [if_neg (by omega), if_pos (decide_eq_true hlt), List.foldl_cons]
    · rw [if_pos (by omega), if_neg (by simpa using hlt)]

end Reduce

/-- The loop of the CPU, as a fold over the indices. -/
theorem foldl_zipIdx_eq (tokens : List UInt32) (tokenStart : ℕ) :
    tokens.zipIdx.foldl (fun acc p =>
        acc + ffTokenPositionValue p.1.toUInt64 (.ofNat (tokenStart + p.2))) 0 =
      (List.range tokens.length).foldl (fun acc i =>
        acc + ffTokenPositionValue (tokens.getD i 0).toUInt64
          (.ofNat tokenStart + .ofNat i)) 0 := by
  have hzip : tokens.zipIdx = (List.range tokens.length).map fun i => (tokens.getD i 0, i) := by
    refine List.ext_getElem (by simp) fun i h _ => ?_
    have hi : i < tokens.length := by simpa using h
    simp [List.getD_eq_getElem?_getD, hi]
  rw [hzip, List.foldl_map]
  simp only [UInt64.ofNat_add]

/-! ### The digest -/

variable {calls : DeviceCalls} {resolve : RequestId → ℕ → ℕ → Result (List UInt32)}
  {m : ExecutableMember} {tok : List UInt32}

/-- What a launch leaves in the accumulator. -/
theorem reduce_eq {count : ℕ} (hle : count ≤ 2 ^ 31 - 256) (hlen : count ≤ tok.length)
    {order : List Thread} (horder : order.Perm (launch count)) (tokenStart : ℕ) :
    order.foldl (ffReduceKernel (tok.take count) (.ofNat tokenStart) count) 0 =
      (tok.take count).zipIdx.foldl (fun acc p =>
        acc + ffTokenPositionValue p.1.toUInt64 (.ofNat (tokenStart + p.2))) 0 := by
  rw [reduce_eq_of_perm _ _ _ horder, reduce_eq_filter, filter_index_launch hle, List.foldl_map,
    foldl_zipIdx_eq, List.length_take_of_le hlen]
  rfl

/-- **The member on the device and on the CPU.** Where no checked call fails, the result is the
same. -/
theorem executeMember_eq_executeWith
    (hresolve : resolve m.requestId m.tokenStart m.tokenCount = .ok tok)
    (hlen : m.tokenCount ≤ tok.length) (hpos : 1 ≤ m.tokenCount)
    (hle : m.tokenCount ≤ 2 ^ 31 - 256) (hcalls : calls.error = none)
    (horder : calls.order.Perm (launch m.tokenCount)) :
    executeMember calls resolve m = CpuExecutor.executeWith resolve m := by
  have hzero : m.tokenCount ≠ 0 := by omega
  have hacc := reduce_eq hle hlen horder m.tokenStart
  simp only [executeMember, CpuExecutor.executeWith, if_neg hzero, hresolve, hcalls,
    tokenLong_eq hle, Int.toNat_natCast, hacc, ffMemberDigest, List.length_take_of_le hlen,
    mixId_eq_ffMix, ofInt_natCast]

/-- **The device computes the digest of the specification**, in whatever order its additions take
effect; and its threads visit each index of the member once. -/
theorem digest_executeMember (calls : DeviceCalls)
    (resolve : RequestId → ℕ → ℕ → Result (List UInt32)) (m : ExecutableMember)
    (tok : List UInt32) (hresolve : resolve m.requestId m.tokenStart m.tokenCount = .ok tok)
    (hlen : m.tokenCount ≤ tok.length) (hpos : 1 ≤ m.tokenCount)
    (hle : m.tokenCount ≤ 2 ^ 31 - 256) (hcalls : calls.error = none)
    (horder : calls.order.Perm (launch m.tokenCount)) :
    (executeMember calls resolve m).outcome = .success ∧
    (executeMember calls resolve m).digest =
      ffMemberDigest m.requestId m.attemptId m.generation (tok.take m.tokenCount) m.tokenStart ∧
    ((calls.order.map Thread.index).filter fun i => decide (i < (m.tokenCount : ℤ))).Perm
      ((List.range m.tokenCount).map fun i : ℕ => (i : ℤ)) := by
  have hzero : m.tokenCount ≠ 0 := by omega
  rw [executeMember_eq_executeWith hresolve hlen hpos hle hcalls horder]
  refine ⟨?_, ?_, ?_⟩
  · simp only [CpuExecutor.executeWith, if_neg hzero, hresolve]
  · simp only [CpuExecutor.executeWith, if_neg hzero, hresolve]
  · rw [← filter_index_launch hle]
    exact (horder.map Thread.index).filter _

/-- A member of 300 tokens, which leaves most of its second block without work. -/
def wideMember : ExecutableMember :=
  { requestId := ⟨1⟩, attemptId := ⟨1⟩, generation := ⟨1⟩, tokenStart := 7, tokenCount := 300 }

def widePayload : List UInt32 := List.replicate 300 5

/-- A device on which no call fails and the last thread comes first. -/
def reversedCalls (count : ℕ) : DeviceCalls := { order := (launch count).reverse }

theorem order_reversedCalls (count : ℕ) : (reversedCalls count).order.Perm (launch count) :=
  List.reverse_perm _

theorem digest_wideMember :
    (executeMember (reversedCalls wideMember.tokenCount) (fun _ _ _ => .ok widePayload)
      wideMember).digest =
      ffMemberDigest wideMember.requestId wideMember.attemptId wideMember.generation
        (widePayload.take wideMember.tokenCount) wideMember.tokenStart :=
  (digest_executeMember (reversedCalls wideMember.tokenCount) (fun _ _ _ => .ok widePayload)
    wideMember widePayload rfl List.length_replicate.ge (by simp [wideMember])
    (by simp [wideMember]) rfl (order_reversedCalls _)).2.1

/-! ### Groups -/

/-- What the runtime reports around the members of a group. -/
structure CudaRuntime where
  available : Bool := true
  setDeviceOk : Bool := true
  freeBefore : ℕ := 0
  freeAfter : ℕ := 0
  lastError : Option String := none
  calls : ExecutableMember → DeviceCalls

/-- Execute a group: its result, and the status message. -/
def execute (rt : CudaRuntime) (resolve : RequestId → ℕ → ℕ → Result (List UInt32))
    (group : ExecutionGroup) : Result (ExecutorResult × String) :=
  if rt.available = false then .error ⟨.cudaUnavailable, "CUDA not available"⟩
  else if rt.setDeviceOk = false then .error ⟨.cudaError, "cudaSetDevice failed"⟩
  else
    let members := group.members.map fun m => executeMember (rt.calls m) resolve m
    let succeeded := members.all (fun mr => mr.outcome == .success) && rt.lastError.isNone
    -- the message of the last error is overwritten by that of the memory check
    let recovered := decide (rt.freeBefore ≤ (rt.freeAfter + 16 * 1024 * 1024) % 2 ^ 64)
    .ok ({ groupSucceeded := succeeded && recovered
           members := members
           executorFamily := "cuda" },
      if recovered then "mem-cleanup-verified" else "device memory not recovered")

/-- **A group on the device**: if its members are nonempty, not too long and resolved, and the
device runs them, the results are those of the CPU. -/
theorem members_execute {rt : CudaRuntime} {group : ExecutionGroup} {out : ExecutorResult × String}
    (h : execute rt resolve group = .ok out)
    (hmembers : ∀ m ∈ group.members, 1 ≤ m.tokenCount ∧ m.tokenCount ≤ 2 ^ 31 - 256 ∧
      (∃ tok, resolve m.requestId m.tokenStart m.tokenCount = .ok tok ∧
        m.tokenCount ≤ tok.length) ∧
      (rt.calls m).error = none ∧ (rt.calls m).order.Perm (launch m.tokenCount)) :
    out.1.members = group.members.map (CpuExecutor.executeWith resolve) := by
  rw [execute] at h
  split_ifs at h
  · obtain rfl := Except.ok.inj h
    refine List.map_congr_left fun m hm => ?_
    obtain ⟨hpos, hle, ⟨tok, hresolve, hlen⟩, hcalls, horder⟩ := hmembers m hm
    exact executeMember_eq_executeWith hresolve hlen hpos hle hcalls horder

end CudaExecutor

end PrefillFabric
