import PrefillFabric.Lib.Tiling
import PrefillFabric.Request

/-!
# The policy and the chunk planner

`SchedulerConfig` is the operator's policy, `ChunkPlanner.plan` cuts a request's
remaining prefill into chunks of one size. The planner is deterministic: a plan is
a function of the policy, the request and the attempt, which is what lets a retry
or a recovery plan the work again and meet the same chunk boundaries.

The main fact is `ChunkPlanner.tiles_plan`: the chunks of a plan tile the interval
from `0` to the number of *remaining* tokens. In particular the ranges of a plan
are relative to the uncached remainder and do not depend on how long the reusable
prefix in front of it is.
-/

namespace PrefillFabric

/-! ### The policy -/

/-- The scheduler's policy, as far as the modelled operations read it. -/
structure SchedulerConfig where
  maxTokensPerChunk : UInt64 := 4096
  maxWorkPerChunk : UInt64 := 1099511627776
  maxMemoryPerChunk : UInt64 := 536870912
  maxRequestsPerGroup : UInt32 := 16
  maxTokensPerGroup : UInt64 := 8192
  maxComputePerGroup : UInt64 := 4398046511104
  maxMemoryPerGroup : UInt64 := 1073741824
  deviceMemoryBytes : UInt64 := 8589934592
  memoryHeadroomBytes : UInt64 := 268435456
  /-- The double `0.05` by default. -/
  memoryHeadroomFraction : Double := ⟨4587366580439587226⟩
  maxAdmittedRequests : UInt64 := 100000
  perTenantOutstandingLimit : UInt64 := 10000
  perTenantAdmittedTokenLimit : UInt64 := 17179869184
  deadlineSlackNs : Nanoseconds := 1000000

/-- What a scheduler is built with: its policy and the arithmetic it runs on. -/
structure Env where
  cfg : SchedulerConfig := {}
  fpu : FloatUnit

/-- The default policy, on truncated arithmetic. -/
def Env.standard : Env := { fpu := .truncated }

/-- The memory budget once the larger of the two headrooms is taken off. -/
def Env.usableMemoryBytes (env : Env) : ℕ :=
  let frac := env.fpu.fraction env.cfg.deviceMemoryBytes env.cfg.memoryHeadroomFraction
  let headroom := max env.cfg.memoryHeadroomBytes.toNat frac.toNat
  env.cfg.deviceMemoryBytes.toNat - headroom

namespace ChunkPlanner

/-! ### The size of a chunk -/

/-- Bound a chunk size by a limit that is itself capped at the remaining tokens. -/
def boundBy (env : Env) (remaining : ℕ) (budget estimate : UInt64) (chunk : ℕ) : ℕ :=
  if 0 < estimate then
    min chunk (min (env.fpu.scale budget estimate (.ofNat remaining)).toNat remaining)
  else chunk

/-- The number of tokens a chunk of this request gets; at least one while any remain. -/
def effectiveChunkTokenCount (env : Env) (req : PrefillRequest) : ℕ :=
  let remaining := req.remainingPrefillTokens
  if remaining = 0 then 0
  else
    let chunk := max env.cfg.maxTokensPerChunk.toNat 1
    let chunk := boundBy env remaining env.cfg.maxWorkPerChunk req.computeEstimate chunk
    let chunk := boundBy env remaining env.cfg.maxMemoryPerChunk req.memoryEstimateBytes chunk
    let chunk := if chunk = 0 then 1 else chunk
    let chunk := min chunk remaining
    if chunk = 0 then 1 else chunk

/-! ### The plan -/

/-- A share of an estimate in proportion to `n` out of `remaining`, capped. -/
def proportional (env : Env) (n remaining : ℕ) (estimate cap : UInt64) : UInt64 :=
  if 0 < estimate then min (env.fpu.scale (.ofNat n) (.ofNat remaining) estimate) cap else 0

/-- The chunk of `n` tokens at an offset. -/
def chunkAt (env : Env) (req : PrefillRequest) (attempt : AttemptId) (seed : Generation)
    (offset n idx : ℕ) : PrefillChunk where
  requestId := req.requestId
  attemptId := attempt
  tokenStart := offset
  tokenCount := n
  chunkIndex := idx % 2 ^ 32
  generation := ⟨seed.value + idx % 2 ^ 32 + 1⟩
  parentGeneration := ⟨seed.value⟩
  workKind :=
    if req.hasValidReusablePrefix then .reusedSuffix
    else if req.remainingPrefillTokens ≤ offset + n ∧ idx % 2 ^ 32 = 0 then .fullPrompt
    else .chunked
  computeEstimate :=
    proportional env n req.remainingPrefillTokens req.computeEstimate env.cfg.maxWorkPerChunk
  memoryEstimateBytes :=
    proportional env n req.remainingPrefillTokens req.memoryEstimateBytes
      env.cfg.maxMemoryPerChunk
  deadline := req.deadline

/-- The planning loop from an offset on. A round takes at least one token, so the
number of remaining tokens bounds the number of rounds. -/
def chunksFrom (env : Env) (req : PrefillRequest) (attempt : AttemptId) (seed : Generation) :
    ℕ → ℕ → ℕ → List PrefillChunk
  | 0, _, _ => []
  | fuel + 1, offset, idx =>
    if offset < req.remainingPrefillTokens then
      let n := min (req.remainingPrefillTokens - offset) (effectiveChunkTokenCount env req)
      chunkAt env req attempt seed offset n idx ::
        chunksFrom env req attempt seed fuel (offset + n) (idx + 1)
    else []

/-- The plan for a request's remaining prefill. -/
def plan (env : Env) (req : PrefillRequest) (attempt : AttemptId) (seed : Generation) :
    PrefillPlan :=
  let chunks := chunksFrom env req attempt seed req.remainingPrefillTokens 0 0
  { request := req
    chunks := chunks
    totalChunkTokens := (chunks.map (·.tokenCount)).sum
    totalChunkCount := chunks.length % 2 ^ 32 }

/-! ### Plans tile the remainder -/

variable (env : Env) (req : PrefillRequest) (attempt : AttemptId) (seed : Generation)

theorem effectiveChunkTokenCount_pos (h : 0 < req.remainingPrefillTokens) :
    0 < effectiveChunkTokenCount env req := by
  simp only [effectiveChunkTokenCount, if_neg (Nat.ne_of_gt h)]
  -- the last line of the sizing replaces a zero by one
  split_ifs <;> omega

/-- With enough rounds the loop tiles what is left from its offset on. -/
theorem tiles_chunksFrom (fuel offset idx : ℕ) (hle : offset ≤ req.remainingPrefillTokens)
    (hfuel : req.remainingPrefillTokens ≤ offset + fuel) :
    Tiles offset req.remainingPrefillTokens
      ((chunksFrom env req attempt seed fuel offset idx).map (·.range)) := by
  induction fuel generalizing offset idx with
  | zero => exact Nat.le_antisymm hle hfuel
  | succ fuel ih =>
    rw [chunksFrom]
    split
    case isTrue hlt =>
      have hsize := effectiveChunkTokenCount_pos env req (by omega)
      refine ⟨rfl, ?_, ih _ _ ?_ ?_⟩ <;> simp only [PrefillChunk.range, chunkAt] <;> omega
    case isFalse hge => exact Nat.le_antisymm hle (Nat.not_lt.mp hge)

/-- **A plan tiles the remaining tokens**, counted from zero. -/
theorem tiles_plan :
    Tiles 0 req.remainingPrefillTokens ((plan env req attempt seed).chunks.map (·.range)) :=
  tiles_chunksFrom env req attempt seed _ 0 0 (Nat.zero_le _) (by omega)

theorem plan_chunks_ne_nil (h : 0 < req.remainingPrefillTokens) :
    (plan env req attempt seed).chunks ≠ [] := by
  intro hnil
  have htiles := tiles_plan env req attempt seed
  rw [hnil] at htiles
  exact (htiles.ne_nil h) rfl

theorem plan_chunks_eq_nil (h : req.remainingPrefillTokens = 0) :
    (plan env req attempt seed).chunks = [] := by
  simp only [plan, h, chunksFrom]

/-- A chunk of a plan ends within the remaining tokens. -/
theorem end_le_of_mem_plan {c : PrefillChunk} (h : c ∈ (plan env req attempt seed).chunks) :
    c.tokenStart + c.tokenCount ≤ req.remainingPrefillTokens :=
  ((tiles_plan env req attempt seed).le_of_mem (List.mem_map_of_mem h)).2

/-- A chunk of a plan starts before the remaining tokens end. -/
theorem tokenStart_lt_of_mem_plan {c : PrefillChunk} (h : c ∈ (plan env req attempt seed).chunks) :
    c.tokenStart < req.remainingPrefillTokens := by
  have hend := end_le_of_mem_plan env req attempt seed h
  have hpos : 0 < c.tokenCount :=
    (tiles_plan env req attempt seed).pos_of_mem (List.mem_map_of_mem h)
  omega

/-! ### Where chunks start -/

/-- The loop starts a chunk at every multiple of the chunk size, counted from its offset. -/
theorem exists_mem_chunksFrom_iff (fuel offset idx x : ℕ)
    (hle : offset ≤ req.remainingPrefillTokens)
    (hfuel : req.remainingPrefillTokens ≤ offset + fuel) :
    (∃ c ∈ chunksFrom env req attempt seed fuel offset idx, c.tokenStart = offset + x) ↔
      offset + x < req.remainingPrefillTokens ∧ effectiveChunkTokenCount env req ∣ x := by
  induction fuel generalizing offset idx x with
  | zero =>
    simp only [chunksFrom, List.not_mem_nil, false_and, exists_false, false_iff]
    omega
  | succ fuel ih =>
    rw [chunksFrom]
    split
    case isFalse hge =>
      simp only [List.not_mem_nil, false_and, exists_false, false_iff]
      omega
    case isTrue hlt =>
      have hsize := effectiveChunkTokenCount_pos env req (by omega)
      generalize hn : min (req.remainingPrefillTokens - offset) (effectiveChunkTokenCount env req)
        = n
      have hnext : offset + n ≤ req.remainingPrefillTokens := by omega
      have hrest := tiles_chunksFrom env req attempt seed fuel (offset + n) (idx + 1) hnext
        (by omega)
      simp only [List.mem_cons, exists_eq_or_imp]
      rcases lt_or_ge x n with hx | hx
      · -- within the first chunk only its start is one
        have hnone : ¬∃ c ∈ chunksFrom env req attempt seed fuel (offset + n) (idx + 1),
            c.tokenStart = offset + x := by
          rintro ⟨c, hc, hstart⟩
          have : offset + n ≤ c.tokenStart := (hrest.le_of_mem (List.mem_map_of_mem hc)).1
          omega
        have hdvd : effectiveChunkTokenCount env req ∣ x ↔ x = 0 :=
          ⟨fun h => Nat.eq_zero_of_dvd_of_lt h (by omega), fun h => h ▸ Nat.dvd_zero _⟩
        simp only [hnone, or_false, hdvd, chunkAt]
        omega
      · obtain ⟨y, rfl⟩ := Nat.exists_eq_add_of_le hx
        have hfirst :
            ¬(chunkAt env req attempt seed offset n idx).tokenStart = offset + (n + y) := by
          simp only [chunkAt]
          omega
        rw [or_iff_right hfirst, ← Nat.add_assoc, ih (offset + n) (idx + 1) y hnext (by omega)]
        refine and_congr_right fun hin => ?_
        -- the chunk is not the last one, so it has the full size
        obtain rfl : n = effectiveChunkTokenCount env req := by omega
        exact (Nat.dvd_add_right (Nat.dvd_refl _)).symm

/-- **The chunks of a plan start at the multiples of the chunk size** below the number of
remaining tokens. -/
theorem exists_mem_plan_iff (start : ℕ) :
    (∃ c ∈ (plan env req attempt seed).chunks, c.tokenStart = start) ↔
      start < req.remainingPrefillTokens ∧ effectiveChunkTokenCount env req ∣ start := by
  have h := exists_mem_chunksFrom_iff env req attempt seed req.remainingPrefillTokens 0 0 start
    (Nat.zero_le _) (by omega)
  rwa [Nat.zero_add] at h

/-! ### How many chunks there are, and of what size -/

/-- The size is zero only if nothing remains. -/
theorem effectiveChunkTokenCount_eq_zero_iff :
    effectiveChunkTokenCount env req = 0 ↔ req.remainingPrefillTokens = 0 := by
  constructor
  · intro hzero
    by_contra hne
    have hpos := effectiveChunkTokenCount_pos env req (Nat.pos_of_ne_zero hne)
    omega
  · intro hzero
    rw [effectiveChunkTokenCount]
    exact if_pos hzero

theorem boundBy_le (remaining : ℕ) (budget estimate : UInt64) (chunk : ℕ) :
    boundBy env remaining budget estimate chunk ≤ chunk := by
  rw [boundBy]
  split_ifs <;> omega

/-- The size is within the remaining tokens and the size the policy allows. -/
theorem effectiveChunkTokenCount_le :
    effectiveChunkTokenCount env req ≤
      min req.remainingPrefillTokens (max 1 env.cfg.maxTokensPerChunk.toNat) := by
  rcases Nat.eq_zero_or_pos req.remainingPrefillTokens with hzero | hpos
  · rw [(effectiveChunkTokenCount_eq_zero_iff env req).mpr hzero]
    exact Nat.zero_le _
  · simp only [effectiveChunkTokenCount, if_neg (Nat.ne_of_gt hpos)]
    have hwork := boundBy_le env req.remainingPrefillTokens env.cfg.maxWorkPerChunk
      req.computeEstimate (max env.cfg.maxTokensPerChunk.toNat 1)
    have hmemory := boundBy_le env req.remainingPrefillTokens env.cfg.maxMemoryPerChunk
      req.memoryEstimateBytes (boundBy env req.remainingPrefillTokens env.cfg.maxWorkPerChunk
        req.computeEstimate (max env.cfg.maxTokensPerChunk.toNat 1))
    split_ifs <;> omega

/-- The number of chunks of a size that cover a number of tokens. -/
def chunksNeeded (tokens size : ℕ) : ℕ := (tokens + size - 1) / size

theorem chunksNeeded_eq_zero {tokens size : ℕ} (hsize : 0 < size) (h : tokens = 0) :
    chunksNeeded tokens size = 0 :=
  Nat.div_eq_of_lt (by omega)

theorem chunksNeeded_eq_succ {tokens size : ℕ} (hsize : 0 < size) (h : 0 < tokens) :
    chunksNeeded tokens size = chunksNeeded (tokens - min tokens size) size + 1 := by
  rcases Nat.lt_or_ge size tokens with hlt | hge
  · rw [Nat.min_eq_right hlt.le, chunksNeeded, chunksNeeded,
      ← Nat.add_div_right (tokens - size + size - 1) hsize]
    congr 1
    omega
  · rw [Nat.min_eq_left hge, Nat.sub_self, chunksNeeded_eq_zero hsize rfl, chunksNeeded]
    exact Nat.div_eq_of_lt_le (by omega) (by omega)

/-- **The chunks in closed form.** With enough rounds the loop gives a chunk for every multiple
of the size, each of that size but for the last, which takes what is left. -/
theorem chunksFrom_eq_map (fuel offset idx : ℕ) (hpos : 0 < req.remainingPrefillTokens)
    (hle : offset ≤ req.remainingPrefillTokens)
    (hfuel : req.remainingPrefillTokens ≤ offset + fuel) :
    chunksFrom env req attempt seed fuel offset idx =
      (List.range (chunksNeeded (req.remainingPrefillTokens - offset)
        (effectiveChunkTokenCount env req))).map fun i =>
        chunkAt env req attempt seed (offset + i * effectiveChunkTokenCount env req)
          (min (req.remainingPrefillTokens - (offset + i * effectiveChunkTokenCount env req))
            (effectiveChunkTokenCount env req)) (idx + i) := by
  have hsize := effectiveChunkTokenCount_pos env req hpos
  induction fuel generalizing offset idx with
  | zero =>
    rw [chunksNeeded_eq_zero hsize (by omega)]
    rfl
  | succ fuel ih =>
    rw [chunksFrom]
    split
    case isFalse hge =>
      rw [chunksNeeded_eq_zero hsize (by omega)]
      rfl
    case isTrue hlt =>
      generalize hn : min (req.remainingPrefillTokens - offset) (effectiveChunkTokenCount env req)
        = n
      rw [chunksNeeded_eq_succ hsize (by omega), hn, List.range_succ_eq_map]
      simp only [List.map_cons, List.map_map, Nat.zero_mul, Nat.add_zero, hn]
      rw [ih (offset + n) (idx + 1) (by omega) (by omega), Nat.sub_add_eq]
      refine congrArg (List.cons _) (List.map_congr_left fun i hi => ?_)
      -- there is a next chunk, so this one has the full size
      have hnext : req.remainingPrefillTokens - offset - n ≠ 0 := fun hzero => by
        rw [chunksNeeded_eq_zero hsize hzero] at hi
        exact absurd hi List.not_mem_nil
      obtain rfl : n = effectiveChunkTokenCount env req := by omega
      rw [Function.comp_apply, Nat.succ_mul, Nat.add_comm (i * _), ← Nat.add_assoc,
        Nat.add_assoc idx, Nat.add_comm 1]

theorem plan_chunks_eq_map :
    (plan env req attempt seed).chunks =
      (List.range (chunksNeeded req.remainingPrefillTokens (effectiveChunkTokenCount env req))).map
        fun i => chunkAt env req attempt seed (i * effectiveChunkTokenCount env req)
          (min (req.remainingPrefillTokens - i * effectiveChunkTokenCount env req)
            (effectiveChunkTokenCount env req)) i := by
  rcases Nat.eq_zero_or_pos req.remainingPrefillTokens with hzero | hpos
  · rw [plan_chunks_eq_nil env req attempt seed hzero, hzero,
      (effectiveChunkTokenCount_eq_zero_iff env req).mpr hzero]
    rfl
  · have h := chunksFrom_eq_map env req attempt seed req.remainingPrefillTokens 0 0 hpos
      (Nat.zero_le _) (by omega)
    simpa only [plan, Nat.zero_add, Nat.sub_zero] using h

/-- A chunk starts at as many times the size as there are chunks before it. -/
theorem tokenStart_of_getElem? {k : ℕ} {c : PrefillChunk}
    (h : (plan env req attempt seed).chunks[k]? = some c) :
    c.tokenStart = k * effectiveChunkTokenCount env req := by
  rw [plan_chunks_eq_map, List.getElem?_map, Option.map_eq_some_iff] at h
  obtain ⟨j, hj, rfl⟩ := h
  obtain ⟨_, rfl⟩ := List.getElem?_eq_some_iff.mp hj
  rw [List.getElem_range]
  rfl

/-- The size for a request without estimates: nothing but the policy limits it. -/
theorem effectiveChunkTokenCount_of_unestimated (hcompute : req.computeEstimate = 0)
    (hmem : req.memoryEstimateBytes = 0) :
    effectiveChunkTokenCount env req =
      min (max 1 env.cfg.maxTokensPerChunk.toNat) req.remainingPrefillTokens := by
  rcases Nat.eq_zero_or_pos req.remainingPrefillTokens with hzero | hpos
  · rw [(effectiveChunkTokenCount_eq_zero_iff env req).mpr hzero, hzero, Nat.min_zero]
  · simp only [effectiveChunkTokenCount, if_neg (Nat.ne_of_gt hpos), boundBy, hcompute, hmem]
    simp only [UInt64.lt_irrefl, if_false]
    split_ifs <;> omega

/-- The number of chunks of a request without estimates. -/
theorem length_plan_of_unestimated (hcompute : req.computeEstimate = 0)
    (hmem : req.memoryEstimateBytes = 0) :
    (plan env req attempt seed).chunks.length =
      chunksNeeded req.remainingPrefillTokens (max 1 env.cfg.maxTokensPerChunk.toNat) := by
  have hlimit : 0 < max 1 env.cfg.maxTokensPerChunk.toNat := by omega
  have hsize := effectiveChunkTokenCount_of_unestimated env req hcompute hmem
  rw [plan_chunks_eq_map, List.length_map, List.length_range, hsize]
  rcases Nat.le_total (max 1 env.cfg.maxTokensPerChunk.toNat) req.remainingPrefillTokens
    with hle | hge
  · rw [Nat.min_eq_left hle]
  · rcases Nat.eq_zero_or_pos req.remainingPrefillTokens with hzero | hpos
    · rw [hzero, chunksNeeded_eq_zero hlimit rfl, Nat.min_zero]
      rfl
    · -- everything is in one chunk
      rw [Nat.min_eq_right hge, chunksNeeded_eq_succ hpos hpos,
        chunksNeeded_eq_succ hlimit hpos, Nat.min_self, Nat.min_eq_left hge, Nat.sub_self,
        chunksNeeded_eq_zero hpos rfl, chunksNeeded_eq_zero hlimit rfl]

/-- A chunk of a plan has at least one token, and no more than the size. -/
theorem tokenCount_of_mem_plan {c : PrefillChunk} (h : c ∈ (plan env req attempt seed).chunks) :
    1 ≤ c.tokenCount ∧ c.tokenCount ≤ effectiveChunkTokenCount env req := by
  refine ⟨(tiles_plan env req attempt seed).pos_of_mem (List.mem_map_of_mem h), ?_⟩
  rw [plan_chunks_eq_map] at h
  obtain ⟨i, -, rfl⟩ := List.mem_map.mp h
  exact Nat.min_le_right _ _

/-- The chunks of a plan have as many tokens as remain. -/
theorem totalChunkTokens_plan :
    (plan env req attempt seed).totalChunkTokens = req.remainingPrefillTokens := by
  have h := (tiles_plan env req attempt seed).add_sum
  rwa [Nat.zero_add, List.map_map] at h

/-- Every chunk of a plan passes its check: the end of a chunk does not wrap around. -/
theorem validate_of_mem_plan {c : PrefillChunk} (h : c ∈ (plan env req attempt seed).chunks) :
    (c.validate req).code = .ok := by
  have hend := end_le_of_mem_plan env req attempt seed h
  have hpos := (tokenCount_of_mem_plan env req attempt seed h).1
  have hlt := req.remainingPrefillTokens_lt
  have hid : c.requestId = req.requestId := by
    rw [plan_chunks_eq_map] at h
    obtain ⟨i, -, rfl⟩ := List.mem_map.mp h
    rfl
  rw [PrefillChunk.validate, if_neg (not_not.mpr hid), if_neg (Nat.ne_of_gt hpos),
    Nat.mod_eq_of_lt (by omega), if_neg (by omega)]

/-- **What a plan is**: the remaining tokens cut into chunks of one size. -/
structure Planned : Prop where
  /-- The size is zero only if there is nothing to plan. -/
  size_eq_zero_iff : effectiveChunkTokenCount env req = 0 ↔ req.remainingPrefillTokens = 0
  size_le : effectiveChunkTokenCount env req ≤
    min req.remainingPrefillTokens (max 1 env.cfg.maxTokensPerChunk.toNat)
  /-- The loop comes to its end, and not to that of its rounds. -/
  ends : ∀ fuel, req.remainingPrefillTokens ≤ fuel →
    chunksFrom env req attempt seed fuel 0 0 = (plan env req attempt seed).chunks
  /-- The chunks start at zero, are contiguous and not empty, and end with the tokens. -/
  tiles : Tiles 0 req.remainingPrefillTokens
    ((plan env req attempt seed).chunks.map (·.range))
  tokenCount : ∀ c ∈ (plan env req attempt seed).chunks,
    1 ≤ c.tokenCount ∧ c.tokenCount ≤ effectiveChunkTokenCount env req
  sum_eq : ((plan env req attempt seed).chunks.map (·.tokenCount)).sum = req.remainingPrefillTokens
  total_eq : (plan env req attempt seed).totalChunkTokens = req.remainingPrefillTokens
  length_eq : (plan env req attempt seed).chunks.length =
    chunksNeeded req.remainingPrefillTokens (effectiveChunkTokenCount env req)
  /-- Chunks are numbered from zero, up to the numbers of 32 bits. -/
  chunkIndex : ∀ i c, (plan env req attempt seed).chunks[i]? = some c → i < 2 ^ 32 →
    c.chunkIndex = i
  validate : ∀ c ∈ (plan env req attempt seed).chunks, (c.validate req).code = .ok

/-- **Every plan is one**, whatever the arithmetic makes of the two proportional limits. -/
theorem planned : Planned env req attempt seed := by
  have htotal := totalChunkTokens_plan env req attempt seed
  refine ⟨effectiveChunkTokenCount_eq_zero_iff env req, effectiveChunkTokenCount_le env req,
    fun fuel hfuel => ?_, tiles_plan env req attempt seed,
    fun c hc => tokenCount_of_mem_plan env req attempt seed hc, htotal, htotal, ?_,
    fun i c hc hi => ?_, fun c hc => validate_of_mem_plan env req attempt seed hc⟩
  · rcases Nat.eq_zero_or_pos req.remainingPrefillTokens with hzero | hpos
    · rw [plan_chunks_eq_nil env req attempt seed hzero]
      cases fuel with
      | zero => rfl
      | succ fuel => rw [chunksFrom, if_neg (by omega)]
    · rw [chunksFrom_eq_map env req attempt seed fuel 0 0 hpos (Nat.zero_le _) (by omega),
        plan_chunks_eq_map]
      simp only [Nat.zero_add, Nat.sub_zero]
  · rw [plan_chunks_eq_map, List.length_map, List.length_range]
  · rw [plan_chunks_eq_map, List.getElem?_map] at hc
    obtain ⟨j, hj, rfl⟩ := Option.map_eq_some_iff.mp hc
    obtain ⟨-, rfl⟩ := List.getElem?_eq_some_iff.mp hj
    rw [List.getElem_range]
    exact Nat.mod_eq_of_lt hi

end ChunkPlanner

end PrefillFabric
