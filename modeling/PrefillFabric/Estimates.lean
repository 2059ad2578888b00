import Mathlib.Algebra.Order.Floor.Semifield
import Mathlib.Data.Rat.Floor
import PrefillFabric.Chunking

/-!
# Estimates, limits and shares

The planner divides a request by its estimates: the size of a chunk is limited to the part of
the remaining tokens that the budget of a chunk is of the estimate, and each chunk is given the
part of the estimate that its tokens are of the remaining ones. Both are a quotient times a
number, computed as long doubles and converted to 64 bits.

Here the quotients are read as rational numbers (`scaled`), and the arithmetic is one that
converts them exactly wherever the result is a number of 64 bits (`FloatUnit.Exact`). Where it is
not, the conversion is undefined, and such an arithmetic may give anything.

That happens: nothing bounds the value of a limit before it is converted, only after. It is a
number of 64 bits exactly if the upper word of the product of budget and tokens is below the
estimate (`ChunkPlanner.limits_convert_iff`). Shares are always defined, but they are capped at
the budget of a chunk; the cap takes something away exactly if it is below the share of a single
token (`ChunkPlanner.min_share_le`).
-/

namespace PrefillFabric

/-! ### Exact arithmetic -/

/-- The number `a / b * c`. -/
def scaled (a b c : ℕ) : ℚ := a / b * c

theorem scaled_eq (a b c : ℕ) : scaled a b c = (a * c : ℕ) / (b : ℕ) := by
  rw [scaled, Nat.cast_mul, div_mul_eq_mul_div]

theorem floor_scaled (a b c : ℕ) : ⌊scaled a b c⌋₊ = a * c / b := by
  rw [scaled_eq, Nat.floor_div_eq_div]

/-- The upper of the two words of a product. -/
def highWord (n : ℕ) : ℕ := n / 2 ^ 64

/-- A scaled number is below `2 ^ 64` if the upper word of the product is below the divisor. -/
theorem scaled_lt_iff {a b c : ℕ} (hb : 0 < b) : scaled a b c < 2 ^ 64 ↔ highWord (a * c) < b := by
  have hpos : (0 : ℚ) < b := Nat.cast_pos.mpr hb
  rw [scaled_eq, div_lt_iff₀ hpos, highWord, Nat.div_lt_iff_lt_mul (by decide), Nat.mul_comm b]
  exact_mod_cast Iff.rfl

/-- **Exact arithmetic**: what is converted is the rational number, cut off, if it is one of
64 bits. What becomes of any other number is not said. -/
def FloatUnit.Exact (fpu : FloatUnit) : Prop :=
  ∀ a b c : UInt64, 0 < b → scaled a.toNat b.toNat c.toNat < 2 ^ 64 →
    (fpu.scale a b c).toNat = ⌊scaled a.toNat b.toNat c.toNat⌋₊

/-- Exact arithmetic that gives zero for what is not a number of 64 bits. -/
def FloatUnit.indefinite : FloatUnit :=
  { FloatUnit.truncated with
    scale := fun a b c =>
      if a.toNat * c.toNat / b.toNat < 2 ^ 64 then .ofNat (a.toNat * c.toNat / b.toNat) else 0 }

theorem FloatUnit.exact_indefinite : indefinite.Exact := by
  intro a b c hb hlt
  have hfloor : ⌊scaled a.toNat b.toNat c.toNat⌋₊ < 2 ^ 64 := by
    rw [Nat.floor_lt' (by decide)]
    exact_mod_cast hlt
  rw [floor_scaled] at hfloor ⊢
  rw [indefinite]
  exact (congrArg UInt64.toNat (if_pos hfloor)).trans (UInt64.toNat_ofNat_of_lt' hfloor)

theorem toNat_pos {a : UInt64} (h : 0 < a) : 0 < a.toNat :=
  UInt64.lt_iff_toNat_lt.mp h

namespace ChunkPlanner

/-! ### Limits -/

/-- A limit on the size of a chunk: as much of the remaining tokens as the budget is of the
estimate. -/
def limit (fpu : FloatUnit) (budget estimate : UInt64) (remaining : ℕ) : ℕ :=
  min (fpu.scale budget estimate (.ofNat remaining)).toNat remaining

theorem boundBy_eq (env : Env) (remaining : ℕ) (budget estimate : UInt64) (chunk : ℕ) :
    boundBy env remaining budget estimate chunk =
      if 0 < estimate then min chunk (limit env.fpu budget estimate remaining) else chunk := rfl

/-- The size of a chunk is within the limit on its memory, but for a single token. -/
theorem size_le_limit (env : Env) {req : PrefillRequest} (hmem : 0 < req.memoryEstimateBytes) :
    effectiveChunkTokenCount env req ≤ max 1
      (limit env.fpu env.cfg.maxMemoryPerChunk req.memoryEstimateBytes
        req.remainingPrefillTokens) := by
  simp only [effectiveChunkTokenCount, boundBy_eq env _ env.cfg.maxMemoryPerChunk, if_pos hmem]
  split_ifs <;> omega

/-- **A limit is what it is meant to be**: the number that is converted is one of 64 bits, and
the limit is its whole part, or the number of remaining tokens if that is less. -/
structure Converts (budget estimate : UInt64) (remaining : ℕ) : Prop where
  defined : scaled budget.toNat estimate.toNat remaining < 2 ^ 64
  limit_eq : ∀ fpu : FloatUnit, fpu.Exact → limit fpu budget estimate remaining =
    min remaining ⌊scaled budget.toNat estimate.toNat remaining⌋₊

theorem limit_eq_of_defined {fpu : FloatUnit} (hexact : fpu.Exact) {budget estimate : UInt64}
    {remaining : ℕ} (hest : 0 < estimate) (hrem : remaining < 2 ^ 64)
    (h : scaled budget.toNat estimate.toNat remaining < 2 ^ 64) :
    limit fpu budget estimate remaining =
      min remaining ⌊scaled budget.toNat estimate.toNat remaining⌋₊ := by
  have hword : (UInt64.ofNat remaining).toNat = remaining := UInt64.toNat_ofNat_of_lt' hrem
  rw [limit, hexact _ _ _ hest (hword.symm ▸ h), hword, Nat.min_comm]

theorem converts_iff {budget estimate : UInt64} {remaining : ℕ} (hest : 0 < estimate)
    (hrem : remaining < 2 ^ 64) : Converts budget estimate remaining ↔
      highWord (budget.toNat * remaining) < estimate.toNat := by
  rw [← scaled_lt_iff (toNat_pos hest)]
  exact ⟨fun h => h.defined, fun h => ⟨h, fun _ hexact => limit_eq_of_defined hexact hest hrem h⟩⟩

/-- **When the limits of a request are what they are meant to be.** -/
theorem limits_convert_iff (cfg : SchedulerConfig) (req : PrefillRequest) :
    ((0 < req.computeEstimate →
        Converts cfg.maxWorkPerChunk req.computeEstimate req.remainingPrefillTokens) ∧
      (0 < req.memoryEstimateBytes →
        Converts cfg.maxMemoryPerChunk req.memoryEstimateBytes req.remainingPrefillTokens)) ↔
    ((0 < req.computeEstimate →
        highWord (cfg.maxWorkPerChunk.toNat * req.remainingPrefillTokens) <
          req.computeEstimate.toNat) ∧
      (0 < req.memoryEstimateBytes →
        highWord (cfg.maxMemoryPerChunk.toNat * req.remainingPrefillTokens) <
          req.memoryEstimateBytes.toNat)) :=
  and_congr (forall_congr' fun hest => converts_iff hest req.remainingPrefillTokens_lt)
    (forall_congr' fun hest => converts_iff hest req.remainingPrefillTokens_lt)

/-- A prompt of `2 ^ 24` tokens that is estimated at one unit of work. -/
def longPrompt : PrefillRequest where
  requestId := ⟨1⟩
  tenantId := ⟨1⟩
  promptTokenCount := 16777216
  computeEstimate := 1

/-- Under the default policy the limit of a long prompt is not a number of 64 bits: it should be
no limit at all, and on arithmetic that gives zero the prompt is cut into single tokens. -/
theorem not_converts_longPrompt :
    longPrompt.validate.code = .ok ∧
      scaled ({} : SchedulerConfig).maxWorkPerChunk.toNat longPrompt.computeEstimate.toNat
        longPrompt.remainingPrefillTokens = 2 ^ 64 ∧
      ¬Converts ({} : SchedulerConfig).maxWorkPerChunk longPrompt.computeEstimate
        longPrompt.remainingPrefillTokens ∧
      FloatUnit.indefinite.Exact ∧
      limit .indefinite ({} : SchedulerConfig).maxWorkPerChunk longPrompt.computeEstimate
        longPrompt.remainingPrefillTokens = 0 ∧
      effectiveChunkTokenCount { fpu := .indefinite } longPrompt = 1 := by
  have hvalue : scaled ({} : SchedulerConfig).maxWorkPerChunk.toNat
      longPrompt.computeEstimate.toNat longPrompt.remainingPrefillTokens = 2 ^ 64 := by
    have hprod : ({} : SchedulerConfig).maxWorkPerChunk.toNat *
        longPrompt.remainingPrefillTokens = 2 ^ 64 := by decide +kernel
    have hone : longPrompt.computeEstimate.toNat = 1 := rfl
    rw [scaled_eq, hprod, hone]
    norm_num
  refine ⟨by decide, hvalue, fun h => ?_, FloatUnit.exact_indefinite, by decide +kernel,
    by decide +kernel⟩
  exact absurd h.defined (not_lt.mpr hvalue.ge)

/-! ### Shares -/

/-- The part of a request's memory that some of its tokens stand for. -/
def share (req : PrefillRequest) (n : ℕ) : ℕ :=
  ⌊scaled n req.remainingPrefillTokens req.memoryEstimateBytes.toNat⌋₊

theorem share_eq (req : PrefillRequest) (n : ℕ) :
    share req n = n * req.memoryEstimateBytes.toNat / req.remainingPrefillTokens :=
  floor_scaled ..

theorem share_mono (req : PrefillRequest) {n m : ℕ} (h : n ≤ m) : share req n ≤ share req m := by
  rw [share_eq, share_eq]
  exact Nat.div_le_div_right (Nat.mul_le_mul_right _ h)

section

variable {env : Env} (hexact : env.fpu.Exact) {req : PrefillRequest}
  (hmem : 0 < req.memoryEstimateBytes) (hrem : 0 < req.remainingPrefillTokens)

include hexact hmem hrem

/-- A chunk is given its share, up to the budget of a chunk. -/
theorem memoryEstimateBytes_chunkAt (attempt : AttemptId) (seed : Generation) (offset idx : ℕ)
    {n : ℕ} (hn : n ≤ req.remainingPrefillTokens) :
    (chunkAt env req attempt seed offset n idx).memoryEstimateBytes.toNat =
      min (share req n) env.cfg.maxMemoryPerChunk.toNat := by
  have hlt := req.remainingPrefillTokens_lt
  have hn' : (UInt64.ofNat n).toNat = n := UInt64.toNat_ofNat_of_lt' (lt_of_le_of_lt hn hlt)
  have hrem' : (UInt64.ofNat req.remainingPrefillTokens).toNat = req.remainingPrefillTokens :=
    UInt64.toNat_ofNat_of_lt' hlt
  have hdefined : scaled n req.remainingPrefillTokens req.memoryEstimateBytes.toNat < 2 ^ 64 := by
    rw [scaled_lt_iff hrem, highWord, Nat.div_lt_iff_lt_mul (by decide)]
    have hword := req.memoryEstimateBytes.toNat_lt
    calc n * req.memoryEstimateBytes.toNat
        ≤ req.remainingPrefillTokens * req.memoryEstimateBytes.toNat := Nat.mul_le_mul_right _ hn
      _ < req.remainingPrefillTokens * 2 ^ 64 := Nat.mul_lt_mul_of_pos_left hword hrem
  have hscale := hexact (.ofNat n) (.ofNat req.remainingPrefillTokens) req.memoryEstimateBytes
    (UInt64.lt_iff_toNat_lt.mpr (by rw [hrem']; exact hrem)) (by rw [hn', hrem']; exact hdefined)
  rw [hn', hrem'] at hscale
  change (proportional env n req.remainingPrefillTokens req.memoryEstimateBytes
    env.cfg.maxMemoryPerChunk).toNat = _
  rw [proportional, if_pos hmem, share, ← hscale]
  exact UInt64.toNat_min ..

omit hrem in
/-- The size of a chunk is one token, or its share is within the budget of a chunk. -/
theorem size_le_one_or :
    effectiveChunkTokenCount env req ≤ 1 ∨
      effectiveChunkTokenCount env req * req.memoryEstimateBytes.toNat ≤
        env.cfg.maxMemoryPerChunk.toNat * req.remainingPrefillTokens := by
  have hpos := toNat_pos hmem
  have hlt := req.remainingPrefillTokens_lt
  -- where the limit is not defined it would be more than the remaining tokens
  have hlimit : limit env.fpu env.cfg.maxMemoryPerChunk req.memoryEstimateBytes
      req.remainingPrefillTokens * req.memoryEstimateBytes.toNat ≤
        env.cfg.maxMemoryPerChunk.toNat * req.remainingPrefillTokens := by
    by_cases hdefined : scaled env.cfg.maxMemoryPerChunk.toNat req.memoryEstimateBytes.toNat
        req.remainingPrefillTokens < 2 ^ 64
    · rw [limit_eq_of_defined hexact hmem hlt hdefined, floor_scaled]
      exact (Nat.mul_le_mul_right _ (Nat.min_le_right ..)).trans (Nat.div_mul_le_self ..)
    · rw [scaled_lt_iff hpos, highWord, Nat.div_lt_iff_lt_mul (by decide), not_lt] at hdefined
      refine le_trans ?_ hdefined
      rw [Nat.mul_comm]
      exact Nat.mul_le_mul_left _ ((Nat.min_le_right ..).trans hlt.le)
  rcases le_max_iff.mp (size_le_limit env hmem) with hone | hle
  · exact Or.inl hone
  · exact Or.inr ((Nat.mul_le_mul_right _ hle).trans hlimit)

/-- The estimate of a chunk of the plan. -/
theorem memoryEstimateBytes_of_mem_plan (attempt : AttemptId) (seed : Generation)
    {c : PrefillChunk} (hc : c ∈ (plan env req attempt seed).chunks) :
    c.memoryEstimateBytes.toNat =
      min (share req c.tokenCount) env.cfg.maxMemoryPerChunk.toNat := by
  have hend := end_le_of_mem_plan env req attempt seed hc
  rw [plan_chunks_eq_map] at hc
  obtain ⟨i, -, rfl⟩ := List.mem_map.mp hc
  exact memoryEstimateBytes_chunkAt hexact hmem hrem attempt seed _ i
    ((Nat.le_add_left ..).trans hend)

/-- **A chunk has its share of the memory, or the budget of a chunk** if that is less; and all
chunks have their shares exactly if the budget of a chunk is at least the share of one token. -/
theorem min_share_le (attempt : AttemptId) (seed : Generation) :
    (∀ c ∈ (plan env req attempt seed).chunks,
      min (share req c.tokenCount) env.cfg.maxMemoryPerChunk.toNat ≤
        c.memoryEstimateBytes.toNat) ∧
    ((∀ c ∈ (plan env req attempt seed).chunks,
        share req c.tokenCount ≤ c.memoryEstimateBytes.toNat) ↔
      share req 1 ≤ env.cfg.maxMemoryPerChunk.toNat) := by
  have hbytes : ∀ c ∈ (plan env req attempt seed).chunks, _ :=
    fun c hc => memoryEstimateBytes_of_mem_plan hexact hmem hrem attempt seed hc
  refine ⟨fun c hc => (hbytes c hc).ge, ?_⟩
  constructor
  · intro h
    obtain ⟨c, hc⟩ := List.exists_mem_of_ne_nil _ (plan_chunks_ne_nil env req attempt seed hrem)
    have hle := h c hc
    rw [hbytes c hc] at hle
    exact (share_mono req (tokenCount_of_mem_plan env req attempt seed hc).1).trans
      (hle.trans (Nat.min_le_right ..))
  · intro h c hc
    rw [hbytes c hc, Nat.le_min]
    refine ⟨le_rfl, (share_mono req (tokenCount_of_mem_plan env req attempt seed hc).2).trans ?_⟩
    rcases size_le_one_or hexact hmem with hone | hwithin
    · exact (share_mono req hone).trans h
    · rw [share_eq]
      exact Nat.div_le_of_le_mul (hwithin.trans_eq (Nat.mul_comm ..))

end

/-- A prompt of one token that is estimated at a number of bytes. -/
def oneToken (bytes : UInt64) : PrefillRequest where
  requestId := ⟨1⟩
  tenantId := ⟨1⟩
  promptTokenCount := 1
  memoryEstimateBytes := bytes

theorem share_le_oneToken :
    FloatUnit.indefinite.Exact ∧
      ∀ c ∈ (plan { fpu := .indefinite } (oneToken 4096) ⟨1⟩ .nil).chunks,
        min (share (oneToken 4096) c.tokenCount) 536870912 ≤ c.memoryEstimateBytes.toNat ∧
          share (oneToken 4096) c.tokenCount ≤ c.memoryEstimateBytes.toNat := by
  obtain ⟨hcapped, hiff⟩ :=
    @min_share_le { fpu := .indefinite } FloatUnit.exact_indefinite (oneToken 4096) (by decide)
      (by decide) ⟨1⟩ .nil
  have hshare := hiff.mpr (by rw [share_eq]; decide)
  exact ⟨FloatUnit.exact_indefinite, fun c hc => ⟨hcapped c hc, hshare c hc⟩⟩

/-- A token cannot be cut: under the default policy, one that is estimated at a gigabyte is given
half of it. -/
theorem share_gt_oneToken :
    (oneToken 1073741824).validate.code = .ok ∧ FloatUnit.indefinite.Exact ∧
      (plan { fpu := .indefinite } (oneToken 1073741824) ⟨1⟩ .nil).chunks.map
        (fun c => (c.tokenCount, c.memoryEstimateBytes.toNat)) = [(1, 536870912)] ∧
      share (oneToken 1073741824) 1 = 1073741824 := by
  refine ⟨by decide, FloatUnit.exact_indefinite, by decide, ?_⟩
  rw [share_eq]
  decide

end ChunkPlanner

end PrefillFabric
