import Mathlib.Data.Nat.Find
import PrefillFabric.Scheduler.Persistence

/-!
# The search for a chunk

When a snapshot is read back, the plan of a request is made anew and searched for the chunk that
starts at a given token. The index of this search has 32 bits, and a plan can have more chunks
than that. So it can go three ways (`PersistedRequestRecord.indexForTokenStart_cases`). A chunk is
found among the first `2 ^ 32`; or there is none among them, and the plan ends before the index
does, and the search falls back to the first chunk; or there is none among them and the plan goes
on, and the index is zero again. It is then as if nothing had been searched
(`PersistedRequestRecord.searchFrom_round`), and the search goes on for ever
(`PersistedRequestRecord.indexForTokenStart_eq_some_iff`).

The chunks of a plan start at the multiples of one size, so which of the three it is can be read
off the policy and the record (`PersistedRequestRecord.searchEnds_iff`).
-/

namespace PrefillFabric

namespace PersistedRequestRecord

/-! ### The loop -/

section

variable {plan : PrefillPlan} {start : ℕ}

/-- More rounds change nothing once the search is over. -/
theorem searchFrom_of_le {rounds more k : ℕ} {i : UInt32}
    (h : searchFrom plan start rounds i = some k) (hle : rounds ≤ more) :
    searchFrom plan start more i = some k := by
  induction rounds generalizing i more with
  | zero => exact absurd h (Option.some_ne_none k).symm
  | succ rounds ih =>
    obtain ⟨more, rfl⟩ := Nat.exists_eq_add_one.mpr (Nat.zero_lt_of_lt hle)
    rw [searchFrom] at h ⊢
    cases hget : plan.chunks[i.toNat]? with
    | none => rwa [hget] at h
    | some c =>
      rw [hget] at h
      dsimp only at h ⊢
      split_ifs at h ⊢ with hstart
      · exact h
      · exact ih h (Nat.le_of_succ_le_succ hle)

/-- The chunks before an index are there and start elsewhere. -/
def Passed (plan : PrefillPlan) (start k : ℕ) : Prop :=
  ∀ j < k, ∃ c, plan.chunks[j]? = some c ∧ c.tokenStart ≠ start

/-- The search takes a round for each chunk it passes over. -/
theorem searchFrom_of_passed {k : ℕ} (hk : k ≤ 2 ^ 32) (h : Passed plan start k) (rounds : ℕ) :
    searchFrom plan start (k + rounds) 0 = searchFrom plan start rounds (.ofNat k) := by
  induction k generalizing rounds with
  | zero => rw [Nat.zero_add]; rfl
  | succ k ih =>
    obtain ⟨c, hc, hne⟩ := h k (Nat.lt_succ_self k)
    have hindex : (UInt32.ofNat k).toNat = k := UInt32.toNat_ofNat_of_lt' hk
    rw [Nat.add_right_comm, Nat.add_assoc,
      ih (Nat.le_of_succ_le hk) (fun j hj => h j (Nat.lt_succ_of_lt hj)), searchFrom, hindex, hc]
    dsimp only
    rw [if_neg hne, UInt32.ofNat_add]
    rfl

/-- **The index comes round**: after `2 ^ 32` chunks passed over the search is where it began. -/
theorem searchFrom_round (h : Passed plan start (2 ^ 32)) (rounds : ℕ) :
    searchFrom plan start (2 ^ 32 + rounds) 0 = searchFrom plan start rounds 0 :=
  searchFrom_of_passed le_rfl h rounds

/-- A search that passes over all it can point to does not end, however long it goes on. -/
theorem searchFrom_eq_none (h : Passed plan start (2 ^ 32)) (rounds : ℕ) :
    searchFrom plan start rounds 0 = none := by
  induction rounds using Nat.strong_induction_on with
  | _ rounds ih =>
    rcases Nat.lt_or_ge rounds (2 ^ 32) with hlt | hge
    · -- too few rounds to come round: all of them are spent on what is passed over
      exact searchFrom_of_passed hlt.le (fun j hj => h j (hj.trans hlt)) 0
    · obtain ⟨rest, rfl⟩ := Nat.exists_eq_add_of_le hge
      rw [searchFrom_round h]
      exact ih rest (Nat.lt_add_of_pos_left (by decide))

/-- **How the search goes**: a chunk is found that the index can point to; or there is none, and it
falls back to the first at the end of the plan; or it passes over all it can point to. -/
theorem indexForTokenStart_cases (plan : PrefillPlan) (start : ℕ) :
    (∃ k c, indexForTokenStart plan start = some k ∧ k < 2 ^ 32 ∧ plan.chunks[k]? = some c ∧
      c.tokenStart = start) ∨
    (indexForTokenStart plan start = some 0 ∧ plan.chunks.length < 2 ^ 32 ∧
      Passed plan start plan.chunks.length) ∨
    (indexForTokenStart plan start = none ∧ 2 ^ 32 ≤ plan.chunks.length ∧
      Passed plan start (2 ^ 32)) := by
  by_cases hall : Passed plan start (2 ^ 32)
  · have hlength : 2 ^ 32 ≤ plan.chunks.length := by
      obtain ⟨c, hc, -⟩ := hall (2 ^ 32 - 1) (by decide)
      have := (List.getElem?_eq_some_iff.mp hc).1
      omega
    exact Or.inr (Or.inr ⟨searchFrom_eq_none hall _, hlength, hall⟩)
  · -- the first index at which the search does not go on
    have hex : ∃ j, j < 2 ^ 32 ∧ ¬∃ c, plan.chunks[j]? = some c ∧ c.tokenStart ≠ start := by
      simpa only [Passed, not_forall, exists_prop] using hall
    classical
    obtain ⟨hk, hstop⟩ := Nat.find_spec hex
    have hleast := fun j => Nat.find_min (m := j) hex
    generalize Nat.find hex = k at hk hstop hleast
    have hpassed : Passed plan start k := fun j hj => by
      by_contra hnot
      exact hleast j hj ⟨hj.trans hk, hnot⟩
    have hindex : (UInt32.ofNat k).toNat = k := UInt32.toNat_ofNat_of_lt' hk
    obtain ⟨rest, hrest⟩ : ∃ rest, 2 ^ 32 = k + (rest + 1) := ⟨2 ^ 32 - k - 1, by omega⟩
    have hsearch : indexForTokenStart plan start = searchFrom plan start (rest + 1) (.ofNat k) := by
      rw [indexForTokenStart, hrest]
      exact searchFrom_of_passed hk.le hpassed _
    rw [searchFrom, hindex] at hsearch
    cases hget : plan.chunks[k]? with
    | none =>
      rw [hget] at hsearch
      have hend : plan.chunks.length ≤ k := List.getElem?_eq_none_iff.mp hget
      exact Or.inr (Or.inl ⟨hsearch, hend.trans_lt hk, fun j hj => hpassed j (hj.trans_le hend)⟩)
    | some c =>
      have hstart : c.tokenStart = start := by
        by_contra hne
        exact hstop ⟨c, hget, hne⟩
      rw [hget] at hsearch
      dsimp only at hsearch
      rw [if_pos hstart] at hsearch
      exact Or.inl ⟨k, c, hsearch, hk, hget, hstart⟩

/-- **`2 ^ 32` rounds are enough**: a search that is not over by then goes on for ever. -/
theorem indexForTokenStart_eq_some_iff {k : ℕ} : indexForTokenStart plan start = some k ↔
    ∃ rounds, searchFrom plan start rounds 0 = some k := by
  refine ⟨fun hsome => ⟨_, hsome⟩, fun ⟨rounds, hsome⟩ => ?_⟩
  cases hindex : indexForTokenStart plan start with
  | some j =>
    have hj := searchFrom_of_le hindex (Nat.le_max_left (2 ^ 32) rounds)
    have hk := searchFrom_of_le hsome (Nat.le_max_right (2 ^ 32) rounds)
    exact hj.symm.trans hk
  | none =>
    rcases indexForTokenStart_cases plan start with ⟨j, _, hj, -⟩ | ⟨hzero, -⟩ | ⟨-, -, hall⟩
    · exact absurd (hj.symm.trans hindex) (Option.some_ne_none j)
    · exact absurd (hzero.symm.trans hindex) (Option.some_ne_none 0)
    · exact (searchFrom_eq_none hall rounds).symm.trans hsome

/-! ### Its value -/

/-- A chunk starts at the token, and 32 bits can point to it. -/
def Indexed (plan : PrefillPlan) (start : ℕ) : Prop :=
  ∃ k < 2 ^ 32, ∃ c, plan.chunks[k]? = some c ∧ c.tokenStart = start

theorem Passed.not_indexed {n : ℕ} (h : Passed plan start n)
    (hall : ∀ k < 2 ^ 32, k < plan.chunks.length → k < n) : ¬Indexed plan start := by
  rintro ⟨k, hk, c, hc, hstart⟩
  obtain ⟨c', hc', hne⟩ := h k (hall k hk (List.getElem?_eq_some_iff.mp hc).1)
  rw [Option.some.inj (hc'.symm.trans hc)] at hne
  exact hne hstart

/-- **The search ends** if the plan does before the index, or if there is a chunk to find. -/
theorem isSome_indexForTokenStart_iff : (indexForTokenStart plan start).isSome ↔
    plan.chunks.length < 2 ^ 32 ∨ Indexed plan start := by
  rcases indexForTokenStart_cases plan start with
    ⟨k, c, hsome, hk, hc, hstart⟩ | ⟨hsome, hlt, -⟩ | ⟨hnone, hge, hall⟩
  · exact iff_of_true (hsome ▸ rfl) (Or.inr ⟨k, hk, c, hc, hstart⟩)
  · exact iff_of_true (hsome ▸ rfl) (Or.inl hlt)
  · refine iff_of_false (hnone ▸ Bool.false_ne_true) ?_
    rintro (hlt | hindexed)
    · exact Nat.not_le.mpr hlt hge
    · exact hall.not_indexed (fun k hk _ => hk) hindexed

/-- The search finds a chunk that starts where it should, if there is one to find. -/
theorem exists_indexForTokenStart (h : Indexed plan start) :
    ∃ k c, indexForTokenStart plan start = some k ∧ k < 2 ^ 32 ∧ plan.chunks[k]? = some c ∧
      c.tokenStart = start := by
  rcases indexForTokenStart_cases plan start with hfound | ⟨-, -, hall⟩ | ⟨-, -, hall⟩
  · exact hfound
  · exact absurd h (hall.not_indexed fun k _ hk => hk)
  · exact absurd h (hall.not_indexed fun k hk _ => hk)

/-- If there is none, it falls back to the first one, or has no value. -/
theorem indexForTokenStart_getD_eq_zero (h : ¬Indexed plan start) :
    (indexForTokenStart plan start).getD 0 = 0 := by
  rcases indexForTokenStart_cases plan start with
    ⟨k, c, -, hk, hc, hstart⟩ | ⟨hsome, -⟩ | ⟨hnone, -⟩
  · exact absurd ⟨k, hk, c, hc, hstart⟩ h
  · rw [hsome, Option.getD_some]
  · rw [hnone, Option.getD_none]

/-- The search never leaves the plan, nor what 32 bits can point to. -/
theorem indexForTokenStart_getD_lt (hne : plan.chunks ≠ []) :
    (indexForTokenStart plan start).getD 0 < min plan.chunks.length (2 ^ 32) := by
  by_cases h : Indexed plan start
  · obtain ⟨k, c, hsome, hk, hc, -⟩ := exists_indexForTokenStart h
    rw [hsome, Option.getD_some]
    exact lt_min (List.getElem?_eq_some_iff.mp hc).1 hk
  · rw [indexForTokenStart_getD_eq_zero h]
    exact lt_min (List.length_pos_iff.mpr hne) (by decide)

end

/-! ### The plan of a record -/

/-- The chunks 32 bits can point to start at the first multiples of the size. -/
theorem indexed_plan_iff (env : Env) (req : PrefillRequest) (attempt : AttemptId)
    (seed : Generation) (start : ℕ) :
    Indexed (ChunkPlanner.plan env req attempt seed) start ↔
      start < req.remainingPrefillTokens ∧
      ChunkPlanner.effectiveChunkTokenCount env req ∣ start ∧
      start / ChunkPlanner.effectiveChunkTokenCount env req < 2 ^ 32 := by
  have hindex : ∀ {k c}, (ChunkPlanner.plan env req attempt seed).chunks[k]? = some c →
      c.tokenStart / ChunkPlanner.effectiveChunkTokenCount env req = k := by
    intro k c hc
    have hlt :=
      ChunkPlanner.tokenStart_lt_of_mem_plan env req attempt seed (List.mem_of_getElem? hc)
    rw [ChunkPlanner.tokenStart_of_getElem? env req attempt seed hc]
    exact Nat.mul_div_cancel k
      (ChunkPlanner.effectiveChunkTokenCount_pos env req (Nat.zero_lt_of_lt hlt))
  rw [← and_assoc, ← ChunkPlanner.exists_mem_plan_iff env req attempt seed]
  constructor
  · rintro ⟨k, hk, c, hc, rfl⟩
    exact ⟨⟨c, List.mem_of_getElem? hc, rfl⟩, (hindex hc).trans_lt hk⟩
  · rintro ⟨⟨c, hmem, rfl⟩, hlt⟩
    obtain ⟨k, hc⟩ := List.mem_iff_getElem?.mp hmem
    exact ⟨k, (hindex hc).symm.trans_lt hlt, c, hc, rfl⟩

/-- **What can be searched for**: there are so few chunks that the index reaches their end, or the
token is the start of one that it can point to. -/
def Searchable (env : Env) (remaining start : ℕ) : Prop :=
  ChunkPlanner.chunksNeeded remaining (max 1 env.cfg.maxTokensPerChunk.toNat) < 2 ^ 32 ∨
    max 1 env.cfg.maxTokensPerChunk.toNat ∣ start ∧
      start / max 1 env.cfg.maxTokensPerChunk.toNat < 2 ^ 32

instance (env : Env) (remaining start : ℕ) : Decidable (Searchable env remaining start) :=
  inferInstanceAs (Decidable (_ ∨ _))

/-- **When the search for the chunk of a record ends.** -/
theorem searchEnds_iff (env : Env) (rec : PersistedRequestRecord) : rec.SearchEnds env ↔
    (rec.nextChunkTokenStart < rec.request.remainingPrefillTokens →
      Searchable env rec.request.remainingPrefillTokens rec.nextChunkTokenStart) := by
  refine imp_congr_right fun hlt => ?_
  -- a snapshot has no estimates, so the policy alone gives the size
  rw [isSome_indexForTokenStart_iff, ChunkPlanner.length_plan_of_unestimated env _ _ _ rfl rfl,
    indexed_plan_iff, ChunkPlanner.effectiveChunkTokenCount_of_unestimated env _ rfl rfl,
    and_iff_right hlt, Searchable]
  refine or_congr_right ?_
  rcases Nat.le_total (max 1 env.cfg.maxTokensPerChunk.toNat) rec.request.remainingPrefillTokens
    with hle | hge
  · rw [Nat.min_eq_left hle]
  · -- everything is in one chunk, which starts at zero
    rw [Nat.min_eq_right hge, Nat.div_eq_of_lt hlt, Nat.div_eq_of_lt (hlt.trans_le hge)]
    refine and_congr_left' ⟨fun hdvd => ?_, fun hdvd => ?_⟩
    · rw [Nat.eq_zero_of_dvd_of_lt hdvd hlt]
      exact Nat.dvd_zero _
    · rw [Nat.eq_zero_of_dvd_of_lt hdvd (hlt.trans_le hge)]
      exact Nat.dvd_zero _

end PersistedRequestRecord

end PrefillFabric
