import PrefillFabric.Scheduler.Dispatches
import PrefillFabric.Scheduler.Surroundings

/-!
# Packing

What the formation of groups checks of them, and what becomes of the groups it has formed.

A group is extended as long as the sums over its members are within the limits of the policy. The
sums are kept in 64 bits (`ExecutionGroup.Tallied`), so that a group may be past a limit if a sum
has wrapped around, and not otherwise (`Life.within_limits_iff`). Under a policy that leaves room
for one more chunk above its limits nothing wraps around (`Reachable.within_of_roomy`).

Memory is not added up but compared member by member. It is added up when the group is to be
dispatched, and a group that does not fit is put off as a whole, with workers and memory left as
they were (`Impl.spared_dispatchGroup`). A cycle dispatches something exactly if one of the groups
formed can be dispatched by itself (`Impl.groups_runCycle_ne_nil_iff`); that one of the *requests*
could be is not enough.
-/

namespace PrefillFabric

/-! ### Limits -/

namespace ExecutionGroup

/-- The tokens of the members, added up without a bound. -/
def tokenSum (g : ExecutionGroup) : ℕ := (g.members.map (·.tokenCount)).sum

/-- The compute estimates of the members, added up without a bound. -/
def computeSum (g : ExecutionGroup) : ℕ := (g.members.map (·.computeEstimate.toNat)).sum

/-- **Within the limits** of the policy. -/
structure Within (env : Env) (g : ExecutionGroup) : Prop where
  requests : g.members.length ≤ env.cfg.maxRequestsPerGroup.toNat
  tokens : g.tokenSum ≤ env.cfg.maxTokensPerGroup.toNat
  compute : g.computeSum ≤ env.cfg.maxComputePerGroup.toNat

/-- **What formation keeps count of**: the sums in 64 bits. As such they are within the limits if
there is more than one member; the first one is not checked. -/
structure Tallied (env : Env) (g : ExecutionGroup) : Prop where
  totalTokenCount : g.totalTokenCount = g.tokenSum % 2 ^ 64
  sumComputeEstimate : g.sumComputeEstimate.toNat = g.computeSum % 2 ^ 64
  checked : 2 ≤ g.members.length → g.members.length ≤ env.cfg.maxRequestsPerGroup.toNat ∧
    g.totalTokenCount ≤ env.cfg.maxTokensPerGroup.toNat ∧
    g.sumComputeEstimate.toNat ≤ env.cfg.maxComputePerGroup.toNat

variable {env : Env} {g g' : ExecutionGroup} {rid : RequestId} {s : Rs}

theorem tokenSum_add : (g.add rid s).tokenSum = g.tokenSum + s.nextChunk.tokenCount := by
  rw [tokenSum, add, List.map_append, List.sum_append]
  rfl

theorem computeSum_add :
    (g.add rid s).computeSum = g.computeSum + s.nextChunk.computeEstimate.toNat := by
  rw [computeSum, add, List.map_append, List.sum_append]
  rfl

theorem length_add : (g.add rid s).members.length = g.members.length + 1 :=
  List.length_append ..

/-- The sums of a group go on in 64 bits when a member is added. -/
theorem sums_add (rid : RequestId) (s : Rs) (htokens : g.totalTokenCount = g.tokenSum % 2 ^ 64)
    (hcompute : g.sumComputeEstimate.toNat = g.computeSum % 2 ^ 64) :
    (g.add rid s).totalTokenCount = (g.add rid s).tokenSum % 2 ^ 64 ∧
      (g.add rid s).sumComputeEstimate.toNat = (g.add rid s).computeSum % 2 ^ 64 := by
  rw [tokenSum_add, computeSum_add]
  constructor
  · change (g.totalTokenCount + s.nextChunk.tokenCount) % 2 ^ 64 = _
    rw [htokens, Nat.mod_add_mod]
  · change (g.sumComputeEstimate + s.nextChunk.computeEstimate).toNat = _
    rw [UInt64.toNat_add, hcompute, Nat.mod_add_mod]

theorem tallied_opened (gid : GroupId) (rid : RequestId) (s : Rs) :
    (opened env gid rid s).Tallied env := by
  obtain ⟨htokens, hcompute⟩ := sums_add rid s
    (g := { groupId := gid, key := makeCompatKey env s.request,
            backend := (makeCompatKey env s.request).backend,
            device := (makeCompatKey env s.request).device }) rfl rfl
  refine ⟨htokens, hcompute, fun htwo => ?_⟩
  rw [opened, length_add] at htwo
  exact absurd htwo (by simp)

theorem Tallied.add (h : g.Tallied env) (hadmits : g.admits env s = true) (rid : RequestId) :
    (g.add rid s).Tallied env := by
  obtain ⟨htokens, hcompute⟩ := sums_add rid s h.totalTokenCount h.sumComputeEstimate
  refine ⟨htokens, hcompute, fun _ => ?_⟩
  simp only [admits, Bool.and_eq_true, decide_eq_true_eq] at hadmits
  obtain ⟨⟨⟨⟨-, hlength⟩, htotal⟩, hwork⟩, -⟩ := hadmits
  -- the number of members is compared in 32 bits, which it does not exceed
  have hfew : g.members.length < 2 ^ 32 := by
    rcases Nat.lt_or_ge g.members.length 2 with hlt | htwo
    · omega
    · exact lt_of_le_of_lt (h.checked htwo).1 (UInt32.toNat_lt _)
  rw [Nat.mod_eq_of_lt hfew] at hlength
  rw [length_add]
  exact ⟨hlength, htotal, UInt64.le_iff_toNat_le.mp hwork⟩

/-- A group of several members is within the limits exactly if no sum has wrapped around. -/
theorem Tallied.within_iff (h : g.Tallied env) (htwo : 2 ≤ g.members.length) :
    g.Within env ↔ g.tokenSum < 2 ^ 64 ∧ g.computeSum < 2 ^ 64 := by
  obtain ⟨hlength, htokens, hcompute⟩ := h.checked htwo
  rw [h.totalTokenCount] at htokens
  rw [h.sumComputeEstimate] at hcompute
  constructor
  · rintro ⟨-, htokens', hcompute'⟩
    exact ⟨htokens'.trans_lt (UInt64.toNat_lt _), hcompute'.trans_lt (UInt64.toNat_lt _)⟩
  · rintro ⟨htok, hcomp⟩
    rw [Nat.mod_eq_of_lt htok] at htokens
    rw [Nat.mod_eq_of_lt hcomp] at hcompute
    exact ⟨hlength, htokens, hcompute⟩

theorem tokenSum_eq (hplain : g'.plain = g.plain) : g'.tokenSum = g.tokenSum :=
  congrArg List.sum (map_members_eq hplain fun _ => rfl)

theorem computeSum_eq (hplain : g'.plain = g.plain) : g'.computeSum = g.computeSum :=
  congrArg List.sum (map_members_eq hplain fun _ => rfl)

/-- Generations and workers do not count. -/
theorem Tallied.of_plain (h : g.Tallied env) (hplain : g'.plain = g.plain) : g'.Tallied env := by
  have htotal : g'.plain.totalTokenCount = g.plain.totalTokenCount :=
    congrArg ExecutionGroup.totalTokenCount hplain
  have hsum : g'.plain.sumComputeEstimate = g.plain.sumComputeEstimate :=
    congrArg ExecutionGroup.sumComputeEstimate hplain
  change g'.totalTokenCount = g.totalTokenCount at htotal
  change g'.sumComputeEstimate = g.sumComputeEstimate at hsum
  obtain ⟨h₁, h₂, h₃⟩ := h
  constructor
  · rw [htotal, tokenSum_eq hplain, h₁]
  · rw [hsum, computeSum_eq hplain, h₂]
  · rw [length_members_eq hplain, htotal, hsum]
    exact h₃

end ExecutionGroup

/-! ### The next chunks -/

/-- The member is the next chunk of a waiting request, but for generation and worker. -/
def View.Next (v : View) (m : ExecutableMember) : Prop :=
  ∃ s, v.req m.requestId = some s ∧ s.isWaiting = true ∧
    m.plain = s.nextMember m.requestId m.memberIndex

theorem View.Next.of_plain {v : View} {m m' : ExecutableMember} (h : v.Next m)
    (hplain : m'.plain = m.plain) : v.Next m' := by
  have hid : m'.plain.requestId = m.plain.requestId := congrArg ExecutableMember.requestId hplain
  have hindex : m'.plain.memberIndex = m.plain.memberIndex :=
    congrArg ExecutableMember.memberIndex hplain
  change m'.requestId = m.requestId at hid
  change m'.memberIndex = m.memberIndex at hindex
  rw [View.Next, hid, hindex, hplain]
  exact h

namespace Impl

variable {env : Env} {now : Nanoseconds} {σ : Impl}

/-- The next chunk of a request. -/
def nextChunkOf (σ : Impl) (r : RequestId) : PrefillChunk :=
  ((σ.requests.lookup r).getD {}).nextChunk

theorem nextChunkOf_eq (σ : Impl) (r : RequestId) :
    σ.nextChunkOf r = ((σ.view.req r).getD {}).nextChunk := by
  change _ = (((σ.requests.lookup r).map Rs.core).getD {}).nextChunk
  rw [nextChunkOf]
  cases σ.requests.lookup r <;> rfl

/-- The groups that a cycle forms, before it dispatches any of them. -/
def formed (env : Env) (now : Nanoseconds) (σ : Impl) : List ExecutionGroup :=
  (formGroups env ((σ.expirySweep now).sortedCandidates env now) (σ.expirySweep now)).2

/-- **What is formed**: groups that are tallied, of next chunks. -/
theorem formed_spec {g : ExecutionGroup} (hg : g ∈ σ.formed env now) :
    g.Tallied env ∧ ∀ m ∈ g.members, (σ.expirySweep now).view.Next m := by
  refine (formGroups_rec
    (P := fun g => g.Tallied env ∧ ∀ m ∈ g.members, (σ.expirySweep now).view.Next m)
    (fun gid rid s hs hwait => ⟨ExecutionGroup.tallied_opened gid rid s, fun m hm => ?_⟩)
    (fun g rid s h hs hwait hadmits => ⟨h.1.add hadmits rid, fun m hm => ?_⟩) _ rfl).2 g hg
  · obtain rfl := List.mem_singleton.mp hm
    exact ⟨s.core, hs, hwait, rfl⟩
  · rcases List.mem_append.mp hm with hm | hm
    · exact h.2 m hm
    · obtain rfl := List.mem_singleton.mp hm
      exact ⟨s.core, hs, hwait, rfl⟩

/-- What is dispatched was formed. -/
theorem exists_formed {d : DispatchedGroup} (hd : d ∈ (σ.runCycle env now).2.groups) :
    ∃ g ∈ σ.formed env now, d.group.plain = g.plain := by
  rcases groups_foldl_dispatchGroup _ _ d hd with hd | ⟨g, hg, -, hplain, -⟩
  · exact absurd hd List.not_mem_nil
  · exact ⟨g, hg, hplain⟩

/-- **A member is the next chunk of its request** as it was before the cycle. -/
theorem next_of_mem_runCycle (hwf : σ.view.Wf) {d : DispatchedGroup}
    (hd : d ∈ (σ.runCycle env now).2.groups) {m : ExecutableMember} (hm : m ∈ d.group.members) :
    σ.view.Next m := by
  obtain ⟨g, hg, hplain⟩ := exists_formed hd
  have hmem : m.plain ∈ g.members.map (·.plain) := by
    have hmembers : d.group.members.map (·.plain) = g.members.map (·.plain) :=
      congrArg ExecutionGroup.members hplain
    rw [← hmembers]
    exact List.mem_map_of_mem hm
  obtain ⟨m', hm', hplain'⟩ := List.mem_map.mp hmem
  obtain ⟨s, hs, hwait, hnext⟩ := ((formed_spec hg).2 m' hm').of_plain hplain'.symm
  exact ⟨s, ((effects_expirySweep env now σ hwf).req_of_isWaiting hs hwait).1, hwait, hnext⟩

/-- A sum over the members of a group is one over the next chunks of its requests. -/
theorem sum_members_eq (hwf : σ.view.Wf) {d : DispatchedGroup}
    (hd : d ∈ (σ.runCycle env now).2.groups) {f : ExecutableMember → ℕ} {k : PrefillChunk → ℕ}
    (hplain : ∀ m, f m.plain = f m)
    (hnext : ∀ (s : Rs) r i, f (s.nextMember r i) = k s.nextChunk) :
    (d.group.members.map f).sum = (d.group.rids.map fun r => k (σ.nextChunkOf r)).sum := by
  rw [ExecutionGroup.rids, List.map_map]
  refine congrArg List.sum (List.map_congr_left fun m hm => ?_)
  obtain ⟨s, hs, -, heq⟩ := next_of_mem_runCycle hwf hd hm
  rw [Function.comp_apply, nextChunkOf_eq, hs, Option.getD_some, ← hplain, heq, hnext]

end Impl

/-- **A group is within the limits** exactly if, in the state before the cycle, the next chunks of
the requests that are packed together have tokens and compute estimates whose sums are below
`2 ^ 64`. -/
theorem Life.within_limits_iff (ℓ : Life) (n : ℕ) (now : Nanoseconds) {d : DispatchedGroup}
    (hd : d ∈ ((ℓ.stateAt n).runCycle ℓ.env now).2.groups) (htwo : 2 ≤ d.group.members.length) :
    d.group.Within ℓ.env ↔
      (d.group.rids.map fun r => ((ℓ.stateAt n).nextChunkOf r).tokenCount).sum < 2 ^ 64 ∧
      (d.group.rids.map fun r =>
        ((ℓ.stateAt n).nextChunkOf r).computeEstimate.toNat).sum < 2 ^ 64 := by
  obtain ⟨g, hg, hplain⟩ := Impl.exists_formed hd
  rw [((Impl.formed_spec hg).1.of_plain hplain).within_iff htwo, ExecutionGroup.tokenSum,
    ExecutionGroup.computeSum,
    Impl.sum_members_eq (ℓ.wf n) hd (k := (·.tokenCount)) (fun _ => rfl) (fun _ _ _ => rfl),
    Impl.sum_members_eq (ℓ.wf n) hd (k := (·.computeEstimate.toNat)) (fun _ => rfl)
      (fun _ _ _ => rfl)]

/-- Two requests that are packed together. -/
def Life.pair : Life where
  env := .standard
  turns := [.call ⟨0, .submitWithTokens (Run.plainRequest 1 2) [5, 6]⟩,
    .call ⟨0, .submitWithTokens (Run.plainRequest 2 2) [7, 8]⟩]

theorem Life.within_pair :
    ∃ d ∈ ((pair.stateAt 2).runCycle pair.env 0).2.groups,
      2 ≤ d.group.members.length ∧ d.group.Within pair.env := by
  have hsums : (((pair.stateAt 2).runCycle pair.env 0).2.groups.map fun d =>
      (d.group.members.length,
        (d.group.rids.map fun r => ((pair.stateAt 2).nextChunkOf r).tokenCount).sum,
        (d.group.rids.map fun r => ((pair.stateAt 2).nextChunkOf r).computeEstimate.toNat).sum)) =
      [(2, 4, 0)] := by
    decide +kernel
  obtain ⟨d, hd, heq⟩ := List.mem_map.mp (hsums ▸ List.mem_singleton_self _)
  obtain ⟨hlength, hsums⟩ := Prod.mk.inj heq
  obtain ⟨htokens, hcompute⟩ := Prod.mk.inj hsums
  refine ⟨d, hd, hlength.ge, (Life.within_limits_iff pair 2 0 hd hlength.ge).mpr ⟨?_, ?_⟩⟩
  · rw [htokens]
    decide
  · rw [hcompute]
    decide

/-- Two requests of one token, each estimated at half of what is counted in 64 bits. -/
def Run.immenseCalls : List Call :=
  [⟨0, .submitWithTokens { plainRequest 1 1 with computeEstimate := 9223372036854775808 } [5]⟩,
    ⟨0, .submitWithTokens { plainRequest 2 1 with computeEstimate := 9223372036854775808 } [6]⟩]

/-- The default policy, with no limit to the work of a chunk. -/
def Env.tireless : Env := { Env.standard with cfg := { maxWorkPerChunk := 18446744073709551615 } }

/-- Their sum is none, and they are packed together, far past the limit. -/
theorem Run.not_within_immenseCalls :
    let σ := (Run.fresh .tireless immenseCalls).stateAt 2
    ((σ.runCycle .tireless 0).2.groups.map fun d =>
        (d.group.members.length, d.group.tokenSum, d.group.computeSum)) = [(2, 2, 2 ^ 64)] ∧
      Env.tireless.cfg.maxComputePerGroup.toNat < 2 ^ 64 ∧
      ∀ d ∈ (σ.runCycle .tireless 0).2.groups, ¬d.group.Within .tireless := by
  intro σ
  have hsums : ((σ.runCycle .tireless 0).2.groups.map fun d =>
      (d.group.members.length, d.group.tokenSum, d.group.computeSum)) = [(2, 2, 2 ^ 64)] := by
    decide +kernel
  refine ⟨hsums, UInt64.toNat_lt _, fun d hd hwithin => ?_⟩
  have hd' := List.mem_map_of_mem
    (f := fun d : DispatchedGroup => (d.group.members.length, d.group.tokenSum, d.group.computeSum))
    hd
  rw [hsums, List.mem_singleton] at hd'
  have hsum : d.group.computeSum = 2 ^ 64 := (congrArg (·.2.2) hd' :)
  exact absurd (hsum ▸ hwithin.compute) (UInt64.toNat_lt _).not_ge

/-! ### A policy with room -/

/-- A proportional estimate is capped. -/
theorem ChunkPlanner.proportional_le (env : Env) (n remaining : ℕ) (estimate cap : UInt64) :
    (proportional env n remaining estimate cap).toNat ≤ cap.toNat := by
  rw [proportional]
  split_ifs
  · rw [UInt64.toNat_min]
    exact Nat.min_le_right ..
  · exact Nat.zero_le _

/-- The work and the memory of a chunk are estimated at no more than the policy allows. -/
theorem ChunkPlanner.estimates_le_of_mem_plan {env : Env} {req : PrefillRequest}
    {attempt : AttemptId} {seed : Generation} {c : PrefillChunk}
    (h : c ∈ (plan env req attempt seed).chunks) :
    c.computeEstimate.toNat ≤ env.cfg.maxWorkPerChunk.toNat ∧
      c.memoryEstimateBytes.toNat ≤ env.cfg.maxMemoryPerChunk.toNat := by
  rw [plan_chunks_eq_map] at h
  obtain ⟨i, -, rfl⟩ := List.mem_map.mp h
  exact ⟨proportional_le .., proportional_le ..⟩

/-- **Room for one more chunk** above the limits of a group, counted in 64 bits. -/
structure SchedulerConfig.Roomy (cfg : SchedulerConfig) : Prop where
  tokens : max cfg.maxTokensPerGroup.toNat (max 1 cfg.maxTokensPerChunk.toNat) +
    max 1 cfg.maxTokensPerChunk.toNat < 2 ^ 64
  compute : max cfg.maxComputePerGroup.toNat cfg.maxWorkPerChunk.toNat +
    cfg.maxWorkPerChunk.toNat < 2 ^ 64

theorem SchedulerConfig.roomy_default : ({} : SchedulerConfig).Roomy := ⟨by decide, by decide⟩

namespace Reachable

variable {env : Env} {σ : Impl} {now : Nanoseconds}

/-- What waits after the sweep has a next chunk within the limits of a chunk. -/
theorem nextChunk_le (h : Reachable env σ) {r : RequestId} {s : Rs}
    (hs : (σ.expirySweep now).view.req r = some s.core) (hwait : s.isWaiting = true) :
    s.nextChunk.tokenCount ≤ max 1 env.cfg.maxTokensPerChunk.toNat ∧
      s.nextChunk.computeEstimate.toNat ≤ env.cfg.maxWorkPerChunk.toNat := by
  have hsweep := Impl.effects_expirySweep env now σ h.wf_sane.1
  have hsane := h.wf_sane.2 r s.core (hsweep.req_of_isWaiting hs hwait).1
  have hmem : s.nextChunk ∈ s.plan.chunks := Rs.nextChunk_mem hwait
  have hplan : s.plan = ChunkPlanner.plan env s.request s.attempt .nil := hsane.plan_eq
  rw [hplan] at hmem
  refine ⟨?_, (ChunkPlanner.estimates_le_of_mem_plan hmem).1⟩
  have hsize := (ChunkPlanner.tokenCount_of_mem_plan env _ _ _ hmem).2
  exact hsize.trans ((ChunkPlanner.effectiveChunkTokenCount_le env _).trans (min_le_right ..))

end Reachable

namespace ExecutionGroup

variable {env : Env} {g : ExecutionGroup} {rid : RequestId} {s : Rs}

/-- **What a group adds up to** is within the limit of a group, or that of the chunk the group
was opened for. -/
structure Bounded (env : Env) (g : ExecutionGroup) : Prop extends g.Tallied env where
  tokens : g.tokenSum ≤ max env.cfg.maxTokensPerGroup.toNat (max 1 env.cfg.maxTokensPerChunk.toNat)
  compute : g.computeSum ≤ max env.cfg.maxComputePerGroup.toNat env.cfg.maxWorkPerChunk.toNat

theorem bounded_opened (gid : GroupId) (rid : RequestId)
    (htokens : s.nextChunk.tokenCount ≤ max 1 env.cfg.maxTokensPerChunk.toNat)
    (hcompute : s.nextChunk.computeEstimate.toNat ≤ env.cfg.maxWorkPerChunk.toNat) :
    (opened env gid rid s).Bounded env := by
  refine ⟨tallied_opened gid rid s, ?_, ?_⟩
  · rw [opened, tokenSum_add]
    exact (Nat.zero_add _).trans_le (htokens.trans (le_max_right ..))
  · rw [opened, computeSum_add]
    exact (Nat.zero_add _).trans_le (hcompute.trans (le_max_right ..))

/-- The sums that are compared when a chunk is to join a group do not wrap around. -/
theorem Bounded.lt (h : g.Bounded env) (hroomy : env.cfg.Roomy)
    (hchunk : s.nextChunk.tokenCount ≤ max 1 env.cfg.maxTokensPerChunk.toNat)
    (hchunk' : s.nextChunk.computeEstimate.toNat ≤ env.cfg.maxWorkPerChunk.toNat) :
    g.tokenSum + s.nextChunk.tokenCount < 2 ^ 64 ∧
      g.computeSum + s.nextChunk.computeEstimate.toNat < 2 ^ 64 := by
  have htokens := h.tokens
  have hcompute := h.compute
  have hroom := hroomy.tokens
  have hroom' := hroomy.compute
  omega

theorem Bounded.add (h : g.Bounded env) (hroomy : env.cfg.Roomy)
    (hchunk : s.nextChunk.tokenCount ≤ max 1 env.cfg.maxTokensPerChunk.toNat)
    (hchunk' : s.nextChunk.computeEstimate.toNat ≤ env.cfg.maxWorkPerChunk.toNat)
    (hadmits : g.admits env s = true) (rid : RequestId) : (g.add rid s).Bounded env := by
  obtain ⟨hlt, hlt'⟩ := h.lt hroomy hchunk hchunk'
  refine ⟨h.toTallied.add hadmits rid, ?_, ?_⟩
  all_goals
    simp only [admits, Bool.and_eq_true, decide_eq_true_eq] at hadmits
    obtain ⟨⟨⟨-, htotal⟩, hwork⟩, -⟩ := hadmits
  · rw [h.totalTokenCount, Nat.mod_add_mod, Nat.mod_eq_of_lt hlt] at htotal
    rw [tokenSum_add]
    exact htotal.trans (le_max_left ..)
  · rw [UInt64.le_iff_toNat_le, UInt64.toNat_add, h.sumComputeEstimate, Nat.mod_add_mod,
      Nat.mod_eq_of_lt hlt'] at hwork
    rw [computeSum_add]
    exact hwork.trans (le_max_left ..)

end ExecutionGroup

namespace Reachable

variable {env : Env} {σ : Impl} {now : Nanoseconds}

/-- **Under a policy with room every group is within the limits.** -/
theorem within_of_roomy (h : Reachable env σ) (hroomy : env.cfg.Roomy) {d : DispatchedGroup}
    (hd : d ∈ (σ.runCycle env now).2.groups) (htwo : 2 ≤ d.group.members.length) :
    d.group.Within env := by
  obtain ⟨g, hg, hplain⟩ := Impl.exists_formed hd
  have hbounded : ∀ x ∈ σ.formed env now, x.Bounded env := by
    refine (Impl.formGroups_rec (fun gid rid s hs hwait => ?_)
      (fun x rid s hx hs hwait hadmits => ?_) _ rfl).2
    · obtain ⟨hchunk, hchunk'⟩ := h.nextChunk_le hs hwait
      exact ExecutionGroup.bounded_opened gid rid hchunk hchunk'
    · obtain ⟨hchunk, hchunk'⟩ := h.nextChunk_le hs hwait
      exact hx.add hroomy hchunk hchunk' hadmits rid
  obtain ⟨htallied, htokens, hcompute⟩ := hbounded g hg
  have hroom := hroomy.tokens
  have hroom' := hroomy.compute
  rw [(htallied.of_plain hplain).within_iff htwo, ExecutionGroup.tokenSum_eq hplain,
    ExecutionGroup.computeSum_eq hplain]
  omega

end Reachable

/-! ### What can be dispatched -/

/-- Releasing some of what is held gives back their bytes together. -/
theorem MemoryGovernor.reserved_foldl_release {α : Type} {f : α → ReservationId} {b : α → ℕ}
    {l : List α} {g : MemoryGovernor} {n : ℕ} (hnodup : (l.map f).Nodup)
    (hheld : ∀ a ∈ l, ∃ r, g.held (f a) = some (r, b a)) (hsum : g.reserved = n + (l.map b).sum) :
    (l.foldl (fun m a => m.release (f a)) g).reserved = n ∧
      (l.foldl (fun m a => m.release (f a)) g).budget = g.budget := by
  induction l generalizing g with
  | nil => exact ⟨hsum, rfl⟩
  | cons a l ih =>
    obtain ⟨ha, hl⟩ := List.nodup_cons.mp hnodup
    obtain ⟨r, hr⟩ := hheld a List.mem_cons_self
    rw [List.map_cons, List.sum_cons] at hsum
    rw [List.foldl_cons, ← g.budget_release (f a)]
    refine ih hl (fun x hx => ?_) ?_
    · obtain ⟨r', hr'⟩ := hheld x (List.mem_cons_of_mem a hx)
      have hne : f x ≠ f a := fun hc => ha (hc ▸ List.mem_map_of_mem hx)
      exact ⟨r', by rw [held_release, if_neg hne, hr']⟩
    · rw [reserved_release hr (by omega)]
      omega

namespace Impl

variable {env : Env} {now : Nanoseconds} {σ τ : Impl} {g : ExecutionGroup}
  {gs : List ExecutionGroup} {batch : DispatchBatch}

/-- The memory that the next chunks of some requests need together. -/
def bytesOf (σ : Impl) (rids : List RequestId) : ℕ :=
  (rids.map fun r => (σ.nextChunkOf r).memoryEstimateBytes.toNat).sum

/-- **The group can be dispatched**: there is a worker that can take it, and room for the next
chunks of its requests together. -/
structure Takes (σ : Impl) (g : ExecutionGroup) : Prop where
  worker : ∃ w ws, σ.workers.lookup w = some ws ∧ eligible g.backend ws = true
  memory : σ.mem.Affords (σ.bytesOf g.rids)

/-- Nothing that a dispatch depends on has changed. -/
structure Spared (σ τ : Impl) : Prop where
  workers : τ.workers = σ.workers
  req : τ.view.req = σ.view.req
  reserved : τ.mem.reserved = σ.mem.reserved
  budget : τ.mem.budget = σ.mem.budget

theorem Spared.takes_iff (h : Spared σ τ) : τ.Takes g ↔ σ.Takes g := by
  have hchunk : τ.nextChunkOf = σ.nextChunkOf := by
    funext r
    rw [nextChunkOf_eq, nextChunkOf_eq, h.req]
  have hmem : τ.mem.Affords (τ.bytesOf g.rids) ↔ σ.mem.Affords (σ.bytesOf g.rids) := by
    rw [MemoryGovernor.Affords, MemoryGovernor.Affords, bytesOf, bytesOf, hchunk, h.reserved,
      h.budget]
  constructor
  · rintro ⟨hworker, hroom⟩
    exact ⟨h.workers ▸ hworker, hmem.mp hroom⟩
  · rintro ⟨hworker, hroom⟩
    exact ⟨h.workers.symm ▸ hworker, hmem.mpr hroom⟩

/-! #### Reserving -/

/-- The state once a request has its reservation. -/
def reserveFor (σ : Impl) (r : RequestId) : Impl :=
  let b := (σ.nextChunkOf r).memoryEstimateBytes.toNat
  let rv : ReservationId := ⟨σ.nextReservationValue⟩
  { σ with
    nextReservationValue := σ.nextReservationValue + 1
    mem := { σ.mem with
      reserved := σ.mem.reserved + b
      records := σ.mem.records.insert rv ⟨rv, r, b, .reserved, true⟩ } }.setRequest r
    { (σ.requests.lookup r).getD {} with reservation := rv, reservedBytes := b }

/-- A reservation does not touch what is to be executed. -/
theorem nextChunkOf_reserveFor (σ : Impl) (r : RequestId) :
    (σ.reserveFor r).nextChunkOf = σ.nextChunkOf := by
  funext x
  change (((σ.requests.insert r _).lookup x).getD {}).nextChunk = _
  rw [AList.lookup_insert_eq_ite]
  split_ifs with hx
  · rw [nextChunkOf, hx]
    rfl
  · rfl

theorem bytesOf_reserveFor (σ : Impl) (r : RequestId) (rids : List RequestId) :
    (σ.reserveFor r).bytesOf rids = σ.bytesOf rids := by
  rw [bytesOf, nextChunkOf_reserveFor, bytesOf]

theorem bytesOf_cons (σ : Impl) (r : RequestId) (rids : List RequestId) :
    σ.bytesOf (r :: rids) = (σ.nextChunkOf r).memoryEstimateBytes.toNat + σ.bytesOf rids :=
  List.sum_cons

/-- **One reservation**, or the end of it. -/
theorem reserveMembers_cons (σ : Impl) (r : RequestId) (rids : List RequestId) :
    (¬(σ.mem.held ⟨σ.nextReservationValue⟩ = none ∧
        σ.mem.Affords (σ.nextChunkOf r).memoryEstimateBytes.toNat) ∧
      reserveMembers (r :: rids) σ =
        ({ σ with nextReservationValue := σ.nextReservationValue + 1 }, [], false)) ∨
    (σ.mem.Affords (σ.nextChunkOf r).memoryEstimateBytes.toNat ∧
      reserveMembers (r :: rids) σ = ((reserveMembers rids (σ.reserveFor r)).1,
        (⟨σ.nextReservationValue⟩, r) :: (reserveMembers rids (σ.reserveFor r)).2.1,
        (reserveMembers rids (σ.reserveFor r)).2.2)) := by
  have hchunk : ((σ.requests.lookup r).getD {}).nextChunk = σ.nextChunkOf r := rfl
  rw [reserveMembers, hchunk]
  dsimp only
  rcases σ.mem.reserve_cases ⟨σ.nextReservationValue⟩ r
    (σ.nextChunkOf r).memoryEstimateBytes.toNat .reserved with ⟨hsame, hno⟩ | ⟨-, hfits, heq⟩
  · have hfull := mt MemoryGovernor.isOk_reserve_iff.mpr (Bool.eq_false_iff.mp hno)
    rw [hno, if_neg Bool.false_ne_true, hsame]
    exact Or.inl ⟨hfull, rfl⟩
  · rw [heq, isOk, if_pos rfl]
    exact Or.inr ⟨hfits, rfl⟩

/-- **All members are reserved for** exactly if there is room for all of them together. -/
theorem reserveMembers_ok_iff (rids : List RequestId) (σ : Impl)
    (hfree : ∀ id : ReservationId, σ.nextReservationValue ≤ id.value → σ.mem.held id = none) :
    (reserveMembers rids σ).2.2 = true ↔ σ.mem.Affords (σ.bytesOf rids) := by
  induction rids generalizing σ with
  | nil => simp [reserveMembers, bytesOf, MemoryGovernor.Affords]
  | cons r rids ih =>
    rw [bytesOf_cons]
    rcases σ.reserveMembers_cons r rids with ⟨hfull, heq⟩ | ⟨hfits, heq⟩
    · have hroom : ¬σ.mem.Affords (σ.nextChunkOf r).memoryEstimateBytes.toNat :=
        fun h => hfull ⟨hfree _ le_rfl, h⟩
      rw [heq]
      rw [MemoryGovernor.Affords] at hroom ⊢
      simp only [Bool.false_eq_true, false_iff]
      omega
    · rw [heq]
      dsimp only
      rw [ih (σ.reserveFor r) fun id hid => ?_, bytesOf_reserveFor]
      · rw [MemoryGovernor.Affords] at hfits ⊢
        change _ ∨ σ.mem.reserved + _ + _ ≤ σ.mem.budget ↔ _
        rw [MemoryGovernor.Affords]
        omega
      · -- the identity just used is not one of those still to come
        have hlt : σ.nextReservationValue < id.value := hid
        have hne : id ≠ ⟨σ.nextReservationValue⟩ := fun hc => by
          rw [hc] at hlt
          exact lt_irrefl _ hlt
        rw [← hfree id hlt.le]
        exact congrArg (Option.bind · _) (AList.lookup_insert_ne hne)

/-- What has been reserved is what is counted as such. -/
theorem reserved_reserveMembers (rids : List RequestId) (σ : Impl) :
    (reserveMembers rids σ).1.mem.reserved =
        σ.mem.reserved + σ.bytesOf ((reserveMembers rids σ).2.1.map Prod.snd) ∧
      (reserveMembers rids σ).1.mem.budget = σ.mem.budget := by
  induction rids generalizing σ with
  | nil => exact ⟨rfl, rfl⟩
  | cons r rids ih =>
    rcases σ.reserveMembers_cons r rids with ⟨-, heq⟩ | ⟨-, heq⟩
    · rw [heq]
      exact ⟨rfl, rfl⟩
    · obtain ⟨hreserved, hbudget⟩ := ih (σ.reserveFor r)
      rw [heq]
      dsimp only
      rw [hreserved, hbudget, bytesOf_reserveFor, List.map_cons, bytesOf_cons, ← Nat.add_assoc]
      exact ⟨rfl, rfl⟩

/-! #### Putting off -/

/-- **Undoing reservations gives back what they took.** -/
theorem reserved_undoReservation {rids : List RequestId} (hnodup : rids.Nodup)
    (hknown : ∀ r ∈ rids, ∃ s, σ.requests.lookup r = some s) :
    let undone := (reserveMembers rids σ).2.1.foldl undoReservation (reserveMembers rids σ).1
    undone.mem.reserved = σ.mem.reserved ∧ undone.mem.budget = σ.mem.budget := by
  intro undone
  obtain ⟨hres, hids, -, -⟩ := reserveMembers_spec rids σ hnodup hknown
  obtain ⟨hreserved, hbudget⟩ := reserved_reserveMembers rids σ
  have hmem : undone.mem = (reserveMembers rids σ).2.1.foldl (fun m p => m.release p.1)
      (reserveMembers rids σ).1.mem := by
    have hview := congrArg View.mem (view_foldl_undoReservation (reserveMembers rids σ).2.1
      (reserveMembers rids σ).1)
    rw [View.foldl_undo_mem] at hview
    exact hview
  rw [hmem, ← hbudget]
  refine MemoryGovernor.reserved_foldl_release (f := Prod.fst)
    (b := fun p => (σ.nextChunkOf p.2).memoryEstimateBytes.toNat) ?_ (fun p hp => ?_) ?_
  · rw [map_fst_eq_map_range' hids]
    exact List.Nodup.map (fun a b hab => congrArg StrongId.value hab) List.nodup_range'
  · obtain ⟨i, hi⟩ := List.mem_iff_getElem?.mp hp
    obtain ⟨s, hs, -, hheld⟩ := hres.member i p.2 (by rw [List.getElem?_map, hi, Option.map_some])
    refine ⟨p.2, ?_⟩
    rw [hids i p hi, nextChunkOf_eq, hs]
    exact hheld
  · rw [hreserved, bytesOf, List.map_map]
    rfl

/-- A group is dispatched where it has a worker and its memory. -/
theorem dispatchGroup_of_reserved {w : WorkerId} (hne : g.members ≠ [])
    (hw : chooseWorker g.backend σ = some w) (hreserve : (reserveMembers g.rids σ).2.2 = true) :
    dispatchGroup now (σ, batch) g = commitGroup now w g batch (reserveMembers g.rids σ).1 := by
  rw [dispatchGroup, if_neg (by rwa [List.isEmpty_iff])]
  simp only [hw, hreserve, if_true]

/-- Where a worker can take a group there is one to be chosen. -/
theorem exists_chooseWorker {backend : String} {w : WorkerId} {ws : Ws}
    (hw : σ.workers.lookup w = some ws) (helig : eligible backend ws = true) :
    ∃ w', chooseWorker backend σ = some w' := by
  have hfold : ∀ (l : List WorkerId) (c : WorkerId), ∃ w', l.foldl lesser (some c) = some w' := by
    intro l
    induction l with
    | nil => exact fun c => ⟨c, rfl⟩
    | cons x l ih =>
      intro c
      rw [List.foldl_cons, lesser]
      split_ifs
      · exact ih x
      · exact ih c
  have hmem : w ∈ (σ.workers.entries.filter fun e => eligible backend e.2).map (·.1) :=
    List.mem_map.mpr ⟨⟨w, ws⟩, List.mem_filter.mpr ⟨AList.mem_lookup_iff.mp hw, helig⟩, rfl⟩
  obtain ⟨x, l, hl⟩ := List.exists_cons_of_ne_nil (List.ne_nil_of_mem hmem)
  rw [chooseWorker_eq_foldl, hl]
  exact hfold l x

section

variable (hwf : σ.view.Wf) (hformed : σ.view.Formed (g :: gs))

include hwf in
theorem held_eq_none (id : ReservationId) (hid : σ.nextReservationValue ≤ id.value) :
    σ.mem.held id = none := by
  by_contra hheld
  obtain ⟨p, hp⟩ := Option.ne_none_iff_exists'.mp hheld
  exact absurd (hwf.held_lt id p hp) (not_lt.mpr hid)

include hwf hformed

/-- **A group that can be dispatched is**, with all of its members reserved for. -/
theorem dispatchGroup_of_takes (h : σ.Takes g) (now : Nanoseconds) (batch : DispatchBatch) :
    ∃ w, dispatchGroup now (σ, batch) g =
      commitGroup now w g batch (reserveMembers g.rids σ).1 := by
  obtain ⟨w, ws, hws, helig⟩ := h.worker
  obtain ⟨w', hw'⟩ := exists_chooseWorker hws helig
  exact ⟨w', dispatchGroup_of_reserved (hformed.ne_nil g List.mem_cons_self) hw'
    ((reserveMembers_ok_iff g.rids σ (held_eq_none hwf)).mpr h.memory)⟩

theorem groups_dispatchGroup_of_takes (h : σ.Takes g) (now : Nanoseconds) (batch : DispatchBatch) :
    (dispatchGroup now (σ, batch) g).2.groups ≠ [] := by
  obtain ⟨w, hcommit⟩ := dispatchGroup_of_takes hwf hformed h now batch
  rw [hcommit]
  simp [commitGroup]

/-- **A group that cannot be dispatched is put off**, and nothing is spent on it. -/
theorem spared_dispatchGroup (h : ¬σ.Takes g) (now : Nanoseconds) (batch : DispatchBatch) :
    (dispatchGroup now (σ, batch) g).2.groups = batch.groups ∧
      Spared σ (dispatchGroup now (σ, batch) g).1 := by
  have hwaiting := exists_isWaiting_of_formed hformed List.mem_cons_self
  have hnodup := hformed.head.nodup_rids
  rw [dispatchGroup, if_neg (by rw [List.isEmpty_iff]; exact hformed.ne_nil g List.mem_cons_self)]
  dsimp only
  cases hw : chooseWorker g.backend σ with
  | none =>
    refine ⟨rfl, congrArg Surroundings.workers (around_noteAll _ _ σ), ?_, ?_, ?_⟩
    · exact congrArg View.req (view_noteAll ..)
    · exact congrArg (·.mem.reserved) (view_noteAll ..)
    · exact congrArg (·.mem.budget) (view_noteAll ..)
  | some w =>
    obtain ⟨ws, hws, helig⟩ := exists_of_chooseWorker hw
    have hno : ¬(reserveMembers g.rids σ).2.2 = true := fun hok => h ⟨⟨w, ws, hws, helig⟩,
      (reserveMembers_ok_iff g.rids σ (held_eq_none hwf)).mp hok⟩
    have hidle := idle_undoReservation hwf hnodup hwaiting
    obtain ⟨hreserved, hbudget⟩ := reserved_undoReservation hnodup fun r hr =>
      (hwaiting r hr).imp fun _ h => h.1
    have haround := (foldl_frame (q := around) (f := undoReservation) (fun _ _ => rfl)
      (reserveMembers g.rids σ).2.1 (reserveMembers g.rids σ).1).trans
      (around_reserveMembers g.rids σ)
    dsimp only
    rw [if_neg hno]
    generalize (reserveMembers g.rids σ).2.1.foldl undoReservation (reserveMembers g.rids σ).1 = τ
      at *
    refine ⟨rfl, ?_, ?_, ?_, ?_⟩
    · exact congrArg Surroundings.workers ((around_noteAll _ _ τ).trans haround)
    · exact (congrArg View.req (view_noteAll ..)).trans hidle.req
    · exact (congrArg (·.mem.reserved) (view_noteAll _ _ τ)).trans hreserved
    · exact (congrArg (·.mem.budget) (view_noteAll _ _ τ)).trans hbudget

end

/-! #### The cycle -/

/-- What is in a batch stays in it. -/
theorem groups_foldl_ne_nil {acc : Impl × DispatchBatch} (h : acc.2.groups ≠ [])
    (gs : List ExecutionGroup) : (gs.foldl (dispatchGroup now) acc).2.groups ≠ [] := by
  induction gs generalizing acc with
  | nil => exact h
  | cons g gs ih =>
    refine ih ?_
    rcases dispatchGroup_around now acc g with ⟨-, heq⟩ | ⟨d, _, _, -, -, -, -, heq⟩
    · rwa [heq]
    · rw [heq]
      exact List.append_ne_nil_of_left_ne_nil h _

/-- Of the groups that were formed, some are dispatched exactly if one can be by itself. -/
theorem groups_foldl_ne_nil_iff (env : Env) (hwf : σ.view.Wf) (hformed : σ.view.Formed gs)
    (hbatch : batch.groups = []) :
    (gs.foldl (dispatchGroup now) (σ, batch)).2.groups ≠ [] ↔ ∃ g ∈ gs, σ.Takes g := by
  induction gs generalizing σ batch with
  | nil => simp [hbatch]
  | cons g gs ih =>
    rw [List.foldl_cons]
    by_cases htakes : σ.Takes g
    · have hgroups := groups_dispatchGroup_of_takes hwf hformed htakes now batch
      exact iff_of_true (groups_foldl_ne_nil hgroups gs) ⟨g, List.mem_cons_self, htakes⟩
    · -- the groups that follow find everything as it was
      obtain ⟨hgroups, hspared⟩ := spared_dispatchGroup hwf hformed htakes now batch
      obtain ⟨ms, heffects, -, hrest⟩ := @dispatchGroup_spec env now (σ, batch) g gs hwf hformed
      generalize dispatchGroup now (σ, batch) g = acc at *
      rw [show acc = (acc.1, acc.2) from rfl, ih (heffects.wf hwf) hrest (hgroups.trans hbatch)]
      simp only [hspared.takes_iff, List.exists_mem_cons_iff, htakes, false_or]

/-- **When a cycle dispatches something**: exactly if one of the groups that it forms can be
dispatched by itself. -/
theorem groups_runCycle_ne_nil_iff (hwf : σ.view.Wf) (env : Env) (now : Nanoseconds) :
    (σ.runCycle env now).2.groups ≠ [] ↔
      ∃ g ∈ σ.formed env now, (σ.expirySweep now).Takes g := by
  have hsweep := (effects_expirySweep env now σ hwf).wf hwf
  rw [formed]
  generalize hτ : σ.expirySweep now = τ at hsweep ⊢
  have hspec := formGroups_spec env hsweep (nodup_sortedCandidates env now τ)
  have haround := around_formGroups env (τ.sortedCandidates env now) τ
  obtain ⟨⟨n, hview⟩, -⟩ := formGroups_rec (P := fun _ => True) (fun _ _ _ _ _ => trivial)
    (fun _ _ _ _ _ _ _ => trivial) (τ.sortedCandidates env now) (rfl : τ.view = _)
  have hidle : Effect env _ .idle _ := Effect.idle hspec.1
  have hwf' := hidle.wf hsweep
  rw [runCycle_eq, hτ, dispatchPhase]
  generalize formGroups env (τ.sortedCandidates env now) τ = made at *
  have hspared : Spared τ made.1 :=
    ⟨congrArg Surroundings.workers haround, (congrArg View.req hview :),
      (congrArg (·.mem.reserved) hview :), (congrArg (·.mem.budget) hview :)⟩
  change (made.2.foldl (dispatchGroup now) (made.1, {})).2.groups ≠ [] ↔ _
  rw [groups_foldl_ne_nil_iff env hwf' hspec.2 rfl]
  simp only [hspared.takes_iff]

end Impl

/-- **When something is dispatched.** In every state a scheduler can be in, a cycle dispatches a
group exactly if, once what is overdue has been expired, one of the groups into which the next
chunks of the waiting requests are packed has a worker that can take it, and needs no memory or,
with all of its members, no more than is left. -/
theorem Life.dispatches_iff (ℓ : Life) (n : ℕ) (now : Nanoseconds) :
    ((ℓ.stateAt n).runCycle ℓ.env now).2.groups ≠ [] ↔
      ∃ g ∈ (ℓ.stateAt n).formed ℓ.env now, ((ℓ.stateAt n).expirySweep now).Takes g :=
  Impl.groups_runCycle_ne_nil_iff (ℓ.wf n) ℓ.env now

/-- A request could be dispatched if it were alone: it waits and is not overdue, its next chunk is
within the budget, and a worker that is ready has a unit for it. -/
def Impl.CouldRun (env : Env) (now : Nanoseconds) (σ : Impl) (r : RequestId) : Prop :=
  ∃ s, σ.requests.lookup r = some s ∧ s.isWaiting = true ∧ ¬σ.Overdue now r ∧
    s.nextChunk.memoryEstimateBytes.toNat ≤ σ.mem.budget ∧
    ∃ w ws, σ.workers.lookup w = some ws ∧ ws.desc.state = .ready ∧
      eligible (makeCompatKey env s.request).backend ws = true

/-- Sixteen requests of one token, each estimated at the memory that a chunk may have. -/
def Run.crowdCalls : List Call :=
  (List.range 16).map fun i =>
    ⟨0, .submitWithTokens { plainRequest (i + 1) 1 with memoryEstimateBytes := 536870912 } [5]⟩

/-- Under the default policy they are packed into one group, which needs the whole device: nothing
is dispatched, though there is memory for fourteen of them, and none in use. -/
theorem Run.groups_crowdCalls :
    let σ := (Run.fresh .standard crowdCalls).stateAt 16
    σ.groups.entries = [] ∧ σ.mem.reserved = 0 ∧ σ.CouldRun .standard 0 ⟨1⟩ ∧
      (σ.runCycle .standard 0).2.groups = [] := by
  intro σ
  have hgroups : σ.groups.entries = [] := by decide +kernel
  have hnone : (σ.runCycle .standard 0).2.groups.length = 0 := by decide +kernel
  have hrequest : (σ.requests.lookup ⟨1⟩).map (fun s =>
      (s.isWaiting, s.deadlinePassed 0 || s.queueDelayPassed 0,
        decide (s.nextChunk.memoryEstimateBytes.toNat ≤ σ.mem.budget),
        (makeCompatKey .standard s.request).backend)) = some (true, false, true, kBackendAny) := by
    decide +kernel
  have hworker : (σ.workers.lookup .nil).map (fun ws =>
      (ws.desc.state, Impl.eligible kBackendAny ws)) = some (.ready, true) := by
    decide +kernel
  obtain ⟨s, hs, heq⟩ := Option.map_eq_some_iff.mp hrequest
  obtain ⟨ws, hws, heq'⟩ := Option.map_eq_some_iff.mp hworker
  simp only [Prod.mk.injEq, Bool.or_eq_false_iff, decide_eq_true_eq] at heq heq'
  obtain ⟨hwait, ⟨hdeadline, hdelay⟩, hfits, hbackend⟩ := heq
  refine ⟨hgroups, by decide +kernel, ⟨s, hs, hwait, ?_, hfits, .nil, ws, hws, heq'.1, ?_⟩,
    List.length_eq_zero_iff.mp hnone⟩
  · rintro ⟨t, ht, -, hover⟩
    obtain rfl := Option.some.inj (hs.symm.trans ht)
    rw [hdeadline, hdelay] at hover
    simp at hover
  · rw [hbackend]
    exact heq'.2

end PrefillFabric
