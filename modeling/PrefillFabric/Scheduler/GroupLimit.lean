import PrefillFabric.Estimates
import PrefillFabric.Scheduler.Accounts
import PrefillFabric.Scheduler.Formation
import PrefillFabric.Scheduler.GroupMemory

/-!
# How much memory a group may have

A policy has a limit for the memory of a group. When a member is added the limit is compared with
the largest estimate of a member; what is reserved is the sum over all of them. So a group may get
more than the limit (`Life.reservedBytes_heavy`), and what keeps it from that is the rest of the
policy. A group has so many members at most, each of them needs no more than a chunk may have, and
no more than a group may have if there are several; and all of them together are within the budget
of the governor. If the product or the budget is within the limit, so is every group.

There is no other reason. Where both are above the limit, requests of a single token can be
submitted that are packed together and dispatched with a byte too many
(`Env.exists_reservedBytes_eq`). `Env.groupsFit_iff` puts the two together.
-/

namespace PrefillFabric

/-! ### The largest estimate -/

namespace ExecutionGroup

variable {env : Env} {g : ExecutionGroup} {rid : RequestId} {s : Rs}

/-- **What is known of the largest estimate**: it is that of the members, and it has been compared
with the limit if there are several. -/
structure Peaked (env : Env) (g : ExecutionGroup) : Prop where
  peak : ∀ b, g.maxMemoryEstimateBytes.toNat ≤ b ↔
    ∀ m ∈ g.members, m.memoryEstimateBytes.toNat ≤ b
  checked : 2 ≤ g.members.length →
    g.maxMemoryEstimateBytes.toNat ≤ env.cfg.maxMemoryPerGroup.toNat

/-- A member more. -/
theorem peak_add (h : ∀ b, g.maxMemoryEstimateBytes.toNat ≤ b ↔
      ∀ m ∈ g.members, m.memoryEstimateBytes.toNat ≤ b) (rid : RequestId) (s : Rs) (b : ℕ) :
    (g.add rid s).maxMemoryEstimateBytes.toNat ≤ b ↔
      ∀ m ∈ (g.add rid s).members, m.memoryEstimateBytes.toNat ≤ b := by
  change (max g.maxMemoryEstimateBytes s.nextChunk.memoryEstimateBytes).toNat ≤ b ↔
    ∀ m ∈ g.members ++ [s.nextMember rid _], m.memoryEstimateBytes.toNat ≤ b
  rw [UInt64.toNat_max, max_le_iff, h b, List.forall_mem_append, List.forall_mem_singleton]
  rfl

theorem peaked_opened (gid : GroupId) (rid : RequestId) (s : Rs) :
    (opened env gid rid s).Peaked env where
  peak := peak_add
    (g := { groupId := gid, key := makeCompatKey env s.request,
            backend := (makeCompatKey env s.request).backend,
            device := (makeCompatKey env s.request).device })
    (fun b => iff_of_true (Nat.zero_le b) (List.forall_mem_nil _)) rid s
  checked htwo := by
    rw [opened, length_add] at htwo
    exact absurd htwo (by simp)

theorem Peaked.add (h : g.Peaked env) (hadmits : g.admits env s = true) (rid : RequestId) :
    (g.add rid s).Peaked env where
  peak := peak_add h.peak rid s
  checked _ := by
    simp only [admits, Bool.and_eq_true, decide_eq_true_eq] at hadmits
    exact UInt64.le_iff_toNat_le.mp hadmits.2

end ExecutionGroup

namespace Impl

variable {env : Env} {now : Nanoseconds} {σ : Impl} {g : ExecutionGroup} {d : DispatchedGroup}

theorem peaked_of_mem_formed (hg : g ∈ σ.formed env now) : g.Peaked env :=
  (formGroups_rec (P := fun g => g.Peaked env)
    (fun gid rid s _ _ => ExecutionGroup.peaked_opened gid rid s)
    (fun _ rid _ h _ _ hadmits => h.add hadmits rid) _ rfl).2 g hg

/-! ### What is reserved -/

/-- What is reserved for a group is the sum over its members. -/
theorem reservedBytes_eq (hd : d ∈ (σ.runCycle env now).2.groups) :
    d.reservedBytes = (d.group.members.map (·.memoryEstimateBytes.toNat)).sum := by
  rcases groups_foldl_dispatchGroup _ _ d hd with hd | ⟨g, -, -, hplain, hbytes⟩
  · exact absurd hd List.not_mem_nil
  · rw [hbytes, ExecutionGroup.map_members_eq hplain fun _ => rfl]

/-- What is reserved for a group is within the budget. -/
theorem reservedBytes_le_budget (hwf : σ.view.Wf) (hd : d ∈ (σ.runCycle env now).2.groups) :
    d.reservedBytes ≤ σ.mem.budget := by
  obtain ⟨g, hg, hplain⟩ := exists_formed hd
  obtain ⟨before, after, hsplit⟩ := List.append_of_mem hg
  obtain ⟨hwf', hformed, -⟩ := tried_spec hwf hsplit
  have hsum := bytesOf_tried hwf hsplit
  rw [← ExecutionGroup.map_members_eq hplain fun _ => rfl, ← reservedBytes_eq hd] at hsum
  have haffords : (σ.tried env now before).1.mem.Affords d.reservedBytes := by
    rcases dispatchGroup_cases now hwf' hformed with ⟨hidle, -⟩ | ⟨w, -, hok, -⟩
    · -- the requests of a group that is put off are in no group of the batch, and this one's are
      obtain ⟨r, hr⟩ : ∃ r, r ∈ g.rids :=
        List.exists_mem_of_ne_nil _ (mt List.map_eq_nil_iff.mp
          (hformed.ne_nil g List.mem_cons_self))
      rcases dispatched_or_kept hwf hsplit with ⟨_, _, _, hflight⟩ | ⟨hnone, -⟩
      · obtain ⟨s, -, hs, hwait, -⟩ := req_eq_of_split hwf hsplit hr
        obtain ⟨t, ht, -, hin, -⟩ := hflight r hr
        have hreq := req_runCycle_of_split hwf hsplit hr
        rw [hidle.req, hs] at hreq
        obtain rfl := Option.some.inj ((view_req ht).symm.trans hreq)
        exact absurd ((Rs.isWaiting_iff.mp hwait).2.1.symm.trans hin) Bool.noConfusion
      · exact absurd (ExecutionGroup.rids_eq hplain ▸ hr) (hnone d hd r hr)
    · rw [← hsum]
      exact (reserveMembers_ok_iff g.rids _ (held_eq_none hwf')).mp hok
  rcases haffords with hzero | hle
  · exact hzero ▸ Nat.zero_le _
  · rw [budget_tried hwf] at hle
    exact (Nat.le_add_left ..).trans hle

end Impl

/-! ### Policies that keep to the limit -/

/-- What a governor can hand out, in every state a scheduler can be in. -/
theorem Reachable.budget_eq {env : Env} {σ : Impl} (h : Reachable env σ) :
    σ.mem.budget = env.usableMemoryBytes - env.cfg.memoryHeadroomBytes.toNat := by
  induction h with
  | fresh env => rfl
  | step h c ih => exact (Impl.memBudget_step _ h.wf_sane.1 c).trans ih
  | importState _ _ now ih _ =>
    rw [Impl.mem_importState]
    exact ih

/-- **A policy that keeps groups within their limit**: as many chunks as a group may have members
do not need more together, each of them within what a chunk may have and within the limit; or there
is not more than that to hand out. -/
def Env.KeepsToLimit (env : Env) : Prop :=
  env.cfg.maxRequestsPerGroup.toNat *
      min env.cfg.maxMemoryPerChunk.toNat env.cfg.maxMemoryPerGroup.toNat ≤
    env.cfg.maxMemoryPerGroup.toNat ∨
  env.usableMemoryBytes - env.cfg.memoryHeadroomBytes.toNat ≤ env.cfg.maxMemoryPerGroup.toNat

/-- **Groups fit**: in every state a scheduler can be in, what a cycle reserves for a group of
several members is within the limit for a group. -/
def Env.GroupsFit (env : Env) : Prop :=
  ∀ σ, Reachable env σ → ∀ now, ∀ d ∈ (σ.runCycle env now).2.groups,
    2 ≤ d.group.members.length → d.reservedBytes ≤ env.cfg.maxMemoryPerGroup.toNat

/-- A member of several needs no more than a chunk may have, and no more than a group may have. -/
theorem Reachable.memoryEstimateBytes_le {env : Env} {σ : Impl} {now : Nanoseconds}
    (h : Reachable env σ) {d : DispatchedGroup} (hd : d ∈ (σ.runCycle env now).2.groups)
    (htwo : 2 ≤ d.group.members.length) :
    ∀ b ∈ d.group.members.map (·.memoryEstimateBytes.toNat),
      b ≤ min env.cfg.maxMemoryPerChunk.toNat env.cfg.maxMemoryPerGroup.toNat := by
  intro b hb
  obtain ⟨g, hg, hplain⟩ := Impl.exists_formed hd
  refine le_min ?_ ?_
  · obtain ⟨m, hm, rfl⟩ := List.mem_map.mp hb
    obtain ⟨s, hs, hwait, heq⟩ := Impl.next_of_mem_runCycle h.wf_sane.1 hd hm
    have hmem : s.nextChunk ∈ s.plan.chunks := Rs.nextChunk_mem hwait
    rw [(h.wf_sane.2 _ s hs).plan_eq] at hmem
    have hbytes : m.memoryEstimateBytes = s.nextChunk.memoryEstimateBytes :=
      congrArg ExecutableMember.memoryEstimateBytes heq
    rw [hbytes]
    exact (ChunkPlanner.estimates_le_of_mem_plan hmem).2
  · rw [ExecutionGroup.length_members_eq hplain] at htwo
    rw [ExecutionGroup.map_members_eq hplain fun _ => rfl] at hb
    obtain ⟨m, hm, rfl⟩ := List.mem_map.mp hb
    have hpeaked := Impl.peaked_of_mem_formed hg
    exact (hpeaked.peak _).mp (hpeaked.checked htwo) m hm

/-- **Under such a policy groups fit.** -/
theorem Env.KeepsToLimit.groupsFit {env : Env} (hkeeps : env.KeepsToLimit) : env.GroupsFit := by
  intro σ h now d hd htwo
  rcases hkeeps with hproduct | hbudget
  · obtain ⟨g, hg, hplain⟩ := Impl.exists_formed hd
    have hlength := (((Impl.formed_spec hg).1.of_plain hplain).checked htwo).1
    have hsum := List.sum_le_card_nsmul _ _ (h.memoryEstimateBytes_le hd htwo)
    rw [List.length_map, ← Impl.reservedBytes_eq hd] at hsum
    exact hsum.trans ((Nat.mul_le_mul_right _ hlength).trans hproduct)
  · exact (Impl.reservedBytes_le_budget h.wf_sane.1 hd).trans (h.budget_eq.trans_le hbudget)

/-! ### Filling a group -/

/-- A request of one token from a tenant of its own, with an estimate of its memory. -/
def singleToken (i : ℕ) (bytes : UInt64) : PrefillRequest where
  requestId := ⟨i + 1⟩
  tenantId := ⟨i + 1⟩
  promptTokenCount := 1
  memoryEstimateBytes := bytes

/-- **A policy that lets requests in**: as many as a group may have members, if they have a token
each and come from as many tenants. -/
structure SchedulerConfig.LetsIn (cfg : SchedulerConfig) : Prop where
  requests : cfg.maxRequestsPerGroup.toNat ≤ cfg.maxAdmittedRequests.toNat
  tokens : cfg.maxRequestsPerGroup.toNat ≤ cfg.maxTokensPerGroup.toNat
  outstanding : 0 < cfg.perTenantOutstandingLimit.toNat
  admittedTokens : 1 ≤ cfg.perTenantAdmittedTokenLimit

/-- **Requests that could be packed together**: so many of one token, each within what a chunk and
what a group may have, under a policy that lets them in. -/
structure Packable (env : Env) (bytes : ℕ → UInt64) (n : ℕ) : Prop where
  exact : env.fpu.Exact
  letsIn : env.cfg.LetsIn
  few : n ≤ env.cfg.maxRequestsPerGroup.toNat
  pos : ∀ i < n, 0 < bytes i
  chunk : ∀ i < n, bytes i ≤ env.cfg.maxMemoryPerChunk
  group : ∀ i < n, bytes i ≤ env.cfg.maxMemoryPerGroup

section Filling

variable {env : Env} {bytes : ℕ → UInt64} {n : ℕ}

/-- The one chunk of such a request: its token, and the memory that it is estimated at. -/
theorem Packable.chunk_eq (h : Packable env bytes n) {i : ℕ} (hi : i < n) {attempt : AttemptId}
    {c : PrefillChunk}
    (hc : c ∈ (ChunkPlanner.plan env (singleToken i (bytes i)) attempt .nil).chunks) :
    c.tokenCount = 1 ∧ c.computeEstimate = 0 ∧ c.memoryEstimateBytes = bytes i := by
  have hrem : (singleToken i (bytes i)).remainingPrefillTokens = 1 := rfl
  have hcount := ChunkPlanner.tokenCount_of_mem_plan env _ _ _ hc
  have hsize := ChunkPlanner.effectiveChunkTokenCount_le env (singleToken i (bytes i))
  have hone : c.tokenCount = 1 := by omega
  have hpos : 0 < (singleToken i (bytes i)).memoryEstimateBytes := h.pos i hi
  have hbytes := ChunkPlanner.memoryEstimateBytes_of_mem_plan h.exact hpos (hrem ▸ Nat.one_pos)
    attempt .nil hc
  rw [ChunkPlanner.share_eq, hone, hrem, Nat.one_mul, Nat.div_one] at hbytes
  refine ⟨hone, ?_, UInt64.toNat_inj.mp (hbytes.trans (Nat.min_eq_left ?_))⟩
  · rw [ChunkPlanner.plan_chunks_eq_map] at hc
    obtain ⟨i, -, rfl⟩ := List.mem_map.mp hc
    rfl
  · exact UInt64.le_iff_toNat_le.mp (h.chunk i hi)

namespace Impl

/-- A scheduler with so many of them, and nothing else. -/
structure Filled (env : Env) (bytes : ℕ → UInt64) (n : ℕ) (σ : Impl) : Prop where
  known : ∀ i < n, ∃ a, σ.requests.lookup ⟨i + 1⟩ =
    some (admittedRecord env 0 (singleToken i (bytes i)) a)
  only : ∀ r s, σ.requests.lookup r = some s → ∃ i < n, r = ⟨i + 1⟩
  size_eq : AList.size σ.requests = n
  newcomer : ∀ i, n ≤ i → σ.tenants.lookup ⟨i + 1⟩ = none
  workers_eq : σ.workers = (fresh env).workers
  mem_eq : σ.mem = (fresh env).mem

theorem filled_fresh (env : Env) (bytes : ℕ → UInt64) : (fresh env).Filled env bytes 0 where
  known _ h := absurd h (Nat.not_lt_zero _)
  only _ _ h := absurd h (Option.some_ne_none _).symm
  size_eq := rfl
  newcomer _ _ := rfl
  workers_eq := rfl
  mem_eq := rfl

variable {σ : Impl}

/-- There is room for another one. -/
theorem Filled.admits (h : σ.Filled env bytes n) (hopen : env.cfg.LetsIn)
    (hn : n < env.cfg.maxRequestsPerGroup.toNat) :
    σ.Admits env (singleToken n (bytes n)) where
  valid := by
    simp [PrefillRequest.validate, singleToken, StrongId.isNil]
    decide
  new := by
    by_contra hc
    obtain ⟨s, hs⟩ := Option.ne_none_iff_exists'.mp hc
    obtain ⟨i, hi, heq⟩ := h.only _ s hs
    have : n + 1 = i + 1 := congrArg StrongId.value heq
    omega
  room := h.size_eq.trans_lt (hn.trans_le hopen.requests)
  outstanding := by
    rw [show σ.tenants.lookup (singleToken n (bytes n)).tenantId = none from h.newcomer n le_rfl]
    exact hopen.outstanding
  admittedTokens := by
    rw [show σ.tenants.lookup (singleToken n (bytes n)).tenantId = none from h.newcomer n le_rfl]
    exact hopen.admittedTokens

/-- Another one. -/
theorem Filled.step (h : σ.Filled env bytes n) (hopen : env.cfg.LetsIn)
    (hn : n < env.cfg.maxRequestsPerGroup.toNat) :
    (σ.step env ⟨0, .submitWithTokens (singleToken n (bytes n)) [0]⟩).1.Filled env bytes
      (n + 1) := by
  have hadmits := h.admits hopen hn
  have hsome : (singleToken n (bytes n)).remainingPrefillTokens ≠ 0 := Nat.one_ne_zero
  rw [step_of_admits 0 hadmits rfl, admitRequest_eq, if_neg hsome]
  constructor
  · intro i hi
    change ∃ a, (σ.requests.insert _ _).lookup _ = _
    by_cases heq : i = n
    · subst heq
      exact ⟨_, AList.lookup_insert ..⟩
    · obtain ⟨a, ha⟩ := h.known i (by omega)
      refine ⟨a, ?_⟩
      rw [AList.lookup_insert_ne fun hc => heq ?_, ha]
      exact Nat.succ.inj (congrArg StrongId.value hc)
  · intro r s hs
    change (σ.requests.insert _ _).lookup r = some s at hs
    rw [AList.lookup_insert_eq_ite] at hs
    split_ifs at hs with hr
    · exact ⟨n, Nat.lt_succ_self n, hr⟩
    · obtain ⟨i, hi, heq⟩ := h.only r s hs
      exact ⟨i, Nat.lt_succ_of_lt hi, heq⟩
  · have hsize := AList.total_insert (fun _ _ => 1) σ.requests (singleToken n (bytes n)).requestId
      (admittedRecord env 0 (singleToken n (bytes n)) ⟨σ.nextAttemptValue⟩)
    rw [AList.total_one, AList.total_one, hadmits.new, h.size_eq] at hsize
    exact hsize
  · intro i hi
    have hne : (⟨i + 1⟩ : TenantId) ≠ (singleToken n (bytes n)).tenantId := fun heq => by
      have : i + 1 = n + 1 := congrArg StrongId.value heq
      omega
    change ((σ.tenants.insert _ _).insert _ _).lookup _ = none
    rw [AList.lookup_insert_ne hne, AList.lookup_insert_ne hne]
    exact h.newcomer i (by omega)
  · exact h.workers_eq
  · exact h.mem_eq

/-- As many as a group may have members can be submitted. -/
theorem exists_filled (hopen : env.cfg.LetsIn) (bytes : ℕ → UInt64)
    (hn : n ≤ env.cfg.maxRequestsPerGroup.toNat) :
    ∃ σ, Reachable env σ ∧ σ.Filled env bytes n := by
  induction n with
  | zero => exact ⟨_, .fresh env, filled_fresh env bytes⟩
  | succ n ih =>
    obtain ⟨σ, hreachable, hfilled⟩ := ih (Nat.le_of_succ_le hn)
    exact ⟨_, hreachable.step _, hfilled.step hopen hn⟩

/-! #### What a cycle makes of them -/

section

variable (h : σ.Filled env bytes n)

include h

theorem Filled.isWaiting {r : RequestId} {s : Rs} (hs : σ.requests.lookup r = some s) :
    ∃ i < n, ∃ a, r = ⟨i + 1⟩ ∧ s = admittedRecord env 0 (singleToken i (bytes i)) a ∧
      s.isWaiting = true := by
  obtain ⟨i, hi, rfl⟩ := h.only r s hs
  obtain ⟨a, ha⟩ := h.known i hi
  obtain rfl := Option.some.inj (hs.symm.trans ha)
  refine ⟨i, hi, a, rfl, rfl, Rs.isWaiting_iff.mpr ⟨rfl, rfl, ?_⟩⟩
  exact List.length_pos_iff.mpr (ChunkPlanner.plan_chunks_ne_nil env _ _ _ Nat.one_pos)

/-- None of them is late. -/
theorem Filled.expirySweep_eq (now : Nanoseconds) : σ.expirySweep now = σ := by
  refine foldl_sweepRequest_of_not_overdue _ fun r => ?_
  rintro ⟨s, hs, -, hlate⟩
  obtain ⟨i, -, a, -, rfl, -⟩ := h.isWaiting hs
  rcases hlate with hlate | hlate <;> exact Bool.noConfusion hlate

/-- All of them are candidates. -/
theorem Filled.perm_sortedCandidates (now : Nanoseconds) :
    (σ.sortedCandidates env now).Perm ((List.range n).map fun i => ⟨i + 1⟩) := by
  have hinj : Function.Injective fun i : ℕ => (⟨i + 1⟩ : RequestId) :=
    fun i j heq => Nat.succ.inj (congrArg StrongId.value heq)
  refine (List.perm_ext_iff_of_nodup (nodup_sortedCandidates env now σ)
    (List.nodup_range.map hinj)).mpr fun r => ?_
  rw [mem_sortedCandidates, mem_candidates, List.mem_map]
  constructor
  · rintro ⟨s, hs, -⟩
    obtain ⟨i, hi, rfl⟩ := h.only r s hs
    exact ⟨i, List.mem_range.mpr hi, rfl⟩
  · rintro ⟨i, hi, rfl⟩
    obtain ⟨a, ha⟩ := h.known i (List.mem_range.mp hi)
    obtain ⟨-, -, -, -, -, hwait⟩ := h.isWaiting ha
    exact ⟨_, ha, hwait⟩

/-- All groups that are formed have the same key. -/
theorem Filled.key_eq {now : Nanoseconds} {g : ExecutionGroup} (hg : g ∈ σ.formed env now)
    {m : ExecutableMember} (hm : m ∈ g.members) :
    g.key = makeCompatKey env (singleToken 0 0) := by
  obtain ⟨t, ht, hkey⟩ := keyed_formGroups _ _ g hg m.requestId (List.mem_map_of_mem hm)
  rw [h.expirySweep_eq] at ht
  obtain ⟨s, hs, rfl⟩ := exists_of_view_req ht
  obtain ⟨i, -, a, -, rfl, -⟩ := h.isWaiting hs
  exact hkey.symm

variable (hpack : Packable env bytes n)

include hpack

/-- A member of a group that is formed has one token, and the memory it is estimated at. -/
theorem Filled.member_eq {now : Nanoseconds} {g : ExecutionGroup} (hg : g ∈ σ.formed env now)
    {m : ExecutableMember} (hm : m ∈ g.members) :
    m.tokenCount = 1 ∧ m.computeEstimate = 0 ∧
      m.memoryEstimateBytes ≤ env.cfg.maxMemoryPerGroup := by
  obtain ⟨t, ht, hwait, heq⟩ := (formed_spec hg).2 m hm
  rw [h.expirySweep_eq] at ht
  obtain ⟨s, hs, rfl⟩ := exists_of_view_req ht
  obtain ⟨i, hi, a, -, rfl, -⟩ := h.isWaiting hs
  have hchunk := Rs.nextChunk_mem hwait
  obtain ⟨hcount, hcompute, hbytes⟩ := hpack.chunk_eq hi hchunk
  have hmember : m.memoryEstimateBytes = bytes i :=
    (congrArg ExecutableMember.memoryEstimateBytes heq).trans hbytes
  refine ⟨?_, ?_, hmember ▸ hpack.group i hi⟩
  · exact (congrArg ExecutableMember.tokenCount heq).trans hcount
  · exact (congrArg ExecutableMember.computeEstimate heq).trans hcompute

/-- A group without all of them has room for the member of another group. -/
theorem Filled.not_crowded {now : Nanoseconds} {g g' : ExecutionGroup}
    (hg : g ∈ σ.formed env now) (hg' : g' ∈ σ.formed env now) {m : ExecutableMember}
    (hm : m ∈ g'.members) (hfew : g.members.length + 1 ≤ n) : ¬g.Crowded env m := by
  obtain ⟨hcount, hcompute, hbytes⟩ := h.member_eq hpack hg' hm
  have htokens : g.tokenSum = g.members.length := by
    have hones : g.members.map (·.tokenCount) = g.members.map fun _ => 1 :=
      List.map_congr_left fun x hx => (h.member_eq hpack hg hx).1
    rw [ExecutionGroup.tokenSum, hones, List.map_const', List.sum_replicate_nat, Nat.mul_one]
  have hwork : g.computeSum = 0 := by
    refine List.sum_eq_zero fun x hx => ?_
    obtain ⟨y, hy, rfl⟩ := List.mem_map.mp hx
    rw [(h.member_eq hpack hg hy).2.1]
    rfl
  have hpeak : g.maxMemoryEstimateBytes.toNat ≤ env.cfg.maxMemoryPerGroup.toNat :=
    ((peaked_of_mem_formed hg).peak _).mpr fun x hx =>
      UInt64.le_iff_toNat_le.mp (h.member_eq hpack hg hx).2.2
  have hroom := hfew.trans hpack.few
  rw [ExecutionGroup.Crowded, htokens, hwork, hcount, hcompute]
  rintro (hc | hc | hc | hc)
  · exact absurd hc (Nat.not_lt.mpr hroom)
  · exact absurd hc (Nat.not_lt.mpr (hroom.trans hpack.letsIn.tokens))
  · exact absurd hc (Nat.not_lt_zero _)
  · exact absurd hc (Nat.not_lt.mpr (max_le hpeak (UInt64.le_iff_toNat_le.mp hbytes)))

/-- **They are packed into one group.** -/
theorem Filled.formed_eq (hwf : σ.view.Wf) (hone : 0 < n) (now : Nanoseconds) :
    ∃ g, σ.formed env now = [g] := by
  have hperm := (packed_formed env now σ).perm
  rw [h.expirySweep_eq] at hperm
  have hlength := (hperm.trans (h.perm_sortedCandidates now)).length_eq
  rw [List.length_map, List.length_range] at hlength
  have hne : ∀ g ∈ σ.formed env now, g.members ≠ [] :=
    (formGroups_spec env ((effects_expirySweep env now σ hwf).wf hwf)
      (nodup_sortedCandidates env now (σ.expirySweep now))).2.ne_nil
  have hneeded := pairwise_neededAfter env now σ
  cases hformed : σ.formed env now with
  | nil =>
    rw [hformed, List.flatMap_nil] at hlength
    exact absurd hlength.symm (Nat.pos_iff_ne_zero.mp hone)
  | cons g gs =>
    cases gs with
    | nil => exact ⟨g, rfl⟩
    | cons g' gs =>
      -- the second was opened for want of room in the first, and there is room for all
      have hg : g ∈ σ.formed env now := hformed ▸ List.mem_cons_self
      have hg' : g' ∈ σ.formed env now := hformed ▸ List.mem_cons_of_mem g List.mem_cons_self
      obtain ⟨m₀, ms₀, hm₀⟩ := List.exists_cons_of_ne_nil (hne g hg)
      obtain ⟨m, ms, hm⟩ := List.exists_cons_of_ne_nil (hne g' hg')
      have hin₀ : m₀ ∈ g.members := hm₀ ▸ List.mem_cons_self
      have hin : m ∈ g'.members := hm ▸ List.mem_cons_self
      have hkey := (h.key_eq hg hin₀).trans (h.key_eq hg' hin).symm
      rw [hformed] at hlength hneeded
      have hfew : g.members.length + 1 ≤ n := by
        rw [List.flatMap_cons, List.flatMap_cons, List.length_append, List.length_append,
          ExecutionGroup.rids, List.length_map, ExecutionGroup.rids, List.length_map, hm,
          List.length_cons] at hlength
        omega
      have hcrowded := (List.pairwise_cons.mp hneeded).1 g' List.mem_cons_self hkey m
        (by rw [hm]; rfl)
      exact absurd hcrowded (h.not_crowded hpack hg hg' hin hfew)

/-- The memory that they need together. -/
theorem Filled.bytesOf_eq {rids : List RequestId}
    (hperm : rids.Perm ((List.range n).map fun i => ⟨i + 1⟩)) :
    σ.bytesOf rids = ((List.range n).map fun i => (bytes i).toNat).sum := by
  rw [bytesOf, (hperm.map _).sum_eq, List.map_map]
  refine congrArg List.sum (List.map_congr_left fun i hi => ?_)
  obtain ⟨a, ha⟩ := h.known i (List.mem_range.mp hi)
  obtain ⟨-, -, -, -, -, hwait⟩ := h.isWaiting ha
  have hchunk := Rs.nextChunk_mem hwait
  rw [Function.comp_apply, nextChunkOf, ha, Option.getD_some,
    (hpack.chunk_eq (List.mem_range.mp hi) hchunk).2.2]

/-- **They are dispatched together**, if there is as much to hand out. -/
theorem Filled.exists_dispatched (hwf : σ.view.Wf) (hone : 0 < n)
    (hbudget : ((List.range n).map fun i => (bytes i).toNat).sum ≤
      env.usableMemoryBytes - env.cfg.memoryHeadroomBytes.toNat) (now : Nanoseconds) :
    ∃ d ∈ (σ.runCycle env now).2.groups, d.group.members.length = n ∧
      d.reservedBytes = ((List.range n).map fun i => (bytes i).toNat).sum := by
  obtain ⟨g, hformed⟩ := h.formed_eq hpack hwf hone now
  have hg : g ∈ σ.formed env now := hformed ▸ List.mem_singleton_self g
  have hperm := (packed_formed env now σ).perm
  rw [h.expirySweep_eq, hformed, List.flatMap_singleton] at hperm
  have hperm' := hperm.trans (h.perm_sortedCandidates now)
  have hlength := hperm'.length_eq
  rw [ExecutionGroup.rids, List.length_map, List.length_map, List.length_range] at hlength
  obtain ⟨m, ms, hm⟩ := List.exists_cons_of_length_pos (hlength.symm ▸ hone)
  have hbackend : g.backend = kBackendAny := by
    rw [backend_of_mem_formed hg, h.key_eq hg (hm ▸ List.mem_cons_self)]
    rfl
  have htakes : (σ.expirySweep now).Takes g := by
    rw [h.expirySweep_eq]
    refine ⟨⟨.nil, _, by rw [h.workers_eq]; exact AList.lookup_insert .., by rw [hbackend]; rfl⟩,
      Or.inr ?_⟩
    rw [h.bytesOf_eq hpack hperm', h.mem_eq]
    exact (Nat.zero_add _).trans_le hbudget
  have hgroups := (groups_runCycle_ne_nil_iff hwf env now).mpr ⟨g, hg, htakes⟩
  obtain ⟨d, hd⟩ := List.exists_mem_of_ne_nil _ hgroups
  obtain ⟨g', hg', hplain⟩ := exists_formed hd
  rw [hformed, List.mem_singleton] at hg'
  subst hg'
  refine ⟨d, hd, (ExecutionGroup.length_members_eq hplain).trans hlength, ?_⟩
  rw [reservedBytes_eq hd, sum_members_eq hwf hd (k := (·.memoryEstimateBytes.toNat))
    (fun _ => rfl) (fun _ _ _ => rfl), ExecutionGroup.rids_eq hplain]
  exact h.bytesOf_eq hpack hperm'

end

end Impl

end Filling

/-! ### A byte too many -/

/-- As many times one number as fit into another, and then one more than is left. -/
def byteTooMany (limit each i : ℕ) : ℕ := if i < limit / each then each else limit % each + 1

theorem byteTooMany_bounds {each : ℕ} (hpos : 0 < each) (limit i : ℕ) :
    1 ≤ byteTooMany limit each i ∧ byteTooMany limit each i ≤ each := by
  have hlt := Nat.mod_lt limit hpos
  rw [byteTooMany]
  split_ifs <;> omega

theorem sum_byteTooMany (limit each : ℕ) :
    ((List.range (limit / each + 1)).map (byteTooMany limit each)).sum = limit + 1 := by
  have hmost : (List.range (limit / each)).map (byteTooMany limit each) =
      (List.range (limit / each)).map fun _ => each :=
    List.map_congr_left fun i hi => if_pos (List.mem_range.mp hi)
  have hlast : byteTooMany limit each (limit / each) = limit % each + 1 := if_neg (lt_irrefl _)
  rw [List.range_succ, List.map_append, List.sum_append, hmost, List.map_const',
    List.sum_replicate_nat, List.length_range, List.map_singleton, List.sum_singleton, hlast,
    ← Nat.add_assoc, Nat.div_add_mod']

/-- **Where a policy does not keep to the limit a group exceeds it**, by a byte. -/
theorem Env.exists_reservedBytes_eq {env : Env} (hexact : env.fpu.Exact)
    (hletsIn : env.cfg.LetsIn) (hnot : ¬env.KeepsToLimit) :
    ∃ σ, Reachable env σ ∧ ∃ d ∈ (σ.runCycle env 0).2.groups, 2 ≤ d.group.members.length ∧
      d.reservedBytes = env.cfg.maxMemoryPerGroup.toNat + 1 := by
  obtain ⟨hproduct, hbudget⟩ := not_or.mp hnot
  rw [Nat.not_le] at hproduct hbudget
  have hle := min_le_right env.cfg.maxMemoryPerChunk.toNat env.cfg.maxMemoryPerGroup.toNat
  have hle' := min_le_left env.cfg.maxMemoryPerChunk.toNat env.cfg.maxMemoryPerGroup.toNat
  generalize hlimit : env.cfg.maxMemoryPerGroup.toNat = limit at *
  generalize min env.cfg.maxMemoryPerChunk.toNat limit = each at *
  have hpos : 0 < each := Nat.pos_of_mul_pos_left (Nat.zero_lt_of_lt hproduct)
  have hword : ∀ i, (UInt64.ofNat (byteTooMany limit each i)).toNat = byteTooMany limit each i :=
    fun i => UInt64.toNat_ofNat_of_lt' (((byteTooMany_bounds hpos limit i).2.trans hle').trans_lt
      (UInt64.toNat_lt _))
  have hpack : Packable env (fun i => .ofNat (byteTooMany limit each i)) (limit / each + 1) :=
    { exact := hexact
      letsIn := hletsIn
      few := (Nat.div_lt_iff_lt_mul hpos).mpr hproduct
      pos := fun i _ => by
        rw [UInt64.lt_iff_toNat_lt, hword]
        exact (byteTooMany_bounds hpos limit i).1
      chunk := fun i _ => by
        rw [UInt64.le_iff_toNat_le, hword]
        exact (byteTooMany_bounds hpos limit i).2.trans hle'
      group := fun i _ => by
        rw [UInt64.le_iff_toNat_le, hword, hlimit]
        exact (byteTooMany_bounds hpos limit i).2.trans hle }
  have hsum : ((List.range (limit / each + 1)).map fun i =>
      (UInt64.ofNat (byteTooMany limit each i)).toNat).sum = limit + 1 := by
    simp only [hword]
    exact sum_byteTooMany limit each
  obtain ⟨σ, hreachable, hfilled⟩ := Impl.exists_filled hletsIn
    (fun i => .ofNat (byteTooMany limit each i)) hpack.few
  obtain ⟨d, hd, hlength, hbytes⟩ := hfilled.exists_dispatched hpack hreachable.wf_sane.1
    (Nat.succ_pos _) (hsum.trans_le hbudget) 0
  refine ⟨σ, hreachable, d, hd, ?_, hbytes.trans hsum⟩
  rw [hlength]
  exact Nat.succ_le_succ ((Nat.one_le_div_iff hpos).mpr hle)

/-- **When groups fit**: exactly under a policy that keeps to the limit, if the arithmetic is exact
and the policy lets in the requests of a full group; and always under a policy that does. -/
theorem Env.groupsFit_iff (env : Env) :
    (env.KeepsToLimit → env.GroupsFit) ∧
      (env.fpu.Exact → env.cfg.LetsIn → (env.GroupsFit ↔ env.KeepsToLimit)) := by
  refine ⟨KeepsToLimit.groupsFit, fun hexact hletsIn => ⟨fun hfit => ?_, KeepsToLimit.groupsFit⟩⟩
  by_contra hnot
  obtain ⟨σ, hreachable, d, hd, htwo, hbytes⟩ := exists_reservedBytes_eq hexact hletsIn hnot
  exact absurd (hfit σ hreachable 0 d hd htwo) (Nat.not_le.mpr (hbytes ▸ Nat.lt_succ_self _))

/-- Two requests to a group. -/
def Env.inPairs : Env := { cfg := { maxRequestsPerGroup := 2 }, fpu := .indefinite }

/-- Requests of a token each, estimated at 512 MiB. -/
def Run.heavyCalls (n : ℕ) : List Call :=
  (List.range n).map fun i => ⟨0, .submitWithTokens
    { plainRequest (i + 1) 1 with memoryEstimateBytes := 536870912 } [5]⟩

/-- Two of them just fit. -/
theorem Env.groupsFit_inPairs :
    inPairs.KeepsToLimit ∧ inPairs.fpu.Exact ∧ inPairs.cfg.LetsIn ∧
      ∃ d ∈ (((Run.fresh .inPairs (Run.heavyCalls 2)).stateAt 2).runCycle .inPairs 0).2.groups,
        d.group.members.length = 2 ∧ d.reservedBytes = inPairs.cfg.maxMemoryPerGroup.toNat ∧
          d.reservedBytes ≤ inPairs.cfg.maxMemoryPerGroup.toNat := by
  have hkeeps : inPairs.KeepsToLimit := Or.inl (by decide +kernel)
  have hgroups : (((Run.fresh .inPairs (Run.heavyCalls 2)).stateAt 2).runCycle
      .inPairs 0).2.groups.map (fun d => (d.group.members.length, d.reservedBytes)) =
      [(2, inPairs.cfg.maxMemoryPerGroup.toNat)] := by
    decide +kernel
  obtain ⟨d, hd, heq⟩ := List.mem_map.mp (hgroups ▸ List.mem_singleton_self _)
  obtain ⟨hlength, hbytes⟩ := Prod.mk.inj heq
  exact ⟨hkeeps, FloatUnit.exact_indefinite,
    ⟨by decide +kernel, by decide +kernel, by decide +kernel, by decide +kernel⟩,
    d, hd, hlength, hbytes, (Env.groupsFit_iff inPairs).1 hkeeps _
      (Run.reachable .inPairs (Run.heavyCalls 2) 2) 0 d hd hlength.ge⟩

/-- Three requests of a token each, estimated at 512 MiB. -/
def Life.heavy : Life where
  env := .standard
  turns := (Run.heavyCalls 3).map .call

/-- Under the default policy they are dispatched in one group, for which 1.5 GiB are reserved; the
limit for a group is 1 GiB. -/
theorem Life.reservedBytes_heavy :
    ∃ d ∈ ((heavy.stateAt 3).runCycle heavy.env 0).2.groups, 2 ≤ d.group.members.length ∧
      heavy.env.cfg.maxMemoryPerGroup.toNat < d.reservedBytes := by
  have hgroups : (((heavy.stateAt 3).runCycle heavy.env 0).2.groups.map fun d =>
      (d.group.members.length, d.reservedBytes)) = [(3, 1610612736)] := by
    decide +kernel
  obtain ⟨d, hd, heq⟩ := List.mem_map.mp (hgroups ▸ List.mem_singleton_self _)
  obtain ⟨hlength, hbytes⟩ := Prod.mk.inj heq
  refine ⟨d, hd, by omega, ?_⟩
  rw [hbytes]
  decide +kernel

end PrefillFabric
