import Mathlib.Data.Rat.Defs
import Mathlib.Tactic.NormNum
import PrefillFabric.Scheduler.Extent
import PrefillFabric.Scheduler.History
import PrefillFabric.Scheduler.Ledger
import PrefillFabric.Scheduler.Order

/-!
# Fairness between tenants

Candidates that are equally urgent are to be ordered by the service their tenants have had, in
proportion to the tenants' weights. The order reads two numbers off the account of a tenant,
its service and its weight, and nothing ever writes them: a completion adds its tokens to the
service of the *request*, and an admission sets the weight only on an account whose weight is
zero, while an account is opened with the weight one. So the accounts keep the share they were
opened with (`Impl.Unserved`), every ratio is the same quotient of zero and one, and the fifth
criterion decides nothing. What decides is the next: the cycles waited, then the time of
admission, then the identity (`Rivals.idxOf_lt_iff_older`).
-/

namespace PrefillFabric

/-! ### Shares -/

/-- The two numbers of a tenant that the order of service reads. -/
def TenantService.share (ts : TenantService) : Double × Double := (ts.normalizedService, ts.weight)

theorem TenantService.share_settle (ts : TenantService) (rem : ℕ) :
    (ts.settle rem).share = ts.share := by
  unfold settle refund
  split_ifs <;> rfl

namespace Impl

variable {env : Env} {now : Nanoseconds} {σ σ' : Impl}

/-- Every share is as it is when an account is opened. -/
def Unserved (σ : Impl) : Prop := ∀ t, (σ.tenant t).share = (.zero, .one)

theorem unserved_fresh (env : Env) : (fresh env).Unserved := fun _ => rfl

/-- A change to an account that leaves the share alone. -/
theorem Unserved.charge (h : σ.Unserved) (t : TenantId) {f : TenantService → TenantService}
    (hf : ∀ ts, (f ts).share = ts.share) : (σ.charge t f).Unserved := by
  intro x
  rw [tenant_charge]
  split_ifs
  · rw [hf, h t]
  · exact h x

theorem Unserved.count (h : σ.Unserved) (f : Stats → Stats) : (σ.count f).Unserved := h

theorem Unserved.of_tenants (h : σ.Unserved) (htenants : σ'.tenants = σ.tenants) :
    σ'.Unserved := by
  intro t
  unfold tenant
  rw [htenants]
  exact h t

theorem Unserved.of_books (h : σ.Unserved) (hbooks : σ'.books = σ.books) : σ'.Unserved :=
  h.of_tenants (congrArg (·.2.1) hbooks)

theorem Unserved.detachMember (h : σ.Unserved) (gid : GroupId) (r : RequestId) :
    (σ.detachMember gid r).Unserved :=
  h.of_books (books_detachMember σ gid r)

theorem Unserved.of_accounts (h : σ.Unserved) (haccounts : σ'.accounts = σ.accounts) :
    σ'.Unserved :=
  h.of_tenants (congrArg Prod.fst haccounts)

/-! ### What leaves the shares alone -/

/-- A sweep takes requests off the accounts, and nothing else. -/
theorem share_expirySweep (now : Nanoseconds) (σ : Impl) (t : TenantId) :
    ((σ.expirySweep now).tenant t).share = (σ.tenant t).share := by
  change (((σ.expirySweep now).extent.ten t).getD {}).share = ((σ.extent.ten t).getD {}).share
  rw [extent_expirySweep]
  refine List.foldlRecOn (motive := fun e : Extent => ((e.ten t).getD {}).share =
    ((σ.extent.ten t).getD {}).share) _ _ rfl fun e he r _ => ?_
  rw [← he]
  rcases e.spared_or_overdue now r with hspared | ⟨s, k, hs, hk⟩
  · rw [Extent.sweep_of_spared hspared]
  · rw [Extent.sweep_of_overdue hs hk]
    simp only [Extent.expire]
    by_cases ht : t = s.request.tenantId
    · rw [ht, Function.update_self]
      rfl
    · rw [Function.update_of_ne ht]

theorem Unserved.expirySweep (h : σ.Unserved) (now : Nanoseconds) :
    (σ.expirySweep now).Unserved := fun t => (share_expirySweep now σ t).trans (h t)

theorem Unserved.settleTenant (h : σ.Unserved) (s : Rs) : (σ.settleTenant s).Unserved :=
  h.charge _ fun ts => ts.share_settle _

theorem Unserved.settleSuccess (h : σ.Unserved) (now : Nanoseconds) (s : Rs) :
    (σ.settleSuccess now s).1.Unserved := by
  unfold Impl.settleSuccess
  split_ifs
  · exact (h.count _).settleTenant s
  · exact h
  · have hcount := (h.count fun st => { st with completed := st.completed + 1 }).charge
      s.request.tenantId
      (f := fun ts => { ts with completedRequests := ts.completedRequests + 1 }) fun _ => rfl
    exact hcount.settleTenant s

theorem Unserved.settleOutcome (h : σ.Unserved) (env : Env) (now : Nanoseconds)
    (result : MemberResult) (s : Rs) : (σ.settleOutcome env now result s).1.Unserved := by
  unfold Impl.settleOutcome
  cases result.outcome with
  | success => exact h.settleSuccess now s
  | needsNextChunk => exact h.settleSuccess now s
  | retryableFailure =>
    dsimp only
    split_ifs
    · exact h
    · exact (h.count _).settleTenant s
  | nonRetryableFailure => exact (h.count _).settleTenant s
  | cancelled => exact (h.count _).settleTenant s
  | expired => exact (h.count _).settleTenant s
  | staleRejected => exact h

/-- A completion is charged to its request. -/
theorem Unserved.reportCompletion (h : σ.Unserved) (env : Env) (now : Nanoseconds)
    (result : MemberResult) : (σ.reportCompletion env now result).1.Unserved := by
  unfold Impl.reportCompletion
  cases σ.checkAuthority result with
  | error why =>
    refine h.of_tenants ?_
    cases why <;> rfl
  | ok s =>
    have haccounted : (σ.accounted now s).Unserved := by
      unfold accounted
      exact (h.count _).charge s.request.tenantId fun _ => rfl
    have hsettled := haccounted.settleOutcome env now result (s.landed env)
    dsimp only
    rw [applyCompletion_eq]
    intro t
    rw [(putAway_spec result.requestId _).2.2 t]
    exact hsettled t

theorem Unserved.cancel (h : σ.Unserved) (now : Nanoseconds) (r : RequestId) :
    (σ.cancel now r).1.Unserved := by
  unfold Impl.cancel
  cases σ.requests.lookup r with
  | none => exact h
  | some s =>
    have hreleased := h.of_books (books_releaseReservation σ s)
    have hsettled := (hreleased.count fun st =>
      { st with cancelled := st.cancelled + 1 }).settleTenant s
    dsimp only
    split_ifs
    · exact h
    · exact h
    · exact hsettled
    · exact hsettled.detachMember s.currentGroup r

/-- An account has a weight before an admission could set it. -/
theorem Unserved.withAccount (h : σ.Unserved) (req : PrefillRequest) :
    (σ.withAccount req).Unserved := by
  intro t
  rw [Impl.withAccount, tenant_charge]
  split_ifs with ht hzero
  · obtain ⟨-, hweight⟩ := Prod.mk.inj (h req.tenantId)
    rw [hweight] at hzero
    exact absurd hzero (by decide)
  · exact h req.tenantId
  · exact h t

theorem Unserved.enrolled (h : σ.Unserved) (req : PrefillRequest) :
    (σ.enrolled req).Unserved := by
  intro t
  rw [Impl.enrolled, tenant_charge]
  split_ifs
  · exact h req.tenantId
  · exact h t

theorem Unserved.submitWithTokens (h : σ.Unserved) (env : Env) (now : Nanoseconds)
    (req : PrefillRequest) (tokens : List UInt32) :
    (σ.submitWithTokens env now req tokens).1.Unserved := by
  have hopen := Unserved.withAccount (σ := σ.withTokens req tokens) h req
  have hsubmission := σ.submission env now req tokens
  generalize σ.submitWithTokens env now req tokens = out at hsubmission
  cases hsubmission with
  | refused => exact h
  | full => exact h
  | limited => exact hopen
  | admitted =>
    have henrolled := hopen.enrolled req
    rw [admitRequest_eq]
    dsimp only
    split_ifs
    · exact (henrolled.count _).charge req.tenantId
        (f := fun ts => { ts with completedRequests := ts.completedRequests + 1 }.leave)
        fun _ => rfl
    · exact henrolled

/-- **No call touches a share.** -/
theorem Unserved.step (h : σ.Unserved) (hwf : σ.view.Wf) (env : Env) (c : Call) :
    (σ.step env c).1.Unserved := by
  obtain ⟨now, op⟩ := c
  cases op with
  | submitWithTokens req tokens => exact h.submitWithTokens env now req tokens
  | runCycle =>
    have hwf' := (effects_expirySweep env now σ hwf).wf hwf
    have hphase := (accounts_dispatchPhase env now hwf').1
    have hswept := h.expirySweep now
    rw [step_runCycle, runCycle_eq]
    generalize (σ.expirySweep now).dispatchPhase env now = out at hphase
    exact hswept.of_tenants hphase
  | reportCompletion result => exact h.reportCompletion env now result
  | cancel r => exact h.cancel now r
  | cancelGeneration r g => exact h.of_accounts (accounts_cancelGeneration r g σ)
  | forceRetry r => exact h.of_accounts (accounts_forceRetry env now r σ)
  | registerWorker w => exact h.of_accounts (accounts_registerWorker now w σ)
  | unregisterWorker w => exact h.of_accounts (accounts_unregisterWorker now w σ)
  | workerLost w => exact h.of_accounts (accounts_workerLost now w σ)
  | rollEpoch => exact h
  | attachExecutor ex backend => exact h.of_accounts (accounts_attachExecutor ex backend σ)

/-- Every ratio is the same quotient. -/
theorem Unserved.serviceRatio_eq (h : σ.Unserved) (s : Rs) :
    serviceRatio env σ s = env.fpu.div .zero .one := by
  obtain ⟨hservice, hweight⟩ := Prod.mk.inj (h s.request.tenantId)
  unfold tenant at hservice hweight
  rw [serviceRatio, hservice, hweight]
  rfl

/-- The ratios are read off the shares. -/
theorem serviceRatio_congr (h : ∀ t, (σ'.tenant t).share = (σ.tenant t).share) :
    serviceRatio env σ' = serviceRatio env σ := by
  funext s
  obtain ⟨hservice, hweight⟩ := Prod.mk.inj (h s.request.tenantId)
  unfold tenant at hservice hweight
  rw [serviceRatio, serviceRatio, hservice, hweight]

theorem Comparable.expirySweep (h : Comparable env σ) (now : Nanoseconds) :
    Comparable env (σ.expirySweep now) := by
  intro s
  rw [serviceRatio_congr (share_expirySweep now σ)]
  exact h s

theorem Unserved.comparable (h : σ.Unserved) (hfpu : (env.fpu.div .zero .one).isNaN = false) :
    Comparable env σ := by
  intro s
  rw [h.serviceRatio_eq]
  exact hfpu

/-- **Age decides**: the one has waited through more cycles, or through as many and was admitted
earlier, or is the lesser of two admitted at the same time. -/
def Older (σ : Impl) (a b : RequestId) : Prop :=
  let sa := (σ.requests.lookup a).getD {}
  let sb := (σ.requests.lookup b).getD {}
  sb.agingCycles < sa.agingCycles ∨ sa.agingCycles = sb.agingCycles ∧
    (sa.admitTime < sb.admitTime ∨ sa.admitTime = sb.admitTime ∧ a.value < b.value)

end Impl

/-- **Shares are never written.** -/
theorem Run.unserved (env : Env) (calls : List Call) (n : ℕ) :
    ((fresh env calls).stateAt n).Unserved := by
  refine (Machine.invariant (M := scheduler env) (P := fun σ => σ.view.Wf ∧ σ.Unserved)
    ⟨Impl.wf_fresh env, Impl.unserved_fresh env⟩ (fun σ c h => ?_) n).2
  exact ⟨Impl.wf_step h.1 c, h.2.step h.1 env c⟩

/-! ### Rivals -/

/-- The number a finite double stands for. -/
def Double.toRat (d : Double) : ℚ :=
  let exponent := d.magnitude / 2 ^ 52
  let fraction := d.magnitude % 2 ^ 52
  let value : ℚ := ((if exponent = 0 then 2 * fraction else 2 ^ 52 + fraction : ℕ) : ℚ) *
    2 ^ exponent / 2 ^ 1075
  if d.bits.toNat < 2 ^ 63 then value else -value

namespace Run

/-- The tokens that call number `n` completes for a tenant: those of the chunk whose success it
reports. -/
def completedBy (ρ : Run) (t : TenantId) (n : ℕ) : ℕ :=
  match ρ.calls[n]? with
  | some ⟨now, .reportCompletion result⟩ =>
    match (ρ.stateAt n).requests.lookup result.requestId with
    | some s =>
      if isOk ((ρ.stateAt n).reportCompletion ρ.env now result).2 = true ∧
          (result.outcome = .success ∨ result.outcome = .needsNextChunk) ∧
          s.request.tenantId = t then
        s.nextChunk.tokenCount
      else 0
    | none => 0
  | _ => 0

/-- The tokens completed for a tenant before call number `n`. -/
def completedFor (ρ : Run) (t : TenantId) (n : ℕ) : ℕ :=
  ((List.range n).map (ρ.completedBy t)).sum

/-- **Two rivals** in a cycle at a time of a run: candidates of different tenants, equal in
urgency, deadline, priority and latency class, the first of the tenant that has had less service
for its weight. -/
structure Rivals (ρ : Run) (n : ℕ) (now : Nanoseconds) (a b : RequestId) (sa sb : Rs) : Prop where
  lookup_left : ((ρ.stateAt n).expirySweep now).requests.lookup a = some sa
  lookup_right : ((ρ.stateAt n).expirySweep now).requests.lookup b = some sb
  waiting_left : sa.isWaiting = true
  waiting_right : sb.isWaiting = true
  tenant : sa.request.tenantId ≠ sb.request.tenantId
  urgent : sa.isUrgent ρ.env now = sb.isUrgent ρ.env now
  deadline : sa.deadlineOrMax = sb.deadlineOrMax
  priority : sa.request.priority = sb.request.priority
  latencyClass : sa.request.latencyClass = sb.request.latencyClass
  /-- The requests of a tenant carry the same weight. -/
  weight : ∀ r r' s s', (ρ.stateAt n).requests.lookup r = some s →
    (ρ.stateAt n).requests.lookup r' = some s' → s.request.tenantId = s'.request.tenantId →
    s.request.tenantWeight = s'.request.tenantWeight
  lessServed :
    (ρ.completedFor sa.request.tenantId n : ℚ) / sa.request.tenantWeight.toRat <
      ρ.completedFor sb.request.tenantId n / sb.request.tenantWeight.toRat

/-- **Service does not count.** In every run, of two rivals the one that is served first is the
older one, whatever service their tenants have had. -/
theorem Rivals.idxOf_lt_iff_older {env : Env} (hfpu : (env.fpu.div .zero .one).isNaN = false)
    {calls : List Call} {n : ℕ} {now : Nanoseconds} {a b : RequestId} {sa sb : Rs}
    (h : (fresh env calls).Rivals n now a b sa sb) :
    let σ := ((fresh env calls).stateAt n).expirySweep now
    (σ.sortedCandidates env now).idxOf a < (σ.sortedCandidates env now).idxOf b ↔ σ.Older a b := by
  intro σ
  have hunserved : σ.Unserved := (unserved env calls n).expirySweep now
  have ha : σ.requests.lookup a = some sa := h.lookup_left
  have hb : σ.requests.lookup b = some sb := h.lookup_right
  rw [Impl.idxOf_lt_iff (hunserved.comparable hfpu)
    (Impl.mem_candidates.mpr ⟨sa, ha, h.waiting_left⟩)
    (Impl.mem_candidates.mpr ⟨sb, hb, h.waiting_right⟩),
    Impl.precedes_iff (hunserved.comparable hfpu)]
  have hurgent : sa.isUrgent env now = sb.isUrgent env now := h.urgent
  simp only [Impl.precedence, Impl.Older, ha, hb, Option.getD_some, Prod.Lex.toLex_lt_toLex,
    hunserved.serviceRatio_eq, hurgent, h.deadline, h.priority, h.latencyClass, lt_irrefl,
    false_or, true_and, OrderDual.toDual_lt_toDual, EmbeddingLike.apply_eq_iff_eq]

theorem toRat_one : Double.one.toRat = 1 := by
  have hexponent : Double.one.magnitude / 2 ^ 52 = 1023 := by decide
  have hfraction : Double.one.magnitude % 2 ^ 52 = 0 := by decide
  rw [Double.toRat, hexponent, hfraction, if_pos (by decide), if_neg (by decide), Nat.add_zero,
    Nat.cast_pow, Nat.cast_ofNat, ← pow_add]
  exact div_self (pow_ne_zero _ two_ne_zero)

/-- A request of the second tenant is served; then each tenant has one in the queue, the second
tenant the older one. -/
def servedCalls : List Call :=
  [⟨0, .submitWithTokens { plainRequest 1 2 with tenantId := ⟨2⟩ } [5, 6]⟩, ⟨0, .runCycle⟩,
    ⟨0, .reportCompletion (firstReport .success)⟩,
    ⟨0, .submitWithTokens { plainRequest 2 2 with tenantId := ⟨2⟩ } [7, 8]⟩,
    ⟨0, .submitWithTokens (plainRequest 3 2) [9, 10]⟩]

/-- The two are rivals. -/
theorem exists_rivals_servedCalls :
    ∃ sa sb, (fresh .standard servedCalls).Rivals 5 0 ⟨3⟩ ⟨2⟩ sa sb := by
  obtain ⟨sa, ha, hwait, htenant, hweight, hurgent, hdeadline, hpriority, hclass⟩ :
      ∃ s, (((fresh .standard servedCalls).stateAt 5).expirySweep 0).requests.lookup ⟨3⟩ = some s ∧
        s.isWaiting = true ∧ s.request.tenantId = ⟨1⟩ ∧ s.request.tenantWeight = .one ∧
        s.isUrgent .standard 0 = false ∧ s.deadlineOrMax = 2 ^ 63 - 1 ∧ s.request.priority = 0 ∧
        s.request.latencyClass = .standard := ⟨_, rfl, by decide +kernel⟩
  obtain ⟨sb, hb, hwait', htenant', hweight', hurgent', hdeadline', hpriority', hclass'⟩ :
      ∃ s, (((fresh .standard servedCalls).stateAt 5).expirySweep 0).requests.lookup ⟨2⟩ = some s ∧
        s.isWaiting = true ∧ s.request.tenantId = ⟨2⟩ ∧ s.request.tenantWeight = .one ∧
        s.isUrgent .standard 0 = false ∧ s.deadlineOrMax = 2 ^ 63 - 1 ∧ s.request.priority = 0 ∧
        s.request.latencyClass = .standard := ⟨_, rfl, by decide +kernel⟩
  refine ⟨sa, sb, ha, hb, hwait, hwait', ?_, hurgent.trans hurgent'.symm,
    hdeadline.trans hdeadline'.symm, hpriority.trans hpriority'.symm, hclass.trans hclass'.symm,
    ?_, ?_⟩
  · rw [htenant, htenant']
    decide
  · -- every request has the weight one
    have hall : ∀ e ∈ ((fresh .standard servedCalls).stateAt 5).requests.entries,
        e.2.request.tenantWeight = .one := by decide +kernel
    intro r r' s s' hs hs' _
    exact (hall _ (AList.mem_lookup_iff.mp hs)).trans (hall _ (AList.mem_lookup_iff.mp hs')).symm
  · have hnone : (fresh .standard servedCalls).completedFor ⟨1⟩ 5 = 0 := by decide +kernel
    have htwo : (fresh .standard servedCalls).completedFor ⟨2⟩ 5 = 2 := by decide +kernel
    rw [htenant, htenant', hweight, hweight', hnone, htwo, toRat_one]
    norm_num

/-- The tenant that has been served already is served first. -/
theorem not_idxOf_lt_servedCalls :
    (∃ sa sb, (fresh .standard servedCalls).Rivals 5 0 ⟨3⟩ ⟨2⟩ sa sb) ∧
      let σ := ((fresh .standard servedCalls).stateAt 5).expirySweep 0
      ¬(σ.sortedCandidates .standard 0).idxOf ⟨3⟩ < (σ.sortedCandidates .standard 0).idxOf ⟨2⟩ :=
  ⟨exists_rivals_servedCalls, by decide +kernel⟩

/-- And it is so because its request is the older one. -/
theorem idxOf_lt_iff_older_servedCalls :
    let σ := ((fresh .standard servedCalls).stateAt 5).expirySweep 0
    (σ.sortedCandidates .standard 0).idxOf ⟨3⟩ < (σ.sortedCandidates .standard 0).idxOf ⟨2⟩ ↔
      σ.Older ⟨3⟩ ⟨2⟩ := by
  obtain ⟨sa, sb, h⟩ := exists_rivals_servedCalls
  exact h.idxOf_lt_iff_older (by decide +kernel)

end Run

end PrefillFabric
