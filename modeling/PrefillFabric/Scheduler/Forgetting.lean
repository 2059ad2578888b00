import PrefillFabric.Scheduler.Accounts
import PrefillFabric.Scheduler.Holdings
import PrefillFabric.Scheduler.Resumption

/-!
# What a recovery forgets

A snapshot holds the identity of a request, its prompt and how far it has come. It does not
hold the terms on which it was submitted: where it may be executed, what it needs, how often
it may be retried; nor that it has been cancelled meanwhile. All of these are at their
defaults after a recovery, so that they survive exactly if they were at their defaults
before (`Impl.terms_recovered_iff`).

The account of a tenant is in the snapshot, but for the tokens it has been admitted with.
These are added up as the requests are read, and then overwritten with the rest of the
account; the number of requests is right again and the number of tokens is zero
(`Reachable.accountsAgree_iff`).

And what the recovering scheduler has in flight itself is forgotten with its requests,
except by the memory governor, which is not told (`Life.nothing_leaks_iff`).
-/

namespace PrefillFabric

/-! ### The terms of a request -/

/-- **The terms of a request**: where it may be executed, what it needs, how often it may
still be retried, and whether it is to be cancelled. -/
structure Terms where
  key : CompatibilityKey
  memoryEstimateBytes : UInt64
  computeEstimate : UInt64
  retriesLeft : ℤ
  cancelPending : Bool
deriving DecidableEq

/-- The terms of a request under a policy. -/
def Rs.terms (env : Env) (s : Rs) : Terms where
  key := makeCompatKey env s.request
  memoryEstimateBytes := s.request.memoryEstimateBytes
  computeEstimate := s.request.computeEstimate
  retriesLeft := s.request.maxRetries - s.retriesUsed
  cancelPending := s.cancelPending

/-- **The terms nobody asked for**: any backend, any device, the usual layout, no estimates,
two retries left, and not to be cancelled. -/
structure Rs.OnDefaultTerms (s : Rs) : Prop where
  backend : s.request.backend = "" ∨ s.request.backend = kBackendAny
  device : s.request.device = .nil
  layout : s.request.inputLayout = .seqMajor
  memoryEstimateBytes : s.request.memoryEstimateBytes = 0
  computeEstimate : s.request.computeEstimate = 0
  retriesLeft : s.request.maxRetries - s.retriesUsed = 2
  cancelPending : s.cancelPending = false

/-- Two requests have the same key if they agree on all that is in it. -/
theorem makeCompatKey_eq_iff (env : Env) {req req' : PrefillRequest}
    (hmodel : req'.model = req.model) (hrelation : req'.adapterRelation = req.adapterRelation)
    (hmode : req'.numericMode = req.numericMode) (hvocab : req'.vocab = req.vocab)
    (hbackend : req'.backend = kBackendAny) (hdevice : req'.device = .nil)
    (hlayout : req'.inputLayout = .seqMajor) :
    makeCompatKey env req' = makeCompatKey env req ↔
      (req.backend = "" ∨ req.backend = kBackendAny) ∧ req.device = .nil ∧
        req.inputLayout = .seqMajor := by
  have hany : kBackendAny ≠ "" := by decide
  simp only [makeCompatKey, hmodel, hrelation, hmode, hvocab, hbackend, hdevice, hlayout,
    if_neg hany, CompatibilityKey.mk.injEq, true_and, and_true, if_true]
  constructor
  · rintro ⟨hb, hd, hl, -⟩
    refine ⟨?_, hd.symm, hl.symm⟩
    split_ifs at hb with hempty
    · exact Or.inl hempty
    · exact Or.inr hb.symm
  · rintro ⟨hb, hd, hl⟩
    rcases hb with hb | hb
    · simp [hb, hd, hl]
    · simp [hb, hd, hl, hany]

theorem Rs.resumed_terms_iff (env : Env) (r : RequestId) (s : Rs) :
    (s.resumed env r).terms env = s.terms env ↔ s.OnDefaultTerms := by
  have hrequest : (s.resumed env r).request = (s.persisted r).request :=
    PersistedRequestRecord.recovered_request env _
  have hretries : (s.resumed env r).retriesUsed = 0 := by
    simp only [Rs.resumed, PersistedRequestRecord.recovered]
    split_ifs <;> rfl
  have hcancel : (s.resumed env r).cancelPending = false := by
    simp only [Rs.resumed, PersistedRequestRecord.recovered]
    split_ifs <;> rfl
  have hkey : makeCompatKey env (s.persisted r).request = makeCompatKey env s.request ↔ _ :=
    makeCompatKey_eq_iff env rfl rfl rfl rfl rfl rfl rfl
  simp only [Rs.terms, hrequest, hretries, hcancel, Terms.mk.injEq, hkey]
  constructor
  · rintro ⟨⟨hb, hd, hl⟩, hm, hc, hr, hp⟩
    exact ⟨hb, hd, hl, hm.symm, hc.symm, hr.symm, hp.symm⟩
  · intro h
    exact ⟨⟨h.backend, h.device, h.layout⟩, h.memoryEstimateBytes.symm, h.computeEstimate.symm,
      h.retriesLeft.symm, h.cancelPending.symm⟩

/-- **When the terms of a request survive**: a new scheduler under the same policy that reads
a snapshot has the request on the same terms exactly if it was on the default ones. -/
theorem Impl.terms_recovered_iff (env : Env) (now : Nanoseconds) {σ : Impl} {r : RequestId}
    {s : Rs} (hs : σ.requests.lookup r = some s) :
    (((Impl.fresh env).importState env now σ.exportState).requests.lookup r).map (Rs.terms env) =
      some (s.terms env) ↔ s.OnDefaultTerms := by
  rw [Impl.lookup_importState_exportState, hs, Option.map_some, Option.map_some, Option.some.injEq]
  exact s.resumed_terms_iff env r

/-- The terms of a plain request survive. -/
theorem Impl.terms_recovered_iff_dispatchedCalls :
    let σ := (Run.fresh .standard Run.dispatchedCalls).stateAt 2
    (((Impl.fresh .standard).importState .standard 0 σ.exportState).requests.lookup ⟨1⟩).map
      (Rs.terms .standard) = (σ.requests.lookup ⟨1⟩).map (Rs.terms .standard) := by
  intro σ
  have hdefault : (σ.requests.lookup ⟨1⟩).any (fun s => decide (s.request.backend = kBackendAny) &&
      decide (s.request.device = .nil ∧ s.request.inputLayout = .seqMajor) &&
      decide (s.request.memoryEstimateBytes = 0 ∧ s.request.computeEstimate = 0) &&
      decide (s.request.maxRetries - s.retriesUsed = 2 ∧ s.cancelPending = false)) = true := by
    decide +kernel
  obtain ⟨s, hs, heq⟩ := (Option.any_eq_true _ _).mp hdefault
  simp only [Bool.and_eq_true, decide_eq_true_iff] at heq
  obtain ⟨⟨⟨hb, hd, hl⟩, hm, hc⟩, hr, hp⟩ := heq
  rw [hs]
  exact (terms_recovered_iff .standard 0 hs).mpr ⟨Or.inr hb, hd, hl, hm, hc, hr, hp⟩

/-- A request that only a worker with backend `gpu` may execute, and without retries, is
dispatched there and then cancelled. -/
def Run.excludingCalls : List Call :=
  [⟨0, .registerWorker { workerId := ⟨7⟩, backend := "gpu", state := .ready }⟩,
    ⟨0, .submitWithTokens { plainRequest 1 2 with
      backend := "gpu", memoryEstimateBytes := 4096, maxRetries := 0 } [5, 6]⟩,
    ⟨0, .runCycle⟩, ⟨0, .cancel ⟨1⟩⟩]

/-- After a recovery it may be executed anywhere, needs no memory, has two retries and is not
cancelled: it is dispatched to the local worker, with nothing reserved, and completes. -/
theorem Run.terms_lost_excludingCalls :
    let σ := (fresh .standard excludingCalls).stateAt 4
    let ρ := recovered .standard 0 σ.exportState
      [⟨0, .runCycle⟩,
        ⟨0, .reportCompletion
          { requestId := ⟨1⟩, attemptId := ⟨1⟩, generation := ⟨2⟩, outcome := .success,
            epoch := ⟨1⟩ }⟩]
    (σ.requests.lookup ⟨1⟩).map (fun s => (s.terms .standard).key.backend) = some "gpu" ∧
      (σ.requests.lookup ⟨1⟩).map (fun s => (s.request.memoryEstimateBytes,
        s.request.maxRetries - s.retriesUsed, s.cancelPending)) = some (4096, 0, true) ∧
      ((ρ.stateAt 0).requests.lookup ⟨1⟩).map (fun s => (s.terms .standard).key.backend) =
        some "*" ∧
      ((ρ.stateAt 0).requests.lookup ⟨1⟩).map (fun s => (s.request.memoryEstimateBytes,
        s.request.maxRetries - s.retriesUsed, s.cancelPending)) = some (0, 2, false) ∧
      (ρ.emitted 0).map (fun m => (m.requestId, m.assignedWorker)) = [(⟨1⟩, .nil)] ∧
      ((ρ.stateAt 1).requests.lookup ⟨1⟩).map (fun s => (s.inFlight, s.reservedBytes)) =
        some (true, 0) ∧
      ((ρ.stateAt 2).requests.lookup ⟨1⟩).map (·.lifecycle) = some .completed := by
  decide +kernel

/-! ### Accounts -/

/-- The account in a record. -/
def PersistedTenantRecord.service (rec : PersistedTenantRecord) : TenantService where
  weight := rec.weight
  scheduledTokens := rec.scheduledTokens
  completedRequests := rec.completedRequests
  waitTotalNs := rec.waitTotalNs
  outstanding := rec.outstanding
  normalizedService := rec.normalizedService

namespace Impl

variable {σ : Impl}

/-- Requests that are over are charged to nobody. -/
theorem account_foldl_importRequest (env : Env) (t : TenantId) (recs : List PersistedRequestRecord)
    (hover : ∀ rec ∈ recs, rec.tenantId = t → rec.lifecycle.isTerminal = true) (τ : Impl) :
    ((recs.foldl (importRequest env) τ).tenant t).account = (τ.tenant t).account := by
  refine List.foldlRecOn recs (importRequest env)
    (motive := fun υ : Impl => (υ.tenant t).account = (τ.tenant t).account) rfl
    fun υ hυ rec hrec => ?_
  rw [importRequest, tenant_charge, tenant_setRequest, tenant_setRequest, ← hυ]
  by_cases ht : t = rec.tenantId
  · have hterm := (rec.recovered_isTerminal env).trans (hover rec hrec ht.symm)
    rw [if_pos ht, ← ht]
    simp only [hterm, if_true]
    split_ifs <;> rfl
  · rw [if_neg ht]

/-- The accounts of a recovered scheduler are those of the snapshot, and for the tenants that
are not in it those its requests were charged to. -/
theorem tenants_importState_exportState (env : Env) (now : Nanoseconds) (σ τ : Impl)
    (t : TenantId) : (τ.importState env now σ.exportState).tenants.lookup t =
      ((σ.tenants.lookup t).map fun ts => (ts.persisted t).service).or
        ((σ.exportState.requests.foldl (importRequest env)
          (τ.cleared σ.exportState)).tenants.lookup t) := by
  have hworkers : ∀ (recs : List PersistedWorkerRecord) (υ : Impl),
      (recs.foldl importWorker υ).tenants = υ.tenants := fun recs υ =>
    List.foldlRecOn recs importWorker (motive := fun υ' : Impl => υ'.tenants = υ.tenants) rfl
      fun _ h _ _ => h
  have htenants : ∀ (recs : List PersistedTenantRecord) (υ : Impl),
      (recs.foldl importTenant υ).tenants =
        recs.foldl (fun u rec => u.insert rec.tenantId rec.service) υ.tenants := fun recs υ =>
    (List.foldl_hom Impl.tenants fun _ _ => rfl).symm
  have hperm := σ.tenants.entries.perm_insertionSort fun a b => a.1.value ≤ b.1.value
  have hnodup := (List.perm_nodupKeys hperm).mpr σ.tenants.nodupKeys
  have hlookup := AList.lookup_foldl_insert
    (fun t (ts : TenantService) => (ts.persisted t).service) _ hnodup
    (σ.exportState.requests.foldl (importRequest env) (τ.cleared σ.exportState)).tenants t
  rw [List.perm_dlookup t hnodup hperm] at hlookup
  refine Eq.trans ?_ hlookup
  refine congrArg (AList.lookup t) ((htenants _ _).trans ?_)
  rw [hworkers, exportState, List.foldl_map]
  rfl

/-- What a recovered scheduler counts among the requests that are not over. -/
theorem census_importState_exportState (env : Env) (now : Nanoseconds) (σ τ : Impl)
    (t : TenantId) (g : ℕ → ℕ) :
    (τ.importState env now σ.exportState).census
        (.ofTenant t fun req => g req.remainingPrefillTokens) =
      σ.census (.ofTenant t fun req => g req.remainingPrefillTokens) := by
  simp only [census, Weight.ofTenant, Weight.live, isNone_ending]
  refine AList.total_congr
    (f := fun s : Rs => (s.request.tenantId, s.request.remainingPrefillTokens,
      s.lifecycle.isTerminal))
    (fun _ p => if !p.2.2 && p.1 == t then g p.2.1 else 0) fun r => ?_
  rw [lookup_importState_exportState, Option.map_map]
  refine congrArg (fun f => Option.map f (σ.requests.lookup r)) (funext fun s => ?_)
  simp only [Function.comp_apply, Rs.resumed_remaining, Rs.resumed_isTerminal, Prod.mk.injEq,
    and_true]
  rw [Rs.resumed, PersistedRequestRecord.recovered_request]
  rfl

/-- A request that is not over is part of what its tenant has. -/
theorem le_census_ofTenant {r : RequestId} {s : Rs} (hs : σ.requests.lookup r = some s)
    (hlive : s.lifecycle.isTerminal = false) (f : PrefillRequest → ℕ) :
    f s.request ≤ σ.census (.ofTenant s.request.tenantId f) := by
  have hle := AList.le_total (w := fun _ s' => Weight.ofTenant s.request.tenantId f s'.request
    s'.lifecycle.ending) hs
  rwa [Lifecycle.ending_of_live hlive, Weight.ofTenant_none_self] at hle

/-- **The accounts of a recovered scheduler**: the right number of requests, and no tokens. -/
theorem account_importState_exportState (env : Env) (now : Nanoseconds) (τ : Impl)
    (h : σ.ledger.Numbered) (t : TenantId) :
    ((τ.importState env now σ.exportState).tenant t).account = ⟨(σ.tenant t).outstanding, 0⟩ := by
  rw [tenant, tenant, tenants_importState_exportState]
  cases hts : σ.tenants.lookup t with
  | some ts => rfl
  | none =>
    -- a tenant without an account has no request that is not over
    have hzero : σ.census (.ofTenant t 1) = 0 := by
      have hcount := h t
      simp only [ledger, tenant, hts, Option.getD_none] at hcount
      exact hcount.symm
    refine (account_foldl_importRequest env t _ (fun rec hrec ht => ?_)
      (τ.cleared σ.exportState)).trans rfl
    obtain ⟨⟨r, s⟩, he, rfl⟩ := List.mem_map.mp hrec
    by_contra hlive
    have hone := le_census_ofTenant (AList.mem_lookup_iff.mpr he) (Bool.eq_false_iff.mpr hlive) 1
    rw [show s.request.tenantId = t from ht, hzero] at hone
    exact absurd hone (Nat.not_succ_le_zero 0)

/-- **The accounts agree with the requests**: each tenant's account has as many requests, and
as many tokens, as its requests that are not over. -/
structure AccountsAgree (σ : Impl) : Prop where
  outstanding : ∀ t, (σ.tenant t).outstanding = (σ.liveOf t).length
  admittedTokens : ∀ t, (σ.tenant t).admittedTokens.toNat =
    ((σ.liveOf t).map fun s => s.request.remainingPrefillTokens).sum

theorem length_liveOf (σ : Impl) (t : TenantId) :
    (σ.liveOf t).length = σ.census (.ofTenant t 1) := by
  rw [census_ofTenant]
  simp only [Pi.one_apply, List.map_const', List.sum_replicate_nat, Nat.mul_one]

end Impl

namespace Reachable

variable {env : Env} {σ : Impl}

theorem numbered (h : Reachable env σ) : σ.ledger.Numbered := by
  induction h with
  | fresh env => exact fun _ => rfl
  | @step env σ h c ih =>
    exact (Impl.posts_step env h.wf_sane.1 c).invariant (fun _ _ _ _ hpost hb => hpost.numbered hb)
      ih
  | @importState env env' σ τ _ _ now _ ih' =>
    intro t
    have haccount := congrArg Account.outstanding
      (Impl.account_importState_exportState env now τ ih' t)
    refine haccount.trans ((ih' t).trans ?_)
    exact (Impl.census_importState_exportState env now σ τ t fun _ => 1).symm

/-- **When the accounts agree after a recovery.** Whatever state a scheduler is in when its
snapshot is taken, and whatever scheduler reads it: the number of requests on each account is
right, and the tokens are right exactly if there is no request that is not over. -/
theorem accountsAgree_iff (h : Reachable env σ) (τ : Impl) (env' : Env) (now : Nanoseconds) :
    let υ := τ.importState env' now σ.exportState
    (∀ t, (υ.tenant t).outstanding = (υ.liveOf t).length) ∧
      (υ.AccountsAgree ↔
        ∀ r s, σ.requests.lookup r = some s → s.lifecycle.isTerminal = true) := by
  intro υ
  have haccount := Impl.account_importState_exportState env' now τ h.numbered
  have houtstanding : ∀ t, (υ.tenant t).outstanding = (υ.liveOf t).length := by
    intro t
    rw [Impl.length_liveOf]
    exact (congrArg Account.outstanding (haccount t)).trans ((h.numbered t).trans
      (Impl.census_importState_exportState env' now σ τ t fun _ => 1).symm)
  have hzero : ∀ t, (υ.tenant t).admittedTokens = 0 := fun t =>
    congrArg Account.admittedTokens (haccount t)
  refine ⟨houtstanding, fun hagree r s hs => ?_, fun hover => ⟨houtstanding, fun t => ?_⟩⟩
  · -- a request that is not over has tokens, and there are none on any account
    by_contra hlive
    rw [Bool.not_eq_true] at hlive
    have hpos := (h.sane hs).remaining_pos hlive
    have hle := Impl.le_census_ofTenant hs hlive (·.remainingPrefillTokens)
    have htokens := hagree.admittedTokens s.request.tenantId
    rw [hzero, ← Impl.census_ofTenant _ (·.remainingPrefillTokens)] at htokens
    have hcensus := Impl.census_importState_exportState env' now σ τ s.request.tenantId id
    exact absurd (hle.trans_eq (hcensus.symm.trans htokens.symm)) (Nat.not_le.mpr hpos)
  · have hnone : υ.liveOf t = [] := by
      refine List.filter_eq_nil_iff.mpr fun s' hs' => ?_
      obtain ⟨⟨r, s'⟩, he, rfl⟩ := List.mem_map.mp hs'
      obtain ⟨s, hs, rfl⟩ := Impl.lookup_of_importState (AList.mem_lookup_iff.mpr he)
      simp [Rs.resumed_isTerminal, hover r s hs]
    rw [hzero, hnone]
    rfl

/-- A request is submitted, dispatched and completed. -/
def completedCalls : List Call :=
  [⟨0, .submitWithTokens (Run.plainRequest 1 4) [5, 6, 7, 8]⟩, ⟨0, .runCycle⟩,
    ⟨0, .reportCompletion (Run.firstReport .success)⟩]

/-- Once it is completed, the accounts agree after a recovery. -/
theorem accountsAgree_completedCalls :
    ((Impl.fresh .standard).importState .standard 0
      ((Run.fresh .standard completedCalls).stateAt 3).exportState).AccountsAgree := by
  refine (accountsAgree_iff (Run.reachable .standard completedCalls 3) (Impl.fresh .standard)
    .standard 0).2.mpr fun r s hs => ?_
  have hall : ∀ e ∈ ((Run.fresh .standard completedCalls).stateAt 3).requests.entries,
      e.2.lifecycle.isTerminal = true := by
    decide +kernel
  exact hall ⟨r, s⟩ (AList.mem_lookup_iff.mp hs)

/-- A policy that allows four tokens to each tenant. -/
def fourTokens : Env := { cfg := { perTenantAdmittedTokenLimit := 4 }, fpu := .truncated }

/-- While it waits, its four tokens are on the account, and not after a recovery: the recovered
scheduler admits four more, which the first one does not. -/
theorem not_accountsAgree_completedCalls :
    let σ := (Run.fresh fourTokens completedCalls).stateAt 1
    let τ := (Impl.fresh fourTokens).importState fourTokens 0 σ.exportState
    ((σ.tenant ⟨1⟩).outstanding, (σ.tenant ⟨1⟩).admittedTokens) = (1, 4) ∧
      ((τ.tenant ⟨1⟩).outstanding, (τ.tenant ⟨1⟩).admittedTokens) = (1, 0) ∧
      ((τ.liveOf ⟨1⟩).map fun s => s.request.remainingPrefillTokens) = [4] ∧
      isOk (σ.submitWithTokens fourTokens 0 (Run.plainRequest 2 4) [5, 6, 7, 8]).2 = false ∧
      isOk (τ.submitWithTokens fourTokens 0 (Run.plainRequest 2 4) [5, 6, 7, 8]).2 = true := by
  decide +kernel

end Reachable

/-! ### Reservations -/

/-- **Nothing leaks**: no byte is reserved, and every active reservation is that of a request
in flight. -/
def Impl.LeaksNothing (σ : Impl) : Prop :=
  σ.mem.reserved = 0 ∧ ∀ id, σ.mem.isActive id = true →
    ∃ r s, σ.requests.lookup r = some s ∧ s.inFlight = true ∧ s.reservation = id

namespace Impl

variable {env : Env} {σ : Impl}

/-- Where nothing is in flight, nothing leaks exactly if nothing is held. -/
theorem leaksNothing_iff (hquiet : σ.Quiet) (hsound : σ.mem.Sound) :
    σ.LeaksNothing ↔ ∀ id, σ.mem.held id = none := by
  constructor
  · rintro ⟨-, hactive⟩ id
    by_contra hne
    have hid : σ.mem.isActive id = true := by
      rw [MemoryGovernor.isActive_eq_isSome_held, Option.isSome_iff_ne_none]
      exact hne
    obtain ⟨r, s, hs, hflight, -⟩ := hactive id hid
    exact Bool.noConfusion ((hquiet.inFlight r s.core (view_req hs)).symm.trans hflight)
  · intro hnone
    refine ⟨hsound.reserved_eq_zero hnone, fun id hid => ?_⟩
    rw [MemoryGovernor.isActive_eq_isSome_held, hnone id] at hid
    exact Bool.noConfusion hid

/-- Where the governor holds what is in flight, it holds nothing exactly if nothing is in
flight. -/
theorem held_eq_none_iff (h : σ.view.Reserving) : (∀ id, σ.mem.held id = none) ↔
    ∀ r s, σ.requests.lookup r = some s → s.isLive = false := by
  constructor
  · intro hnone r s hs
    by_contra hlive
    have hheld := (h.holds r s.core (view_req hs) (Bool.eq_true_of_not_eq_false hlive)).2
    exact absurd (hheld.symm.trans (hnone _)) (Option.some_ne_none _)
  · intro hnone id
    by_contra hne
    obtain ⟨⟨r, b⟩, hheld⟩ := Option.ne_none_iff_exists'.mp hne
    obtain ⟨t, ht, hlive, -⟩ := h.held id r b hheld
    obtain ⟨s, hs, rfl⟩ := exists_of_view_req ht
    exact Bool.noConfusion ((hnone r s hs).symm.trans hlive)

end Impl

namespace Life

/-- **When nothing leaks.** In every life, whatever snapshots are read in it: nothing leaks
when a snapshot has been read exactly if snapshots are read only when nothing is in flight. -/
theorem nothing_leaks_iff (ℓ : Life) :
    (∀ n now st, ℓ.turns[n]? = some (.importState now st) → (ℓ.stateAt (n + 1)).LeaksNothing) ↔
      ∀ n now st, ℓ.turns[n]? = some (.importState now st) →
        ∀ r s, (ℓ.stateAt n).requests.lookup r = some s → s.isLive = false := by
  have hiff : (∀ n, n ≤ ℓ.turns.length → ∀ k now st, n = k + 1 →
      ℓ.turns[k]? = some (.importState now st) → (ℓ.stateAt n).LeaksNothing) ↔
      ∀ n t, ℓ.turns[n]? = some t → ∀ now st, t = .importState now st →
        ∀ r s, (ℓ.stateAt n).requests.lookup r = some s → s.isLive = false := by
    -- as long as nothing is in flight when a snapshot is read, the governor holds what is
    refine Machine.forall_iff_forall_allowed (Q := fun n => (ℓ.stateAt n).view.Reserving)
      (fun n hreserving k now st hn hk => ?_) (Impl.reserving_fresh ℓ.env)
      (fun n t ht hreserving hnone => ?_) (fun n t ht hreserving hnot hleaks => ?_)
    · subst hn
      have hquiet : (ℓ.stateAt (k + 1)).Quiet := by
        rw [stateAt_succ hk]
        exact (Impl.quiet_importState (ℓ.wf k) ℓ.env now st).1
      refine (Impl.leaksNothing_iff hquiet hreserving.sound).mpr
        ((Impl.held_eq_none_iff hreserving).mpr fun r s hs => ?_)
      have hflight : s.inFlight = false := hquiet.inFlight r s.core (Impl.view_req hs)
      rw [Rs.isLive, hflight, Bool.false_and]
    · rw [stateAt_succ ht]
      cases t with
      | call c => exact Impl.reserving_step (ℓ.wf n) hreserving c
      | importState now st =>
        exact reserving_importState (ℓ.wf n) hreserving
          ((Impl.held_eq_none_iff hreserving).mpr (hnone now st rfl)) now st
    · simp only [not_forall] at hnot
      obtain ⟨now, st, rfl, r, s, hs, hlive⟩ := hnot
      have hafter := hleaks n now st rfl ht
      rw [stateAt_succ ht, Impl.turn, Impl.leaksNothing_iff
        (Impl.quiet_importState (ℓ.wf n) ℓ.env now st).1
        ((Impl.mem_importState ℓ.env now st _).symm ▸ hreserving.sound),
        Impl.mem_importState] at hafter
      exact hlive ((Impl.held_eq_none_iff hreserving).mp hafter r s hs)
  constructor
  · intro h n now st ht
    exact hiff.mp (fun m _ k now st hm hk => hm ▸ h k now st hk) n _ ht now st rfl
  · intro h n now st ht
    exact hiff.mpr (fun m t hm now st heq => h m now st (heq ▸ hm)) (n + 1)
      (List.getElem?_eq_some_iff.mp ht).1 n now st rfl ht

/-- A request that needs memory is dispatched, and a snapshot without any request is read. -/
def importedOverTurns : List Turn :=
  [.call ⟨0, .submitWithTokens { Run.plainRequest 1 2 with memoryEstimateBytes := 4096 } [5, 6]⟩,
    .call ⟨0, .runCycle⟩, .importState 0 {}]

/-- Its memory stays reserved, and no request is left to give it back. -/
theorem leaks_importedOverTurns :
    let σ := Life.stateAt ⟨.standard, importedOverTurns⟩ 3
    σ.mem.reserved = 4096 ∧ σ.mem.isActive ⟨1⟩ = true ∧ σ.requestList.length = 0 := by
  decide +kernel

end Life

end PrefillFabric
