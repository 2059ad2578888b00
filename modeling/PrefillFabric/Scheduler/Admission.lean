import PrefillFabric.Scheduler.Submit

/-!
# What becomes of a submission

One of four things becomes of a submission (`Impl.submission`). It may fail a check of its own,
before anything is written down. After that its tokens are registered, and the scheduler may be
full; then the account of its tenant is open, and a limit of the tenant may be hit. It is admitted
exactly if `Impl.Admits` holds of its request and the tokens are as many as announced. Any other
submission leaves requests, accounts and the tally of admissions as they were
(`Impl.submitWithTokens_cases`).
-/

namespace PrefillFabric

/-- How many requests were admitted, and how many ended in which way. -/
@[ext] structure Tally where
  admitted : ℕ
  completed : ℕ
  cancelled : ℕ
  expired : ℕ
  failedNonRetryable : ℕ

/-- The tally in the statistics. -/
def Stats.tally (st : Stats) : Tally where
  admitted := st.admitted
  completed := st.completed
  cancelled := st.cancelled
  expired := st.expired
  failedNonRetryable := st.failedNonRetryable

namespace Impl

variable {env : Env} {now : Nanoseconds} {σ : Impl} {req : PrefillRequest} {tokens : List UInt32}

/-- The account of a tenant, as an operation finds it. -/
def tenant (σ : Impl) (t : TenantId) : TenantService := (σ.tenants.lookup t).getD {}

theorem tenant_charge (σ : Impl) (t : TenantId) (f : TenantService → TenantService) (x : TenantId) :
    (σ.charge t f).tenant x = if x = t then f (σ.tenant t) else σ.tenant x := by
  unfold tenant charge
  dsimp only
  rw [AList.lookup_insert_eq_ite]
  split_ifs <;> rfl

@[simp] theorem tenant_setRequest (σ : Impl) (r : RequestId) (s : Rs) (t : TenantId) :
    (σ.setRequest r s).tenant t = σ.tenant t := rfl

@[simp] theorem tenant_record (σ : Impl) (now : Nanoseconds) (type : String) (r : RequestId)
    (a : AttemptId) (detail : String) (t : TenantId) :
    (σ.record now type r a detail).tenant t = σ.tenant t := rfl

/-- **A request can be admitted**: it is valid and new, and there is room for it in the
scheduler and in the account of its tenant. -/
structure Admits (env : Env) (σ : Impl) (req : PrefillRequest) : Prop where
  valid : req.validate.code = .ok
  new : σ.requests.lookup req.requestId = none
  room : AList.size σ.requests < env.cfg.maxAdmittedRequests.toNat
  outstanding : ((σ.tenants.lookup req.tenantId).getD {}).outstanding <
    env.cfg.perTenantOutstandingLimit.toNat
  admittedTokens : ((σ.tenants.lookup req.tenantId).getD {}).admittedTokens +
    .ofNat req.remainingPrefillTokens ≤ env.cfg.perTenantAdmittedTokenLimit

/-- A state in which the tokens of a request are registered. -/
def withTokens (req : PrefillRequest) (tokens : List UInt32) (σ : Impl) : Impl :=
  { σ with tokenResolver := σ.tokenResolver.insert req.requestId tokens }

/-- A state in which the account of a request's tenant is open. -/
def withAccount (req : PrefillRequest) (σ : Impl) : Impl :=
  σ.charge req.tenantId fun ts =>
    if ts.weight.eq .zero then { ts with weight := req.tenantWeight } else ts

/-- To open an account changes nothing on it but the weight. -/
theorem tenant_withAccount (req : PrefillRequest) (σ : Impl) (t : TenantId) :
    ((σ.withAccount req).tenant t).outstanding = (σ.tenant t).outstanding ∧
      ((σ.withAccount req).tenant t).admittedTokens = (σ.tenant t).admittedTokens := by
  rw [withAccount, tenant_charge]
  split_ifs with ht hweight
  · exact ht ▸ ⟨rfl, rfl⟩
  · exact ht ▸ ⟨rfl, rfl⟩
  · exact ⟨rfl, rfl⟩

/-- What is left to decide about a valid new request with its tokens. -/
theorem submitWithTokens_eq_of_valid (env : Env) (now : Nanoseconds)
    (hvalid : req.validate.code = .ok) (hnew : σ.requests.lookup req.requestId = none)
    (htokens : tokens.length = req.promptTokenCount.toNat) :
    σ.submitWithTokens env now req tokens =
      if env.cfg.maxAdmittedRequests.toNat ≤ AList.size σ.requests then
        (σ.withTokens req tokens).reject "admission capacity exceeded"
      else (σ.withTokens req tokens).admitWithinTenant env now req := by
  have hregister : σ.tokenResolver.registerRequest req tokens =
      .ok (σ.tokenResolver.insert req.requestId tokens) := by
    rw [InMemoryTokenResolver.registerRequest]
    exact if_neg fun h => h htokens
  unfold submitWithTokens
  rw [if_neg fun h => h hvalid, hnew, if_neg (by rw [Option.isSome_none]; exact Bool.false_ne_true),
    hregister]
  rfl

/-- The limits of the tenant decide about a request that has passed the others. -/
theorem admitWithinTenant_eq (env : Env) (now : Nanoseconds) (σ : Impl) (req : PrefillRequest) :
    σ.admitWithinTenant env now req =
      if env.cfg.perTenantOutstandingLimit.toNat ≤ (σ.tenant req.tenantId).outstanding then
        (σ.withAccount req).reject "tenant outstanding limit exceeded"
      else if env.cfg.perTenantAdmittedTokenLimit <
          (σ.tenant req.tenantId).admittedTokens + .ofNat req.remainingPrefillTokens then
        (σ.withAccount req).reject "tenant admitted-token limit exceeded"
      else ((σ.withAccount req).admitRequest env now req, .ok ()) := by
  obtain ⟨hout, htok⟩ := tenant_withAccount req σ req.tenantId
  rw [← hout, ← htok]
  rfl

/-- A state in which a request is counted and charged to its tenant. -/
def enrolled (req : PrefillRequest) (σ : Impl) : Impl :=
  let σ := { σ with nextAttemptValue := σ.nextAttemptValue + 1 }
  let σ := σ.count fun st =>
    { st with submitted := st.submitted + 1, admitted := st.admitted + 1 }
  σ.charge req.tenantId fun ts =>
    { ts with
      outstanding := ts.outstanding + 1
      admittedTokens := ts.admittedTokens + .ofNat req.remainingPrefillTokens }

/-- A request with nothing to compute leaves its tenant again at once. -/
theorem admitRequest_eq (env : Env) (now : Nanoseconds) (σ : Impl) (req : PrefillRequest) :
    σ.admitRequest env now req =
      if req.remainingPrefillTokens = 0 then
        ((((σ.enrolled req).count fun st => { st with completed := st.completed + 1 }).charge
          req.tenantId fun ts =>
            { ts with completedRequests := ts.completedRequests + 1 }.leave).setRequest
          req.requestId ({ admittedRecord env now req ⟨σ.nextAttemptValue⟩ with
            lifecycle := .completed }.note "fully-cached prompt; no prefill work remains")).record
          now "submit" req.requestId ⟨σ.nextAttemptValue⟩ "complete-immediate"
      else
        ((σ.enrolled req).setRequest req.requestId
          (admittedRecord env now req ⟨σ.nextAttemptValue⟩)).record
          now "submit" req.requestId ⟨σ.nextAttemptValue⟩ "queued" :=
  rfl

/-- A request that is not valid is never said to exceed a capacity. -/
theorem code_validate_ne (req : PrefillRequest) : req.validate.code ≠ .capacityExceeded := by
  rw [PrefillRequest.validate]
  split_ifs <;> exact ErrorCode.noConfusion

/-- The checks that a submission has to pass before anything is written down. -/
structure Checked (σ : Impl) (req : PrefillRequest) (tokens : List UInt32) : Prop where
  valid : req.validate.code = .ok
  new : σ.requests.lookup req.requestId = none
  length_eq : tokens.length = req.promptTokenCount.toNat

/-- **What becomes of a submission**: it fails a check of its own, the scheduler is full, a limit
of its tenant is hit, or it is admitted. -/
inductive Submission (env : Env) (now : Nanoseconds) (req : PrefillRequest) (tokens : List UInt32)
    (σ : Impl) : Impl × Result Unit → Prop
  | refused {e : ErrorInfo} (hnot : ¬σ.Checked req tokens) (hcode : e.code ≠ .capacityExceeded) :
    Submission env now req tokens σ (σ, .error e)
  | full (hchecked : σ.Checked req tokens)
    (hfull : env.cfg.maxAdmittedRequests.toNat ≤ AList.size σ.requests) :
    Submission env now req tokens σ
      ((σ.withTokens req tokens).reject "admission capacity exceeded")
  | limited (hchecked : σ.Checked req tokens)
    (hroom : AList.size σ.requests < env.cfg.maxAdmittedRequests.toNat)
    (hnot : ¬σ.Admits env req) (message : String) :
    Submission env now req tokens σ (((σ.withTokens req tokens).withAccount req).reject message)
  | admitted (hadmits : σ.Admits env req) (hlen : tokens.length = req.promptTokenCount.toNat) :
    Submission env now req tokens σ
      (((σ.withTokens req tokens).withAccount req).admitRequest env now req, .ok ())

theorem submission (env : Env) (now : Nanoseconds) (req : PrefillRequest) (tokens : List UInt32)
    (σ : Impl) : σ.Submission env now req tokens (σ.submitWithTokens env now req tokens) := by
  by_cases hvalid : req.validate.code = .ok
  case neg =>
    rw [submitWithTokens, if_pos hvalid]
    exact .refused (fun h => hvalid h.valid) (code_validate_ne req)
  cases hnew : σ.requests.lookup req.requestId with
  | some s =>
    rw [submitWithTokens, if_neg fun h => h hvalid, hnew, if_pos Option.isSome_some]
    exact .refused (fun h => absurd (hnew.symm.trans h.new) (Option.some_ne_none s))
      ErrorCode.noConfusion
  | none =>
    by_cases htokens : tokens.length = req.promptTokenCount.toNat
    case neg =>
      rw [submitWithTokens, if_neg fun h => h hvalid, hnew,
        if_neg (by rw [Option.isSome_none]; exact Bool.false_ne_true),
        InMemoryTokenResolver.registerRequest, if_pos htokens]
      exact .refused (fun h => htokens h.length_eq) ErrorCode.noConfusion
    have hchecked : σ.Checked req tokens := ⟨hvalid, hnew, htokens⟩
    rw [submitWithTokens_eq_of_valid env now hvalid hnew htokens, admitWithinTenant_eq]
    split_ifs with hfull hout htok
    · exact .full hchecked hfull
    · exact .limited hchecked (Nat.lt_of_not_le hfull)
        (fun h => absurd h.outstanding (Nat.not_lt.mpr hout)) _
    · exact .limited hchecked (Nat.lt_of_not_le hfull)
        (fun h => absurd htok (UInt64.not_lt.mpr h.admittedTokens)) _
    · exact .admitted ⟨hvalid, hnew, Nat.lt_of_not_le hfull, Nat.lt_of_not_le hout,
        UInt64.not_lt.mp htok⟩ htokens

/-- What a submission that is turned down leaves as it was. -/
structure TurnedDown (σ σ' : Impl) : Prop where
  requests : σ'.requests = σ.requests
  tally : σ'.stats.tally = σ.stats.tally
  outstanding : ∀ t, (σ'.tenant t).outstanding = (σ.tenant t).outstanding
  admittedTokens : ∀ t, (σ'.tenant t).admittedTokens = (σ.tenant t).admittedTokens

/-- **A submission is admitted or turned down.** -/
theorem submitWithTokens_cases (env : Env) (now : Nanoseconds) (req : PrefillRequest)
    (tokens : List UInt32) (σ : Impl) :
    (isOk (σ.submitWithTokens env now req tokens).2 = false ∧
      ¬(σ.Admits env req ∧ tokens.length = req.promptTokenCount.toNat) ∧
      σ.TurnedDown (σ.submitWithTokens env now req tokens).1) ∨
    (σ.Admits env req ∧ tokens.length = req.promptTokenCount.toNat ∧
      σ.submitWithTokens env now req tokens =
        (((σ.withTokens req tokens).withAccount req).admitRequest env now req, .ok ())) := by
  have hsubmission := σ.submission env now req tokens
  generalize σ.submitWithTokens env now req tokens = out at hsubmission
  cases hsubmission with
  | refused hnot _ =>
    exact Or.inl ⟨rfl, fun h => hnot ⟨h.1.valid, h.1.new, h.2⟩, rfl, rfl, fun _ => rfl,
      fun _ => rfl⟩
  | full _ hfull =>
    exact Or.inl ⟨rfl, fun h => absurd h.1.room (Nat.not_lt.mpr hfull), rfl, rfl, fun _ => rfl,
      fun _ => rfl⟩
  | limited _ _ hnot _ =>
    exact Or.inl ⟨rfl, fun h => hnot h.1, rfl, rfl,
      fun t => (tenant_withAccount req (σ.withTokens req tokens) t).1,
      fun t => (tenant_withAccount req (σ.withTokens req tokens) t).2⟩
  | admitted hadmits hlen => exact Or.inr ⟨hadmits, hlen, rfl⟩

/-- A submission succeeds exactly if it can be admitted and comes with its tokens. -/
theorem isOk_submitWithTokens_iff : isOk (σ.submitWithTokens env now req tokens).2 = true ↔
    σ.Admits env req ∧ tokens.length = req.promptTokenCount.toNat := by
  rcases σ.submitWithTokens_cases env now req tokens with ⟨hfail, hnot, -⟩ | ⟨hadmits, hlen, heq⟩
  · rw [hfail]
    exact iff_of_false Bool.false_ne_true hnot
  · rw [heq]
    exact iff_of_true rfl ⟨hadmits, hlen⟩

end Impl

end PrefillFabric
