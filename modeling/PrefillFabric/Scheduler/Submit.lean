import PrefillFabric.Scheduler.State

/-!
# Admission

`submitWithTokens` validates a request, registers its tokens and admits it unless
a capacity limit is reached; `submit` does so with tokens it makes up.

The order of the checks matters: the tokens are registered before the capacity
limits are looked at, and the tenant's account is opened before its own limits
are.
-/

namespace PrefillFabric

namespace Impl

/-- Count a rejection for lack of capacity. -/
def reject (σ : Impl) (message : String) : Impl × Result Unit :=
  (σ.count fun st =>
    { st with
      rejected := st.rejected + 1
      rejectionByReason := countUnder st.rejectionByReason .capacityExceeded },
    .error ⟨.capacityExceeded, message⟩)

/-- The record a request is admitted with. -/
def admittedRecord (env : Env) (now : Nanoseconds) (req : PrefillRequest) (attempt : AttemptId) :
    Rs where
  request := req
  attempt := attempt
  lifecycle := .queued
  admitTime := now
  plan := ChunkPlanner.plan env req attempt .nil
  trace := ["admitted; remaining_prefill=" ++ toString req.remainingPrefillTokens]

/-- Admit a request that passed every check. One that is covered by its reusable
prefix is complete at once. -/
def admitRequest (env : Env) (now : Nanoseconds) (req : PrefillRequest) (σ : Impl) : Impl :=
  let rem := req.remainingPrefillTokens
  let attempt : AttemptId := ⟨σ.nextAttemptValue⟩
  let s := admittedRecord env now req attempt
  let σ := { σ with nextAttemptValue := σ.nextAttemptValue + 1 }
  let σ := σ.count fun st =>
    { st with submitted := st.submitted + 1, admitted := st.admitted + 1 }
  let σ := σ.charge req.tenantId fun ts =>
    { ts with
      outstanding := ts.outstanding + 1
      admittedTokens := ts.admittedTokens + .ofNat rem }
  if rem = 0 then
    let s := { s with lifecycle := .completed }.note "fully-cached prompt; no prefill work remains"
    let σ := σ.count fun st => { st with completed := st.completed + 1 }
    let σ := σ.charge req.tenantId fun ts =>
      { ts with completedRequests := ts.completedRequests + 1 }.leave
    (σ.setRequest req.requestId s).record now "submit" req.requestId attempt "complete-immediate"
  else
    (σ.setRequest req.requestId s).record now "submit" req.requestId attempt "queued"

/-- The tenant's own limits, and the admission. -/
def admitWithinTenant (env : Env) (now : Nanoseconds) (req : PrefillRequest) (σ : Impl) :
    Impl × Result Unit :=
  let σ := σ.charge req.tenantId fun ts =>
    if ts.weight.eq .zero then { ts with weight := req.tenantWeight } else ts
  let ts := (σ.tenants.lookup req.tenantId).getD {}
  if env.cfg.perTenantOutstandingLimit.toNat ≤ ts.outstanding then
    σ.reject "tenant outstanding limit exceeded"
  else if env.cfg.perTenantAdmittedTokenLimit <
      ts.admittedTokens + .ofNat req.remainingPrefillTokens then
    σ.reject "tenant admitted-token limit exceeded"
  else (σ.admitRequest env now req, .ok ())

/-- Submit a request with its tokens. -/
def submitWithTokens (env : Env) (now : Nanoseconds) (req : PrefillRequest)
    (tokens : List UInt32) (σ : Impl) : Impl × Result Unit :=
  if req.validate.code ≠ .ok then (σ, .error req.validate)
  else if (σ.requests.lookup req.requestId).isSome then
    (σ, .error ⟨.duplicateRequest, "duplicate request id"⟩)
  else
    match σ.tokenResolver.registerRequest req tokens with
    | .error e => (σ, .error e)
    | .ok resolver =>
      let σ := { σ with tokenResolver := resolver }
      -- the table has the requests that are over in it as well
      if env.cfg.maxAdmittedRequests.toNat ≤ AList.size σ.requests then
        σ.reject "admission capacity exceeded"
      else σ.admitWithinTenant env now req

/-- One round of the generator of made-up tokens. -/
def nextSeed (seed : UInt64) : UInt64 :=
  let seed := seed ^^^ (seed <<< (13 : UInt64))
  let seed := seed ^^^ (seed >>> (7 : UInt64))
  seed ^^^ (seed <<< (17 : UInt64))

/-- Made-up tokens from a seed on. -/
def makeTokens : ℕ → UInt64 → List UInt32
  | 0, _ => []
  | n + 1, seed => (nextSeed seed).toUInt32 :: makeTokens n (nextSeed seed)

/-- Submit a request without tokens. -/
def submit (env : Env) (now : Nanoseconds) (req : PrefillRequest) (σ : Impl) :
    Impl × Result Unit :=
  σ.submitWithTokens env now req
    (makeTokens req.promptTokenCount.toNat (0x9E3779B97F4A7C15 ^^^ .ofNat req.requestId.value))

end Impl

end PrefillFabric
