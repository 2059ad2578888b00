import PrefillFabric.Scheduler.Admission
import PrefillFabric.Scheduler.History

/-!
# What a refused call leaves behind

A caller that is told of an error will take it that nothing has happened. For two operations
this is not so.

* A forced retry takes a request out of flight, gives back its reservation and drops its group
  before it looks at the retries that are left. Refused for want of retries, it has done all
  that, and the other requests of the group are in flight in a group that is gone.
* A submission registers its tokens before it looks at the capacity of the scheduler, and opens
  the account of its tenant before it looks at the limits of the tenant. Refused for one of
  these reasons, it has left the tokens and the account behind, and nothing ever removes them.

In both cases it is said exactly when nothing is left behind
(`Impl.untouched_forceRetry_iff`, `Impl.untouched_submitWithTokens_iff`).
-/

namespace PrefillFabric

namespace Impl

/-- **Nothing but statistics and events differs**: requests, groups, workers, tenants and the
payloads of the token resolver are the same tables, and the governor is the same. -/
structure Untouched (σ σ' : Impl) : Prop where
  requests : ∀ r, σ'.requests.lookup r = σ.requests.lookup r
  groups : ∀ g, σ'.groups.lookup g = σ.groups.lookup g
  workers : ∀ w, σ'.workers.lookup w = σ.workers.lookup w
  tenants : ∀ t, σ'.tenants.lookup t = σ.tenants.lookup t
  payloads : ∀ r, σ'.tokenResolver.lookup r = σ.tokenResolver.lookup r
  mem : σ'.mem = σ.mem

theorem Untouched.refl (σ : Impl) : σ.Untouched σ :=
  ⟨fun _ => rfl, fun _ => rfl, fun _ => rfl, fun _ => rfl, fun _ => rfl, rfl⟩

variable {env : Env} {now : Nanoseconds} {σ : Impl}

/-! ### Forced retries -/

section

variable {r : RequestId} {s : Rs}

/-- No attempt is begun without the budget for it. -/
theorem retryWithinBudget_of_not_ok (h : isOk (retryWithinBudget env now r s σ).2 = false) :
    (retryWithinBudget env now r s σ).1 = σ := by
  rw [retryWithinBudget] at h ⊢
  split_ifs at h ⊢
  · rfl
  · exact Bool.noConfusion h

/-- A forced retry that is refused has done nothing, or it has withdrawn a request in flight. -/
theorem forceRetry_of_not_ok (h : isOk (σ.forceRetry env now r).2 = false) :
    ((∀ s, σ.requests.lookup r = some s → s.isLive = false) ∧ (σ.forceRetry env now r).1 = σ) ∨
      ∃ s, σ.requests.lookup r = some s ∧ s.isLive = true ∧
        (σ.forceRetry env now r).1 = σ.withdraw r s := by
  rw [forceRetry] at h ⊢
  cases hs : σ.requests.lookup r with
  | none => exact Or.inl ⟨fun s hs => absurd hs.symm (Option.some_ne_none s), rfl⟩
  | some s =>
    rw [hs] at h
    dsimp only at h ⊢
    have hlive : (∀ t, some s = some t → t.isLive = false) ↔ s.isLive = false :=
      ⟨fun h => h s rfl, fun h t ht => Option.some.inj ht ▸ h⟩
    rw [hlive]
    split_ifs at h ⊢ with hterm hflight
    · refine Or.inl ⟨?_, rfl⟩
      rw [Bool.eq_false_iff, Ne, Rs.isLive_iff, hterm]
      exact fun hc => Bool.noConfusion hc.2
    · exact Or.inr ⟨s, rfl, Rs.isLive_iff.mpr ⟨hflight, Bool.eq_false_iff.mpr hterm⟩,
        retryWithinBudget_of_not_ok h⟩
    · refine Or.inl ⟨?_, retryWithinBudget_of_not_ok h⟩
      rw [Bool.eq_false_iff, Ne, Rs.isLive_iff]
      exact fun hc => hflight hc.1

/-- A request in flight is another one once it is withdrawn. -/
theorem not_untouched_withdraw (hs : σ.requests.lookup r = some s) (hlive : s.isLive = true) :
    ¬σ.Untouched (σ.withdraw r s) := by
  intro h
  have hafter : (σ.withdraw r s).requests.lookup r = some s.withdrawn := AList.lookup_insert _
  rw [h.requests, hs] at hafter
  have hflight : s.inFlight = s.withdrawn.inFlight := congrArg Rs.inFlight (Option.some.inj hafter)
  exact Bool.noConfusion (hflight.symm.trans (Rs.isLive_iff.mp hlive).1)

/-- **When a refused retry changes nothing.** In every state, a forced retry that is refused
leaves requests, groups, workers, tenants and memory as they were exactly if the request is not
in flight when it is made, and then it leaves everything as it was. -/
theorem untouched_forceRetry_iff (env : Env) (now : Nanoseconds) (σ : Impl) (r : RequestId)
    (h : isOk (σ.forceRetry env now r).2 = false) :
    (σ.Untouched (σ.forceRetry env now r).1 ↔
        ∀ s, σ.requests.lookup r = some s → s.isLive = false) ∧
      ((∀ s, σ.requests.lookup r = some s → s.isLive = false) →
        (σ.forceRetry env now r).1 = σ) := by
  rcases forceRetry_of_not_ok h with ⟨hnot, hsame⟩ | ⟨s, hs, hlive, heq⟩
  · rw [hsame]
    exact ⟨iff_of_true (.refl σ) hnot, fun _ => rfl⟩
  · have hnot : ¬∀ t, σ.requests.lookup r = some t → t.isLive = false :=
      fun hc => Bool.noConfusion ((hc s hs).symm.trans hlive)
    rw [heq]
    exact ⟨iff_of_false (not_untouched_withdraw hs hlive) hnot, fun hc => absurd hc hnot⟩

/-- Two requests without retries are packed into one group. -/
def packedCalls : List Call :=
  [⟨0, .submitWithTokens { Run.plainRequest 1 2 with maxRetries := 0 } [5, 6]⟩,
    ⟨0, .submitWithTokens { Run.plainRequest 2 2 with maxRetries := 0 } [7, 8]⟩, ⟨0, .runCycle⟩]

/-- A retry of a request that is not known is refused and changes nothing. -/
theorem untouched_forceRetry_unknown :
    isOk (((Run.fresh .standard packedCalls).stateAt 3).forceRetry .standard 0 ⟨7⟩).2 = false ∧
      ((Run.fresh .standard packedCalls).stateAt 3).Untouched
        (((Run.fresh .standard packedCalls).stateAt 3).forceRetry .standard 0 ⟨7⟩).1 := by
  have hrefused : isOk (((Run.fresh .standard packedCalls).stateAt 3).forceRetry .standard 0
      ⟨7⟩).2 = false := by
    decide +kernel
  have hunknown : (((Run.fresh .standard packedCalls).stateAt 3).requests.lookup ⟨7⟩).isSome =
      false := by
    decide +kernel
  refine ⟨hrefused, (untouched_forceRetry_iff _ _ _ _ hrefused).1.mpr fun s hs => ?_⟩
  rw [hs] at hunknown
  exact Bool.noConfusion hunknown

/-- Of two requests in one group the first is forced to retry and has no retries. The call is
refused; but the first request is out of flight, and the second is in flight in a group that is
gone. -/
theorem not_untouched_forceRetry_packedCalls :
    isOk (((Run.fresh .standard packedCalls).stateAt 3).forceRetry .standard 0 ⟨1⟩).2 = false ∧
      ¬((Run.fresh .standard packedCalls).stateAt 3).Untouched
        (((Run.fresh .standard packedCalls).stateAt 3).forceRetry .standard 0 ⟨1⟩).1 ∧
      (((((Run.fresh .standard packedCalls).stateAt 3).forceRetry .standard 0
          ⟨1⟩).1.requests.lookup ⟨2⟩).map fun s => (s.inFlight, s.currentGroup)) =
        some (true, ⟨1⟩) ∧
      ((((Run.fresh .standard packedCalls).stateAt 3).forceRetry .standard 0
        ⟨1⟩).1.groups.lookup ⟨1⟩).isNone = true := by
  refine ⟨by decide +kernel, fun h => ?_, by decide +kernel, by decide +kernel⟩
  have hbefore : (((Run.fresh .standard packedCalls).stateAt 3).requests.lookup ⟨1⟩).map
      (·.inFlight) = some true := by
    decide +kernel
  rw [← h.requests] at hbefore
  exact absurd hbefore (by decide +kernel)

end

/-! ### Submissions -/

section

variable {req : PrefillRequest} {tokens : List UInt32}

/-- A valid request has a weight that is not zero. -/
theorem tenantWeight_ne_of_validate (hvalid : req.validate.code = .ok) {d : Double}
    (hd : d.eq .zero = true) : d ≠ req.tenantWeight := by
  rintro rfl
  have hle : req.tenantWeight.le .zero = true := by
    simp only [Double.eq, Double.le, Bool.and_eq_true, decide_eq_true_eq] at hd ⊢
    exact ⟨hd.1, hd.2.le⟩
  simp only [PrefillRequest.validate, hle, if_true] at hvalid
  split_ifs at hvalid

/-- To open an account changes the table of tenants unless there is one, with a weight. -/
theorem tenants_withAccount_iff (hvalid : req.validate.code = .ok) :
    (σ.withAccount req).tenants.lookup = σ.tenants.lookup ↔
      ∃ ts, σ.tenants.lookup req.tenantId = some ts ∧ ts.weight.eq .zero = false := by
  have hupdate : (σ.withAccount req).tenants.lookup = Function.update σ.tenants.lookup req.tenantId
      (some ((fun ts : TenantService =>
        if ts.weight.eq .zero then { ts with weight := req.tenantWeight } else ts)
          ((σ.tenants.lookup req.tenantId).getD {}))) := AList.lookup_insert_fun ..
  rw [hupdate, Function.update_eq_self_iff]
  cases σ.tenants.lookup req.tenantId with
  | none => simp
  | some ts =>
    simp only [Option.getD_some, Option.some.injEq, exists_eq_left']
    cases hweight : ts.weight.eq .zero with
    | false => simp
    | true =>
      rw [if_pos rfl]
      refine iff_of_false (fun hc => ?_) Bool.noConfusion
      exact tenantWeight_ne_of_validate hvalid hweight (congrArg TenantService.weight hc).symm

/-- To register tokens changes the payloads unless the very same tokens are registered. -/
theorem payloads_withTokens_iff :
    (σ.withTokens req tokens).tokenResolver.lookup = σ.tokenResolver.lookup ↔
      σ.tokenResolver.lookup req.requestId = some tokens := by
  have hupdate : (σ.withTokens req tokens).tokenResolver.lookup =
      Function.update σ.tokenResolver.lookup req.requestId (some tokens) :=
    AList.lookup_insert_fun ..
  rw [hupdate, Function.update_eq_self_iff, eq_comm]

/-- **When a refused submission changes nothing.** In every state, a submission that is refused
leaves requests, tenants, payloads, memory and groups as they were exactly if it fails a check of
its own (its fields, its identity, the number of its tokens), or its very tokens were registered
before and, unless the scheduler is full, its tenant has an account with a weight. -/
theorem untouched_submitWithTokens_iff (env : Env) (now : Nanoseconds) (σ : Impl)
    (req : PrefillRequest) (tokens : List UInt32)
    (h : isOk (σ.submitWithTokens env now req tokens).2 = false) :
    σ.Untouched (σ.submitWithTokens env now req tokens).1 ↔
      req.validate.code ≠ .ok ∨ (σ.requests.lookup req.requestId).isSome = true ∨
        tokens.length ≠ req.promptTokenCount.toNat ∨
        σ.tokenResolver.lookup req.requestId = some tokens ∧
          (env.cfg.maxAdmittedRequests.toNat ≤ AList.size σ.requests ∨
            ∃ ts, σ.tenants.lookup req.tenantId = some ts ∧ ts.weight.eq .zero = false) := by
  have hchecks : ¬σ.Checked req tokens ↔ req.validate.code ≠ .ok ∨
      (σ.requests.lookup req.requestId).isSome = true ∨
        tokens.length ≠ req.promptTokenCount.toNat := by
    rw [Option.isSome_iff_ne_none, ← not_and_or, ← not_and_or, not_iff_not]
    exact ⟨fun h => ⟨h.valid, h.new, h.length_eq⟩, fun h => ⟨h.1, h.2.1, h.2.2⟩⟩
  rw [← or_assoc, ← or_assoc, or_assoc (a := req.validate.code ≠ .ok), ← hchecks]
  have hsubmission := σ.submission env now req tokens
  generalize σ.submitWithTokens env now req tokens = out at h hsubmission
  cases hsubmission with
  | refused hnot _ => exact iff_of_true (.refl σ) (Or.inl hnot)
  | full hchecked hfull =>
    simp only [hchecked, not_true_eq_false, false_or, hfull, true_or, and_true]
    rw [← payloads_withTokens_iff]
    exact ⟨fun hu => funext hu.payloads, fun hu =>
      ⟨fun _ => rfl, fun _ => rfl, fun _ => rfl, fun _ => rfl, congrFun hu, rfl⟩⟩
  | limited hchecked hroom _ message =>
    simp only [hchecked, not_true_eq_false, false_or, Nat.not_le.mpr hroom]
    rw [← payloads_withTokens_iff, ← tenants_withAccount_iff hchecked.valid]
    exact ⟨fun hu => ⟨funext hu.payloads, funext hu.tenants⟩, fun hu =>
      ⟨fun _ => rfl, fun _ => rfl, fun _ => rfl, congrFun hu.2, congrFun hu.1, rfl⟩⟩
  | admitted => exact Bool.noConfusion h

/-- A policy that admits one token per tenant. -/
def oneToken : Env :=
  { Env.standard with cfg := { Env.standard.cfg with perTenantAdmittedTokenLimit := 1 } }

/-- A request without a tenant is refused and leaves nothing behind. -/
theorem untouched_submitWithTokens_invalid :
    isOk ((Impl.fresh oneToken).submitWithTokens oneToken 0
        { Run.plainRequest 1 2 with tenantId := .nil } [5, 6]).2 = false ∧
      (Impl.fresh oneToken).Untouched ((Impl.fresh oneToken).submitWithTokens oneToken 0
        { Run.plainRequest 1 2 with tenantId := .nil } [5, 6]).1 :=
  ⟨by decide +kernel, (untouched_submitWithTokens_iff oneToken 0 (Impl.fresh oneToken)
    { Run.plainRequest 1 2 with tenantId := .nil } [5, 6] (by decide +kernel)).mpr
      (Or.inl (by decide +kernel))⟩

/-- A request of two tokens is refused for the limit of its tenant; its tokens stay registered,
and its tenant, of which nothing was ever admitted, has an account. -/
theorem not_untouched_submitWithTokens_oneToken :
    isOk ((Impl.fresh oneToken).submitWithTokens oneToken 0 (Run.plainRequest 1 2) [5, 6]).2 =
        false ∧
      ¬(Impl.fresh oneToken).Untouched
        ((Impl.fresh oneToken).submitWithTokens oneToken 0 (Run.plainRequest 1 2) [5, 6]).1 ∧
      ((Impl.fresh oneToken).submitWithTokens oneToken 0 (Run.plainRequest 1 2)
        [5, 6]).1.tokenResolver.lookup ⟨1⟩ = some [5, 6] ∧
      (((Impl.fresh oneToken).submitWithTokens oneToken 0 (Run.plainRequest 1 2)
        [5, 6]).1.tenants.lookup ⟨1⟩).isSome = true := by
  refine ⟨by decide +kernel, fun h => ?_, by decide +kernel, by decide +kernel⟩
  have hafter : ((Impl.fresh oneToken).submitWithTokens oneToken 0 (Run.plainRequest 1 2)
      [5, 6]).1.tokenResolver.lookup ⟨1⟩ = some [5, 6] := by
    decide +kernel
  rw [h.payloads] at hafter
  exact absurd hafter (by decide +kernel)

end

end Impl

end PrefillFabric
