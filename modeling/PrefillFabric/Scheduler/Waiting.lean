import PrefillFabric.Scheduler.Admission
import PrefillFabric.Scheduler.Drive
import PrefillFabric.Scheduler.Holdings

/-!
# How long a request has waited

A request may bound the time it is ready to wait. The sweep compares that bound with the time since
the request was admitted, and only asks whether the request is out of flight now. What has passed
since then is the time in the queue and the time out of it, most of it in execution
(`Run.waitingTime_add_awayTime`); the rule adds the two
(`Impl.expiredForDelay_iff`, `Run.expiredForDelay_iff_age`). So a request that expires by it has
waited longer than its bound exactly where the time out of the queue did not make the difference
(`Run.expired_only_if_waited_iff`). That is so for a request in its first chunk, and not for one
whose first chunks took long to execute.
-/

namespace PrefillFabric

section

variable {env : Env} {v v' : View} {l : Label} {r : RequestId} {s s' : Rs}
  {L : Label → Prop} {ms : List ExecutableMember}

/-! ### The time of admission -/

/-- Nothing changes the time of admission. -/
theorem Fate.admitTime_eq (h : Fate env v r s l s') : s'.admitTime = s.admitTime := by
  cases h with
  | keep | launch | flag => rfl
  | expire =>
    rw [Rs.expired, Rs.dropReservation_eq]
  | finish o =>
    rw [Rs.finished, Rs.dropReservation_eq]
    cases o with
    | success | needsNextChunk =>
      dsimp only [Rs.settled, Rs.advanced]
      split_ifs <;> rfl
    | retryableFailure =>
      dsimp only [Rs.settled]
      split_ifs <;> rfl
    | _ => rfl
  | cancel =>
    rw [Rs.cancelled, Rs.dropReservation_eq]
  | withdraw =>
    rw [Rs.withdrawn, Rs.dropReservation_eq]
  | retry =>
    rw [Rs.retried, Rs.withdrawn, Rs.dropReservation_eq]
    split_ifs <;> rfl
  | recover =>
    rw [Rs.recovered, Rs.dropReservation_eq]

theorem Effects.exists_admitTime_eq (h : Effects env L v ms v') (hs : v.req r = some s) :
    ∃ s', v'.req r = some s' ∧ s'.admitTime = s.admitTime :=
  h.exists_of_fate (P := fun t => t.admitTime = s.admitTime)
    (fun _ _ _ _ _ hfate ht => hfate.admitTime_eq.trans ht) hs rfl

/-- Once the sweep is over, nothing expires in a cycle, and what has expired stays so. -/
theorem Effects.exists_expired_iff (h : Effects env Label.Dispatching v ms v')
    (hs : v.req r = some s) :
    ∃ s', v'.req r = some s' ∧ (s'.lifecycle = .expired ↔ s.lifecycle = .expired) := by
  refine h.exists_of_fate (P := fun t => t.lifecycle = .expired ↔ s.lifecycle = .expired)
    (fun _ _ t t' hl hfate ht => ?_) hs Iff.rfl
  cases hfate with
  | keep => exact ht
  | launch _ _ hwait =>
    have hqueued := (Rs.isWaiting_iff.mp hwait).1
    rw [← ht, hqueued]
    exact iff_of_false Lifecycle.noConfusion Lifecycle.noConfusion
  | _ => exact hl.elim

end

namespace Impl

variable {env : Env} {now : Nanoseconds} {σ : Impl} {r : RequestId} {s : Rs}

/-- **The time of admission over one call**: it is that of the call for a request that was not
known before, and does not change for one that was. -/
theorem admitTime_step (env : Env) (hwf : σ.view.Wf) (c : Call) (r : RequestId) :
    (∀ s, σ.requests.lookup r = some s →
      ∃ s', (σ.step env c).1.requests.lookup r = some s' ∧ s'.admitTime = s.admitTime) ∧
    (σ.requests.lookup r = none → ∀ s', (σ.step env c).1.requests.lookup r = some s' →
      s'.admitTime = c.now) := by
  constructor
  · intro s hs
    obtain ⟨u, hu, htime⟩ := (effects_step env hwf c).exists_admitTime_eq (view_req hs)
    obtain ⟨s', hs', rfl⟩ := exists_of_view_req hu
    exact ⟨s', hs', htime⟩
  · intro hnone s' hs'
    by_cases hsubmit : c.op.Submits
    · obtain ⟨now, op⟩ := c
      cases op with
      | submitWithTokens req tokens =>
        change (σ.submitWithTokens env now req tokens).1.requests.lookup r = some s' at hs'
        rcases σ.submitWithTokens_cases env now req tokens with ⟨-, -, hdown⟩ | ⟨-, -, heq⟩
        · rw [hdown.requests, hnone] at hs'
          exact absurd hs'.symm (Option.some_ne_none s')
        · have hlookup : ∀ t : Rs, (AList.insert req.requestId t σ.requests).lookup r = some s' →
              t = s' := by
            intro t ht
            rw [AList.lookup_insert_eq_ite, hnone] at ht
            split_ifs at ht
            exact Option.some.inj ht
          rw [heq, admitRequest_eq] at hs'
          dsimp only at hs'
          split_ifs at hs'
          · rw [← hlookup _ hs']
            rfl
          · rw [← hlookup _ hs']
            rfl
      | _ => exact hsubmit.elim
    · have hsame : ((σ.step env c).1.requests.lookup r).map (·.request) = _ :=
        map_request_step hwf hsubmit r
      rw [hnone, hs'] at hsame
      exact absurd hsame (Option.some_ne_none _)

/-! ### What expires by the rule -/

/-- Whether a cycle expires a request for another reason than its deadline. -/
def expiredForDelay (env : Env) (now : Nanoseconds) (r : RequestId) (σ : Impl) : Bool :=
  ((σ.requests.lookup r).any fun s => !s.lifecycle.isTerminal && !s.deadlinePassed now) &&
    ((σ.runCycle env now).1.requests.lookup r).any fun s => s.lifecycle == .expired

theorem overdue_iff_view : σ.Overdue now r ↔ ∃ s, σ.view.req r = some s ∧
    s.lifecycle.isTerminal = false ∧
      (s.deadlinePassed now = true ∨ s.queueDelayPassed now = true) := by
  constructor
  · rintro ⟨s, hs, h⟩
    exact ⟨s.core, view_req hs, h⟩
  · rintro ⟨u, hu, h⟩
    obtain ⟨s, hs, rfl⟩ := exists_of_view_req hu
    exact ⟨s, hs, h⟩

/-- The sweep leaves a request alone that is not overdue. -/
theorem view_req_foldl_sweepRequest (env : Env) (h : ¬σ.Overdue now r) (hwf : σ.view.Wf)
    (rs : List RequestId) : (rs.foldl (sweepRequest now) σ).view.req r = σ.view.req r := by
  induction rs generalizing σ with
  | nil => rfl
  | cons x rs ih =>
    have hsame : (σ.sweepRequest now x).view.req r = σ.view.req r := by
      by_cases hx : r = x
      · subst hx
        rw [sweepRequest_of_not_overdue h]
      · exact view_req_sweepRequest_of_ne env now hwf hx
    have hnot : ¬(σ.sweepRequest now x).Overdue now r := by
      rw [overdue_iff_view, hsame, ← overdue_iff_view]
      exact h
    rw [List.foldl_cons, ih hnot ((effects_sweepRequest env now hwf x).wf hwf), hsame]

/-- **It expires a request that is overdue**, if it comes to it. -/
theorem exists_expired_foldl_sweepRequest (env : Env) (h : σ.Overdue now r) (hwf : σ.view.Wf)
    {rs : List RequestId} (hr : r ∈ rs) :
    ∃ s, (rs.foldl (sweepRequest now) σ).view.req r = some s ∧ s.lifecycle = .expired := by
  induction rs generalizing σ with
  | nil => exact absurd hr List.not_mem_nil
  | cons x rs ih =>
    have hwf' := (effects_sweepRequest env now hwf x).wf hwf
    by_cases hx : r = x
    · subst hx
      obtain ⟨s, hs, hexpired⟩ : ∃ s, (σ.sweepRequest now r).view.req r = some s ∧
          s.lifecycle = .expired := by
        have heffect := effect_sweepRequest env now hwf h
        generalize (σ.sweepRequest now r).view = v' at heffect
        cases heffect with
        | expire hs => exact ⟨_, Function.update_self .., rfl⟩
      have hnot : ¬(σ.sweepRequest now r).Overdue now r := by
        rw [overdue_iff_view]
        rintro ⟨t, ht, hlive, -⟩
        obtain rfl := Option.some.inj (hs.symm.trans ht)
        rw [hexpired] at hlive
        exact Bool.noConfusion hlive
      rw [List.foldl_cons, view_req_foldl_sweepRequest env hnot hwf']
      exact ⟨s, hs, hexpired⟩
    · refine ih ?_ hwf' ((List.mem_cons.mp hr).resolve_left hx)
      rw [overdue_iff_view, view_req_sweepRequest_of_ne env now hwf hx, ← overdue_iff_view]
      exact h

/-- **What a cycle expires**: a request that was not over is expired by it exactly if it is
overdue. -/
theorem lifecycle_runCycle_eq_expired_iff (hwf : σ.view.Wf) (hs : σ.requests.lookup r = some s)
    (hlive : s.lifecycle.isTerminal = false) :
    (∃ t, (σ.runCycle env now).1.requests.lookup r = some t ∧ t.lifecycle = .expired) ↔
      s.deadlinePassed now = true ∨ s.queueDelayPassed now = true := by
  have hsweep := (effects_expirySweep env now σ hwf).wf hwf
  have hdispatch := effects_dispatchPhase env now hsweep
  rw [← runCycle_eq] at hdispatch
  constructor
  · rintro ⟨t, ht, hexpired⟩
    by_contra hnot
    have hspared : ¬σ.Overdue now r := by
      rintro ⟨s', hs', -, hlate⟩
      obtain rfl := Option.some.inj (hs.symm.trans hs')
      exact hnot hlate
    have hkept := (view_req_foldl_sweepRequest env hspared hwf σ.requests.keys).trans (view_req hs)
    obtain ⟨u, hu, hsame⟩ := hdispatch.exists_expired_iff hkept
    obtain rfl := Option.some.inj ((view_req ht).symm.trans hu)
    have hover : s.lifecycle = .expired := hsame.mp hexpired
    rw [hover] at hlive
    exact Bool.noConfusion hlive
  · intro hlate
    have hkey : r ∈ σ.requests.keys := AList.mem_keys.mp (AList.lookup_isSome.mp (by rw [hs]; rfl))
    obtain ⟨u, hu, hexpired⟩ :=
      exists_expired_foldl_sweepRequest env ⟨s, hs, hlive, hlate⟩ hwf hkey
    obtain ⟨u', hu', hsame⟩ := hdispatch.exists_expired_iff hu
    obtain ⟨t, ht, rfl⟩ := exists_of_view_req hu'
    exact ⟨t, ht, hsame.mpr hexpired⟩

/-- **The rule**, as the sweep applies it. -/
theorem expiredForDelay_iff (hwf : σ.view.Wf) (hs : σ.requests.lookup r = some s)
    {d : Nanoseconds} (hd : s.request.maxQueueDelay = some d) :
    σ.expiredForDelay env now r = true ↔ s.lifecycle.isTerminal = false ∧
      s.deadlinePassed now = false ∧ s.inFlight = false ∧ d < now - s.admitTime := by
  have hdelay : s.queueDelayPassed now = true ↔ s.inFlight = false ∧ d < now - s.admitTime := by
    rw [Rs.queueDelayPassed, hd]
    simp
  have hafter : ((σ.runCycle env now).1.requests.lookup r).any (fun t => t.lifecycle == .expired) =
      true ↔ ∃ t, (σ.runCycle env now).1.requests.lookup r = some t ∧ t.lifecycle = .expired := by
    rw [Option.any_eq_true]
    simp
  rw [expiredForDelay, Bool.and_eq_true, hafter, hs, Option.any_some, Bool.and_eq_true,
    Bool.not_eq_true', Bool.not_eq_true', and_assoc]
  refine and_congr_right fun hlive => and_congr_right fun hdeadline => ?_
  rw [lifecycle_runCycle_eq_expired_iff hwf hs hlive, hdeadline, hdelay]
  simp

/-! ### Waiting -/

/-- Whether a request waits: queued, and not in flight. -/
def isQueued (r : RequestId) (σ : Impl) : Bool :=
  (σ.requests.lookup r).any fun s => s.lifecycle == .queued && !s.inFlight

/-- Whether a request is known and does not wait. -/
def isAway (r : RequestId) (σ : Impl) : Bool :=
  (σ.requests.lookup r).any fun s => !(s.lifecycle == .queued && !s.inFlight)

end Impl

namespace Run

/-- The time of a call. -/
def timeAt (ρ : Run) (n : ℕ) : Nanoseconds := ((ρ.calls[n]?).map (·.now)).getD 0

/-- The time between the first `n + 1` calls during which the state was of a kind. -/
def timeSpent (ρ : Run) (p : Impl → Bool) (n : ℕ) : Nanoseconds :=
  ((List.range n).map fun k =>
    if p (ρ.stateAt (k + 1)) then ρ.timeAt (k + 1) - ρ.timeAt k else 0).sum

/-- The time a request has waited until a call. -/
def waitingTime (ρ : Run) (r : RequestId) (n : ℕ) : Nanoseconds := ρ.timeSpent (·.isQueued r) n

/-- The time a request has been known and has not waited: in flight, or left without work. -/
def awayTime (ρ : Run) (r : RequestId) (n : ℕ) : Nanoseconds := ρ.timeSpent (·.isAway r) n

variable {ρ : Run} {n : ℕ} {r : RequestId}

theorem timeSpent_succ (p : Impl → Bool) : ρ.timeSpent p (n + 1) = ρ.timeSpent p n +
    if p (ρ.stateAt (n + 1)) then ρ.timeAt (n + 1) - ρ.timeAt n else 0 := by
  rw [timeSpent, List.range_succ, List.map_append, List.sum_append]
  simp [timeSpent]

/-- From one call to the next a request that is known either waits or does not. -/
theorem waitingTime_add_awayTime_succ :
    ρ.waitingTime r (n + 1) + ρ.awayTime r (n + 1) = ρ.waitingTime r n + ρ.awayTime r n +
      if ((ρ.stateAt (n + 1)).requests.lookup r).isSome then ρ.timeAt (n + 1) - ρ.timeAt n
      else 0 := by
  rw [waitingTime, awayTime, timeSpent_succ, timeSpent_succ, ← waitingTime, ← awayTime]
  cases hs : (ρ.stateAt (n + 1)).requests.lookup r with
  | none =>
    simp only [Impl.isQueued, Impl.isAway, hs, Option.any_none, Option.isSome_none]
    simp
  | some s =>
    simp only [Impl.isQueued, Impl.isAway, hs, Option.any_some, Option.isSome_some]
    cases (s.lifecycle == .queued && !s.inFlight) with
    | true => simpa using add_right_comm _ _ _
    | false => simpa using (add_assoc _ _ _).symm

/-- What the time since admission is made of, for every request: nothing for one that is not
known. -/
theorem waitingTime_add_awayTime_eq (hwf : ρ.start.view.Wf)
    (h₀ : ρ.start.requests.lookup r = none) (n : ℕ) :
    ρ.waitingTime r n + ρ.awayTime r n =
      ((ρ.stateAt n).requests.lookup r).elim 0 fun s => ρ.timeAt n - s.admitTime := by
  induction n with
  | zero =>
    change _ = (ρ.start.requests.lookup r).elim 0 _
    rw [h₀]
    rfl
  | succ n ih =>
    rw [waitingTime_add_awayTime_succ, ih]
    cases hc : ρ.calls[n]? with
    | none =>
      rw [stateAt_succ_of_none hc]
      cases (ρ.stateAt n).requests.lookup r with
      | none => rfl
      | some s => exact sub_add_sub_cancel' _ _ _
    | some c =>
      have htime : ρ.timeAt n = c.now := by rw [timeAt, hc]; rfl
      obtain ⟨hknown, hnew⟩ := Impl.admitTime_step ρ.env (wf hwf n) c r
      rw [← stateAt_succ hc] at hknown hnew
      cases hs : (ρ.stateAt n).requests.lookup r with
      | some s =>
        obtain ⟨s', hs', hadmit⟩ := hknown s hs
        rw [hs']
        simp only [Option.isSome_some, if_true, Option.elim_some, hadmit]
        exact sub_add_sub_cancel' _ _ _
      | none =>
        cases hs' : (ρ.stateAt (n + 1)).requests.lookup r with
        | none => rfl
        | some s' =>
          simp only [Option.isSome_some, if_true, Option.elim_some, Option.elim_none,
            hnew hs s' hs', htime]
          exact zero_add _

/-- **The time since admission** is the time in the queue and the time out of it. -/
theorem waitingTime_add_awayTime (env : Env) (calls : List Call) {s : Rs}
    (hs : ((fresh env calls).stateAt n).requests.lookup r = some s) :
    (fresh env calls).waitingTime r n + (fresh env calls).awayTime r n =
      (fresh env calls).timeAt n - s.admitTime := by
  rw [waitingTime_add_awayTime_eq (fresh_wf env calls) rfl n, hs, Option.elim_some]

/-- The rule adds the two. -/
theorem expiredForDelay_iff_age (env : Env) (calls : List Call) {now : Nanoseconds}
    (hcall : calls[n]? = some ⟨now, .runCycle⟩) {s : Rs}
    (hs : ((fresh env calls).stateAt n).requests.lookup r = some s) {d : Nanoseconds}
    (hd : s.request.maxQueueDelay = some d) :
    ((fresh env calls).stateAt n).expiredForDelay env now r = true ↔
      s.lifecycle.isTerminal = false ∧ s.deadlinePassed now = false ∧ s.inFlight = false ∧
        d < (fresh env calls).waitingTime r n + (fresh env calls).awayTime r n := by
  have htime : (fresh env calls).timeAt n = now := by
    rw [timeAt, show (fresh env calls).calls[n]? = some ⟨now, .runCycle⟩ from hcall]
    rfl
  rw [Impl.expiredForDelay_iff (wf (fresh_wf env calls) n) hs hd,
    waitingTime_add_awayTime env calls hs, htime]

/-- **When a request that expires for its delay has waited for so long.** In every run of a new
scheduler a cycle expires a request by the rule only if the time it has waited since its admission
is more than the bound, exactly if this is so: whenever the request is not over, not past its
deadline and not in flight, and has waited for no more than the bound, the time it was out of the
queue is within what is left of the bound. -/
theorem expired_only_if_waited_iff (env : Env) (calls : List Call) (n : ℕ) {now : Nanoseconds}
    (hcall : calls[n]? = some ⟨now, .runCycle⟩) {r : RequestId} {s : Rs}
    (hs : ((fresh env calls).stateAt n).requests.lookup r = some s) {d : Nanoseconds}
    (hd : s.request.maxQueueDelay = some d) :
    (((fresh env calls).stateAt n).expiredForDelay env now r = true →
        d < (fresh env calls).waitingTime r n) ↔
      (s.lifecycle.isTerminal = false → s.deadlinePassed now = false → s.inFlight = false →
        (fresh env calls).waitingTime r n ≤ d →
        (fresh env calls).awayTime r n ≤ d - (fresh env calls).waitingTime r n) := by
  rw [expiredForDelay_iff_age env calls hcall hs hd, le_sub_iff_add_le']
  constructor
  · intro h hlive hdeadline hidle hwaited
    by_contra hover
    exact absurd (h ⟨hlive, hdeadline, hidle, not_le.mp hover⟩) (not_lt.mpr hwaited)
  · rintro h ⟨hlive, hdeadline, hidle, hage⟩
    by_contra hwaited
    exact absurd (h hlive hdeadline hidle (not_lt.mp hwaited)) (not_le.mpr hage)

/-- A request that is ready to wait for ten nanoseconds, and is not dispatched for eleven. -/
def patientCalls : List Call :=
  [⟨0, .submitWithTokens { plainRequest 1 2 with maxQueueDelay := some 10 } [5, 6]⟩,
    ⟨11, .runCycle⟩]

theorem expired_only_if_waited_patientCalls :
    ((fresh .standard patientCalls).stateAt 1).expiredForDelay .standard 11 ⟨1⟩ = true ∧
      10 < (fresh .standard patientCalls).waitingTime ⟨1⟩ 1 := by
  have hexpired :
      ((fresh .standard patientCalls).stateAt 1).expiredForDelay .standard 11 ⟨1⟩ = true := by
    decide +kernel
  have hvalues : (((fresh .standard patientCalls).stateAt 1).requests.lookup ⟨1⟩).map
      (·.request.maxQueueDelay) = some (some 10) := by decide +kernel
  have haway : (fresh .standard patientCalls).awayTime ⟨1⟩ 1 = 0 := by decide +kernel
  obtain ⟨s, hs, hd⟩ := Option.map_eq_some_iff.mp hvalues
  refine ⟨hexpired, (expired_only_if_waited_iff .standard patientCalls 1 rfl hs hd).mpr
    (fun _ _ _ hwaited => ?_) hexpired⟩
  rw [haway]
  exact sub_nonneg.mpr hwaited

/-- A request of four chunks that is ready to wait for ten nanoseconds. It is dispatched at once,
and its first chunk takes a hundred to execute. -/
def promptCalls : List Call :=
  [⟨0, .submitWithTokens
      { plainRequest 1 4 with memoryEstimateBytes := 2147483648, maxQueueDelay := some 10 }
      [5, 6, 7, 8]⟩,
    ⟨0, .runCycle⟩,
    ⟨100, .reportCompletion (firstReport .success)⟩,
    ⟨100, .runCycle⟩]

/-- It expires for its delay in the next cycle, and has not waited at all. -/
theorem expiredForDelay_promptCalls :
    ((fresh .standard promptCalls).stateAt 3).expiredForDelay .standard 100 ⟨1⟩ = true ∧
      (fresh .standard promptCalls).waitingTime ⟨1⟩ 3 = 0 ∧
      (promptCalls.map (·.now)).Pairwise (· ≤ ·) := by
  decide +kernel

end Run

end PrefillFabric
