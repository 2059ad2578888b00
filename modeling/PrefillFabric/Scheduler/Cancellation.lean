import PrefillFabric.Scheduler.Progress
import PrefillFabric.Scheduler.Terminal

/-!
# Cancellations

A cancellation that finds its request waiting ends it on the spot. One that finds it in
flight only raises a flag, and is to take effect when the chunk that is being executed
comes back. Two things follow from the flag, one of them less than it should be.

The request will not complete. Nothing lowers the flag before the request is over, neither a
retry nor a recovery, and a chunk that succeeds under the flag ends the request
(`Rs.Doomed`, `Run.not_completed_of_cancelled`).

But the flag is looked at where a chunk succeeds and nowhere else. Whatever takes the request
out of flight in another way – a failure that is retried, a forced retry, the loss of the
worker, an outcome that settles nothing – leaves it waiting, or stranded, with the
cancellation acknowledged, and what waits is handed out again. A cancellation takes effect
when the request comes out of flight exactly if none of these happens
(`Run.cancellation_takes_effect_iff`).
-/

namespace PrefillFabric

section

variable {env : Env} {v v' : View} {l : Label} {L : Label → Prop} {r : RequestId} {s s' : Rs}

/-! ### Requests that will not complete -/

/-- **A doomed request**: over without having been completed, or with a cancellation
pending. -/
structure Rs.Doomed (s : Rs) : Prop where
  pending : s.lifecycle.isTerminal = false → s.cancelPending = true
  ended : s.lifecycle.isTerminal = true →
    s.lifecycle = .cancelled ∨ s.lifecycle = .expired ∨ s.lifecycle = .failedNonRetryable

namespace Rs

theorem doomed_of_pending (hlive : s.lifecycle.isTerminal = false) (h : s.cancelPending = true) :
    s.Doomed :=
  ⟨fun _ => h, fun hover => Bool.noConfusion (hlive.symm.trans hover)⟩

theorem doomed_of_ended
    (h : s.lifecycle = .cancelled ∨ s.lifecycle = .expired ∨ s.lifecycle = .failedNonRetryable) :
    s.Doomed := by
  refine ⟨fun hlive => ?_, fun _ => h⟩
  rcases h with h | h | h <;> rw [h] at hlive <;> exact Bool.noConfusion hlive

theorem Doomed.ne_completed (h : s.Doomed) : s.lifecycle ≠ .completed := by
  intro hc
  have hended := h.ended (by rw [hc]; rfl)
  simp [hc] at hended

@[simp] theorem dropReservation_cancelPending (s : Rs) :
    s.dropReservation.cancelPending = s.cancelPending := by
  rw [dropReservation_eq]

/-- A chunk that succeeds under the flag ends the request. -/
theorem advanced_of_pending (h : s.cancelPending = true) : s.advanced.lifecycle = .cancelled := by
  rw [advanced, if_pos h]

/-- Whatever the outcome, a doomed request stays doomed. -/
theorem Doomed.settled (h : s.Doomed) (hlive : s.lifecycle.isTerminal = false) (o : MemberOutcome)
    (a : AttemptId) : (s.settled env o a).Doomed := by
  have hpending := h.pending hlive
  cases o with
  | success => exact doomed_of_ended (Or.inl (advanced_of_pending hpending))
  | needsNextChunk => exact doomed_of_ended (Or.inl (advanced_of_pending hpending))
  | retryableFailure =>
    simp only [Rs.settled]
    split_ifs
    · exact doomed_of_pending rfl hpending
    · exact doomed_of_ended (Or.inr (Or.inr rfl))
  | nonRetryableFailure => exact doomed_of_ended (Or.inr (Or.inr rfl))
  | cancelled => exact doomed_of_ended (Or.inl rfl)
  | expired => exact doomed_of_ended (Or.inr (Or.inl rfl))
  | staleRejected => exact h

theorem Doomed.dropped (h : s.Doomed) (g : GroupId) :
    ({ s.dropReservation with currentGroup := g } : Rs).Doomed := by
  rw [dropReservation_eq]
  exact ⟨h.pending, h.ended⟩

end Rs

/-- **Whatever happens to a doomed request leaves it doomed.** -/
theorem Fate.doomed (h : Fate env v r s l s') (hs : s.Doomed) : s'.Doomed := by
  cases h with
  | keep => exact hs
  | expire => exact Rs.doomed_of_ended (Or.inr (Or.inl rfl))
  | launch _ _ hwait =>
    exact Rs.doomed_of_pending rfl (hs.pending (Rs.isTerminal_of_isWaiting hwait))
  | finish o _ hlive =>
    have hlanded : (s.landed env).Doomed := ⟨hs.pending, hs.ended⟩
    exact (hlanded.settled hlive o _).dropped _
  | flag _ hlive => exact Rs.doomed_of_pending hlive rfl
  | cancel => exact Rs.doomed_of_ended (Or.inl rfl)
  | withdraw _ hlive =>
    refine Rs.doomed_of_pending ?_ ?_ <;> simp [Rs.withdrawn, hlive, hs.pending hlive]
  | retry hlive =>
    refine Rs.doomed_of_pending rfl ?_
    rw [Rs.retried]
    split_ifs <;> simp [Rs.beginAttempt, Rs.withdrawn, hs.pending hlive]
  | recover _ _ hdisp =>
    refine Rs.doomed_of_pending rfl ?_
    simp [Rs.recovered, hs.pending (by rw [hdisp]; rfl)]

theorem Effects.doomed {ms : List ExecutableMember} (h : Effects env L v ms v')
    (hs : v.req r = some s) (hdoomed : s.Doomed) : ∃ s', v'.req r = some s' ∧ s'.Doomed := by
  exact h.exists_of_fate (fun _ _ _ _ _ hfate => hfate.doomed) hs hdoomed

/-! ### Requests that are out of reach of a cycle -/

/-- In flight, or over: nothing that a cycle could hand out. -/
def Rs.Bound (s : Rs) : Prop := s.inFlight = true ∨ s.lifecycle.isTerminal = true

theorem Rs.Bound.not_waiting (h : s.Bound) : s.isWaiting = false := by
  rw [← Bool.not_eq_true]
  intro hwait
  rcases h with hflight | hover
  · exact Bool.noConfusion (hflight.symm.trans (Rs.isWaiting_iff.mp hwait).2.1)
  · exact Bool.noConfusion (hover.symm.trans (Rs.isTerminal_of_isWaiting hwait))

/-- A label that may take a request out of flight without ending it. -/
def Label.Recalls (r : RequestId) : Label → Prop
  | finish x _ | withdraw x | retry x => x = r
  | lose _ => True
  | _ => False

/-- Every other label leaves a request bound that is bound. -/
theorem Fate.bound (h : Fate env v r s l s') (hl : ¬l.Recalls r) (hs : s.Bound) : s'.Bound := by
  cases h with
  | keep => exact hs
  | expire => exact Or.inr rfl
  | launch => exact Or.inl rfl
  | finish => exact absurd rfl hl
  | flag hflight => exact Or.inl hflight
  | cancel => exact Or.inr rfl
  | withdraw => exact absurd rfl hl
  | retry => exact absurd rfl hl
  | recover => exact absurd trivial hl

/-- What is bound stays bound along such labels, and is not handed out. -/
theorem Effects.of_bound {ms : List ExecutableMember} (h : Effects env L v ms v')
    (hL : ∀ l, L l → ¬l.Recalls r) (hs : v.req r = some s) (hbound : s.Bound) :
    (∃ s', v'.req r = some s' ∧ s'.Bound) ∧ ∀ m ∈ ms, m.requestId ≠ r := by
  induction h with
  | refl => exact ⟨⟨s, hs, hbound⟩, fun m hm => absurd hm List.not_mem_nil⟩
  | tail _ hl hlabel ih =>
    obtain ⟨⟨t, ht, htb⟩, hms⟩ := ih
    obtain ⟨s', hs', hfate⟩ := hl.exists_fate ht
    refine ⟨⟨s', hs', hfate.bound (hL _ hlabel) htb⟩, fun m hm => ?_⟩
    rcases List.mem_append.mp hm with hm | hm
    · exact hms m hm
    · exact hl.requestId_ne_of_not_waiting ht htb.not_waiting m hm

/-! ### Coming out of flight -/

/-- A doomed request that comes out of flight is over, unless the outcome settles nothing or
starts a new attempt. -/
theorem Rs.Doomed.finished_isTerminal (h : s.Doomed) (hlive : s.lifecycle.isTerminal = false)
    {o : MemberOutcome} (ho : o ≠ .staleRejected)
    (hbudget : o = .retryableFailure → s.request.maxRetries ≤ s.retriesUsed) (a : AttemptId) :
    (s.finished env o a).lifecycle.isTerminal = true := by
  have hpending : (s.landed env).cancelPending = true := h.pending hlive
  have hsettled : ((s.landed env).settled env o a).lifecycle.isTerminal = true := by
    cases o with
    | success => exact congrArg Lifecycle.isTerminal (advanced_of_pending hpending)
    | needsNextChunk => exact congrArg Lifecycle.isTerminal (advanced_of_pending hpending)
    | retryableFailure =>
      have hno : ¬(s.landed env).retriesUsed < (s.landed env).request.maxRetries :=
        not_lt.mpr (hbudget rfl)
      simp only [Rs.settled, if_neg hno]
      rfl
    | staleRejected => exact absurd rfl ho
    | _ => rfl
  exact (congrArg Lifecycle.isTerminal (dropReservation_lifecycle _)).trans hsettled

/-- Otherwise it is neither in flight nor over. -/
theorem Rs.not_bound_finished (hlive : s.lifecycle.isTerminal = false) {o : MemberOutcome}
    (ho : o = .staleRejected ∨ (o = .retryableFailure ∧ s.retriesUsed < s.request.maxRetries))
    (a : AttemptId) : ¬(s.finished env o a).Bound := by
  have hsettled : ((s.landed env).settled env o a).lifecycle.isTerminal = false := by
    rcases ho with rfl | ⟨rfl, hbudget⟩
    · exact hlive
    · have hyes : (s.landed env).retriesUsed < (s.landed env).request.maxRetries := hbudget
      simp only [Rs.settled, if_pos hyes]
      rfl
  rintro (hflight | hover)
  · exact Bool.noConfusion ((s.finished_inFlight env o a).symm.trans hflight)
  · have hl := congrArg Lifecycle.isTerminal
      (Rs.dropReservation_lifecycle ((s.landed env).settled env o a))
    exact Bool.noConfusion ((hl.trans hsettled).symm.trans hover)

theorem Effect.not_bound_withdraw (h : Effect env v (.withdraw r) v') :
    ∃ s', v'.req r = some s' ∧ ¬s'.Bound := by
  cases h with
  | @withdraw _ s _ _ hlive _ =>
    refine ⟨s.withdrawn, Function.update_self .., ?_⟩
    simp [Rs.Bound, Rs.withdrawn, hlive]

theorem Effect.not_bound_retry (h : Effect env v (.retry r) v') :
    ∃ s', v'.req r = some s' ∧ ¬s'.Bound := by
  cases h with
  | @retry _ s _ hlive _ =>
    refine ⟨s.retried env _, Function.update_self .., ?_⟩
    rintro (hflight | hover)
    · exact Bool.noConfusion ((s.retried_inFlight env _).symm.trans hflight)
    · exact Bool.noConfusion hover

end

/-! ### Cancellation calls -/

namespace Impl

variable {env : Env} {now : Nanoseconds} {σ : Impl} {r : RequestId} {s : Rs}

/-- A cancellation that is acknowledged dooms its request, and leaves it in flight or over. -/
theorem doomed_of_cancel (h : (σ.cancel now r).2.applied = true) :
    ∃ s, (σ.cancel now r).1.view.req r = some s ∧ s.Doomed ∧ s.Bound := by
  unfold cancel at h ⊢
  cases hs : σ.requests.lookup r with
  | none =>
    rw [hs] at h
    exact Bool.noConfusion h
  | some s =>
    simp only [hs] at h ⊢
    split_ifs at h ⊢ with hover hflight
    · rw [view_record, view_setRequest, Rs.core_note]
      exact ⟨_, Function.update_self .., Rs.doomed_of_pending (Bool.eq_false_iff.mpr hover) rfl,
        Or.inl hflight⟩
    all_goals
      rw [view_record, view_setRequest]
      exact ⟨_, Function.update_self .., Rs.doomed_of_ended (Or.inl rfl), Or.inr rfl⟩

theorem doomed_of_cancelGeneration {g : Generation}
    (h : (σ.cancelGeneration r g).2.applied = true) :
    ∃ s, (σ.cancelGeneration r g).1.view.req r = some s ∧ s.Doomed := by
  unfold cancelGeneration at h ⊢
  cases hs : σ.requests.lookup r with
  | none =>
    rw [hs] at h
    exact Bool.noConfusion h
  | some s =>
    simp only [hs] at h ⊢
    split_ifs at h ⊢ with hover hflight
    rw [view_setRequest]
    exact ⟨_, Function.update_self .., Rs.doomed_of_pending (Bool.eq_false_iff.mpr hover) rfl⟩

/-- In flight, or over. -/
def InFlightOrOver (σ : Impl) (r : RequestId) : Prop :=
  ∃ s, σ.requests.lookup r = some s ∧ (s.inFlight = true ∨ s.lifecycle.isTerminal = true)

theorem inFlightOrOver_iff : σ.InFlightOrOver r ↔ ∃ s, σ.view.req r = some s ∧ s.Bound := by
  constructor
  · rintro ⟨s, hs, h⟩
    exact ⟨s.core, view_req hs, h⟩
  · rintro ⟨t, ht, h⟩
    obtain ⟨s, hs, rfl⟩ := exists_of_view_req ht
    exact ⟨s, hs, h⟩

/-- **An operation honours a cancellation**: it does not take the request out of flight
without ending it. It is no acceptable completion that settles nothing or is retried, no
forced retry of the request in flight, and not the loss of the worker it is in flight on. -/
def HonoursCancel (σ : Impl) (r : RequestId) : Op → Prop
  | .reportCompletion result => ∀ s, σ.view.Accepts result s → result.requestId = r →
      result.outcome ≠ .staleRejected ∧
        (result.outcome = .retryableFailure → s.request.maxRetries ≤ s.retriesUsed)
  | .forceRetry x => x = r → ∀ s, σ.requests.lookup r = some s → s.isLive = false
  | .workerLost w => ¬σ.view.Lost w r
  | _ => True

/-- A call that cannot take a request out of flight without ending it. -/
theorem not_recalls_of_causes {op : Op} (hreport : ∀ result, op ≠ .reportCompletion result)
    (hretry : op ≠ .forceRetry r) (hlost : ∀ w, op ≠ .workerLost w) {l : Label}
    (hl : op.Causes l) : ¬l.Recalls r := by
  intro hrecalls
  cases op with
  | reportCompletion result => exact hreport result rfl
  | workerLost w => exact hlost w rfl
  | forceRetry x =>
    cases l with
    | withdraw y => exact hretry (congrArg Op.forceRetry (hl.symm.trans hrecalls))
    | retry y => exact hretry (congrArg Op.forceRetry (hl.symm.trans hrecalls))
    | _ => exact hl
  | _ => cases l <;> first | exact hl | exact hrecalls

/-- What honours the cancellation leaves a doomed request in flight or over. -/
theorem HonoursCancel.bound (hwf : σ.view.Wf) {c : Call} (hc : σ.HonoursCancel r c.op)
    (hs : σ.view.req r = some s) (hdoomed : s.Doomed) (hbound : s.Bound) :
    ∃ s', (σ.step env c).1.view.req r = some s' ∧ s'.Bound := by
  have heffects := effects_step env hwf c
  by_cases hover : s.lifecycle.isTerminal = true
  · exact ⟨s, (heffects.of_terminal hs hover).1, Or.inr hover⟩
  have hflight : s.inFlight = true := hbound.resolve_right hover
  have hlive : s.lifecycle.isTerminal = false := Bool.eq_false_iff.mpr hover
  obtain ⟨now, op⟩ := c
  by_cases hreport : ∃ result, op = .reportCompletion result
  · obtain ⟨result, rfl⟩ := hreport
    change ∃ s', (σ.reportCompletion env now result).1.view.req r = some s' ∧ s'.Bound
    rcases effect_reportCompletion env now result hwf with ⟨-, hview⟩ | ⟨hok, heffect⟩
    · exact ⟨s, by rw [hview]; exact hs, hbound⟩
    · obtain ⟨t, haccepts⟩ := isOk_reportCompletion_iff.mp hok
      obtain ⟨s', hs', hfate⟩ := heffect.exists_fate hs
      refine ⟨s', hs', ?_⟩
      cases hfate with
      | keep => exact hbound
      | finish =>
        obtain rfl := Option.some.inj (haccepts.req.symm.trans hs)
        obtain ⟨ho, hbudget⟩ := hc t haccepts rfl
        exact Or.inr (hdoomed.finished_isTerminal hlive ho hbudget _)
  by_cases hlost : ∃ w, op = .workerLost w
  · obtain ⟨w, rfl⟩ := hlost
    have hkept := (lose_workerLost now w σ).kept r hc
    exact ⟨s, hkept.trans hs, hbound⟩
  by_cases hretry : op = .forceRetry r
  · subst hretry
    obtain ⟨t, ht, rfl⟩ := exists_of_view_req hs
    have hnot : t.isLive = false := hc rfl t ht
    exact absurd (Rs.isLive_iff.mpr ⟨hflight, hlive⟩) (Bool.eq_false_iff.mp hnot)
  exact (heffects.of_bound (fun l hl => not_recalls_of_causes (fun result h => hreport ⟨result, h⟩)
    hretry (fun w h => hlost ⟨w, h⟩) hl) hs hbound).1

/-- What does not honour it leaves the request neither in flight nor over. -/
theorem not_bound_of_not_honoursCancel (env : Env) (hwf : σ.view.Wf) {c : Call}
    (hc : ¬σ.HonoursCancel r c.op) :
    ∃ s', (σ.step env c).1.view.req r = some s' ∧ ¬s'.Bound := by
  obtain ⟨now, op⟩ := c
  cases op with
  | reportCompletion result =>
    simp only [HonoursCancel, not_forall, not_and_or, not_not, not_le, exists_prop] at hc
    obtain ⟨s, haccepts, rfl, ho⟩ := hc
    obtain ⟨a, ha⟩ := exists_finished_of_accepts env now hwf haccepts
    exact ⟨_, ha, s.not_bound_finished haccepts.lifecycle ho a⟩
  | forceRetry x =>
    simp only [HonoursCancel, not_forall, Bool.not_eq_false] at hc
    obtain ⟨rfl, s, hs, hlive⟩ := hc
    obtain ⟨hflight, hnot⟩ := Rs.isLive_iff.mp hlive
    rcases σ.effect_forceRetry env now x with ⟨-, hwhy⟩ | heffect | heffect
    · exact Bool.noConfusion ((hwhy _ (view_req hs) hnot).1.symm.trans hflight)
    · exact heffect.not_bound_withdraw
    · exact heffect.not_bound_retry
  | workerLost w =>
    simp only [HonoursCancel, not_not] at hc
    obtain ⟨g, out, s, -, -, hs, -⟩ := id hc
    refine ⟨s.recovered, (lose_workerLost now w σ).lost r s hc hs, ?_⟩
    rintro (hflight | hover)
    · exact Bool.noConfusion hflight
    · exact Bool.noConfusion hover
  | _ => exact absurd trivial hc

/-- A request that is in flight or over is not handed out. -/
theorem requestId_ne_of_bound (hwf : σ.view.Wf) {c : Call} (hs : σ.view.req r = some s)
    (hbound : s.Bound) : ∀ m ∈ (σ.step env c).2.members, m.requestId ≠ r := by
  intro m hm
  obtain ⟨now, rfl, -⟩ := exists_runCycle_of_mem_members hm
  refine ((effects_step env hwf _).of_bound (fun l hl => ?_) hs hbound).2 m hm
  exact not_recalls_of_causes (fun _ => Op.noConfusion) Op.noConfusion (fun _ => Op.noConfusion) hl

end Impl

/-! ### Runs -/

namespace Run

variable {ρ : Run} {r : RequestId} {i j n : ℕ}

/-- Call number `n` cancels the request, and the cancellation is acknowledged. -/
def Cancelled (ρ : Run) (n : ℕ) (r : RequestId) : Prop :=
  ∃ now, ρ.calls[n]? = some ⟨now, .cancel r⟩ ∧ ((ρ.stateAt n).cancel now r).2.applied = true

/-- Call number `n` cancels one generation of the request, and the cancellation is
acknowledged. -/
def GenerationCancelled (ρ : Run) (n : ℕ) (r : RequestId) : Prop :=
  ∃ now g, ρ.calls[n]? = some ⟨now, .cancelGeneration r g⟩ ∧
    ((ρ.stateAt n).cancelGeneration r g).2.applied = true

theorem Cancelled.doomed (h : ρ.Cancelled n r) :
    ∃ s, (ρ.stateAt (n + 1)).view.req r = some s ∧ s.Doomed ∧ s.Bound := by
  obtain ⟨now, hc, happlied⟩ := h
  rw [stateAt_succ hc]
  exact Impl.doomed_of_cancel happlied

theorem GenerationCancelled.doomed (h : ρ.GenerationCancelled n r) :
    ∃ s, (ρ.stateAt (n + 1)).view.req r = some s ∧ s.Doomed := by
  obtain ⟨now, g, hc, happlied⟩ := h
  rw [stateAt_succ hc]
  exact Impl.doomed_of_cancelGeneration happlied

/-- What is doomed stays doomed. -/
theorem doomed_of_le (hwf : ρ.start.view.Wf) (hij : i ≤ j)
    (h : ∃ s, (ρ.stateAt i).view.req r = some s ∧ s.Doomed) :
    ∃ s, (ρ.stateAt j).view.req r = some s ∧ s.Doomed := by
  induction j, hij using Nat.le_induction with
  | base => exact h
  | succ k _ ih =>
    obtain ⟨s, hs, hdoomed⟩ := ih
    cases hc : ρ.calls[k]? with
    | none =>
      rw [stateAt_succ_of_none hc]
      exact ⟨s, hs, hdoomed⟩
    | some c => exact (effects hwf hc).doomed hs hdoomed

/-- **A request whose cancellation was acknowledged is never completed**: whatever happens
afterwards, it is not over, or it was cancelled, it expired or it failed. -/
theorem not_completed_of_cancelled (env : Env) (calls : List Call) (hij : i < j)
    (hcancel : (fresh env calls).Cancelled i r ∨ (fresh env calls).GenerationCancelled i r) :
    ∃ s, ((fresh env calls).stateAt j).requests.lookup r = some s ∧ s.lifecycle ≠ .completed ∧
      (s.lifecycle.isTerminal = true →
        s.lifecycle = .cancelled ∨ s.lifecycle = .expired ∨ s.lifecycle = .failedNonRetryable) := by
  have hdoomed : ∃ s, ((fresh env calls).stateAt (i + 1)).view.req r = some s ∧ s.Doomed := by
    rcases hcancel with h | h
    · obtain ⟨s, hs, hd, -⟩ := h.doomed
      exact ⟨s, hs, hd⟩
    · exact h.doomed
  obtain ⟨t, ht, hd⟩ := doomed_of_le (fresh_wf env calls) hij hdoomed
  obtain ⟨s, hs, rfl⟩ := Impl.exists_of_view_req ht
  exact ⟨s, hs, hd.ne_completed, hd.ended⟩

/-- A request is cancelled in flight; its worker is lost, and it is dispatched again; its chunk
fails, and it is retried and dispatched once more; and then its chunk succeeds. -/
def cancelledCalls : List Call :=
  [⟨0, .submitWithTokens (plainRequest 1 2) [5, 6]⟩, ⟨0, .runCycle⟩, ⟨0, .cancel ⟨1⟩⟩,
    ⟨0, .workerLost .nil⟩, ⟨0, .registerWorker { workerId := ⟨7⟩, bootId := ⟨3⟩ }⟩, ⟨0, .runCycle⟩,
    ⟨0, .reportCompletion
      { requestId := ⟨1⟩, attemptId := ⟨1⟩, generation := ⟨2⟩, outcome := .retryableFailure,
        epoch := ⟨1⟩ }⟩,
    ⟨0, .runCycle⟩,
    ⟨0, .reportCompletion
      { requestId := ⟨1⟩, attemptId := ⟨2⟩, generation := ⟨3⟩, outcome := .success,
        epoch := ⟨1⟩ }⟩]

theorem not_completed_of_cancelled_cancelledCalls :
    ((fresh .standard cancelledCalls).Cancelled 2 ⟨1⟩ ∨
      (fresh .standard cancelledCalls).GenerationCancelled 2 ⟨1⟩) ∧
    ∃ s, ((fresh .standard cancelledCalls).stateAt 9).requests.lookup ⟨1⟩ = some s ∧
      s.lifecycle ≠ .completed ∧ (s.lifecycle.isTerminal = true →
        s.lifecycle = .cancelled ∨ s.lifecycle = .expired ∨ s.lifecycle = .failedNonRetryable) :=
  have hcancel : (fresh .standard cancelledCalls).Cancelled 2 ⟨1⟩ :=
    ⟨0, rfl, by decide +kernel⟩
  ⟨Or.inl hcancel, not_completed_of_cancelled .standard cancelledCalls (by decide) (Or.inl hcancel)⟩

/-! ### When a cancellation takes effect -/

section

variable {k : ℕ} (hwf : ρ.start.view.Wf)
include hwf

/-- What is in flight or over is not handed out. -/
theorem requestId_ne_of_inFlightOrOver (h : (ρ.stateAt k).InFlightOrOver r) :
    ∀ m ∈ ρ.emitted k, m.requestId ≠ r := by
  obtain ⟨s, hs, hbound⟩ := Impl.inFlightOrOver_iff.mp h
  cases hc : ρ.calls[k]? with
  | none =>
    rw [emitted_of_none hc]
    exact fun m hm => absurd hm List.not_mem_nil
  | some c =>
    rw [emitted_of_some hc]
    exact Impl.requestId_ne_of_bound (wf hwf k) hs hbound

variable {c : Call} (hc : ρ.calls[k]? = some c)
include hc

/-- A call that honours the cancellation leaves the request in flight, or ends it. -/
theorem inFlightOrOver_succ (hdoomed : ∃ s, (ρ.stateAt k).view.req r = some s ∧ s.Doomed)
    (hhonours : (ρ.stateAt k).HonoursCancel r c.op) (h : (ρ.stateAt k).InFlightOrOver r) :
    (ρ.stateAt (k + 1)).InFlightOrOver r := by
  obtain ⟨s, hs, hbound⟩ := Impl.inFlightOrOver_iff.mp h
  obtain ⟨t, ht, hd⟩ := hdoomed
  obtain rfl := Option.some.inj (ht.symm.trans hs)
  rw [stateAt_succ hc]
  exact Impl.inFlightOrOver_iff.mpr (hhonours.bound (wf hwf k) hs hd hbound)

/-- A call that does not takes it out of flight. -/
theorem not_inFlightOrOver_succ (hnot : ¬(ρ.stateAt k).HonoursCancel r c.op) :
    ¬(ρ.stateAt (k + 1)).InFlightOrOver r := by
  intro hafter
  obtain ⟨s, hs, hfree⟩ := Impl.not_bound_of_not_honoursCancel ρ.env (wf hwf k) hnot
  obtain ⟨t, ht, hbound⟩ := Impl.inFlightOrOver_iff.mp hafter
  rw [stateAt_succ hc] at ht
  obtain rfl := Option.some.inj (ht.symm.trans hs)
  exact hfree hbound

end

/-- **When a cancellation takes effect.** After a cancellation was acknowledged, the request
stays in flight until it is over, and no later cycle hands it out, exactly if every later call
honours the cancellation. -/
theorem cancellation_takes_effect_iff (env : Env) (calls : List Call)
    (hcancel : (fresh env calls).Cancelled n r) :
    ((∀ k, n < k → k ≤ calls.length → ((fresh env calls).stateAt k).InFlightOrOver r) ∧
      ∀ k, n < k → ∀ m ∈ (fresh env calls).emitted k, m.requestId ≠ r) ↔
    ∀ k c, n < k → calls[k]? = some c → ((fresh env calls).stateAt k).HonoursCancel r c.op := by
  have hwf := fresh_wf env calls
  obtain ⟨s₀, hs₀, hdoomed₀, hbound₀⟩ := hcancel.doomed
  have hdoomed : ∀ k, n < k →
      ∃ s, ((fresh env calls).stateAt k).view.req r = some s ∧ s.Doomed := fun k hk =>
    doomed_of_le hwf hk ⟨s₀, hs₀, hdoomed₀⟩
  have hiff : (∀ k, k ≤ calls.length → n < k → ((fresh env calls).stateAt k).InFlightOrOver r) ↔
      ∀ k c, calls[k]? = some c → n < k → ((fresh env calls).stateAt k).HonoursCancel r c.op := by
    refine Machine.forall_iff_forall_allowed
      (Q := fun k => n < k → ((fresh env calls).stateAt k).InFlightOrOver r) (fun _ => id)
      (fun h => absurd h (Nat.not_lt_zero n)) (fun k c hc hk hhonours hlt => ?_)
      fun k c hc _ hnot hafter => ?_
    · rcases Nat.lt_succ_iff_lt_or_eq.mp hlt with hlt | rfl
      · exact inFlightOrOver_succ hwf hc (hdoomed k hlt) (hhonours hlt) (hk hlt)
      · exact Impl.inFlightOrOver_iff.mpr ⟨s₀, hs₀, hbound₀⟩
    · obtain ⟨hlt, hnot⟩ := Classical.not_imp.mp hnot
      exact not_inFlightOrOver_succ hwf hc hnot (hafter (hlt.trans k.lt_succ_self))
  constructor
  · rintro ⟨hstates, -⟩ k c hk hc
    exact hiff.mp (fun k hle hlt => hstates k hlt hle) k c hc hk
  · -- what is in flight or over is not handed out, so that it is enough to look at the states
    intro h
    have hstates := hiff.mpr fun k c hc hk => h k c hk hc
    refine ⟨fun k hk hle => hstates k hle hk, fun k hk => ?_⟩
    rcases Nat.lt_or_ge calls.length k with hend | hle
    · rw [emitted_of_none (ρ := fresh env calls) (List.getElem?_eq_none hend.le)]
      exact fun m hm => absurd hm List.not_mem_nil
    · exact requestId_ne_of_inFlightOrOver hwf (hstates k hle hk)

/-- A request is cancelled in flight, and then the given calls are made. -/
def afterCancel (later : List Op) : List Call :=
  [⟨0, .submitWithTokens (plainRequest 1 2) [5, 6]⟩, ⟨0, .runCycle⟩, ⟨0, .cancel ⟨1⟩⟩] ++
    later.map fun op => ⟨0, op⟩

/-- The completion of the chunk in flight, with an outcome. -/
def landedWith (o : MemberOutcome) : Op :=
  .reportCompletion
    { requestId := ⟨1⟩, attemptId := ⟨1⟩, generation := ⟨1⟩, outcome := o, epoch := ⟨1⟩ }

/-- A chunk that succeeds is the last one. -/
theorem cancellation_takes_effect_iff_success :
    let calls := afterCancel [landedWith .success, .runCycle]
    (fresh .standard calls).Cancelled 2 ⟨1⟩ ∧
    (((∀ k, 2 < k → k ≤ calls.length → ((fresh .standard calls).stateAt k).InFlightOrOver ⟨1⟩) ∧
      ∀ k, 2 < k → ∀ m ∈ (fresh .standard calls).emitted k, m.requestId ≠ ⟨1⟩) ↔
    ∀ k c, 2 < k → calls[k]? = some c →
      ((fresh .standard calls).stateAt k).HonoursCancel ⟨1⟩ c.op) :=
  have hcancel : (fresh .standard (afterCancel [landedWith .success, .runCycle])).Cancelled 2 ⟨1⟩ :=
    ⟨0, rfl, by decide +kernel⟩
  ⟨hcancel, cancellation_takes_effect_iff .standard _ hcancel⟩

/-- A request whose cancellation was acknowledged is handed out again after a failure that is
retried, after a forced retry and after the loss of its worker; and after an outcome that
settles nothing it is neither in flight nor over. -/
theorem handed_out_afterCancel :
    let worker : Op := .registerWorker { workerId := ⟨7⟩, bootId := ⟨3⟩ }
    let after (later : List Op) := fresh .standard (afterCancel later)
    (((after []).stateAt 2).cancel 0 ⟨1⟩).2.applied = true ∧
      ((after [landedWith .retryableFailure, .runCycle]).emitted 4).map (·.requestId) = [⟨1⟩] ∧
      ((after [.forceRetry ⟨1⟩, .runCycle]).emitted 4).map (·.requestId) = [⟨1⟩] ∧
      ((after [.workerLost .nil, worker, .runCycle]).emitted 5).map (·.requestId) = [⟨1⟩] ∧
      (((after [landedWith .staleRejected, .runCycle]).stateAt 5).requests.lookup ⟨1⟩).map
          (fun s => (s.lifecycle, s.inFlight, s.cancelPending)) =
        some (.dispatched, false, true) := by
  decide +kernel

end Run

end PrefillFabric
