import PrefillFabric.Scheduler.Authority
import PrefillFabric.Scheduler.Order

/-!
# Nothing is stranded

A request that is not over should be *waiting*, a candidate of the next cycle, or
*running*, in flight so that a completion can finish it. What is queued waits
(`Rs.Sane`), so the one way to be stranded is to be dispatched without being in
flight. Two steps lead there: a completion accepted with the outcome
`staleRejected`, which takes a request out of flight and settles nothing, and a forced
retry of a request in flight whose retry budget is used up, which withdraws the
request before it looks at the budget. A run strands nothing exactly if it takes
neither (`Run.forall_progresses_iff`).
-/

namespace PrefillFabric

variable {env : Env} {v v' : View} {l : Label} {L : Label → Prop} {r : RequestId}

/-! ### Dispatched means in flight -/

/-- Dispatched only while in flight. -/
def Rs.Afloat (s : Rs) : Prop := s.lifecycle = .dispatched → s.inFlight = true

/-- A label that takes nothing out of flight without settling it. -/
def Label.Settles : Label → Prop
  | finish _ .staleRejected | withdraw _ => False
  | _ => True

theorem Rs.finished_lifecycle_ne {o : MemberOutcome} (ho : o ≠ .staleRejected) (a : AttemptId)
    (s : Rs) : (s.finished env o a).lifecycle ≠ .dispatched := by
  have hadv : ∀ t : Rs, t.advanced.lifecycle ≠ .dispatched := by
    intro t
    unfold Rs.advanced
    split_ifs <;> exact Lifecycle.noConfusion
  have hsettled : ((s.landed env).settled env o a).lifecycle ≠ .dispatched := by
    cases o with
    | success => exact hadv _
    | needsNextChunk => exact hadv _
    | retryableFailure =>
      unfold Rs.settled
      dsimp only
      split_ifs <;> exact Lifecycle.noConfusion
    | staleRejected => exact absurd rfl ho
    | _ => exact Lifecycle.noConfusion
  exact fun h => hsettled ((Rs.dropReservation_lifecycle _).symm.trans h)

theorem Fate.afloat {s s' : Rs} (h : Fate env v r s l s') (hl : l.Settles) (hs : s.Afloat) :
    s'.Afloat := by
  cases h with
  | keep => exact hs
  | expire => exact fun hc => Lifecycle.noConfusion hc
  | launch => exact fun _ => rfl
  | finish o =>
    have ho : o ≠ .staleRejected := by
      rintro rfl
      exact hl
    exact fun hc => absurd hc (s.finished_lifecycle_ne ho _)
  | flag => exact hs
  | cancel => exact fun hc => Lifecycle.noConfusion hc
  | withdraw => exact False.elim hl
  | retry => exact fun hc => Lifecycle.noConfusion hc
  | recover => exact fun hc => Lifecycle.noConfusion hc

theorem Effect.afloat (h : Effect env v l v') (hl : l.Settles)
    (hv : v.Each fun _ s => s.Afloat) : v'.Each fun _ s => s.Afloat := by
  refine h.each (fun now req _ _ => ?_) (fun _ _ _ _ hfate hs => hfate.afloat hl hs) hv
  intro hc
  simp only [Rs.admitted] at hc
  split_ifs at hc

/-! ### States that strand nothing -/

/-- **A state that strands nothing**: a request that is not over waits, and is then a
candidate of the next cycle, or runs, and is then finished by some completion. -/
def Impl.Progresses (env : Env) (σ : Impl) : Prop :=
  ∀ r s, σ.requests.lookup r = some s → s.lifecycle.isTerminal = false →
    (s.lifecycle = .queued ∧ s.inFlight = false ∧ s.nextChunkIndex < s.plan.chunks.length ∧
      r ∈ σ.candidates) ∨
    (s.lifecycle = .dispatched ∧ s.inFlight = true ∧
      ∃ result : MemberResult, result.requestId = r ∧
        ∀ now, isOk (σ.reportCompletion env now result).2 = true)

/-- **An operation strands nothing**: it is no acceptable completion with the outcome
`staleRejected`, and no forced retry of a request in flight without retries left. -/
def Impl.KeepsProgress (σ : Impl) : Op → Prop
  | .reportCompletion result => result.outcome = .staleRejected →
      ¬∃ s, σ.view.Accepts result s
  | .forceRetry r => ∀ s, σ.requests.lookup r = some s → s.isLive = true →
      s.retriesUsed < s.request.maxRetries
  | _ => True

namespace Impl

variable {σ : Impl}

/-- What is in flight is finished by a completion that names its attempt and its
generation under the current epoch. -/
theorem accepts_of_live (hepoch : 0 < σ.epoch.value) {s : Rs} (hs : σ.requests.lookup r = some s)
    (hflight : s.inFlight = true) (hlive : s.lifecycle.isTerminal = false) :
    σ.view.Accepts
      { requestId := r
        attemptId := s.attempt
        generation := s.currentGeneration
        epoch := σ.epoch } s.core where
  epoch_ne_nil := StrongId.ne_nil_of_pos hepoch
  epoch := rfl
  req := view_req hs
  boot := Or.inl ⟨rfl, rfl⟩
  attempt := rfl
  generation := rfl
  lifecycle := hlive
  inFlight := hflight
  worker := Or.inl rfl

theorem exists_isOk_reportCompletion (env : Env) (hepoch : 0 < σ.epoch.value) {s : Rs}
    (hs : σ.requests.lookup r = some s) (hflight : s.inFlight = true)
    (hlive : s.lifecycle.isTerminal = false) :
    ∃ result : MemberResult, result.requestId = r ∧
      ∀ now, isOk (σ.reportCompletion env now result).2 = true :=
  ⟨_, rfl, fun _ => isOk_reportCompletion_iff.mpr ⟨_, accepts_of_live hepoch hs hflight hlive⟩⟩

/-- A sane state strands nothing exactly if what is dispatched is in flight. -/
theorem progresses_iff (hsane : σ.view.Each fun _ s => s.Sane env) (hepoch : 0 < σ.epoch.value) :
    σ.Progresses env ↔ σ.view.Each fun _ s => s.Afloat := by
  constructor
  · intro h r t ht
    obtain ⟨s, hs, rfl⟩ := exists_of_view_req ht
    intro hdisp
    have hdisp' : s.lifecycle = .dispatched := hdisp
    rcases h r s hs (by rw [hdisp']; rfl) with ⟨hqueued, -⟩ | ⟨-, hflight, -⟩
    · exact Lifecycle.noConfusion (hdisp'.symm.trans hqueued)
    · exact hflight
  · intro h r s hs hlive
    have hsn := hsane r s.core (view_req hs)
    have hpending : s.nextChunkIndex < s.plan.chunks.length := hsn.pending hlive
    rcases hsn.stage hlive with ⟨hqueued, hnot⟩ | hdisp
    · exact Or.inl ⟨hqueued, hnot, hpending,
        mem_candidates.mpr ⟨s, hs, Rs.isWaiting_iff.mpr ⟨hqueued, hnot, hpending⟩⟩⟩
    · have hflight : s.inFlight = true := h r s.core (view_req hs) hdisp
      exact Or.inr ⟨hdisp, hflight, exists_isOk_reportCompletion env hepoch hs hflight hlive⟩

end Impl

/-! ### Runs that strand nothing -/

namespace Run

variable {ρ : Run} {n : ℕ}

theorem sane (hwf : ρ.start.view.Wf) (h₀ : ρ.start.view.Each fun _ s => s.Sane ρ.env) (n : ℕ) :
    (ρ.stateAt n).view.Each fun _ s => s.Sane ρ.env :=
  Impl.view_invariant (P := View.Each fun _ s => s.Sane ρ.env) hwf h₀
    (fun _ _ _ _ h hv => h.each (fun now req _ _ => Rs.sane_admitted now req _)
      (fun _ _ _ _ hfate hs => hfate.sane hs) hv) n

/-- An operation that strands nothing leaves what is dispatched in flight. -/
theorem afloat_succ (hwf : ρ.start.view.Wf) {c : Call} (hc : ρ.calls[n]? = some c)
    (hkeep : (ρ.stateAt n).KeepsProgress c.op)
    (h : (ρ.stateAt n).view.Each fun _ s => s.Afloat) :
    (ρ.stateAt (n + 1)).view.Each fun _ s => s.Afloat := by
  have hlabels : (∀ l, c.op.Causes l → l.Settles) →
      (ρ.stateAt (n + 1)).view.Each fun _ s => s.Afloat := fun hL =>
    (effects hwf hc).invariant (P := View.Each fun _ s => s.Afloat)
      (fun _ l _ hl hcause => hl.afloat (hL l hcause)) h
  obtain ⟨now, op⟩ := c
  cases op with
  | reportCompletion result =>
    have hnext : ρ.stateAt (n + 1) = ((ρ.stateAt n).reportCompletion ρ.env now result).1 :=
      stateAt_succ hc
    rw [hnext]
    rcases Impl.effect_reportCompletion ρ.env now result (wf hwf n) with ⟨-, hview⟩ | ⟨hok, heffect⟩
    · rw [hview]
      exact h
    · refine heffect.afloat ?_ h
      cases ho : result.outcome with
      | staleRejected => exact hkeep ho (Impl.isOk_reportCompletion_iff.mp hok)
      | _ => trivial
  | forceRetry r =>
    have hnext : ρ.stateAt (n + 1) = ((ρ.stateAt n).forceRetry ρ.env now r).1 := stateAt_succ hc
    rw [hnext]
    rcases (ρ.stateAt n).effect_forceRetry ρ.env now r with ⟨hview, -⟩ | heffect | heffect
    · rw [hview]
      exact h
    · generalize ((ρ.stateAt n).forceRetry ρ.env now r).1.view = u at heffect
      cases heffect with
      | withdraw ht hflight hlive hbudget =>
        obtain ⟨s, hs, rfl⟩ := Impl.exists_of_view_req ht
        exact absurd (hkeep s hs (Rs.isLive_iff.mpr ⟨hflight, hlive⟩)) (not_lt.mpr hbudget)
    · exact heffect.afloat trivial h
  | runCycle => exact hlabels fun l hl => by cases l <;> trivial
  | _ => exact hlabels fun l hl => by cases l <;> trivial

/-- An accepted completion that settles nothing strands its request. -/
theorem not_afloat_of_staleRejected (hwf : ρ.start.view.Wf)
    (hsane : (ρ.stateAt n).view.Each fun _ s => s.Sane ρ.env) {now : Nanoseconds}
    {result : MemberResult} (hc : ρ.calls[n]? = some ⟨now, .reportCompletion result⟩)
    (ho : result.outcome = .staleRejected) {s : Rs} (hs : (ρ.stateAt n).view.Accepts result s) :
    ¬(ρ.stateAt (n + 1)).view.Each fun _ s => s.Afloat := by
  have hnext : ρ.stateAt (n + 1) = ((ρ.stateAt n).reportCompletion ρ.env now result).1 :=
    stateAt_succ hc
  obtain ⟨a, ha⟩ := Impl.exists_finished_of_accepts ρ.env now (wf hwf n) hs
  rw [ho] at ha
  rw [hnext]
  intro h
  have hdisp : (s.finished ρ.env .staleRejected a).lifecycle = .dispatched :=
    (Rs.dropReservation_lifecycle _).trans
      ((hsane _ s hs.req).dispatched hs.inFlight hs.lifecycle)
  exact Bool.noConfusion ((h _ _ ha hdisp).symm.trans (s.finished_inFlight ρ.env _ a))

/-- A forced retry without retries left strands the request it withdraws. -/
theorem not_afloat_of_forceRetry (hsane : (ρ.stateAt n).view.Each fun _ s => s.Sane ρ.env)
    {now : Nanoseconds} {r : RequestId} (hc : ρ.calls[n]? = some ⟨now, .forceRetry r⟩) {s : Rs}
    (hs : (ρ.stateAt n).requests.lookup r = some s) (hlive : s.isLive = true)
    (hbudget : s.request.maxRetries ≤ s.retriesUsed) :
    ¬(ρ.stateAt (n + 1)).view.Each fun _ s => s.Afloat := by
  have hnext : ρ.stateAt (n + 1) = ((ρ.stateAt n).forceRetry ρ.env now r).1 := stateAt_succ hc
  have hreq := Impl.view_req hs
  obtain ⟨hflight, hterm⟩ := Rs.isLive_iff.mp hlive
  rw [hnext]
  intro h
  rcases (ρ.stateAt n).effect_forceRetry ρ.env now r with ⟨-, hwhy⟩ | heffect | heffect
  · exact Bool.noConfusion ((hwhy _ hreq hterm).1.symm.trans hflight)
  · generalize ((ρ.stateAt n).forceRetry ρ.env now r).1.view = u at heffect h
    cases heffect with
    | withdraw ht =>
      obtain rfl := Option.some.inj (ht.symm.trans hreq)
      have hdisp : s.core.withdrawn.lifecycle = .dispatched :=
        (Rs.dropReservation_lifecycle _).trans ((hsane r s.core hreq).dispatched hflight hterm)
      exact Bool.noConfusion (h r _ (Function.update_self ..) hdisp)
  · generalize ((ρ.stateAt n).forceRetry ρ.env now r).1.view = u at heffect
    cases heffect with
    | retry ht _ hleft =>
      obtain rfl := Option.some.inj (ht.symm.trans hreq)
      exact absurd hleft (not_lt.mpr hbudget)

/-- **When nothing is stranded.** In every run of a new scheduler, every request that
is not over waits or runs, at every moment, exactly if no completion with the outcome
`staleRejected` is acceptable when it is reported and no request in flight is forced to
retry without retries left. -/
theorem forall_progresses_iff (env : Env) (calls : List Call) :
    (∀ n, n ≤ calls.length → ((fresh env calls).stateAt n).Progresses env) ↔
      ∀ n c, calls[n]? = some c → ((fresh env calls).stateAt n).KeepsProgress c.op := by
  have hwf := fresh_wf env calls
  have hsane := sane hwf (fun _ s h => absurd h (Option.some_ne_none s).symm)
  have hiff : ∀ n, ((fresh env calls).stateAt n).Progresses env ↔
      ((fresh env calls).stateAt n).view.Each fun _ s => s.Afloat := fun n =>
    Impl.progresses_iff (hsane n) (authorised hwf (Impl.authorised_fresh env) n).epoch_pos
  simp only [hiff]
  refine Machine.forall_iff_forall_allowed
    (P := fun n => ((fresh env calls).stateAt n).view.Each fun _ s => s.Afloat)
    (A := fun n (c : Call) => ((fresh env calls).stateAt n).KeepsProgress c.op) (fun _ => id)
    (fun r s h => absurd h (Option.some_ne_none s).symm)
    (fun n c hc h hkeep => afloat_succ hwf hc hkeep h) (fun n c hc _ hnot => ?_)
  obtain ⟨now, op⟩ := c
  cases op with
  | reportCompletion result =>
    simp only [Impl.KeepsProgress, Classical.not_imp, not_not] at hnot
    obtain ⟨ho, s, hs⟩ := hnot
    exact not_afloat_of_staleRejected hwf (hsane n) hc ho hs
  | forceRetry r =>
    simp only [Impl.KeepsProgress, Classical.not_imp, not_forall, not_lt] at hnot
    obtain ⟨s, hs, hlive, hbudget⟩ := hnot
    exact not_afloat_of_forceRetry (hsane n) hc hs hlive hbudget
  | _ => exact absurd trivial hnot

/-- A request without retries is forced to retry while it is in flight. -/
def withdrawnCalls : List Call :=
  [⟨0, .submitWithTokens { plainRequest 1 2 with maxRetries := 0 } [5, 6]⟩, ⟨0, .runCycle⟩,
    ⟨0, .forceRetry ⟨1⟩⟩]

/-- A completion is accepted with the outcome `staleRejected`. -/
def staleCalls : List Call :=
  [⟨0, .submitWithTokens (plainRequest 1 2) [5, 6]⟩, ⟨0, .runCycle⟩,
    ⟨0, .reportCompletion (firstReport .staleRejected)⟩]

/-- Either way the request is left dispatched and not in flight. -/
theorem not_progresses_withdrawnCalls_staleCalls :
    ¬((fresh .standard withdrawnCalls).stateAt 3).Progresses .standard ∧
      ¬((fresh .standard staleCalls).stateAt 3).Progresses .standard := by
  have hstranded : ∀ σ : Impl, (σ.requests.lookup ⟨1⟩).map
      (fun s => (s.lifecycle, s.inFlight)) = some (.dispatched, false) →
      ¬σ.Progresses .standard := by
    intro σ hstate h
    obtain ⟨s, hs, heq⟩ := Option.map_eq_some_iff.mp hstate
    obtain ⟨hdisp, hnot⟩ := Prod.mk.inj heq
    rcases h ⟨1⟩ s hs (by rw [hdisp]; rfl) with ⟨hqueued, -⟩ | ⟨-, hflight, -⟩
    · exact Lifecycle.noConfusion (hdisp.symm.trans hqueued)
    · exact Bool.noConfusion (hnot.symm.trans hflight)
  exact ⟨hstranded _ (by decide +kernel), hstranded _ (by decide +kernel)⟩

end Run

end PrefillFabric
