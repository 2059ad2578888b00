import PrefillFabric.Scheduler.Admission
import PrefillFabric.Scheduler.Effect

/-!
# The operations have effects

Each operation other than the scheduling cycle has one effect on the view, or none:
the label is a function of what the operation was asked and of what it answered.
The theorems `effect_…` say which, and `view_…` that nothing visible happened; the
cycle is in a module of its own.

The one thing asked of a state is that its records are filed under the identity of
their request, and that the identities in use are below the counters they are drawn
from (`View.Wf`); every effect keeps that.
-/

namespace PrefillFabric

/-! ### Records, seen through their core -/

namespace Rs

variable (env : Env) (s : Rs)

theorem core_expired (line : String) :
    ({ s.dropReservation with lifecycle := .expired }.note line).core = s.core.expired := by
  rw [core_note, expired, ← core_dropReservation]
  rfl

theorem core_cancelled (line : String) :
    ({ s.dropReservation with lifecycle := .cancelled, currentGroup := .nil }.note line).core =
      s.core.cancelled := by
  rw [core_note, cancelled, ← core_dropReservation]
  rfl

theorem core_withdrawn : s.withdrawn.core = s.core.withdrawn := by
  rw [withdrawn, withdrawn, ← core_dropReservation]
  rfl

theorem core_recovered (line : String) :
    ({ s.dropReservation with
        inFlight := false
        recoveredWork := true
        currentGeneration := .nil
        lifecycle := .queued }.note line).core = s.core.recovered := by
  rw [core_note, recovered, ← core_dropReservation]
  rfl

theorem dropReservation_eq : s.dropReservation = { s with
    reservation := .nil
    reservedBytes := if s.reservation.isNil then s.reservedBytes else 0 } := by
  unfold dropReservation
  by_cases h : s.reservation.isNil = true
  · rw [if_pos h, if_pos h]
    obtain ⟨⟩ := s
    obtain rfl := StrongId.isNil_eq_true.mp h
    rfl
  · rw [if_neg h, if_neg h]

@[simp] theorem dropReservation_request : s.dropReservation.request = s.request := by
  rw [dropReservation_eq]

@[simp] theorem dropReservation_attempt : s.dropReservation.attempt = s.attempt := by
  rw [dropReservation_eq]

@[simp] theorem dropReservation_lifecycle : s.dropReservation.lifecycle = s.lifecycle := by
  rw [dropReservation_eq]

@[simp] theorem dropReservation_plan : s.dropReservation.plan = s.plan := by
  rw [dropReservation_eq]

@[simp] theorem dropReservation_nextChunkIndex :
    s.dropReservation.nextChunkIndex = s.nextChunkIndex := by
  rw [dropReservation_eq]

@[simp] theorem dropReservation_currentGeneration :
    s.dropReservation.currentGeneration = s.currentGeneration := by
  rw [dropReservation_eq]

@[simp] theorem dropReservation_inFlight : s.dropReservation.inFlight = s.inFlight := by
  rw [dropReservation_eq]

@[simp] theorem dropReservation_currentGroup :
    s.dropReservation.currentGroup = s.currentGroup := by
  rw [dropReservation_eq]

@[simp] theorem dropReservation_dispatchedWorker :
    s.dropReservation.dispatchedWorker = s.dispatchedWorker := by
  rw [dropReservation_eq]

@[simp] theorem dropReservation_reservation : s.dropReservation.reservation = .nil := by
  rw [dropReservation_eq]

/-- Two records of one request that hold the same. -/
structure SameHoldings (s t : Rs) : Prop where
  reservation : t.reservation = s.reservation
  reservedBytes : t.reservedBytes = s.reservedBytes
  currentGroup : t.currentGroup = s.currentGroup
  request : t.request = s.request

/-- An outcome does not touch what the request holds. -/
theorem sameHoldings_settled (o : MemberOutcome) (a : AttemptId) :
    SameHoldings s (s.settled env o a) := by
  have hadv : SameHoldings s s.advanced := by
    unfold advanced
    split_ifs <;> exact ⟨rfl, rfl, rfl, rfl⟩
  cases o with
  | success => exact hadv
  | needsNextChunk => exact hadv
  | retryableFailure =>
    unfold settled
    dsimp only
    split_ifs <;> exact ⟨rfl, rfl, rfl, rfl⟩
  | nonRetryableFailure => exact ⟨rfl, rfl, rfl, rfl⟩
  | cancelled => exact ⟨rfl, rfl, rfl, rfl⟩
  | expired => exact ⟨rfl, rfl, rfl, rfl⟩
  | staleRejected => exact ⟨rfl, rfl, rfl, rfl⟩

/-- Nothing is reserved but for a request in flight, and no bytes without a
reservation. -/
structure HoldsOnlyInFlight : Prop where
  reservation_eq : s.inFlight = false → s.reservation = .nil
  reservedBytes_eq : s.reservation = .nil → s.reservedBytes = 0

theorem dropReservation_nil {s : Rs} (h : s.reservation = .nil → s.reservedBytes = 0) :
    s.dropReservation.reservation = .nil ∧ s.dropReservation.reservedBytes = 0 := by
  rw [dropReservation_eq]
  refine ⟨rfl, ?_⟩
  dsimp only
  split_ifs with hnil
  · exact h (StrongId.isNil_eq_true.mp hnil)
  · rfl

/-- A record without a reservation is fine in any state of flight. -/
theorem holdsOnlyInFlight_of_nil {s : Rs} (h : s.reservation = .nil ∧ s.reservedBytes = 0) :
    s.HoldsOnlyInFlight := ⟨fun _ => h.1, fun _ => h.2⟩

end Rs

/-! ### Well-formed views -/

namespace View

/-- Records are filed under the identity of their request, the identities in use have
been handed out, and a request that is not in flight holds no reservation. -/
structure Wf (v : View) : Prop where
  keyed : ∀ r s, v.req r = some s → s.request.requestId = r
  holds : ∀ r s, v.req r = some s → s.HoldsOnlyInFlight
  grp_lt : ∀ g p, v.grp g = some p → g.value < v.nextGroup
  held_lt : ∀ id p, v.mem.held id = some p → id.value < v.nextReservation
  nextReservation_pos : 0 < v.nextReservation
  nextGroup_pos : 0 < v.nextGroup

theorem grp_of_detachIf {v : View} {b : Bool} {g x : GroupId} {r : RequestId}
    {p : WorkerId × List RequestId} (h : (v.detachIf b g r).grp x = some p) :
    ∃ q, v.grp x = some q := by
  cases b with
  | false => exact ⟨p, h⟩
  | true =>
    change Function.update v.grp g ((v.grp g).bind (leaveGroup r)) x = some p at h
    rw [Function.update_apply] at h
    split_ifs at h with hx
    · subst hx
      obtain ⟨q, hq, -⟩ := Option.bind_eq_some_iff.mp h
      exact ⟨q, hq⟩
    · exact ⟨p, h⟩

theorem grp_of_dropGrpIf {v : View} {b : Bool} {g x : GroupId} {p : WorkerId × List RequestId}
    (h : (v.dropGrpIf b g).grp x = some p) : v.grp x = some p := by
  cases b with
  | false => exact h
  | true =>
    change Function.update v.grp g none x = some p at h
    rw [Function.update_apply] at h
    split_ifs at h
    exact h

end View

/-- No fate changes the request itself. -/
theorem Fate.request_eq {env : Env} {v : View} {r : RequestId} {s s' : Rs} {l : Label}
    (h : Fate env v r s l s') : s'.request = s.request := by
  cases h with
  | keep => rfl
  | expire => exact s.dropReservation_request
  | launch => rfl
  | finish o =>
    rw [Rs.finished]
    have hsettled := Rs.sameHoldings_settled env (s.landed env) o
    exact (Rs.dropReservation_request _).trans (hsettled _).request
  | flag => rfl
  | cancel => exact s.dropReservation_request
  | withdraw => exact s.dropReservation_request
  | retry =>
    rw [Rs.retried]
    split_ifs
    · exact s.dropReservation_request
    · rfl
  | recover => exact s.dropReservation_request

theorem Effect.exists_request {env : Env} {v v' : View} {r : RequestId} {s : Rs} {l : Label}
    (h : Effect env v l v') (hs : v.req r = some s) :
    ∃ s', v'.req r = some s' ∧ s'.request = s.request := by
  obtain ⟨s', hs', hfate⟩ := h.exists_fate hs
  exact ⟨s', hs', hfate.request_eq⟩

/-- What a request holds it holds in flight, whatever happens to it. -/
theorem Fate.holdsOnlyInFlight {env : Env} {v : View} {r : RequestId} {s s' : Rs} {l : Label}
    (h : Fate env v r s l s') (hpos : 0 < v.nextReservation) (hs : s.HoldsOnlyInFlight) :
    s'.HoldsOnlyInFlight := by
  have hdrop := Rs.dropReservation_nil hs.reservedBytes_eq
  cases h with
  | keep => exact hs
  | expire => exact Rs.holdsOnlyInFlight_of_nil hdrop
  | launch _ _ _ _ _ _ hid =>
    refine ⟨fun hc => absurd hc.symm Bool.false_ne_true, fun hc => ?_⟩
    exact absurd hc (StrongId.ne_nil_of_pos (lt_of_lt_of_le hpos hid))
  | finish o =>
    have hsame := Rs.sameHoldings_settled env (s.landed env) o ⟨v.nextAttempt⟩
    refine Rs.holdsOnlyInFlight_of_nil (Rs.dropReservation_nil fun hnil => ?_)
    rw [hsame.reservedBytes]
    exact hs.reservedBytes_eq (hsame.reservation.symm.trans hnil)
  | flag => exact ⟨hs.reservation_eq, hs.reservedBytes_eq⟩
  | cancel => exact Rs.holdsOnlyInFlight_of_nil hdrop
  | withdraw => exact Rs.holdsOnlyInFlight_of_nil hdrop
  | retry =>
    refine Rs.holdsOnlyInFlight_of_nil ?_
    rw [Rs.retried]
    cases hflight : s.inFlight with
    | true => exact hdrop
    | false => exact ⟨hs.reservation_eq hflight, hs.reservedBytes_eq (hs.reservation_eq hflight)⟩
  | recover => exact Rs.holdsOnlyInFlight_of_nil hdrop

theorem MemoryGovernor.held_releaseIf (g : MemoryGovernor) (id k : ReservationId) :
    (g.releaseIf id).held k = if k = id ∧ id ≠ .nil then none else g.held k := by
  unfold releaseIf
  by_cases h : id = .nil
  · rw [if_pos (StrongId.isNil_eq_true.mpr h), if_neg fun hc => hc.2 h]
  · rw [if_neg (by rw [StrongId.isNil_eq_true]; exact h), held_release]
    simp only [h, ne_eq, not_false_eq_true, and_true]

theorem MemoryGovernor.held_of_releaseIf {g : MemoryGovernor} {id k : ReservationId}
    {p : RequestId × ℕ} (h : (g.releaseIf id).held k = some p) : g.held k = some p := by
  rw [held_releaseIf] at h
  split_ifs at h
  exact h

/-- Releasing any number of reservations makes none appear. -/
theorem MemoryGovernor.held_of_foldl_releaseIf {α : Type} {f : α → ReservationId} {l : List α}
    {g : MemoryGovernor} {k : ReservationId} {p : RequestId × ℕ}
    (h : (l.foldl (fun m a => m.releaseIf (f a)) g).held k = some p) : g.held k = some p := by
  induction l generalizing g with
  | nil => exact h
  | cons a l ih => exact held_of_releaseIf (ih h)

/-- **Every effect keeps a view well formed.** -/
theorem Effect.wf {env : Env} {v v' : View} {l : Label} (h : Effect env v l v') (hv : v.Wf) :
    v'.Wf := by
  have hrecord : ∀ r s', v'.req r = some s' → s'.request.requestId = r ∧ s'.HoldsOnlyInFlight := by
    intro r s' hs'
    rcases h.origin hs' with ⟨now, req, hreq, -, -, rfl⟩ | ⟨s, hr, hfate⟩
    · exact ⟨hreq, Rs.holdsOnlyInFlight_of_nil ⟨rfl, rfl⟩⟩
    · rw [hfate.request_eq]
      exact ⟨hv.keyed r s hr, hfate.holdsOnlyInFlight hv.nextReservation_pos (hv.holds r s hr)⟩
  refine ⟨fun r s' hs' => (hrecord r s' hs').1, fun r s' hs' => (hrecord r s' hs').2,
    ?_, ?_, ?_, ?_⟩
  · cases h with
    | idle h => exact fun g p hp => (hv.grp_lt g p (h.grp ▸ hp)).trans_le h.nextGroup
    | expire =>
      intro g p hp
      obtain ⟨q, hq⟩ := View.grp_of_detachIf hp
      exact hv.grp_lt g q hq
    | launch h =>
      intro g p hp
      obtain ⟨out, hgrp, -⟩ := h.grp
      rw [h.nextGroup]
      rw [hgrp, Function.update_apply] at hp
      split_ifs at hp with hg
      · exact hg ▸ h.gid_lt
      · exact hv.grp_lt g p hp
    | finish =>
      intro g p hp
      obtain ⟨q, hq⟩ := View.grp_of_detachIf hp
      exact hv.grp_lt g q hq
    | cancel =>
      intro g p hp
      obtain ⟨q, hq⟩ := View.grp_of_detachIf hp
      exact hv.grp_lt g q hq
    | withdraw => exact fun g p hp => hv.grp_lt g p (View.grp_of_dropGrpIf hp)
    | retry => exact fun g p hp => hv.grp_lt g p (View.grp_of_dropGrpIf hp)
    | lose h =>
      intro g p hp
      rw [h.grp] at hp
      obtain ⟨q, hq, -⟩ := Option.bind_eq_some_iff.mp hp
      exact h.nextGroup ▸ hv.grp_lt g q hq
    | _ => exact hv.grp_lt
  · cases h with
    | idle h =>
      exact fun id p hp => (hv.held_lt id p ((h.held id).symm.trans hp)).trans_le h.nextReservation
    | expire => exact fun id p hp => hv.held_lt id p (MemoryGovernor.held_of_releaseIf hp)
    | launch h =>
      intro id p hp
      rw [h.nextReservation]
      by_contra hge
      rw [h.held id (Or.inr (Nat.not_lt.mp hge))] at hp
      have := hv.held_lt id p hp
      omega
    | finish => exact fun id p hp => hv.held_lt id p (MemoryGovernor.held_of_releaseIf hp)
    | cancel => exact fun id p hp => hv.held_lt id p (MemoryGovernor.held_of_releaseIf hp)
    | withdraw => exact fun id p hp => hv.held_lt id p (MemoryGovernor.held_of_releaseIf hp)
    | retry => exact fun id p hp => hv.held_lt id p (MemoryGovernor.held_of_releaseIf hp)
    | lose h =>
      intro id p hp
      obtain ⟨rs, -, -, hmem⟩ := h.mem
      rw [hmem] at hp
      exact h.nextReservation ▸ hv.held_lt id p (MemoryGovernor.held_of_foldl_releaseIf hp)
    | _ => exact hv.held_lt
  · cases h with
    | idle h => exact lt_of_lt_of_le hv.nextReservation_pos h.nextReservation
    | launch h => exact h.nextReservation ▸ Nat.lt_add_right _ hv.nextReservation_pos
    | lose h => exact h.nextReservation ▸ hv.nextReservation_pos
    | _ => exact hv.nextReservation_pos
  · cases h with
    | idle h => exact lt_of_lt_of_le hv.nextGroup_pos h.nextGroup
    | launch h => exact h.nextGroup ▸ hv.nextGroup_pos
    | lose h => exact h.nextGroup ▸ hv.nextGroup_pos
    | _ => exact hv.nextGroup_pos

/-! ### Submission -/

namespace Impl

variable (env : Env) (now : Nanoseconds) (σ : Impl)

theorem view_admitRequest (req : PrefillRequest) : (σ.admitRequest env now req).view =
    { σ.view.setReq req.requestId (.admitted env now req ⟨σ.nextAttemptValue⟩) with
      nextAttempt := σ.nextAttemptValue + 1 } := by
  unfold admitRequest
  by_cases hrem : req.remainingPrefillTokens = 0
  · simp only [hrem, if_true, view_record, view_setRequest, Rs.core_note]
    rw [Rs.admitted, if_pos hrem]
    rfl
  · simp only [hrem, if_false, view_record, view_setRequest]
    rw [Rs.admitted, if_neg hrem]
    rfl

/-- A submission that is turned down is not seen; one that is taken admits its
request. -/
theorem effect_submitWithTokens (req : PrefillRequest) (tokens : List UInt32) :
    (isOk (σ.submitWithTokens env now req tokens).2 = false ∧
      (σ.submitWithTokens env now req tokens).1.view = σ.view) ∨
    (isOk (σ.submitWithTokens env now req tokens).2 = true ∧
      Effect env σ.view (.enter req.requestId) (σ.submitWithTokens env now req tokens).1.view) := by
  have hsubmission := σ.submission env now req tokens
  generalize σ.submitWithTokens env now req tokens = out at hsubmission
  cases hsubmission with
  | admitted hadmits _ =>
    refine Or.inr ⟨rfl, ?_⟩
    rw [view_admitRequest]
    refine Effect.enter (v := σ.view) ?_ hadmits.valid
    change (σ.requests.lookup req.requestId).map Rs.core = none
    rw [hadmits.new, Option.map_none]
  | _ => exact Or.inl ⟨rfl, rfl⟩

/-! ### Completion -/

end Impl

/-- **A completion is acceptable** for the request with the record `s`: it carries the
current epoch, the current boot number of the worker it names, the attempt and the
generation that are in flight, and comes from the worker the chunk was sent to. A
result that names neither a worker nor a boot number is not checked for them. -/
structure View.Accepts (v : View) (result : MemberResult) (s : Rs) : Prop where
  epoch_ne_nil : result.epoch ≠ .nil
  epoch : result.epoch = v.epoch
  req : v.req result.requestId = some s
  boot : (result.worker = .nil ∧ result.boot = .nil) ∨ v.boot result.worker = some result.boot
  attempt : result.attemptId = s.attempt
  generation : result.generation = s.currentGeneration
  lifecycle : s.lifecycle.isTerminal = false
  inFlight : s.inFlight = true
  worker : result.worker = .nil ∨ result.worker = s.dispatchedWorker

namespace Impl

variable {env : Env} {now : Nanoseconds} {σ : Impl} {result : MemberResult} {s : Rs}

theorem bootCurrent_eq_true : σ.bootCurrent result = true ↔
    σ.view.boot result.worker = some result.boot := by
  change _ ↔ (σ.workers.lookup result.worker).map (·.desc.bootId) = some result.boot
  unfold bootCurrent
  cases σ.workers.lookup result.worker with
  | none => simp
  | some ws => simp

/-- A check in a chain of checks passes when it does not fire and the rest pass. -/
theorem ite_some_eq_none {α : Type} {c : Prop} [Decidable c] {a : α} {t : Option α} :
    (if c then some a else t) = none ↔ ¬c ∧ t = none := by
  by_cases h : c <;> simp [h]

theorem checkRecord_eq_none : σ.checkRecord result s = none ↔
    ((result.worker = .nil ∧ result.boot = .nil) ∨
      σ.view.boot result.worker = some result.boot) ∧
    result.attemptId = s.attempt ∧ result.generation = s.currentGeneration ∧
    s.lifecycle.isTerminal = false ∧ s.inFlight = true ∧
    (result.worker = .nil ∨ result.worker = s.dispatchedWorker) := by
  have hboot : ¬((!result.worker.isNil || !result.boot.isNil) && !σ.bootCurrent result) = true ↔
      (result.worker = .nil ∧ result.boot = .nil) ∨
        σ.view.boot result.worker = some result.boot := by
    rw [← bootCurrent_eq_true, ← StrongId.isNil_eq_true, ← StrongId.isNil_eq_true]
    cases result.worker.isNil <;> cases result.boot.isNil <;> cases σ.bootCurrent result <;> simp
  have hworker : ¬(!result.worker.isNil && decide (result.worker ≠ s.dispatchedWorker)) = true ↔
      result.worker = .nil ∨ result.worker = s.dispatchedWorker := by
    rw [← StrongId.isNil_eq_true]
    cases result.worker.isNil <;> simp
  rw [checkRecord]
  simp only [ite_some_eq_none, hboot, hworker, Decidable.not_not, Bool.not_eq_true,
    Bool.not_eq_false, Bool.not_eq_eq_eq_not, Bool.not_true, and_true, ne_eq]

theorem accepts_of_checkAuthority (h : σ.checkAuthority result = .ok s) :
    σ.requests.lookup result.requestId = some s ∧ σ.view.Accepts result s.core := by
  unfold checkAuthority at h
  by_cases hnil : result.epoch.isNil = true
  · rw [if_pos hnil] at h
    exact nomatch h
  by_cases hepoch : result.epoch ≠ σ.epoch
  · rw [if_neg hnil, if_pos hepoch] at h
    exact nomatch h
  rw [if_neg hnil, if_neg hepoch] at h
  cases hreq : σ.requests.lookup result.requestId with
  | none =>
    rw [hreq] at h
    exact nomatch h
  | some t =>
    rw [hreq] at h
    cases hcheck : σ.checkRecord result t with
    | some why =>
      simp only [hcheck] at h
      exact nomatch h
    | none =>
      simp only [hcheck] at h
      obtain rfl : t = s := by injection h
      obtain ⟨hboot, hattempt, hgen, hterm, hflight, hworker⟩ := checkRecord_eq_none.mp hcheck
      refine ⟨rfl, ?_⟩
      exact
        { epoch_ne_nil := fun hc => hnil (StrongId.isNil_eq_true.mpr hc)
          epoch := Decidable.not_not.mp hepoch
          req := congrArg (Option.map Rs.core) hreq
          boot := hboot
          attempt := hattempt
          generation := hgen
          lifecycle := hterm
          inFlight := hflight
          worker := hworker }

theorem exists_checkAuthority_of_accepts (h : σ.view.Accepts result s) :
    ∃ t, σ.checkAuthority result = .ok t ∧ t.core = s := by
  obtain ⟨t, ht, rfl⟩ := Option.map_eq_some_iff.mp h.req
  have hcheck : σ.checkRecord result t = none :=
    checkRecord_eq_none.mpr ⟨h.boot, h.attempt, h.generation, h.lifecycle, h.inFlight, h.worker⟩
  have hepoch : ¬result.epoch ≠ σ.epoch := not_not_intro h.epoch
  refine ⟨t, ?_, rfl⟩
  unfold checkAuthority
  rw [if_neg (by rw [StrongId.isNil_eq_true]; exact h.epoch_ne_nil), if_neg hepoch, ht]
  dsimp only
  rw [hcheck]

/-- **Which completions are accepted.** -/
theorem isOk_reportCompletion_iff :
    isOk (σ.reportCompletion env now result).2 = true ↔ ∃ s, σ.view.Accepts result s := by
  constructor
  · intro h
    unfold reportCompletion at h
    cases hauth : σ.checkAuthority result with
    | error why =>
      rw [hauth] at h
      cases why <;> exact absurd h Bool.false_ne_true
    | ok s => exact ⟨_, (accepts_of_checkAuthority hauth).2⟩
  · rintro ⟨s, hs⟩
    obtain ⟨t, ht, -⟩ := exists_checkAuthority_of_accepts hs
    rw [reportCompletion, ht]
    rfl

theorem view_ite_detachMember (σ : Impl) (g : GroupId) (r : RequestId) :
    (if g.isNil then σ else σ.detachMember g r).view = σ.view.detachIf (!g.isNil) g r := by
  cases g.isNil with
  | true => rfl
  | false => exact σ.view_detachMember g r

theorem view_refuse (why : Refusal) : (σ.refuse now result why).1.view = σ.view := by
  unfold refuse
  cases why.detail <;> rfl

/-- What the outcome makes of the record, and of the view: at most a new attempt. -/
theorem settleOutcome_spec (env : Env) (now : Nanoseconds) (result : MemberResult) (s : Rs)
    (σ : Impl) :
    (settleOutcome env now result s σ).2.core =
      s.core.settled env result.outcome ⟨σ.nextAttemptValue⟩ ∧
    (settleOutcome env now result s σ).1.view =
      { σ.view with
        nextAttempt := if s.retriesAfter result.outcome then σ.nextAttemptValue + 1
          else σ.nextAttemptValue } := by
  have hsuccess : (settleSuccess now s σ).2.core = s.core.advanced ∧
      (settleSuccess now s σ).1.view = σ.view := by
    unfold settleSuccess Rs.advanced
    by_cases hcancel : s.cancelPending = true
    · rw [if_pos hcancel, if_pos (show s.core.cancelPending = true from hcancel)]
      exact ⟨rfl, rfl⟩
    · rw [if_neg hcancel, if_neg (show ¬s.core.cancelPending = true from hcancel)]
      by_cases hmore : (s.nextChunkIndex + 1) % 2 ^ 32 < s.plan.chunks.length
      · rw [if_pos hmore, if_pos (show (s.core.nextChunkIndex + 1) % 2 ^ 32 <
          s.core.plan.chunks.length from hmore)]
        exact ⟨rfl, rfl⟩
      · rw [if_neg hmore, if_neg (show ¬(s.core.nextChunkIndex + 1) % 2 ^ 32 <
          s.core.plan.chunks.length from hmore)]
        exact ⟨rfl, rfl⟩
  unfold settleOutcome Rs.settled Rs.retriesAfter
  cases result.outcome with
  | success => exact hsuccess
  | needsNextChunk => exact hsuccess
  | retryableFailure =>
    dsimp only
    by_cases hbudget : s.retriesUsed < s.request.maxRetries
    · rw [if_pos hbudget, if_pos (show s.core.retriesUsed < s.core.request.maxRetries from hbudget),
        decide_eq_true hbudget]
      exact ⟨rfl, rfl⟩
    · rw [if_neg hbudget,
        if_neg (show ¬s.core.retriesUsed < s.core.request.maxRetries from hbudget),
        decide_eq_false hbudget]
      exact ⟨rfl, rfl⟩
  | nonRetryableFailure => exact ⟨rfl, rfl⟩
  | cancelled => exact ⟨rfl, rfl⟩
  | expired => exact ⟨rfl, rfl⟩
  | staleRejected => exact ⟨rfl, rfl⟩

/-- Applying a result to the record of its request finishes the chunk in flight. -/
theorem effect_applyCompletion (hwf : σ.view.Wf) (hs : σ.requests.lookup result.requestId = some s)
    (hflight : s.inFlight = true) (hlive : s.lifecycle.isTerminal = false) :
    Effect env σ.view (.finish result.requestId result.outcome)
      (σ.applyCompletion env now result s).view := by
  have hreq : σ.view.req result.requestId = some s.core := congrArg (Option.map Rs.core) hs
  have hid : s.request.requestId = result.requestId := hwf.keyed _ s.core hreq
  have heffect : Effect env _ _ _ := Effect.finish result.outcome hreq hflight hlive
  unfold applyCompletion
  dsimp only
  generalize hσ₁ : ((σ.count _).charge s.request.tenantId _ : Impl) = σ₁
  have hview₁ : σ₁.view = σ.view := by
    rw [← hσ₁]
    rfl
  have hattempt₁ : σ₁.nextAttemptValue = σ.nextAttemptValue := congrArg View.nextAttempt hview₁
  obtain ⟨hcore, hview⟩ := settleOutcome_spec env now result (s.landed env) σ₁
  generalize settleOutcome env now result (s.landed env) σ₁ = settled at hcore hview
  obtain ⟨σ₂, t⟩ := settled
  dsimp only at hcore hview ⊢
  have hholds := (s.core.landed env).sameHoldings_settled env result.outcome ⟨σ₁.nextAttemptValue⟩
  have ht : t.core = (s.core.landed env).settled env result.outcome ⟨σ₁.nextAttemptValue⟩ := hcore
  have hres : t.reservation = s.reservation := (congrArg Rs.reservation ht).trans hholds.reservation
  have hgroup : t.currentGroup = s.currentGroup :=
    (congrArg Rs.currentGroup ht).trans hholds.currentGroup
  have hrequest : t.request = s.request := (congrArg Rs.request ht).trans hholds.request
  have hrecord : ({ t.dropReservation with currentGroup := .nil } : Rs).core =
      s.core.finished env result.outcome ⟨σ.nextAttemptValue⟩ := by
    rw [Rs.finished, ← hattempt₁, ← ht, ← Rs.core_dropReservation]
    rfl
  rw [view_count, view_setRequest, hrecord, hgroup, hrequest, hid, view_ite_detachMember,
    view_releaseReservation, hres, hview, hview₁, hattempt₁]
  exact heffect

/-- A completion that is refused is not seen; one that is accepted finishes the chunk
in flight. -/
theorem effect_reportCompletion (env : Env) (now : Nanoseconds) (result : MemberResult)
    (hwf : σ.view.Wf) :
    (isOk (σ.reportCompletion env now result).2 = false ∧
      (σ.reportCompletion env now result).1.view = σ.view) ∨
    (isOk (σ.reportCompletion env now result).2 = true ∧
      Effect env σ.view (.finish result.requestId result.outcome)
        (σ.reportCompletion env now result).1.view) := by
  unfold reportCompletion
  cases hauth : σ.checkAuthority result with
  | error why =>
    refine Or.inl ⟨?_, view_refuse why⟩
    cases why <;> rfl
  | ok s =>
    obtain ⟨hs, haccepts⟩ := accepts_of_checkAuthority hauth
    exact Or.inr ⟨rfl, effect_applyCompletion hwf hs haccepts.inFlight haccepts.lifecycle⟩

/-- What an accepted completion makes of the record of its request. -/
theorem exists_finished_of_accepts (env : Env) (now : Nanoseconds) (hwf : σ.view.Wf)
    (hs : σ.view.Accepts result s) :
    ∃ a, (σ.reportCompletion env now result).1.view.req result.requestId =
      some (s.finished env result.outcome a) := by
  rcases effect_reportCompletion env now result hwf with ⟨hnot, -⟩ | ⟨-, heffect⟩
  · exact Bool.noConfusion (hnot.symm.trans (isOk_reportCompletion_iff.mpr ⟨s, hs⟩))
  · generalize (σ.reportCompletion env now result).1.view = v' at heffect
    cases heffect with
    | finish _ ht =>
      obtain rfl := Option.some.inj (ht.symm.trans hs.req)
      exact ⟨_, Function.update_self ..⟩

end Impl

end PrefillFabric
