import PrefillFabric.Scheduler.RefineControl
import PrefillFabric.Scheduler.RefineCycle

/-!
# The scheduler simulates its effects

`effects_step`: one call takes the view of a state to the view of the next by a chain
of effects that hands out exactly the members the call returns. A property of views
that every effect keeps therefore holds throughout every run
(`Impl.view_invariant`), and a property of the record of a single request need only
be checked against the fates a request can have (`Effect.each`).

The first use is `Rs.Sane`, what is always true of a record: its plan is the
planner's, a request that is not over has a chunk left, and is queued or dispatched.
-/

namespace PrefillFabric

variable {env : Env}

/-! ### One call -/

/-- What an operation can cause. -/
def Op.Causes : Op → Label → Prop
  | submitWithTokens req _, .enter r => r = req.requestId
  | runCycle, l => l.Cyclic
  | reportCompletion result, .finish r o => r = result.requestId ∧ o = result.outcome
  | cancel req, .flag r | cancel req, .cancel r => r = req
  | cancelGeneration req _, .flag r => r = req
  | forceRetry req, .withdraw r | forceRetry req, .retry r => r = req
  | registerWorker w, .boot x _ => x = w.workerId
  | workerLost w, .lose x => x = w
  | rollEpoch, .roll => True
  | attachExecutor _ _, .boot x _ => x = .nil
  | _, _ => False

/-- **Every call is a chain of effects** that its operation can cause. -/
theorem Impl.effects_step (env : Env) {σ : Impl} (hwf : σ.view.Wf) (c : Call) :
    Effects env c.op.Causes σ.view (σ.step env c).2.members (σ.step env c).1.view := by
  have hsame : ∀ {L : Label → Prop} {v : View}, v = σ.view → Effects env L σ.view [] v :=
    fun h => h ▸ Effects.refl _
  obtain ⟨now, op⟩ := c
  cases op with
  | submitWithTokens req tokens =>
    rcases σ.effect_submitWithTokens env now req tokens with ⟨-, h⟩ | ⟨-, h⟩
    · exact hsame h
    · exact Effects.single h rfl
  | runCycle =>
    rw [step_runCycle]
    exact effects_runCycle env now hwf
  | reportCompletion result =>
    rcases effect_reportCompletion env now result hwf with ⟨-, h⟩ | ⟨-, h⟩
    · exact hsame h
    · exact Effects.single h ⟨rfl, rfl⟩
  | cancel r =>
    rcases σ.effect_cancel env now r with h | h | h
    · exact hsame h
    · exact Effects.single h rfl
    · exact Effects.single h rfl
  | cancelGeneration r g =>
    rcases σ.effect_cancelGeneration env r g with h | h
    · exact hsame h
    · exact Effects.single h rfl
  | forceRetry r =>
    rcases σ.effect_forceRetry env now r with ⟨h, -⟩ | h | h
    · exact hsame h
    · exact Effects.single h rfl
    · exact Effects.single h rfl
  | registerWorker w =>
    rcases σ.effect_registerWorker env now w with ⟨-, h⟩ | ⟨-, h⟩
    · exact hsame h
    · exact Effects.single h rfl
  | unregisterWorker w => exact hsame (σ.view_unregisterWorker now w)
  | workerLost w => exact Effects.single (effect_workerLost env now w σ) rfl
  | rollEpoch => exact Effects.single (σ.effect_rollEpoch env now) trivial
  | attachExecutor ex backend =>
    rcases σ.effect_attachExecutor env ex backend with h | ⟨-, b, h⟩
    · exact hsame h
    · exact Effects.single h rfl

/-- Only a cycle hands out members. -/
theorem Impl.exists_runCycle_of_mem_members {σ : Impl} {c : Call} {m : ExecutableMember}
    (h : m ∈ (σ.step env c).2.members) :
    ∃ now, c = ⟨now, .runCycle⟩ ∧ m ∈ (σ.runCycle env now).2.members := by
  obtain ⟨now, op⟩ := c
  cases op with
  | runCycle =>
    rw [step_runCycle] at h
    exact ⟨now, rfl, h⟩
  | _ => exact absurd h List.not_mem_nil

/-! ### Runs -/

theorem Impl.wf_fresh (env : Env) : (Impl.fresh env).view.Wf where
  keyed _ _ h := absurd h (Option.some_ne_none _).symm
  holds _ _ h := absurd h (Option.some_ne_none _).symm
  grp_lt _ _ h := absurd h (Option.some_ne_none _).symm
  held_lt _ _ h := absurd h (Option.some_ne_none _).symm
  nextReservation_pos := Nat.one_pos
  nextGroup_pos := Nat.one_pos

theorem Impl.wf_step {σ : Impl} (hwf : σ.view.Wf) (c : Call) : (σ.step env c).1.view.Wf :=
  (Impl.effects_step env hwf c).wf hwf

variable {σ₀ : Impl} {calls : List Call}

theorem Impl.wf_stateAt (h₀ : σ₀.view.Wf) (n : ℕ) :
    ((schedulerFrom env σ₀).stateAt calls n).view.Wf :=
  Machine.invariant (M := schedulerFrom env σ₀) (P := fun σ => σ.view.Wf) h₀
    (fun _ c h => Impl.wf_step h c) n

/-- **Invariants of views**: what holds at the start and is kept by every effect holds
at every point of every run. -/
theorem Impl.view_invariant {P : View → Prop} (h₀ : σ₀.view.Wf) (hP₀ : P σ₀.view)
    (hP : ∀ v l v', v.Wf → Effect env v l v' → P v → P v') (n : ℕ) :
    P ((schedulerFrom env σ₀).stateAt calls n).view := by
  refine (Machine.invariant (M := schedulerFrom env σ₀) (P := fun σ => σ.view.Wf ∧ P σ.view)
    ⟨h₀, hP₀⟩ ?_ n).2
  intro σ c h
  have heffects := Impl.effects_step env h.1 c
  exact heffects.invariant (P := fun v => v.Wf ∧ P v)
    (fun v l v' hl _ hv => ⟨hl.wf hv.1, hP v l v' hv.1 hl hv.2⟩) h

/-- What is true of each record of a view. -/
def View.Each (P : View → Rs → Prop) (v : View) : Prop := ∀ r s, v.req r = some s → P v s

/-- What is true of each record as it is admitted, and stays true whatever happens to
it and to the rest, is kept by every effect. -/
theorem Effect.each {P : View → Rs → Prop} {v v' : View} {l : Label} (h : Effect env v l v')
    (henter : ∀ now req, req.validate.code = .ok → l = .enter req.requestId →
      P v' (.admitted env now req ⟨v.nextAttempt⟩))
    (hfate : ∀ r s s', v.req r = some s → Fate env v r s l s' → P v s → P v' s')
    (hv : v.Each P) : v'.Each P := by
  intro r s' hs'
  rcases h.origin hs' with ⟨now, req, hreq, hl, hvalid, rfl⟩ | ⟨s, hr, hf⟩
  · exact henter now req hvalid (hreq ▸ hl)
  · exact hfate r s s' hr hf (hv r s hr)

/-! ### What is always true of a record -/

namespace Rs

/-- **A sane record**: planned by the planner; and, unless the request is over, with a
chunk left, and queued or dispatched. -/
structure Sane (env : Env) (s : Rs) : Prop where
  plan_eq : s.plan = ChunkPlanner.plan env s.request s.attempt .nil
  pending : s.lifecycle.isTerminal = false → s.nextChunkIndex < s.plan.chunks.length
  stage : s.lifecycle.isTerminal = false →
    (s.lifecycle = .queued ∧ s.inFlight = false) ∨ s.lifecycle = .dispatched

variable {s t : Rs}

/-- Two records with the same plan for the same attempt. -/
structure SameWork (s t : Rs) : Prop where
  request : t.request = s.request
  attempt : t.attempt = s.attempt
  plan : t.plan = s.plan

theorem SameWork.plan_eq (hw : SameWork s t) (h : s.Sane env) :
    t.plan = ChunkPlanner.plan env t.request t.attempt .nil := by
  rw [hw.plan, hw.request, hw.attempt, h.plan_eq]

theorem Sane.of_terminal (h : s.Sane env) (hw : SameWork s t)
    (ht : t.lifecycle.isTerminal = true) : t.Sane env where
  plan_eq := hw.plan_eq h
  pending hlive := Bool.noConfusion (ht.symm.trans hlive)
  stage hlive := Bool.noConfusion (ht.symm.trans hlive)

theorem Sane.of_stage (h : s.Sane env) (hw : SameWork s t)
    (hlt : t.nextChunkIndex < s.plan.chunks.length)
    (hstage : (t.lifecycle = .queued ∧ t.inFlight = false) ∨ t.lifecycle = .dispatched) :
    t.Sane env where
  plan_eq := hw.plan_eq h
  pending _ := by
    rw [hw.plan]
    exact hlt
  stage _ := hstage

/-- What is in flight and not over is dispatched. -/
theorem Sane.dispatched (h : s.Sane env) (hflight : s.inFlight = true)
    (hlive : s.lifecycle.isTerminal = false) : s.lifecycle = .dispatched := by
  rcases h.stage hlive with ⟨-, hnot⟩ | hdisp
  · exact Bool.noConfusion (hflight.symm.trans hnot)
  · exact hdisp

/-- A request that is not over has tokens to prefill. -/
theorem Sane.remaining_pos (h : s.Sane env) (hlive : s.lifecycle.isTerminal = false) :
    0 < s.request.remainingPrefillTokens := by
  rw [Nat.pos_iff_ne_zero]
  intro hzero
  have hlt := h.pending hlive
  rw [h.plan_eq, ChunkPlanner.plan_chunks_eq_nil env _ _ _ hzero] at hlt
  exact absurd hlt (Nat.not_lt_zero _)

/-- A new attempt starts sane. -/
theorem sane_beginAttempt (hpos : 0 < s.request.remainingPrefillTokens)
    (hflight : s.inFlight = false) (a : AttemptId) : (s.beginAttempt env a).Sane env where
  plan_eq := rfl
  pending _ := List.length_pos_iff.mpr (ChunkPlanner.plan_chunks_ne_nil env s.request a .nil hpos)
  stage _ := Or.inl ⟨rfl, hflight⟩

theorem sane_admitted (now : Nanoseconds) (req : PrefillRequest) (a : AttemptId) :
    (admitted env now req a).Sane env where
  plan_eq := rfl
  pending hlive := by
    have hpos : req.remainingPrefillTokens ≠ 0 := by
      intro hzero
      rw [admitted, if_pos hzero] at hlive
      exact Bool.noConfusion hlive
    exact List.length_pos_iff.mpr
      (ChunkPlanner.plan_chunks_ne_nil env req a .nil (Nat.pos_of_ne_zero hpos))
  stage hlive := by
    rw [admitted] at hlive ⊢
    dsimp only at hlive ⊢
    split_ifs at hlive ⊢ with hzero
    · exact Bool.noConfusion hlive
    · exact Or.inl ⟨rfl, rfl⟩

theorem Sane.landed (h : s.Sane env) (hflight : s.inFlight = true)
    (hlive : s.lifecycle.isTerminal = false) : (s.landed env).Sane env :=
  h.of_stage ⟨rfl, rfl, rfl⟩ (h.pending hlive) (Or.inr (h.dispatched hflight hlive))

theorem Sane.advanced (h : s.Sane env) (hflight : s.inFlight = false) : s.advanced.Sane env := by
  unfold Rs.advanced
  split_ifs with hcancel hnext
  · exact h.of_terminal ⟨rfl, rfl, rfl⟩ rfl
  · exact h.of_stage ⟨rfl, rfl, rfl⟩ hnext (Or.inl ⟨rfl, hflight⟩)
  · exact h.of_terminal ⟨rfl, rfl, rfl⟩ rfl

theorem Sane.settled (h : s.Sane env) (hflight : s.inFlight = false)
    (hlive : s.lifecycle.isTerminal = false) (o : MemberOutcome) (a : AttemptId) :
    (s.settled env o a).Sane env := by
  cases o with
  | success => exact h.advanced hflight
  | needsNextChunk => exact h.advanced hflight
  | retryableFailure =>
    unfold Rs.settled
    dsimp only
    split_ifs
    · exact sane_beginAttempt (h.remaining_pos hlive) hflight a
    · exact h.of_terminal ⟨rfl, rfl, rfl⟩ rfl
  | nonRetryableFailure => exact h.of_terminal ⟨rfl, rfl, rfl⟩ rfl
  | cancelled => exact h.of_terminal ⟨rfl, rfl, rfl⟩ rfl
  | expired => exact h.of_terminal ⟨rfl, rfl, rfl⟩ rfl
  | staleRejected => exact h

/-- Giving a reservation back, and leaving the group, changes no work. -/
theorem Sane.dropped (h : s.Sane env) (g : GroupId) :
    ({ s.dropReservation with currentGroup := g } : Rs).Sane env := by
  rw [dropReservation_eq]
  exact ⟨h.plan_eq, h.pending, h.stage⟩

end Rs

/-- **Whatever happens to a sane record leaves it sane.** -/
theorem Fate.sane {v : View} {r : RequestId} {s s' : Rs} {l : Label} (h : Fate env v r s l s')
    (hs : s.Sane env) : s'.Sane env := by
  cases h with
  | keep => exact hs
  | expire _ => exact hs.of_terminal (by constructor <;> simp [Rs.expired]) rfl
  | launch _ _ hwait _ _ _ _ _ =>
    exact hs.of_stage ⟨rfl, rfl, rfl⟩ (Rs.isWaiting_iff.mp hwait).2.2 (Or.inr rfl)
  | finish o hflight hlive =>
    exact ((hs.landed hflight hlive).settled rfl hlive o _).dropped _
  | flag _ _ => exact ⟨hs.plan_eq, hs.pending, hs.stage⟩
  | cancel _ _ =>
    exact hs.of_terminal (by constructor <;> simp [Rs.cancelled]) rfl
  | withdraw hflight hlive =>
    have hdisp := hs.dispatched hflight hlive
    refine hs.of_stage ⟨?_, ?_, ?_⟩ ?_ (Or.inr ?_) <;>
      simp [Rs.withdrawn, hdisp, hs.pending hlive]
  | retry hlive =>
    refine Rs.sane_beginAttempt ?_ ?_ _
    · have hpos := hs.remaining_pos hlive
      split_ifs
      · rwa [Rs.withdrawn, Rs.dropReservation_request]
      · exact hpos
    · split_ifs with hflight
      · rfl
      · exact Bool.eq_false_iff.mpr hflight
  | recover _ hflight hdisp =>
    have hlive : s.lifecycle.isTerminal = false := by
      rw [hdisp]
      rfl
    refine hs.of_stage ⟨?_, ?_, ?_⟩ ?_ (Or.inl ⟨rfl, rfl⟩) <;>
      simp [Rs.recovered, hs.pending hlive]

/-- **The index of a chunk has 32 bits**, whatever happens to the record. -/
theorem Fate.nextChunkIndex_lt {v : View} {r : RequestId} {s s' : Rs} {l : Label}
    (h : Fate env v r s l s') (hs : s.nextChunkIndex < 2 ^ 32) : s'.nextChunkIndex < 2 ^ 32 := by
  have hmod : (s.nextChunkIndex + 1) % 2 ^ 32 < 2 ^ 32 := Nat.mod_lt _ (by decide)
  have hadvanced : (s.landed env).advanced.nextChunkIndex < 2 ^ 32 := by
    unfold Rs.advanced
    split_ifs
    · exact hs
    · exact hmod
    · exact hs
  cases h with
  | keep => exact hs
  | launch _ _ _ _ _ _ _ _ => exact hs
  | flag _ _ => exact hs
  | retry _ => exact Nat.two_pow_pos 32
  | expire _ => rwa [Rs.expired, Rs.dropReservation_nextChunkIndex]
  | cancel _ _ => rwa [Rs.cancelled, Rs.dropReservation_nextChunkIndex]
  | withdraw _ _ => rwa [Rs.withdrawn, Rs.dropReservation_nextChunkIndex]
  | recover _ _ _ => rwa [Rs.recovered, Rs.dropReservation_nextChunkIndex]
  | finish o _ _ =>
    rw [Rs.finished, Rs.dropReservation_nextChunkIndex]
    cases o with
    | success => exact hadvanced
    | needsNextChunk => exact hadvanced
    | retryableFailure =>
      unfold Rs.settled
      dsimp only
      split_ifs
      · exact Nat.two_pow_pos 32
      · exact hs
    | nonRetryableFailure => exact hs
    | cancelled => exact hs
    | expired => exact hs
    | staleRejected => exact hs

end PrefillFabric
