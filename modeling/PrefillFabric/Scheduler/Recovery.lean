import PrefillFabric.Scheduler.Authority
import PrefillFabric.Scheduler.Persistence

/-!
# Completions after a recovery

A scheduler recovered from a snapshot draws its generations from where the snapshot
left the counter, and nothing is in flight in it at first. So a generation that was
handed out before the snapshot is never in flight in the recovered scheduler, and its
completion is refused, whatever the recovered scheduler does
(`Run.refused_after_recovery`).

What the first scheduler hands out after the snapshot was taken is another matter: the
recovered one hands out the same numbers again. The epoch is the only thing that can
tell the two apart, and recovery does not change it.
-/

namespace PrefillFabric

/-! ### The recovered state -/

namespace PersistedRequestRecord

variable (env : Env) (rec : PersistedRequestRecord)

theorem recovered_request : (rec.recovered env).request = rec.request := by
  unfold recovered
  dsimp only
  split_ifs <;> rfl

theorem recovered_inFlight : (rec.recovered env).inFlight = false := by
  unfold recovered
  dsimp only
  split_ifs <;> rfl

theorem recovered_holds : (rec.recovered env).HoldsOnlyInFlight := by
  refine Rs.holdsOnlyInFlight_of_nil ?_
  unfold recovered
  dsimp only
  split_ifs <;> exact ⟨rfl, rfl⟩

end PersistedRequestRecord

namespace Impl

/-- Fit to start from: well formed, with nothing in flight. -/
structure Quiet (σ : Impl) : Prop where
  wf : σ.view.Wf
  inFlight : ∀ r s, σ.view.req r = some s → s.inFlight = false

theorem view_importRequest (env : Env) (σ : Impl) (rec : PersistedRequestRecord) :
    (σ.importRequest env rec).view = σ.view.setReq rec.requestId (rec.recovered env).core := by
  rw [importRequest, view_charge, view_setRequest]

theorem view_importWorker (σ : Impl) (rec : PersistedWorkerRecord) :
    (σ.importWorker rec).view =
      { σ.view with boot := Function.update σ.view.boot rec.workerId (some rec.bootId) } :=
  σ.view_insert_worker ..

theorem Quiet.importRequest {σ : Impl} (h : σ.Quiet) (env : Env) (rec : PersistedRequestRecord) :
    (σ.importRequest env rec).Quiet := by
  have hcases : ∀ r s, (σ.importRequest env rec).view.req r = some s →
      (r = rec.requestId ∧ s = (rec.recovered env).core) ∨ σ.view.req r = some s := by
    intro r s hs
    rw [view_importRequest] at hs
    change Function.update σ.view.req _ _ r = some s at hs
    rw [Function.update_apply] at hs
    split_ifs at hs with hr
    · exact Or.inl ⟨hr, (Option.some.inj hs).symm⟩
    · exact Or.inr hs
  have hrest : (σ.importRequest env rec).view =
      { σ.view with req := (σ.importRequest env rec).view.req } := by
    rw [view_importRequest]
    rfl
  refine ⟨⟨fun r s hs => ?_, fun r s hs => ?_, ?_, ?_, ?_, ?_⟩, fun r s hs => ?_⟩
  · rcases hcases r s hs with ⟨rfl, rfl⟩ | hs
    · exact congrArg PrefillRequest.requestId (rec.recovered_request env)
    · exact h.wf.keyed r s hs
  · rcases hcases r s hs with ⟨rfl, rfl⟩ | hs
    · exact ⟨(rec.recovered_holds env).reservation_eq, (rec.recovered_holds env).reservedBytes_eq⟩
    · exact h.wf.holds r s hs
  · rw [hrest]
    exact h.wf.grp_lt
  · rw [hrest]
    exact h.wf.held_lt
  · rw [hrest]
    exact h.wf.nextReservation_pos
  · rw [hrest]
    exact h.wf.nextGroup_pos
  · rcases hcases r s hs with ⟨rfl, rfl⟩ | hs
    · exact rec.recovered_inFlight env
    · exact h.inFlight r s hs

theorem Quiet.importWorker {σ : Impl} (h : σ.Quiet) (rec : PersistedWorkerRecord) :
    (σ.importWorker rec).Quiet := by
  have hview := σ.view_importWorker rec
  refine ⟨?_, ?_⟩ <;> rw [hview]
  · exact ⟨h.wf.keyed, h.wf.holds, h.wf.grp_lt, h.wf.held_lt, h.wf.nextReservation_pos,
      h.wf.nextGroup_pos⟩
  · exact h.inFlight

/-- **The rule for snapshots**: what holds once everything is cleared, and is kept as each
record is read, holds in the end. -/
theorem importState_rec {P : Impl → Prop} {σ : Impl} (env : Env) (now : Nanoseconds)
    (st : PersistedState)
    (hstart : P (σ.cleared st))
    (hrequest : ∀ τ rec, P τ → P (τ.importRequest env rec))
    (hworker : ∀ τ rec, P τ → P (τ.importWorker rec))
    (htenant : ∀ τ rec, P τ → P (τ.importTenant rec))
    (hcount : ∀ τ f, P τ → P (τ.count f))
    (hrecord : ∀ τ now type r a detail, P τ → P (τ.record now type r a detail)) :
    P (σ.importState env now st) := by
  have hrequests := List.foldlRecOn st.requests (importRequest env) (motive := P) hstart
    fun τ h rec _ => hrequest τ rec h
  have hworkers := List.foldlRecOn st.workers importWorker (motive := P) hrequests
    fun τ h rec _ => hworker τ rec h
  have htenants := List.foldlRecOn st.tenants importTenant (motive := P) hworkers
    fun τ h rec _ => htenant τ rec h
  exact hrecord _ _ _ _ _ _ (hcount _ _ htenants)

/-- **A scheduler that has read a snapshot** is fit to start from, and its generations are
past those of the snapshot. -/
theorem quiet_importState {σ : Impl} (hwf : σ.view.Wf) (env : Env) (now : Nanoseconds)
    (st : PersistedState) :
    (σ.importState env now st).Quiet ∧
      st.nextGenerationValue ≤ (σ.importState env now st).nextGenerationValue := by
  refine importState_rec (P := fun τ => τ.Quiet ∧ st.nextGenerationValue ≤ τ.nextGenerationValue)
    env now st ⟨⟨?_, fun _ s hs => absurd hs (Option.some_ne_none s).symm⟩, le_max_right ..⟩
    (fun τ rec h => ⟨h.1.importRequest env rec, h.2⟩) (fun τ rec h => ⟨h.1.importWorker rec, h.2⟩)
    (fun τ rec h => ⟨⟨h.1.wf, h.1.inFlight⟩, h.2⟩) (fun τ _ h => ⟨⟨h.1.wf, h.1.inFlight⟩, h.2⟩)
    fun τ _ _ _ _ _ h => ⟨⟨h.1.wf, h.1.inFlight⟩, h.2⟩
  exact ⟨fun _ s hs => absurd hs (Option.some_ne_none s).symm,
    fun _ s hs => absurd hs (Option.some_ne_none s).symm,
    fun _ p hp => absurd hp (Option.some_ne_none p).symm, hwf.held_lt, hwf.nextReservation_pos,
    hwf.nextGroup_pos⟩

theorem groups_importState (env : Env) (now : Nanoseconds) (st : PersistedState) (σ : Impl) :
    (σ.importState env now st).groups = ∅ :=
  importState_rec (P := fun τ => τ.groups = ∅) env now st rfl (fun _ _ h => h) (fun _ _ h => h)
    (fun _ _ h => h) (fun _ _ h => h) fun _ _ _ _ _ _ h => h

/-- The governor is not touched. -/
theorem mem_importState (env : Env) (now : Nanoseconds) (st : PersistedState) (σ : Impl) :
    (σ.importState env now st).mem = σ.mem :=
  importState_rec (P := fun τ => τ.mem = σ.mem) env now st rfl (fun _ _ h => h) (fun _ _ h => h)
    (fun _ _ h => h) (fun _ _ h => h) fun _ _ _ _ _ _ h => h

/-- Nothing is awaited where nothing is in flight. -/
theorem Quiet.not_awaits {σ : Impl} (h : σ.Quiet) (m : ExecutableMember) : ¬σ.Awaits m := by
  rintro ⟨s, hs, hm⟩
  exact Bool.noConfusion ((h.inFlight _ s.core (view_req hs)).symm.trans hm.inFlight)

end Impl

/-! ### Late completions -/

/-- A completion of the member, with any outcome, as its worker reports it when the
member was handed out in the state. -/
structure Impl.CompletedBy (σ : Impl) (m : ExecutableMember) (result : MemberResult) : Prop where
  requestId : result.requestId = (σ.completionOf m).requestId
  attemptId : result.attemptId = (σ.completionOf m).attemptId
  generation : result.generation = (σ.completionOf m).generation
  epoch : result.epoch = (σ.completionOf m).epoch
  worker : result.worker = (σ.completionOf m).worker
  boot : result.boot = (σ.completionOf m).boot

namespace Run

/-- The run of a new scheduler that has read a snapshot. -/
def recovered (env : Env) (now : Nanoseconds) (st : PersistedState) (calls : List Call) : Run :=
  ⟨env, (Impl.fresh env).importState env now st, calls⟩

variable {n : ℕ} {result : MemberResult}

/-- Nothing in flight in a recovered scheduler has a generation from before the
snapshot. -/
theorem generation_ge_of_accepts {env : Env} {now : Nanoseconds} {st : PersistedState}
    {calls : List Call} {s : Rs}
    (hs : ((recovered env now st calls).stateAt n).view.Accepts result s) :
    st.nextGenerationValue ≤ result.generation.value := by
  obtain ⟨hquiet, hge⟩ := Impl.quiet_importState (Impl.wf_fresh env) env now st
  obtain ⟨i, m, hm⟩ := exists_answers hquiet.wf hquiet.not_awaits hs
  calc st.nextGenerationValue
      ≤ (recovered env now st calls).start.nextGenerationValue := hge
    _ ≤ ((recovered env now st calls).stateAt i).nextGenerationValue :=
        nextGeneration_mono (ρ := recovered env now st calls) hquiet.wf (Nat.zero_le i)
    _ ≤ m.generation.value := (generation_bounds hquiet.wf hm.emitted).1
    _ = result.generation.value := by rw [hm.generation]

/-- **Late completions are refused after a recovery.** Take a snapshot of a scheduler at
any point `p` of any run, recover a new scheduler from it, under any policy, and run it
in any way. A completion of a member that the first scheduler handed out before the
snapshot is refused at every moment; and so is one of a member handed out later, as long
as the epoch it was handed out under is not that of the recovered scheduler. -/
theorem refused_after_recovery (envA envB : Env) (callsA callsB : List Call) (p : ℕ)
    (recoveredAt : Nanoseconds) {i : ℕ} {m : ExecutableMember}
    (hm : m ∈ (fresh envA callsA).emitted i)
    (hresult : ((fresh envA callsA).stateAt i).CompletedBy m result)
    (hlate : i < p ∨ ((fresh envA callsA).stateAt i).epoch ≠
      ((recovered envB recoveredAt ((fresh envA callsA).stateAt p).exportState callsB).stateAt
        n).epoch) (now : Nanoseconds) :
    isOk (((recovered envB recoveredAt ((fresh envA callsA).stateAt p).exportState
      callsB).stateAt n).reportCompletion envB now result).2 = false := by
  rw [Bool.eq_false_iff]
  intro hok
  obtain ⟨s, hs⟩ := Impl.isOk_reportCompletion_iff.mp hok
  rcases hlate with hbefore | hepoch
  · have hwf := fresh_wf envA callsA
    have hge := generation_ge_of_accepts hs
    have hlt := (generation_bounds hwf hm).2
    have hmono := nextGeneration_mono hwf (show i + 1 ≤ p from hbefore)
    rw [hresult.generation] at hge
    exact absurd (lt_of_lt_of_le hlt hmono) (not_lt.mpr hge)
  · exact hepoch (hresult.epoch.symm.trans hs.epoch)

/-- A request is submitted and dispatched. -/
def dispatchedCalls : List Call :=
  [⟨0, .submitWithTokens (plainRequest 1 2) [5, 6]⟩, ⟨0, .runCycle⟩]

/-- A snapshot after the dispatch: the recovered scheduler dispatches the request again
and refuses the completion of the first dispatch. -/
theorem refused_after_recovery_dispatchedCalls :
    isOk (((recovered .standard 0 ((fresh .standard dispatchedCalls).stateAt 2).exportState
      [⟨0, .runCycle⟩]).stateAt 1).reportCompletion .standard 0
        (((fresh .standard dispatchedCalls).stateAt 1).completionOf
          (((fresh .standard dispatchedCalls).emitted 1).headD {}))).2 = false :=
  refused_after_recovery .standard .standard dispatchedCalls [⟨0, .runCycle⟩] 2 0 (i := 1)
    (by decide +kernel) ⟨rfl, rfl, rfl, rfl, rfl, rfl⟩ (Or.inl (by decide)) 0

/-- A snapshot before the dispatch: the recovered scheduler dispatches the request under
the same generation, and accepts the completion of the first scheduler's dispatch. -/
theorem accepted_after_recovery_dispatchedCalls :
    ∃ m ∈ (fresh .standard dispatchedCalls).emitted 1,
      isOk (((recovered .standard 0 ((fresh .standard dispatchedCalls).stateAt 1).exportState
        [⟨0, .runCycle⟩]).stateAt 1).reportCompletion .standard 0
          (((fresh .standard dispatchedCalls).stateAt 1).completionOf m)).2 = true := by
  decide +kernel

end Run

end PrefillFabric
