import PrefillFabric.Scheduler.Admission
import PrefillFabric.Scheduler.RefineCycle

/-!
# The surroundings of the requests

Requests are written all the time; what stands around them – the groups, the workers,
the tenants and the tally of how requests ended – is written by few operations, and in
few ways. `Impl.around` is that part of a state. Most of what a cycle does leaves it
alone: only the sweep, and the dispatch of a group, which takes one unit of a worker's
capacity and files the group (`dispatchGroup_around`).

Of groups and workers alone (`Impl.crew`) an operation on requests changes even less: a
completion, a cancellation, an expiry takes at most one request out of its group
(`Impl.Leaves`), and a forced retry drops a group.
-/

namespace PrefillFabric

/-- What stands around the requests. -/
@[ext] structure Surroundings where
  groups : Table GroupId Gs
  workers : Table WorkerId Ws
  tenants : Table TenantId TenantService
  tally : Tally

/-- The surroundings once a group is dispatched to a worker. -/
def Surroundings.dispatch (a : Surroundings) (w : WorkerId) (gid : GroupId) (gs : Gs) :
    Surroundings :=
  { a with
    workers := AList.modify w (fun ws => { ws with busyUnits := ws.busyUnits + 1 }) a.workers
    groups := a.groups.insert gid gs }

namespace Impl

variable {env : Env} {now : Nanoseconds} {σ : Impl}

/-- What stands around the requests of a state. -/
def around (σ : Impl) : Surroundings where
  groups := σ.groups
  workers := σ.workers
  tenants := σ.tenants
  tally := σ.stats.tally

/-- Releasing a reservation leaves the surroundings alone. -/
theorem around_releaseReservation (σ : Impl) (s : Rs) :
    (σ.releaseReservation s).around = σ.around := by
  unfold releaseReservation
  split_ifs <;> rfl

theorem around_recoverMember (now : Nanoseconds) (σ : Impl) (r : RequestId) :
    (σ.recoverMember now r).around = σ.around := by
  unfold recoverMember
  cases σ.requests.lookup r with
  | none => rfl
  | some s =>
    dsimp only
    split_ifs
    · have hrelease := around_releaseReservation σ s
      generalize σ.releaseReservation s = σ₁ at hrelease ⊢
      exact hrelease
    · rfl

/-! ### The cycle after the sweep -/

theorem around_formGroups (env : Env) (cands : List RequestId) (σ : Impl) :
    (formGroups env cands σ).1.around = σ.around := by
  have hplace : ∀ (acc : Impl × List ExecutionGroup) (rid : RequestId),
      (placeCandidate env acc rid).1.around = acc.1.around := by
    intro acc rid
    unfold placeCandidate
    cases acc.1.requests.lookup rid with
    | none => rfl
    | some s =>
      dsimp only
      split_ifs
      · rfl
      · cases packInto env rid s acc.2 <;> rfl
  exact foldl_frame (q := fun acc => acc.1.around) hplace cands (σ, [])

theorem around_noteAll (rids : List RequestId) (line : String) (σ : Impl) :
    (σ.noteAll rids line).around = σ.around :=
  foldl_frame (f := fun σ rid => σ.noteRequest rid line) (fun _ _ => rfl) rids σ

theorem around_reserveMembers (rids : List RequestId) (σ : Impl) :
    (reserveMembers rids σ).1.around = σ.around := by
  induction rids generalizing σ with
  | nil => rfl
  | cons rid rids ih =>
    rw [reserveMembers]
    dsimp only
    split_ifs
    · exact ih _
    · rfl

theorem around_commitMembers (now : Nanoseconds) (gid : GroupId) (w : WorkerId)
    (ms : List ExecutableMember) (σ : Impl) :
    (commitMembers now gid w ms σ).1.around = σ.around := by
  induction ms generalizing σ with
  | nil => rfl
  | cons m ms ih =>
    refine (ih _).trans ?_
    unfold commitMember
    dsimp only [around, count, setRequest]
    split_ifs <;> rfl

theorem around_ageWaiting (σ : Impl) : σ.ageWaiting.refreshStats.around = σ.around :=
  foldl_frame (q := around) (f := ageRequest) (fun _ _ => rfl) _ σ

theorem commitGroup_around (now : Nanoseconds) (w : WorkerId) (g : ExecutionGroup)
    (batch : DispatchBatch) (σ : Impl) :
    ∃ dg gs, dg.assignedWorker = w ∧ gs.worker = w ∧
      (σ.commitGroup now w g batch).1.around = σ.around.dispatch w g.groupId gs ∧
      (σ.commitGroup now w g batch).2.groups = batch.groups ++ [dg] := by
  have hcommit := around_commitMembers now g.groupId w g.members σ
  refine ⟨_, { group := { g with members := (commitMembers now g.groupId w g.members σ).2 },
               worker := w,
               outstanding := g.rids.foldl (fun l rid => insertOutstanding rid l) [] },
    ?_, rfl, ?_, rfl⟩
  · rfl
  · rw [← hcommit]
    rfl

/-- **A formed group and the surroundings**: nothing changes there, or the group is filed
under its own identity, on a worker that could take it. -/
theorem dispatchGroup_around (now : Nanoseconds) (acc : Impl × DispatchBatch) (g : ExecutionGroup) :
    ((dispatchGroup now acc g).1.around = acc.1.around ∧
      (dispatchGroup now acc g).2.groups = acc.2.groups) ∨
    ∃ dg ws gs, acc.1.workers.lookup dg.assignedWorker = some ws ∧ eligible g.backend ws = true ∧
      gs.worker = dg.assignedWorker ∧
      (dispatchGroup now acc g).1.around = acc.1.around.dispatch dg.assignedWorker g.groupId gs ∧
      (dispatchGroup now acc g).2.groups = acc.2.groups ++ [dg] := by
  obtain ⟨σ, batch⟩ := acc
  unfold dispatchGroup
  split_ifs
  · exact Or.inl ⟨rfl, rfl⟩
  · cases hw : chooseWorker g.backend σ with
    | none => exact Or.inl ⟨around_noteAll _ _ σ, rfl⟩
    | some w =>
      obtain ⟨ws, hws, helig⟩ := exists_of_chooseWorker hw
      have hreserve := around_reserveMembers g.rids σ
      dsimp only
      split_ifs
      · obtain ⟨dg, gs, rfl, hgs, haround, hgroups⟩ :=
          commitGroup_around now w g batch (reserveMembers g.rids σ).1
        rw [hreserve] at haround
        exact Or.inr ⟨dg, ws, gs, hws, helig, hgs, haround, hgroups⟩
      · refine Or.inl ⟨(around_noteAll _ _ _).trans ?_, rfl⟩
        exact (foldl_frame (q := around) (f := undoReservation) (fun _ _ => rfl) _ _).trans
          hreserve

/-- What holds of the surroundings before a list of formed groups is dispatched, and is
kept by the filing of a group on a worker with a free unit, holds after. -/
theorem foldl_dispatchGroup_around {P : Surroundings → Prop} (now : Nanoseconds)
    (hP : ∀ a w gid gs ws backend, P a → a.groups.lookup gid = none → a.workers.lookup w = some ws →
      eligible backend ws = true → gs.worker = w → P (a.dispatch w gid gs))
    (groups : List ExecutionGroup) (hnodup : (groups.map (·.groupId)).Nodup)
    (acc : Impl × DispatchBatch)
    (hunused : ∀ g ∈ groups, acc.1.groups.lookup g.groupId = none) (h : P acc.1.around) :
    P (groups.foldl (dispatchGroup now) acc).1.around := by
  induction groups generalizing acc with
  | nil => exact h
  | cons g groups ih =>
    obtain ⟨hnot, hnodup⟩ := List.nodup_cons.mp hnodup
    rw [List.foldl_cons]
    rcases dispatchGroup_around now acc g with ⟨heq, -⟩ | ⟨dg, ws, gs, hws, helig, hgs, heq, -⟩
    · refine ih hnodup _ (fun x hx => ?_) (heq ▸ h)
      rw [show (dispatchGroup now acc g).1.groups = acc.1.groups from
        congrArg Surroundings.groups heq]
      exact hunused x (List.mem_cons_of_mem g hx)
    · have hg := hunused g List.mem_cons_self
      refine ih hnodup _ (fun x hx => ?_) (heq ▸ hP _ _ _ _ ws _ h hg hws helig hgs)
      rw [show (dispatchGroup now acc g).1.groups = acc.1.groups.insert g.groupId gs from
        congrArg Surroundings.groups heq, AList.lookup_insert_ne]
      · exact hunused x (List.mem_cons_of_mem g hx)
      · intro hid
        exact hnot (List.mem_map.mpr ⟨x, hx, hid⟩)

/-- **The surroundings after the sweep**: what the filing of a group on a worker with a free
unit keeps, the rest of a cycle keeps. -/
theorem dispatchPhase_around {P : Surroundings → Prop} (env : Env) (now : Nanoseconds)
    (hwf : σ.view.Wf)
    (hP : ∀ a w gid gs ws backend, P a → a.groups.lookup gid = none → a.workers.lookup w = some ws →
      eligible backend ws = true → gs.worker = w → P (a.dispatch w gid gs))
    (h : P σ.around) : P (σ.dispatchPhase env now).1.around := by
  obtain ⟨-, hformed⟩ := formGroups_spec env hwf (nodup_sortedCandidates env now σ)
  have hform := around_formGroups env (σ.sortedCandidates env now) σ
  unfold dispatchPhase
  dsimp only
  rw [around_ageWaiting]
  refine foldl_dispatchGroup_around now hP _ hformed.nodup_ids _ (fun g hg => ?_) (hform ▸ h)
  exact Option.map_eq_none_iff.mp (hformed.unused g hg).1

/-- The rest of a cycle leaves the tenants and the tally alone. -/
theorem accounts_dispatchPhase (env : Env) (now : Nanoseconds) (hwf : σ.view.Wf) :
    (σ.dispatchPhase env now).1.around.tenants = σ.around.tenants ∧
      (σ.dispatchPhase env now).1.around.tally = σ.around.tally :=
  dispatchPhase_around (P := fun a => a.tenants = σ.around.tenants ∧ a.tally = σ.around.tally)
    env now hwf (fun _ _ _ _ _ _ h _ _ _ _ => h) ⟨rfl, rfl⟩

/-! ### Groups and workers -/

/-- The groups and the workers. -/
def crew (σ : Impl) : Table GroupId Gs × Table WorkerId Ws := (σ.groups, σ.workers)

variable {σ' : Impl} {r : RequestId}

theorem crew_of_around (h : σ'.around = σ.around) : σ'.crew = σ.crew :=
  congrArg (fun a => (a.groups, a.workers)) h

@[simp] theorem crew_count (σ : Impl) (f : Stats → Stats) : (σ.count f).crew = σ.crew := rfl

@[simp] theorem crew_charge (σ : Impl) (t : TenantId) (f : TenantService → TenantService) :
    (σ.charge t f).crew = σ.crew := rfl

@[simp] theorem crew_setRequest (σ : Impl) (r : RequestId) (s : Rs) :
    (σ.setRequest r s).crew = σ.crew := rfl

@[simp] theorem crew_record (σ : Impl) (now : Nanoseconds) (type : String) (r : RequestId)
    (a : AttemptId) (detail : String) : (σ.record now type r a detail).crew = σ.crew := rfl

theorem crew_eraseGroup (h : σ'.crew = σ.crew) (gid : GroupId) (gs : Gs) :
    (σ'.eraseGroup gid gs).crew = (σ.eraseGroup gid gs).crew := by
  obtain ⟨hgroups, hworkers⟩ := Prod.mk.inj h
  unfold crew eraseGroup freeWorker
  rw [hgroups, hworkers]

theorem crew_detachMember (h : σ'.crew = σ.crew) (gid : GroupId) (r : RequestId) :
    (σ'.detachMember gid r).crew = (σ.detachMember gid r).crew := by
  obtain ⟨hgroups, hworkers⟩ := Prod.mk.inj h
  unfold detachMember
  rw [hgroups]
  cases σ.groups.lookup gid with
  | none => exact h
  | some gs =>
    dsimp only
    split_ifs
    · exact crew_eraseGroup h gid gs
    · exact Prod.ext rfl hworkers

/-- At most one request has left its group, which may have freed its worker. -/
def Leaves (σ σ' : Impl) : Prop :=
  σ'.crew = σ.crew ∨ ∃ gid r, σ'.crew = (σ.detachMember gid r).crew

theorem crew_submitWithTokens (env : Env) (now : Nanoseconds) (req : PrefillRequest)
    (tokens : List UInt32) (σ : Impl) :
    (σ.submitWithTokens env now req tokens).1.crew = σ.crew := by
  have hsubmission := σ.submission env now req tokens
  generalize σ.submitWithTokens env now req tokens = out at hsubmission
  cases hsubmission with
  | admitted =>
    rw [admitRequest_eq]
    dsimp only
    split_ifs <;> rfl
  | _ => rfl

theorem crew_settleOutcome (env : Env) (now : Nanoseconds) (result : MemberResult) (s : Rs)
    (σ : Impl) : (settleOutcome env now result s σ).1.crew = σ.crew := by
  unfold settleOutcome
  cases result.outcome with
  | retryableFailure =>
    dsimp only
    split_ifs <;> rfl
  | success =>
    dsimp only [settleSuccess]
    split_ifs <;> rfl
  | needsNextChunk =>
    dsimp only [settleSuccess]
    split_ifs <;> rfl
  | _ => rfl

theorem leaves_applyCompletion (env : Env) (now : Nanoseconds) (result : MemberResult) (s : Rs)
    (σ : Impl) : σ.Leaves (σ.applyCompletion env now result s) := by
  unfold applyCompletion
  dsimp only
  generalize hτ : settleOutcome env now result (s.landed env) _ = out
  have hcrew : (out.1.releaseReservation out.2).crew = σ.crew := by
    rw [crew_of_around (around_releaseReservation _ _), ← hτ, crew_settleOutcome]
    rfl
  generalize out.1.releaseReservation out.2 = σ₁ at hcrew
  by_cases hnil : out.2.currentGroup.isNil = true
  · rw [if_pos hnil]
    exact Or.inl hcrew
  · rw [if_neg hnil]
    exact Or.inr ⟨_, _, crew_detachMember hcrew _ _⟩

theorem leaves_reportCompletion (env : Env) (now : Nanoseconds) (result : MemberResult) (σ : Impl) :
    σ.Leaves (σ.reportCompletion env now result).1 := by
  unfold reportCompletion
  cases σ.checkAuthority result with
  | error why => exact Or.inl (by cases why <;> rfl)
  | ok s => exact leaves_applyCompletion env now result s σ

theorem leaves_cancel (now : Nanoseconds) (r : RequestId) (σ : Impl) :
    σ.Leaves (σ.cancel now r).1 := by
  unfold cancel
  cases σ.requests.lookup r with
  | none => exact Or.inl rfl
  | some s =>
    have hrelease := crew_of_around (around_releaseReservation σ s)
    dsimp only
    generalize σ.releaseReservation s = σ₁ at hrelease
    split_ifs
    · exact Or.inl rfl
    · exact Or.inl rfl
    · exact Or.inl hrelease
    · refine Or.inr ⟨s.currentGroup, r, ?_⟩
      rw [crew_record, crew_setRequest]
      refine crew_detachMember ?_ _ _
      rw [crew_charge, crew_count]
      exact hrelease

theorem leaves_sweepRequest (now : Nanoseconds) (σ : Impl) (r : RequestId) :
    σ.Leaves (σ.sweepRequest now r) := by
  have hexpire : ∀ (τ : Impl) (s : Rs), τ.crew = σ.crew → σ.Leaves (τ.expireRequest now r s) := by
    intro τ s hτ
    unfold expireRequest
    dsimp only
    unfold Leaves
    rw [crew_record, crew_setRequest, crew_charge, crew_count,
      crew_of_around (around_releaseReservation _ s)]
    split_ifs
    · exact Or.inr ⟨_, _, crew_detachMember hτ _ _⟩
    · exact Or.inl hτ
  unfold sweepRequest
  cases σ.requests.lookup r with
  | none => exact Or.inl rfl
  | some s =>
    dsimp only
    split_ifs
    · exact Or.inl rfl
    · exact hexpire σ s rfl
    · exact hexpire _ s rfl
    · exact Or.inl rfl

/-- A forced retry drops the group of a request in flight. -/
theorem crew_forceRetry (env : Env) (now : Nanoseconds) (r : RequestId) (σ : Impl) :
    (σ.forceRetry env now r).1.crew = σ.crew ∨ ∃ gid gs, σ.groups.lookup gid = some gs ∧
      (σ.forceRetry env now r).1.crew = (σ.eraseGroup gid gs).crew := by
  have hbudget : ∀ (s : Rs) (τ : Impl), (retryWithinBudget env now r s τ).1.crew = τ.crew := by
    intro s τ
    unfold retryWithinBudget
    split_ifs <;> rfl
  unfold forceRetry
  cases σ.requests.lookup r with
  | none => exact Or.inl rfl
  | some s =>
    dsimp only
    split_ifs
    · exact Or.inl rfl
    · rw [hbudget]
      have hrelease := crew_of_around (around_releaseReservation σ s)
      unfold withdraw
      dsimp only
      generalize σ.releaseReservation s = σ₁ at hrelease
      have hgroups : σ₁.groups = σ.groups := congrArg Prod.fst hrelease
      cases hgs : σ₁.groups.lookup s.currentGroup with
      | none => exact Or.inl hrelease
      | some gs =>
        dsimp only
        split_ifs
        · exact Or.inl hrelease
        · exact Or.inr ⟨_, gs, hgroups ▸ hgs, crew_eraseGroup hrelease _ gs⟩
    · exact Or.inl (hbudget s σ)

theorem crew_cancelGeneration (r : RequestId) (g : Generation) (σ : Impl) :
    (σ.cancelGeneration r g).1.crew = σ.crew := by
  unfold cancelGeneration
  cases σ.requests.lookup r with
  | none => rfl
  | some s =>
    dsimp only
    split_ifs <;> rfl

/-- The groups of a worker are dropped one after the other. -/
theorem crew_loseGroup (now : Nanoseconds) (w : WorkerId) (σ : Impl) (gid : GroupId) :
    (σ.loseGroup now w gid).workers = σ.workers ∧ ((σ.loseGroup now w gid).groups = σ.groups ∧
        (∀ gs, σ.groups.lookup gid = some gs → gs.worker ≠ w) ∨
      ∃ gs, σ.groups.lookup gid = some gs ∧ gs.worker = w ∧
        (σ.loseGroup now w gid).groups = σ.groups.erase gid) := by
  unfold loseGroup
  cases hgs : σ.groups.lookup gid with
  | none => exact ⟨rfl, Or.inl ⟨rfl, fun gs h => absurd h (Option.some_ne_none gs).symm⟩⟩
  | some gs =>
    dsimp only
    split_ifs with hw
    · have hfold := foldl_frame (around_recoverMember now) gs.outstanding σ
      refine ⟨congrArg Surroundings.workers hfold, Or.inr ⟨gs, rfl, hw, ?_⟩⟩
      exact congrArg (fun a : Surroundings => a.groups.erase gid) hfold
    · exact ⟨rfl, Or.inl ⟨rfl, fun gs' h => Option.some.inj h ▸ hw⟩⟩

end Impl

end PrefillFabric
