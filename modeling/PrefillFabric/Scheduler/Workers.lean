import PrefillFabric.Scheduler.Surroundings

/-!
# The workers of a scheduler

What a worker is, its *post*, is its descriptor with its executor. It is written when the worker
registers, retires or is lost, and by no other operation: dispatching and completing only move
its count of busy units. `Impl.posts` is the table of posts, `Impl.descs` the part of it that
the coordinator reads, and the file goes through the operations.

A cycle moreover hands its groups to workers that take groups (`Impl.posts_runCycle`).
-/

namespace PrefillFabric

namespace Impl

variable {env : Env} {now : Nanoseconds} {σ τ : Impl} {w : WorkerId}

/-- The descriptor and the executor of each worker. -/
def posts (σ : Impl) (w : WorkerId) : Option (WorkerDescriptor × Option Executor) :=
  (σ.workers.lookup w).map fun ws => (ws.desc, ws.localExec)

/-- The descriptor of each worker. -/
def descs (σ : Impl) (w : WorkerId) : Option WorkerDescriptor :=
  (σ.workers.lookup w).map (·.desc)

theorem descs_eq (σ : Impl) (w : WorkerId) : σ.descs w = (σ.posts w).map Prod.fst := by
  rw [posts, Option.map_map]
  rfl

/-- What leaves the posts alone leaves the descriptors alone. -/
theorem descs_of_posts (h : τ.posts = σ.posts) : τ.descs = σ.descs := by
  funext w
  rw [descs_eq, descs_eq, h]

/-! ### What leaves the posts alone -/

/-- What leaves the groups and the workers alone leaves the posts alone. -/
theorem posts_of_crew (h : τ.crew = σ.crew) : τ.posts = σ.posts := by
  obtain ⟨-, hworkers⟩ := Prod.mk.inj h
  funext w
  rw [posts, posts, hworkers]

theorem posts_detachMember (σ : Impl) (gid : GroupId) (r : RequestId) :
    (σ.detachMember gid r).posts = σ.posts := by
  rw [detachMember]
  cases σ.groups.lookup gid with
  | none => rfl
  | some gs =>
    dsimp only
    split_ifs
    · exact funext fun w => AList.map_lookup_modify σ.workers gs.worker w fun _ => rfl
    · rfl

/-- A request that leaves its group leaves the posts alone. -/
theorem Leaves.posts (h : σ.Leaves τ) : τ.posts = σ.posts := by
  rcases h with h | ⟨gid, r, h⟩
  · exact posts_of_crew h
  · exact (posts_of_crew h).trans (posts_detachMember σ gid r)

/-! ### Operations on requests -/

theorem descs_submitWithTokens (env : Env) (now : Nanoseconds) (req : PrefillRequest)
    (tokens : List UInt32) (σ : Impl) :
    (σ.submitWithTokens env now req tokens).1.descs = σ.descs :=
  descs_of_posts (posts_of_crew (crew_submitWithTokens env now req tokens σ))

theorem descs_reportCompletion (env : Env) (now : Nanoseconds) (result : MemberResult) (σ : Impl) :
    (σ.reportCompletion env now result).1.descs = σ.descs :=
  descs_of_posts (leaves_reportCompletion env now result σ).posts

theorem descs_cancel (now : Nanoseconds) (r : RequestId) (σ : Impl) :
    (σ.cancel now r).1.descs = σ.descs :=
  descs_of_posts (leaves_cancel now r σ).posts

/-! ### The cycle -/

/-- A worker that takes groups, as far as its state goes. -/
def TakesGroups (σ : Impl) (w : WorkerId) : Prop :=
  ∃ d ex, σ.posts w = some (d, ex) ∧ (d.state = .ready ∨ d.state = .registered)

/-- A formed group takes a unit of a worker, and nothing else from the posts. -/
theorem posts_dispatchGroup (now : Nanoseconds) (acc : Impl × DispatchBatch) (g : ExecutionGroup) :
    (dispatchGroup now acc g).1.posts = acc.1.posts ∧
      ∀ dg ∈ (dispatchGroup now acc g).2.groups,
        dg ∈ acc.2.groups ∨ acc.1.TakesGroups dg.assignedWorker := by
  rcases dispatchGroup_around now acc g with ⟨heq, hgroups⟩ |
    ⟨x, ws, gs, hws, helig, -, heq, hgroups⟩
  · exact ⟨posts_of_crew (crew_of_around heq), fun dg hdg => Or.inl (hgroups ▸ hdg)⟩
  · have hworkers : (dispatchGroup now acc g).1.workers = AList.modify x.assignedWorker
        (fun ws => { ws with busyUnits := ws.busyUnits + 1 }) acc.1.workers :=
      congrArg Surroundings.workers heq
    refine ⟨funext fun w => ?_, ?_⟩
    · rw [posts, hworkers]
      exact AList.map_lookup_modify acc.1.workers _ w fun _ => rfl
    · rw [hgroups]
      refine List.forall_mem_append.mpr ⟨fun dg => Or.inl, List.forall_mem_singleton.mpr
        (Or.inr ⟨ws.desc, ws.localExec, ?_, ?_⟩)⟩
      · rw [posts, hws, Option.map_some]
      · simp only [eligible, Bool.and_eq_true, Bool.or_eq_true, beq_iff_eq] at helig
        exact helig.1.1

theorem posts_foldl_dispatchGroup (now : Nanoseconds) (gs : List ExecutionGroup)
    (acc : Impl × DispatchBatch) :
    (gs.foldl (dispatchGroup now) acc).1.posts = acc.1.posts ∧
      ∀ dg ∈ (gs.foldl (dispatchGroup now) acc).2.groups,
        dg ∈ acc.2.groups ∨ acc.1.TakesGroups dg.assignedWorker := by
  induction gs generalizing acc with
  | nil => exact ⟨rfl, fun dg => Or.inl⟩
  | cons g gs ih =>
    obtain ⟨hposts, hgroups⟩ := posts_dispatchGroup now acc g
    obtain ⟨hposts', hgroups'⟩ := ih (dispatchGroup now acc g)
    refine ⟨hposts'.trans hposts, fun dg hdg => ?_⟩
    rcases hgroups' dg hdg with hdg | htakes
    · exact hgroups dg hdg
    · rw [TakesGroups, hposts] at htakes
      exact Or.inr htakes

/-- **A cycle leaves the posts alone, and its groups go to workers that take groups.** -/
theorem posts_runCycle (env : Env) (now : Nanoseconds) (σ : Impl) :
    (σ.runCycle env now).1.posts = σ.posts ∧
      ∀ dg ∈ (σ.runCycle env now).2.groups, σ.TakesGroups dg.assignedWorker := by
  have hsweep : (σ.expirySweep now).posts = σ.posts :=
    foldl_frame (fun σ r => (leaves_sweepRequest now σ r).posts) _ σ
  rw [runCycle_eq, dispatchPhase]
  generalize σ.expirySweep now = τ at hsweep
  have hform := posts_of_crew
    (crew_of_around (around_formGroups env (τ.sortedCandidates env now) τ))
  generalize formGroups env (τ.sortedCandidates env now) τ = formed at hform
  obtain ⟨hposts, hgroups⟩ := posts_foldl_dispatchGroup now formed.2 (formed.1, {})
  dsimp only
  generalize formed.2.foldl (dispatchGroup now) (formed.1, {}) = dispatched at hposts hgroups
  have hage := posts_of_crew (crew_of_around (around_ageWaiting dispatched.1))
  refine ⟨hage.trans (hposts.trans (hform.trans hsweep)), fun dg hdg => ?_⟩
  have htakes := (hgroups dg hdg).resolve_left List.not_mem_nil
  rwa [TakesGroups, hform, hsweep] at htakes

/-- **A cycle changes no descriptor, and assigns its groups to registered workers.** -/
theorem runCycle_descs (env : Env) (now : Nanoseconds) (σ : Impl) :
    (σ.runCycle env now).1.descs = σ.descs ∧ ∀ dg ∈ (σ.runCycle env now).2.groups,
      ((σ.runCycle env now).1.descs dg.assignedWorker).isSome = true := by
  obtain ⟨hposts, hgroups⟩ := posts_runCycle env now σ
  refine ⟨descs_of_posts hposts, fun dg hdg => ?_⟩
  obtain ⟨d, ex, hpost, -⟩ := hgroups dg hdg
  rw [descs_eq, hposts, hpost]
  rfl

/-! ### Operations on workers -/

/-- A worker that registers is described as it describes itself. -/
theorem descs_registerWorker_self {wd : WorkerDescriptor} {d : WorkerDescriptor}
    (hid : wd.workerId.isNil = false) (h : (σ.registerWorker now wd).1.descs wd.workerId = some d) :
    d.state = if wd.state = .unknown then .ready else wd.state := by
  unfold registerWorker at h
  rw [if_neg (Bool.eq_false_iff.mp hid)] at h
  change ((σ.workers.insert wd.workerId _).lookup wd.workerId).map _ = some d at h
  rw [AList.lookup_insert, Option.map_some] at h
  obtain rfl := Option.some.inj h
  rfl

theorem descs_registerWorker_of_ne {wd : WorkerDescriptor} (hne : w ≠ wd.workerId) :
    (σ.registerWorker now wd).1.descs w = σ.descs w := by
  unfold registerWorker
  by_cases hid : wd.workerId.isNil = true
  · rw [if_pos hid]
  · rw [if_neg hid]
    change ((σ.workers.insert wd.workerId _).lookup w).map _ = σ.descs w
    rw [AList.lookup_insert_ne hne]
    rfl

theorem descs_unregisterWorker_of_ne {x : WorkerId} (hne : w ≠ x) :
    (σ.unregisterWorker now x).1.descs w = σ.descs w := by
  unfold unregisterWorker
  cases σ.workers.lookup x with
  | none => rfl
  | some ws =>
    change ((σ.workers.insert x _).lookup w).map _ = σ.descs w
    rw [AList.lookup_insert_ne hne]
    rfl

/-- Before the lost worker is marked, no descriptor is touched. -/
theorem descs_foldl_loseGroup (now : Nanoseconds) (x : WorkerId) (gids : List GroupId) (σ : Impl) :
    (gids.foldl (loseGroup now x) σ).descs = σ.descs := by
  refine foldl_frame (fun σ gid => ?_) gids σ
  unfold descs
  rw [(crew_loseGroup now x σ gid).1]

theorem descs_workerLost_of_ne {x : WorkerId} (hne : w ≠ x) :
    (σ.workerLost now x).descs w = σ.descs w := by
  rw [← descs_foldl_loseGroup now x σ.groups.keys σ]
  change ((AList.modify x _ _).lookup w).map _ = _
  rw [AList.lookup_modify, if_neg hne]
  rfl

end Impl

end PrefillFabric
