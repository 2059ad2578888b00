import Mathlib.Data.Finset.Lattice.Fold
import Mathlib.Data.Finset.Range
import Mathlib.Order.Lattice.Nat
import PrefillFabric.Scheduler.Groups
import PrefillFabric.Scheduler.Lifetime
import PrefillFabric.Scheduler.Surroundings

/-!
# Slots

A worker takes as many groups at a time as it has units of capacity, and its busy units are
to be the number of groups it has. Nobody counts groups: one unit is taken when a group is
dispatched and given back when the group is dropped, unless there is none to give back.

The abstract picture is `Slots`, three numbers for each worker, and `Slots.Move`, the three
ways in which the first two go up and down together. Whatever happens to the groups of a
scheduler is a chain of moves (`Impl.reaches_…`), with two exceptions, in which one of the
two numbers is written without the other.

* A worker that registers again has no busy unit, whatever groups it has.
* A scheduler that reads a snapshot has no group, and keeps the busy units of the workers
  that are not in the snapshot.

`Life.busyUnits_eq_iff`: in a life without these two the busy units of a worker are the
groups it has, and these are never more than the largest capacity it ever had; and either of
them is the end of that.
-/

namespace PrefillFabric

/-! ### Moves -/

/-- How many groups each worker has, its busy units, and its capacity. -/
@[ext] structure Slots where
  on : WorkerId → ℕ
  busy : WorkerId → ℕ
  capacity : WorkerId → ℕ

namespace Slots

variable {a b : Slots} {w : WorkerId}

/-- One unit more or less for a group more or less, or all groups at once. -/
inductive Move (a : Slots) : Slots → Prop
  /-- A group goes to a worker that has a unit free. -/
  | take (w : WorkerId) (hfree : a.busy w < a.capacity w) :
      Move a { a with
        on := Function.update a.on w (a.on w + 1)
        busy := Function.update a.busy w (a.busy w + 1) }
  /-- A group of a worker is dropped. -/
  | give (w : WorkerId) (hon : 0 < a.on w) :
      Move a { a with
        on := Function.update a.on w (a.on w - 1)
        busy := Function.update a.busy w (a.busy w - 1) }
  /-- A worker is lost. -/
  | clear (w : WorkerId) :
      Move a { a with on := Function.update a.on w 0, busy := Function.update a.busy w 0 }

/-- A chain of moves. -/
def Reaches : Slots → Slots → Prop := Relation.ReflTransGen Move

theorem reaches_of_eq (h : b = a) : a.Reaches b := h ▸ .refl

/-- **As many busy units as groups.** -/
def Balanced (a : Slots) : Prop := ∀ w, a.busy w = a.on w

theorem Move.balanced (h : a.Move b) (ha : a.Balanced) : b.Balanced := by
  intro x
  cases h with
  | take w _ =>
    dsimp only
    rw [Function.update_apply, Function.update_apply, ha x, ha w]
  | give w _ =>
    dsimp only
    rw [Function.update_apply, Function.update_apply, ha x, ha w]
  | clear w =>
    dsimp only
    rw [Function.update_apply, Function.update_apply, ha x]

theorem Move.capacity_eq (h : a.Move b) : b.capacity = a.capacity := by
  cases h <;> rfl

/-- A move gives a worker more groups only up to its capacity. -/
theorem Move.on_le (h : a.Move b) (ha : a.Balanced) (x : WorkerId) :
    b.on x ≤ max (a.on x) (a.capacity x) := by
  cases h with
  | take w hfree =>
    dsimp only
    rw [Function.update_apply]
    split_ifs with hx
    · subst hx
      rw [ha x] at hfree
      exact le_trans hfree (le_max_right ..)
    · exact le_max_left ..
  | give w _ =>
    dsimp only
    rw [Function.update_apply]
    split_ifs with hx
    · subst hx
      exact le_trans (Nat.sub_le ..) (le_max_left ..)
    · exact le_max_left ..
  | clear w =>
    dsimp only
    rw [Function.update_apply]
    split_ifs
    · exact Nat.zero_le _
    · exact le_max_left ..

theorem Reaches.spec (h : a.Reaches b) (ha : a.Balanced) :
    b.Balanced ∧ b.capacity = a.capacity ∧ ∀ x, b.on x ≤ max (a.on x) (a.capacity x) := by
  induction h with
  | refl => exact ⟨ha, rfl, fun x => le_max_left ..⟩
  | tail _ hmove ih =>
    obtain ⟨hbalanced, hcapacity, hon⟩ := ih
    refine ⟨hmove.balanced hbalanced, hmove.capacity_eq.trans hcapacity, fun x => ?_⟩
    have hx := hmove.on_le hbalanced x
    rw [hcapacity] at hx
    exact hx.trans (max_le (hon x) (le_max_right ..))

theorem Reaches.balanced (h : a.Reaches b) (ha : a.Balanced) : b.Balanced := (h.spec ha).1

end Slots

/-! ### The slots of a state -/

section Tables

variable {groups : Table GroupId Gs} {workers : Table WorkerId Ws} {gid : GroupId} {gs : Gs}
  {w x : WorkerId}

/-- The number of groups on a worker, by a table of groups. -/
def countOn (groups : Table GroupId Gs) (w : WorkerId) : ℕ :=
  (groups.entries.filter fun e => e.2.worker == w).length

/-- The busy units of a worker, by a table of workers; none if it is unknown. -/
def busyIn (workers : Table WorkerId Ws) (w : WorkerId) : ℕ :=
  ((workers.lookup w).map (·.busyUnits)).getD 0

/-- The capacity of a worker, by a table of workers; none if it is unknown. -/
def capacityIn (workers : Table WorkerId Ws) (w : WorkerId) : ℕ :=
  ((workers.lookup w).map (·.desc.capacityUnits.toNat)).getD 0

/-- The slots, by a table of groups and one of workers. -/
def Slots.of (groups : Table GroupId Gs) (workers : Table WorkerId Ws) : Slots :=
  ⟨countOn groups, busyIn workers, capacityIn workers⟩

theorem countOn_eq_total (groups : Table GroupId Gs) (w : WorkerId) :
    countOn groups w = AList.total (fun _ gs => if gs.worker == w then 1 else 0) groups :=
  (AList.total_indicator (fun _ (gs : Gs) => gs.worker == w) groups).symm

theorem countOn_pos (h : groups.lookup gid = some gs) : 0 < countOn groups gs.worker := by
  rw [countOn_eq_total]
  refine lt_of_lt_of_le Nat.one_pos ((le_of_eq ?_).trans (AList.le_total h))
  exact (if_pos (beq_self_eq_true gs.worker)).symm

theorem countOn_eq_zero (h : ∀ gid gs, groups.lookup gid = some gs → gs.worker ≠ w) :
    countOn groups w = 0 := by
  rw [countOn, List.length_eq_zero_iff, List.filter_eq_nil_iff]
  intro e he hw
  exact h e.1 e.2 (AList.mem_lookup_iff.mpr he) (eq_of_beq hw)

/-- One group fewer on the worker of a group that is dropped, and as many on any other. -/
theorem countOn_erase (h : groups.lookup gid = some gs) : countOn (groups.erase gid) =
    Function.update (countOn groups) gs.worker (countOn groups gs.worker - 1) := by
  funext x
  have herase := AList.total_erase (fun _ (gs : Gs) => if gs.worker == x then 1 else 0) groups gid
  rw [h, Option.elim_some, ← countOn_eq_total, ← countOn_eq_total] at herase
  rw [Function.update_apply]
  split_ifs with hx
  · subst hx
    rw [if_pos (beq_self_eq_true gs.worker)] at herase
    omega
  · rw [if_neg fun hc => hx (eq_of_beq hc).symm] at herase
    omega

/-- One group more on the worker of a group that is filed, and as many on any other. -/
theorem countOn_insert_new (h : groups.lookup gid = none) : countOn (groups.insert gid gs) =
    Function.update (countOn groups) gs.worker (countOn groups gs.worker + 1) := by
  funext x
  have hinsert := AList.total_insert (fun _ (gs : Gs) => if gs.worker == x then 1 else 0) groups
    gid gs
  rw [h, Option.elim_none, Nat.add_zero, ← countOn_eq_total, ← countOn_eq_total] at hinsert
  rw [Function.update_apply]
  split_ifs with hx
  · subst hx
    rw [hinsert, if_pos (beq_self_eq_true gs.worker)]
  · rw [hinsert, if_neg fun hc => hx (eq_of_beq hc).symm, Nat.add_zero]

/-- A group that is filed in the place of another one on the same worker changes nothing. -/
theorem countOn_insert_same {gs' : Gs} (h : groups.lookup gid = some gs)
    (hworker : gs'.worker = gs.worker) : countOn (groups.insert gid gs') = countOn groups := by
  funext x
  have hinsert := AList.total_insert (fun _ (gs : Gs) => if gs.worker == x then 1 else 0) groups
    gid gs'
  rw [h, Option.elim_some, hworker, ← countOn_eq_total, ← countOn_eq_total] at hinsert
  exact Nat.add_right_cancel hinsert

/-- What changes the busy units of a worker changes no others. -/
theorem busyIn_modify {f : Ws → Ws} {g : ℕ → ℕ} (hf : ∀ ws, (f ws).busyUnits = g ws.busyUnits)
    (hknown : g 0 = 0 ∨ (workers.lookup w).isSome = true) :
    busyIn (AList.modify w f workers) =
      Function.update (busyIn workers) w (g (busyIn workers w)) := by
  funext x
  unfold busyIn
  rw [AList.lookup_modify, Function.update_apply]
  split_ifs with hx
  · cases hws : workers.lookup w with
    | none =>
      refine (hknown.resolve_right ?_).symm
      rw [hws]
      exact Bool.false_ne_true
    | some ws => exact hf ws
  · rfl

theorem capacityIn_modify {f : Ws → Ws}
    (hf : ∀ ws, (f ws).desc.capacityUnits = ws.desc.capacityUnits) :
    capacityIn (AList.modify w f workers) = capacityIn workers := by
  funext x
  unfold capacityIn
  rw [AList.map_lookup_modify workers w x fun ws => congrArg UInt64.toNat (hf ws)]

theorem busyIn_insert (ws : Ws) :
    busyIn (workers.insert w ws) = Function.update (busyIn workers) w ws.busyUnits := by
  funext x
  unfold busyIn
  rw [AList.lookup_insert_eq_ite, Function.update_apply]
  split_ifs <;> rfl

end Tables

namespace Impl

variable {env : Env} {now : Nanoseconds} {σ σ' : Impl} {w : WorkerId}

/-- The number of groups on a worker. -/
def groupsOn (σ : Impl) (w : WorkerId) : ℕ := countOn σ.groups w

/-- The busy units of a worker. -/
def busyUnits (σ : Impl) (w : WorkerId) : ℕ := busyIn σ.workers w

/-- The capacity of a worker. -/
def capacityUnits (σ : Impl) (w : WorkerId) : ℕ := capacityIn σ.workers w

/-- The slots of a state. -/
def slots (σ : Impl) : Slots := .of σ.groups σ.workers

theorem slots_of_crew (h : σ'.crew = σ.crew) : σ'.slots = σ.slots :=
  congrArg (fun c : Table GroupId Gs × Table WorkerId Ws => Slots.of c.1 c.2) h

/-! ### Groups that are dropped -/

theorem move_eraseGroup {gid : GroupId} {gs : Gs} (h : σ.groups.lookup gid = some gs) :
    σ.slots.Move (σ.eraseGroup gid gs).slots := by
  have hslots : (σ.eraseGroup gid gs).slots = { σ.slots with
      on := Function.update σ.slots.on gs.worker (σ.slots.on gs.worker - 1)
      busy := Function.update σ.slots.busy gs.worker (σ.slots.busy gs.worker - 1) } :=
    Slots.ext (countOn_erase h) (busyIn_modify (g := (· - 1)) (fun _ => rfl) (Or.inl rfl))
      (capacityIn_modify fun _ => rfl)
  rw [hslots]
  exact .give gs.worker (countOn_pos h)

theorem reaches_detachMember (σ : Impl) (gid : GroupId) (r : RequestId) :
    σ.slots.Reaches (σ.detachMember gid r).slots := by
  unfold detachMember
  cases hgs : σ.groups.lookup gid with
  | none => exact .refl
  | some gs =>
    dsimp only
    split_ifs
    · exact .single (move_eraseGroup hgs)
    · exact Slots.reaches_of_eq (Slots.ext (countOn_insert_same hgs rfl) rfl rfl)

theorem Leaves.reaches (h : σ.Leaves σ') : σ.slots.Reaches σ'.slots := by
  rcases h with h | ⟨gid, r, h⟩
  · exact Slots.reaches_of_eq (slots_of_crew h)
  · rw [slots_of_crew h]
    exact reaches_detachMember σ gid r

theorem slots_foldl_sweepRequest (now : Nanoseconds) (rs : List RequestId) (σ : Impl) :
    σ.slots.Reaches (rs.foldl (sweepRequest now) σ).slots := by
  induction rs generalizing σ with
  | nil => exact .refl
  | cons r rs ih => exact (leaves_sweepRequest now σ r).reaches.trans (ih _)

theorem slots_forceRetry (env : Env) (now : Nanoseconds) (r : RequestId) (σ : Impl) :
    σ.slots.Reaches (σ.forceRetry env now r).1.slots := by
  rcases crew_forceRetry env now r σ with h | ⟨gid, gs, hgs, h⟩
  · exact Slots.reaches_of_eq (slots_of_crew h)
  · rw [slots_of_crew h]
    exact .single (move_eraseGroup hgs)

/-- The groups of a lost worker are dropped, and no others. -/
theorem move_workerLost (now : Nanoseconds) (w : WorkerId) (σ : Impl) :
    σ.slots.Move (σ.workerLost now w).slots := by
  -- dropping the groups one by one leaves the counts of the other workers alone
  have hfold : ∀ (gids : List GroupId) (τ : Impl),
      (gids.foldl (loseGroup now w) τ).workers = τ.workers ∧
        ∀ x, x ≠ w → countOn (gids.foldl (loseGroup now w) τ).groups x = countOn τ.groups x := by
    intro gids
    induction gids with
    | nil => exact fun τ => ⟨rfl, fun _ _ => rfl⟩
    | cons gid gids ih =>
      intro τ
      obtain ⟨hworkers, hgroups⟩ := crew_loseGroup now w τ gid
      obtain ⟨hworkers', hothers⟩ := ih (τ.loseGroup now w gid)
      refine ⟨hworkers'.trans hworkers, fun x hx => (hothers x hx).trans ?_⟩
      rcases hgroups with ⟨hsame, -⟩ | ⟨gs, hgs, hw, herase⟩
      · rw [hsame]
      · rw [herase, countOn_erase hgs, hw, Function.update_of_ne hx]
  obtain ⟨hworkers, hothers⟩ := hfold σ.groups.keys σ
  have hon : countOn (σ.workerLost now w).groups = Function.update (countOn σ.groups) w 0 := by
    funext x
    rw [Function.update_apply]
    split_ifs with hx
    · subst hx
      refine countOn_eq_zero fun gid gs hgs hw => ?_
      have hgrp := (lose_workerLost now x σ).grp gid
      rw [view_grp hgs] at hgrp
      obtain ⟨p, -, hp⟩ := Option.bind_eq_some_iff.mp hgrp.symm
      split_ifs at hp with hpw
      exact hpw ((congrArg Prod.fst (Option.some.inj hp)).trans hw)
    · exact hothers x hx
  have hslots : (σ.workerLost now w).slots = { σ.slots with
      on := Function.update σ.slots.on w 0, busy := Function.update σ.slots.busy w 0 } := by
    refine Slots.ext hon ?_ ?_
    · refine (busyIn_modify (g := fun _ => 0) (fun _ => rfl) (Or.inl rfl)).trans ?_
      rw [hworkers]
      rfl
    · refine (capacityIn_modify (f := fun ws =>
        { ws with busyUnits := 0, desc := { ws.desc with state := .lost } }) fun _ => rfl).trans ?_
      rw [hworkers]
      rfl
  rw [hslots]
  exact .clear w

/-! ### Groups that are dispatched -/

theorem slots_eq_around (σ : Impl) : σ.slots = .of σ.around.groups σ.around.workers := rfl

theorem slots_dispatchPhase (env : Env) (now : Nanoseconds) (hwf : σ.view.Wf) :
    σ.slots.Reaches (σ.dispatchPhase env now).1.slots := by
  rw [slots_eq_around (σ.dispatchPhase env now).1]
  refine dispatchPhase_around (P := fun a => σ.slots.Reaches (.of a.groups a.workers)) env now hwf
    (fun a w gid gs ws backend hP hnew hws helig hw => hP.tail ?_) .refl
  have hslots : Slots.of (a.dispatch w gid gs).groups (a.dispatch w gid gs).workers =
      { Slots.of a.groups a.workers with
        on := Function.update (countOn a.groups) w (countOn a.groups w + 1)
        busy := Function.update (busyIn a.workers) w (busyIn a.workers w + 1) } := by
    refine Slots.ext ?_ ?_ (capacityIn_modify fun _ => rfl)
    · rw [← hw]
      exact countOn_insert_new hnew
    · refine busyIn_modify (g := (· + 1)) (fun _ => rfl) (Or.inr ?_)
      rw [hws]
      rfl
  rw [hslots]
  refine .take w ?_
  -- the worker was chosen because it had a unit free
  simp only [eligible, Bool.and_eq_true, decide_eq_true_eq] at helig
  have hfree := helig.1.2
  change busyIn a.workers w < capacityIn a.workers w
  rw [busyIn, capacityIn, hws]
  exact hfree

theorem slots_runCycle (env : Env) (now : Nanoseconds) (hwf : σ.view.Wf) :
    σ.slots.Reaches (σ.runCycle env now).1.slots := by
  have hsweep := slots_foldl_sweepRequest now σ.requests.keys σ
  rw [runCycle_eq]
  exact hsweep.trans (slots_dispatchPhase env now ((effects_expirySweep env now σ hwf).wf hwf))

theorem balanced_fresh (env : Env) : (fresh env).slots.Balanced := by
  intro w
  change busyIn ((∅ : Table WorkerId Ws).insert .nil _) w = 0
  rw [busyIn_insert, Function.update_apply]
  split_ifs <;> rfl

/-! ### Turns -/

/-- **A turn that keeps the busy units right**: no worker registers that has groups, and a
snapshot is read only if it lists every worker that is busy. -/
def KeepsSlots (σ : Impl) : Turn → Prop
  | .call ⟨_, .registerWorker w⟩ => w.workerId = .nil ∨ σ.groupsOn w.workerId = 0
  | .importState _ st => ∀ w, σ.busyUnits w ≠ 0 → ∃ rec ∈ st.workers, rec.workerId = w
  | _ => True

/-- A worker that retires keeps its busy units. -/
theorem slots_unregisterWorker (now : Nanoseconds) (x : WorkerId) (σ : Impl) :
    (σ.unregisterWorker now x).1.groups = σ.groups ∧
      busyIn (σ.unregisterWorker now x).1.workers = busyIn σ.workers := by
  unfold unregisterWorker
  cases hws : σ.workers.lookup x with
  | none => exact ⟨rfl, rfl⟩
  | some ws =>
    refine ⟨rfl, (busyIn_insert _).trans (Function.update_eq_self_iff.mpr ?_)⟩
    rw [busyIn, hws]
    rfl

/-- So does the local worker when it gets an executor. -/
theorem slots_attachExecutor (ex : Option Executor) (backend : String) (σ : Impl) :
    (σ.attachExecutor ex backend).groups = σ.groups ∧
      busyIn (σ.attachExecutor ex backend).workers = busyIn σ.workers := by
  unfold attachExecutor
  dsimp only
  cases hws : σ.workers.lookup .nil with
  | none =>
    refine ⟨rfl, (busyIn_insert _).trans (Function.update_eq_self_iff.mpr ?_)⟩
    rw [busyIn, hws]
    rfl
  | some ws =>
    refine ⟨rfl, (busyIn_insert _).trans (Function.update_eq_self_iff.mpr ?_)⟩
    rw [busyIn, hws]
    rfl

/-- A worker that registers has no busy unit; the local one cannot register. -/
theorem slots_registerWorker (now : Nanoseconds) (wd : WorkerDescriptor) (σ : Impl) :
    (σ.registerWorker now wd).1.groups = σ.groups ∧
      busyIn (σ.registerWorker now wd).1.workers =
        if wd.workerId = .nil then busyIn σ.workers
        else Function.update (busyIn σ.workers) wd.workerId 0 := by
  unfold registerWorker
  by_cases hnil : wd.workerId = .nil
  · rw [if_pos (StrongId.isNil_eq_true.mpr hnil), if_pos hnil]
    exact ⟨rfl, rfl⟩
  · rw [if_neg fun hc => hnil (StrongId.isNil_eq_true.mp hc), if_neg hnil]
    exact ⟨rfl, busyIn_insert _⟩

/-- **A call that keeps the busy units right**, and gives a worker more groups only up to its
capacity. -/
theorem slots_step (env : Env) (hwf : σ.view.Wf) (hb : σ.slots.Balanced) {c : Call}
    (hc : σ.KeepsSlots (.call c)) :
    (σ.step env c).1.slots.Balanced ∧
      ∀ w, (σ.step env c).1.groupsOn w ≤ max (σ.groupsOn w) (σ.capacityUnits w) := by
  have hreaches : σ.slots.Reaches (σ.step env c).1.slots → (σ.step env c).1.slots.Balanced ∧
      ∀ w, (σ.step env c).1.groupsOn w ≤ max (σ.groupsOn w) (σ.capacityUnits w) :=
    fun h => ⟨(h.spec hb).1, (h.spec hb).2.2⟩
  have hidle : (σ.step env c).1.groups = σ.groups →
      busyIn (σ.step env c).1.workers = busyIn σ.workers → (σ.step env c).1.slots.Balanced ∧
      ∀ w, (σ.step env c).1.groupsOn w ≤ max (σ.groupsOn w) (σ.capacityUnits w) := by
    intro hgroups hbusy
    unfold slots groupsOn
    rw [hgroups]
    refine ⟨fun w => ?_, fun w => le_max_left ..⟩
    exact (congrFun hbusy w).trans (hb w)
  obtain ⟨now, op⟩ := c
  cases op with
  | submitWithTokens req tokens =>
    have hcrew := crew_submitWithTokens env now req tokens σ
    exact hreaches (Slots.reaches_of_eq (slots_of_crew hcrew))
  | runCycle =>
    refine hreaches ?_
    rw [step_runCycle]
    exact slots_runCycle env now hwf
  | reportCompletion result => exact hreaches (leaves_reportCompletion env now result σ).reaches
  | cancel r => exact hreaches (leaves_cancel now r σ).reaches
  | cancelGeneration r g =>
    exact hreaches (Slots.reaches_of_eq (slots_of_crew (crew_cancelGeneration r g σ)))
  | forceRetry r => exact hreaches (slots_forceRetry env now r σ)
  | registerWorker wd =>
    obtain ⟨hgroups, hbusy⟩ := slots_registerWorker now wd σ
    refine hidle hgroups (hbusy.trans ?_)
    split_ifs with hnil
    · rfl
    · refine Function.update_eq_self_iff.mpr ?_
      rw [← hc.resolve_left hnil]
      exact (hb wd.workerId).symm
  | unregisterWorker x =>
    obtain ⟨hgroups, hbusy⟩ := slots_unregisterWorker now x σ
    exact hidle hgroups hbusy
  | workerLost x => exact hreaches (.single (move_workerLost now x σ))
  | rollEpoch => exact hidle rfl rfl
  | attachExecutor ex backend =>
    obtain ⟨hgroups, hbusy⟩ := slots_attachExecutor ex backend σ
    exact hidle hgroups hbusy

/-! ### Snapshots -/

/-- A worker in a snapshot has no busy unit, and any other has what it had. -/
theorem busyIn_foldl_importWorker (recs : List PersistedWorkerRecord) (σ : Impl) (w : WorkerId) :
    busyIn (recs.foldl importWorker σ).workers w =
      if ∃ rec ∈ recs, rec.workerId = w then 0 else busyIn σ.workers w := by
  induction recs generalizing σ with
  | nil => simp
  | cons rec recs ih =>
    have hrec : busyIn (σ.importWorker rec).workers w =
        if w = rec.workerId then 0 else busyIn σ.workers w :=
      (congrFun (busyIn_insert _) w).trans (Function.update_apply ..)
    rw [List.foldl_cons, ih, hrec]
    by_cases hlisted : ∃ rec ∈ recs, rec.workerId = w
    · obtain ⟨rec', hmem, hw⟩ := id hlisted
      rw [if_pos hlisted, if_pos ⟨rec', List.mem_cons_of_mem _ hmem, hw⟩]
    · rw [if_neg hlisted]
      refine if_congr ⟨fun hw => ⟨rec, List.mem_cons_self, hw.symm⟩, ?_⟩ rfl rfl
      rintro ⟨rec', hmem, rfl⟩
      rcases List.mem_cons.mp hmem with rfl | hmem
      · rfl
      · exact absurd ⟨rec', hmem, rfl⟩ hlisted

/-- To overwrite workers takes nothing but the workers. -/
theorem workers_foldl_importWorker {τ : Impl} (recs : List PersistedWorkerRecord)
    (h : τ.workers = σ.workers) :
    (recs.foldl importWorker τ).workers = (recs.foldl importWorker σ).workers := by
  induction recs generalizing τ σ with
  | nil => exact h
  | cons rec recs ih =>
    refine ih ?_
    unfold importWorker
    rw [h]

theorem workers_importState (env : Env) (now : Nanoseconds) (st : PersistedState) (σ : Impl) :
    (σ.importState env now st).workers = (st.workers.foldl importWorker σ).workers := by
  have htenants : ∀ τ : Impl, (st.tenants.foldl importTenant τ).workers = τ.workers := fun τ =>
    List.foldlRecOn st.tenants importTenant (motive := fun υ : Impl => υ.workers = τ.workers) rfl
      fun _ h _ _ => h
  unfold importState record count
  dsimp only
  rw [htenants]
  refine workers_foldl_importWorker st.workers ?_
  exact List.foldlRecOn st.requests (importRequest env)
    (motive := fun τ : Impl => τ.workers = σ.workers) rfl fun _ h _ _ => h

/-- **A scheduler that has read a snapshot** has no groups. -/
theorem slots_importState (env : Env) (now : Nanoseconds) (st : PersistedState) (σ : Impl)
    (w : WorkerId) : (σ.importState env now st).groupsOn w = 0 ∧
      (σ.importState env now st).busyUnits w =
        if ∃ rec ∈ st.workers, rec.workerId = w then 0 else σ.busyUnits w := by
  refine ⟨congrArg (countOn · w) (groups_importState env now st σ), ?_⟩
  unfold busyUnits
  rw [workers_importState, busyIn_foldl_importWorker]

end Impl

/-! ### Lives -/

namespace Life

variable {ℓ : Life} {n m : ℕ} {w : WorkerId}

/-- The largest capacity a worker has had up to turn number `n`. -/
def maxCapacity (ℓ : Life) (n : ℕ) (w : WorkerId) : ℕ :=
  (Finset.range (n + 1)).sup fun m => (ℓ.stateAt m).capacityUnits w

theorem maxCapacity_mono (ℓ : Life) (w : WorkerId) (h : m ≤ n) :
    ℓ.maxCapacity m w ≤ ℓ.maxCapacity n w :=
  Finset.sup_mono (Finset.range_mono (Nat.succ_le_succ h))

theorem capacityUnits_le (ℓ : Life) (n : ℕ) (w : WorkerId) :
    (ℓ.stateAt n).capacityUnits w ≤ ℓ.maxCapacity n w :=
  Finset.le_sup (f := fun m => (ℓ.stateAt m).capacityUnits w) (Finset.self_mem_range_succ n)

/-- **The slots of a worker are in order** before turn number `n`: as many units are busy as
there are groups, these are no more than the largest capacity there has been, and wherever a
group can be dropped, by a sweep that has been through any requests or without one, there is a
unit to be given back. -/
structure SlotsAgree (ℓ : Life) (n : ℕ) (w : WorkerId) : Prop where
  busyUnits : (ℓ.stateAt n).busyUnits w = (ℓ.stateAt n).groupsOn w
  le_maxCapacity : (ℓ.stateAt n).groupsOn w ≤ ℓ.maxCapacity n w
  busyUnits_pos : ∀ now (rs : List RequestId) gid gs,
    (rs.foldl (Impl.sweepRequest now) (ℓ.stateAt n)).groups.lookup gid = some gs →
    gs.worker = w → 0 < (rs.foldl (Impl.sweepRequest now) (ℓ.stateAt n)).busyUnits w

theorem slotsAgree (hbalanced : (ℓ.stateAt n).slots.Balanced)
    (hle : ∀ w, (ℓ.stateAt n).groupsOn w ≤ ℓ.maxCapacity n w) (w : WorkerId) :
    ℓ.SlotsAgree n w where
  busyUnits := hbalanced w
  le_maxCapacity := hle w
  busyUnits_pos now rs gid gs hgs hw := by
    have hswept := (Impl.slots_foldl_sweepRequest now rs (ℓ.stateAt n)).balanced hbalanced w
    have hpos := countOn_pos hgs
    rw [hw] at hpos
    exact lt_of_lt_of_eq hpos hswept.symm

/-- A turn of the right kind leaves the slots in order. -/
theorem balanced_succ {t : Turn} (ht : ℓ.turns[n]? = some t)
    (hbalanced : (ℓ.stateAt n).slots.Balanced)
    (hle : ∀ w, (ℓ.stateAt n).groupsOn w ≤ ℓ.maxCapacity n w)
    (hkeeps : (ℓ.stateAt n).KeepsSlots t) :
    (ℓ.stateAt (n + 1)).slots.Balanced ∧
      ∀ w, (ℓ.stateAt (n + 1)).groupsOn w ≤ ℓ.maxCapacity (n + 1) w := by
  rw [stateAt_succ ht]
  cases t with
  | call c =>
    obtain ⟨hbalanced', hon⟩ := Impl.slots_step ℓ.env (ℓ.wf n) hbalanced hkeeps
    refine ⟨hbalanced', fun w => (hon w).trans ?_⟩
    exact (max_le (hle w) (ℓ.capacityUnits_le n w)).trans (ℓ.maxCapacity_mono w (Nat.le_succ n))
  | importState now st =>
    have hslots := Impl.slots_importState ℓ.env now st (ℓ.stateAt n)
    refine ⟨fun w => ?_, fun w => (hslots w).1 ▸ Nat.zero_le _⟩
    refine (hslots w).2.trans (Eq.trans ?_ (hslots w).1.symm)
    split_ifs with hlisted
    · rfl
    · exact not_not.mp fun hbusy => hlisted (hkeeps w hbusy)

/-- Any other turn puts the slots of some worker out of order. -/
theorem not_slotsAgree_succ {t : Turn} (ht : ℓ.turns[n]? = some t)
    (hkeeps : ¬(ℓ.stateAt n).KeepsSlots t) : ∃ w, ¬ℓ.SlotsAgree (n + 1) w := by
  cases t with
  | call c =>
    obtain ⟨now, op⟩ := c
    cases op with
    | registerWorker wd =>
      -- the groups are still there, and the units are gone
      obtain ⟨hnil, hon⟩ := not_or.mp hkeeps
      obtain ⟨hgroups, hbusy⟩ := Impl.slots_registerWorker now wd (ℓ.stateAt n)
      rw [if_neg hnil] at hbusy
      refine ⟨wd.workerId, fun hagree => hon ?_⟩
      have hunits := hagree.busyUnits
      rw [stateAt_succ ht] at hunits
      calc (ℓ.stateAt n).groupsOn wd.workerId
          = countOn ((ℓ.stateAt n).registerWorker now wd).1.groups wd.workerId := by
            rw [hgroups]
            rfl
        _ = busyIn ((ℓ.stateAt n).registerWorker now wd).1.workers wd.workerId := hunits.symm
        _ = 0 := by rw [hbusy, Function.update_self]
    | _ => exact absurd trivial hkeeps
  | importState now st =>
    -- here it is the groups that are gone
    simp only [Impl.KeepsSlots, not_forall] at hkeeps
    obtain ⟨w, hbusy, hlisted⟩ := hkeeps
    obtain ⟨hon, hunits⟩ := Impl.slots_importState ℓ.env now st (ℓ.stateAt n) w
    refine ⟨w, fun hagree => hbusy ?_⟩
    have heq := hagree.busyUnits
    rw [stateAt_succ ht] at heq
    exact ((if_neg hlisted).symm.trans hunits.symm).trans (heq.trans hon)

/-- **The busy units of every worker are its groups**, throughout a life, exactly if no worker
ever registers while it has groups, and no snapshot is ever read that does not list a worker
which is busy then. -/
theorem busyUnits_eq_iff (ℓ : Life) :
    (∀ n, n ≤ ℓ.turns.length → ∀ w, ℓ.SlotsAgree n w) ↔
      ∀ n t, ℓ.turns[n]? = some t → (ℓ.stateAt n).KeepsSlots t := by
  refine Machine.forall_iff_forall_allowed (Q := fun n => (ℓ.stateAt n).slots.Balanced ∧
      ∀ w, (ℓ.stateAt n).groupsOn w ≤ ℓ.maxCapacity n w)
    (fun n h => slotsAgree h.1 h.2) ⟨Impl.balanced_fresh ℓ.env, fun w => Nat.zero_le _⟩
    (fun n t ht h hkeeps => balanced_succ ht h.1 h.2 hkeeps) fun n t ht _ hkeeps hafter => ?_
  obtain ⟨w, hw⟩ := not_slotsAgree_succ ht hkeeps
  exact hw (hafter w)

/-- A worker of capacity one gets a group, registers again and gets another one; then its
first group is done. -/
def overcommittedTurns : List Turn :=
  [.call ⟨0, .registerWorker { workerId := ⟨7⟩, bootId := ⟨3⟩, backend := "gpu" }⟩,
    .call ⟨0, .submitWithTokens { Run.plainRequest 1 2 with backend := "gpu" } [5, 6]⟩,
    .call ⟨0, .runCycle⟩,
    .call ⟨0, .registerWorker { workerId := ⟨7⟩, bootId := ⟨4⟩, backend := "gpu" }⟩,
    .call ⟨0, .submitWithTokens { Run.plainRequest 2 2 with backend := "gpu" } [7, 8]⟩,
    .call ⟨0, .runCycle⟩,
    .call ⟨0, .reportCompletion
      { requestId := ⟨1⟩, attemptId := ⟨1⟩, generation := ⟨1⟩, outcome := .success, epoch := ⟨1⟩,
        worker := ⟨7⟩, boot := ⟨4⟩ }⟩]

/-- The worker has a group and no busy unit; then it has two groups, one busy unit and a
capacity of one; and then one group is left and no unit to be given back for it. -/
theorem slots_overcommittedTurns :
    let ℓ : Life := ⟨.standard, overcommittedTurns⟩
    ((ℓ.stateAt 4).groupsOn ⟨7⟩, (ℓ.stateAt 4).busyUnits ⟨7⟩) = (1, 0) ∧
      ((ℓ.stateAt 6).groupsOn ⟨7⟩, (ℓ.stateAt 6).busyUnits ⟨7⟩) = (2, 1) ∧
      (∀ m ≤ 6, (ℓ.stateAt m).capacityUnits ⟨7⟩ ≤ 1) ∧
      ((ℓ.stateAt 7).groupsOn ⟨7⟩, (ℓ.stateAt 7).busyUnits ⟨7⟩) = (1, 0) := by
  decide +kernel

end Life

end PrefillFabric
