import PrefillFabric.Scheduler.Machine

/-!
# The view of a scheduler

Most of what an operation writes – explanations, ages, counters, accounts, events –
decides nothing about which request is where. `Impl.view` is the rest: the record
of each request without its explanation and its age, the worker and the outstanding
members of each group, the memory governor, the boot number of each worker, the
epoch and the counters identities are drawn from, with tables read as functions.

The blocks the operations are built from act on the view as functions of their own
(`View.setReq`, `View.release`, `View.detach`), or not at all; the lemmas that say so
are the simp set with which the operations are then computed.
-/

namespace PrefillFabric

/-- The record of a request without its explanation and its age. -/
def Rs.core (s : Rs) : Rs := { s with trace := [], agingCycles := 0 }

/-- What decides about requests in a scheduler's state. -/
@[ext] structure View where
  /-- The record of each request. -/
  req : RequestId → Option Rs
  /-- The worker and the outstanding members of each group. -/
  grp : GroupId → Option (WorkerId × List RequestId)
  /-- The memory governor. -/
  mem : MemoryGovernor
  /-- The boot number of each worker. -/
  boot : WorkerId → Option WorkerBootId
  epoch : Epoch
  nextGeneration : ℕ
  nextAttempt : ℕ
  nextGroup : ℕ
  nextReservation : ℕ

/-- The view of a state. -/
def Impl.view (σ : Impl) : View where
  req r := (σ.requests.lookup r).map Rs.core
  grp g := (σ.groups.lookup g).map fun gs => (gs.worker, gs.outstanding)
  mem := σ.mem
  boot w := (σ.workers.lookup w).map (·.desc.bootId)
  epoch := σ.epoch
  nextGeneration := σ.nextGenerationValue
  nextAttempt := σ.nextAttemptValue
  nextGroup := σ.nextGroupValue
  nextReservation := σ.nextReservationValue

/-- Release a reservation unless it is nil. -/
def MemoryGovernor.releaseIf (g : MemoryGovernor) (id : ReservationId) : MemoryGovernor :=
  if id.isNil then g else g.release id

namespace View

/-- Write a request's record. -/
def setReq (v : View) (r : RequestId) (s : Rs) : View :=
  { v with req := Function.update v.req r (some s) }

/-- Drop a group. -/
def dropGrp (v : View) (g : GroupId) : View := { v with grp := Function.update v.grp g none }

/-- Release a reservation unless it is nil. -/
def release (v : View) (id : ReservationId) : View := { v with mem := v.mem.releaseIf id }

/-- What becomes of a group when a request leaves it: the last one closes it. -/
def leaveGroup (r : RequestId) (p : WorkerId × List RequestId) :
    Option (WorkerId × List RequestId) :=
  if (eraseOutstanding r p.2).isEmpty then none else some (p.1, eraseOutstanding r p.2)

/-- Take a request out of a group. -/
def detach (v : View) (g : GroupId) (r : RequestId) : View :=
  { v with grp := Function.update v.grp g ((v.grp g).bind (leaveGroup r)) }

/-- Take a request out of a group if a condition holds. -/
def detachIf (v : View) (b : Bool) (g : GroupId) (r : RequestId) : View :=
  { v with grp := if b then (v.detach g r).grp else v.grp }

/-- Drop a group if a condition holds. -/
def dropGrpIf (v : View) (b : Bool) (g : GroupId) : View :=
  { v with grp := if b then (v.dropGrp g).grp else v.grp }

/-- The second of two writes under one request is the one that counts. -/
theorem setReq_setReq (v : View) (r : RequestId) (s t : Rs) :
    (v.setReq r s).setReq r t = v.setReq r t := by
  refine View.ext ?_ rfl rfl rfl rfl rfl rfl rfl rfl
  exact Function.update_idem (β := fun _ => Option Rs) (some s) (some t) v.req

end View

/-! ### The core of a record -/

namespace Rs

variable (s : Rs)

@[simp] theorem core_core : s.core.core = s.core := rfl

@[simp] theorem core_note (line : String) : (s.note line).core = s.core := rfl

@[simp] theorem core_dropReservation : s.dropReservation.core = s.core.dropReservation := by
  unfold dropReservation
  by_cases h : s.reservation.isNil
  · rw [if_pos h, if_pos (show s.core.reservation.isNil = true from h)]
  · rw [if_neg h, if_neg (show ¬s.core.reservation.isNil = true from h)]
    rfl

end Rs

/-! ### The blocks, seen in the view -/

namespace Impl

variable (σ : Impl)

@[simp] theorem view_count (f : Stats → Stats) : (σ.count f).view = σ.view := rfl

@[simp] theorem view_charge (t : TenantId) (f : TenantService → TenantService) :
    (σ.charge t f).view = σ.view := rfl

@[simp] theorem view_record (now : Nanoseconds) (type : String) (r : RequestId) (a : AttemptId)
    (detail : String) : (σ.record now type r a detail).view = σ.view := rfl

@[simp] theorem view_setRequest (r : RequestId) (s : Rs) :
    (σ.setRequest r s).view = σ.view.setReq r s.core := by
  refine View.ext (funext fun x => ?_) rfl rfl rfl rfl rfl rfl rfl rfl
  change ((σ.requests.insert r s).lookup x).map Rs.core =
    Function.update (fun y => (σ.requests.lookup y).map Rs.core) r (some s.core) x
  rw [AList.lookup_insert_eq_ite, Function.update_apply]
  split_ifs <;> rfl

/-- A change to a record that its core does not show is not seen. -/
theorem view_modify_request (r : RequestId) {f : Rs → Rs} (hf : ∀ s, (f s).core = s.core) :
    ({ σ with requests := AList.modify r f σ.requests } : Impl).view = σ.view :=
  View.ext (funext fun x => AList.map_lookup_modify σ.requests r x hf) rfl rfl rfl rfl rfl rfl rfl
    rfl

@[simp] theorem view_noteRequest (r : RequestId) (line : String) :
    (σ.noteRequest r line).view = σ.view :=
  σ.view_modify_request r fun s => s.core_note line

@[simp] theorem view_releaseReservation (s : Rs) :
    (σ.releaseReservation s).view = σ.view.release s.reservation := by
  unfold releaseReservation View.release MemoryGovernor.releaseIf
  by_cases h : s.reservation.isNil
  · rw [if_pos h, if_pos h]
  · rw [if_neg h, if_neg h]
    rfl

/-- A change to a worker that keeps its boot number is not seen. -/
theorem view_modify_worker (w : WorkerId) {f : Ws → Ws}
    (hf : ∀ ws, (f ws).desc.bootId = ws.desc.bootId) :
    ({ σ with workers := AList.modify w f σ.workers } : Impl).view = σ.view :=
  View.ext rfl rfl rfl (funext fun x => AList.map_lookup_modify σ.workers w x hf) rfl rfl rfl rfl
    rfl

@[simp] theorem view_freeWorker (w : WorkerId) : (σ.freeWorker w).view = σ.view :=
  σ.view_modify_worker w fun _ => rfl

theorem view_erase_group (gid : GroupId) :
    ({ σ with groups := σ.groups.erase gid } : Impl).view = σ.view.dropGrp gid := by
  refine View.ext rfl (funext fun x => ?_) rfl rfl rfl rfl rfl rfl rfl
  change ((σ.groups.erase gid).lookup x).map _ = Function.update σ.view.grp gid none x
  rw [AList.lookup_erase_eq_ite, Function.update_apply]
  split_ifs <;> rfl

theorem view_insert_group (gid : GroupId) (gs : Gs) :
    ({ σ with groups := σ.groups.insert gid gs } : Impl).view =
      { σ.view with grp := Function.update σ.view.grp gid (some (gs.worker, gs.outstanding)) } := by
  refine View.ext rfl (funext fun x => ?_) rfl rfl rfl rfl rfl rfl rfl
  change ((σ.groups.insert gid gs).lookup x).map _ = Function.update σ.view.grp gid _ x
  rw [AList.lookup_insert_eq_ite, Function.update_apply]
  split_ifs <;> rfl

@[simp] theorem view_eraseGroup (gid : GroupId) (gs : Gs) :
    (σ.eraseGroup gid gs).view = σ.view.dropGrp gid := by
  have h := (σ.freeWorker gs.worker).view_erase_group gid
  rw [view_freeWorker] at h
  exact h

@[simp] theorem view_detachMember (gid : GroupId) (r : RequestId) :
    (σ.detachMember gid r).view = σ.view.detach gid r := by
  unfold detachMember View.detach
  have hgrp : σ.view.grp gid = (σ.groups.lookup gid).map fun gs => (gs.worker, gs.outstanding) :=
    rfl
  cases hg : σ.groups.lookup gid with
  | none =>
    rw [hg, Option.map_none] at hgrp
    rw [hgrp, Option.bind_none, ← hgrp, Function.update_eq_self]
  | some gs =>
    rw [hg, Option.map_some] at hgrp
    rw [hgrp, Option.bind_some, View.leaveGroup]
    simp only
    split_ifs
    · exact σ.view_eraseGroup gid gs
    · exact σ.view_insert_group gid { gs with outstanding := eraseOutstanding r gs.outstanding }

end Impl

end PrefillFabric
