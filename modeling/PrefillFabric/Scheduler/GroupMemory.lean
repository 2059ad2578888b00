import Mathlib.Algebra.Order.BigOperators.Group.List
import Mathlib.Algebra.Order.Ring.Nat
import PrefillFabric.Scheduler.Packing

/-!
# The memory of a group

Formed groups are tried one after the other against the governor and the workers, which they
share. This module follows one group through the cycle it is formed in.

Whatever was tried before it and whatever is tried after, a group is dispatched with all its
members or not at all; and one that fails to get the memory of some member leaves no trace of the
reservations it had made (`Life.dispatched_whole_or_not`).

How much memory there is, is another matter. The governor is built with the memory that is usable
once the headroom is taken off, and takes the headroom off again. A chunk is put off though it fits
what is usable, if it needs the last bytes of it, as many as the headroom has
(`Life.deferred_only_if_iff`).
-/

namespace PrefillFabric

namespace Impl

variable {env : Env} {now : Nanoseconds} {σ : Impl} {g : ExecutionGroup}
  {acc : Impl × DispatchBatch}

/-! ### One group among others -/

/-- The state and the batch of a cycle once some of the groups it forms have been tried. -/
def tried (env : Env) (now : Nanoseconds) (σ : Impl) (gs : List ExecutionGroup) :
    Impl × DispatchBatch :=
  gs.foldl (dispatchGroup now)
    ((formGroups env ((σ.expirySweep now).sortedCandidates env now) (σ.expirySweep now)).1, {})

theorem runCycle_eq_tried (env : Env) (now : Nanoseconds) (σ : Impl) :
    σ.runCycle env now = ((σ.tried env now (σ.formed env now)).1.ageWaiting.refreshStats,
      (σ.tried env now (σ.formed env now)).2) := rfl

theorem tried_append (gs gs' : List ExecutionGroup) :
    σ.tried env now (gs ++ gs') = gs'.foldl (dispatchGroup now) (σ.tried env now gs) :=
  List.foldl_append

/-- Requests that are not in a group are not touched when it is tried. -/
theorem req_dispatchGroup {gs : List ExecutionGroup} (hwf : acc.1.view.Wf)
    (hformed : acc.1.view.Formed (g :: gs)) {r : RequestId} (hr : r ∉ g.rids) :
    (dispatchGroup now acc g).1.view.req r = acc.1.view.req r := by
  rcases dispatchGroup_cases now hwf hformed with ⟨hidle, -⟩ | ⟨w, -, -, -, hmap, hlaunch⟩
  · rw [hidle.req]
  · refine hlaunch.others r fun m hm hmr => hr ?_
    rw [← hmap]
    exact List.mem_map.mpr ⟨m, hm, hmr⟩

/-- **Trying some of the formed groups** leaves the others formed, and their requests as they
were. -/
theorem foldl_dispatchGroup_spec (env : Env) (before rest : List ExecutionGroup)
    (hwf : acc.1.view.Wf) (hformed : acc.1.view.Formed (before ++ rest)) :
    (before.foldl (dispatchGroup now) acc).1.view.Wf ∧
      (before.foldl (dispatchGroup now) acc).1.view.Formed rest ∧
      ∀ r, (∀ g ∈ before, r ∉ g.rids) →
        (before.foldl (dispatchGroup now) acc).1.view.req r = acc.1.view.req r := by
  induction before generalizing acc with
  | nil => exact ⟨hwf, hformed, fun _ _ => rfl⟩
  | cons g before ih =>
    obtain ⟨ms, heffects, -, hrest⟩ := dispatchGroup_spec env now hwf hformed
    obtain ⟨hwf', hformed', hreq⟩ := ih (heffects.wf hwf) hrest
    refine ⟨hwf', hformed', fun r hr => ?_⟩
    rw [List.foldl_cons, hreq r fun x hx => hr x (List.mem_cons_of_mem g hx)]
    exact req_dispatchGroup hwf hformed (hr g List.mem_cons_self)

/-- What was dispatched stays in the batch. -/
theorem mem_groups_foldl {d : DispatchedGroup} (gs : List ExecutionGroup)
    (hd : d ∈ acc.2.groups) : d ∈ (gs.foldl (dispatchGroup now) acc).2.groups := by
  induction gs generalizing acc with
  | nil => exact hd
  | cons g gs ih =>
    refine ih ?_
    rcases dispatchGroup_around now acc g with ⟨-, heq⟩ | ⟨dg, _, _, -, -, -, -, heq⟩
    · rwa [heq]
    · rw [heq]
      exact List.mem_append_left _ hd

/-- A group of the batch holds what was formed, of all the members. -/
theorem groups_commitGroup (now : Nanoseconds) (w : WorkerId) (g : ExecutionGroup)
    (batch : DispatchBatch) (σ : Impl) :
    ∃ d, (σ.commitGroup now w g batch).2.groups = batch.groups ++ [d] ∧
      d.group.plain = g.plain ∧ d.groupId = g.groupId ∧ d.assignedWorker = w :=
  ⟨_, rfl, congrArg (fun ms => { g with members := ms }) (map_plain_commitMembers ..), rfl, rfl⟩

section Split

variable {before after : List ExecutionGroup}

/-- No request is in two of the groups that are formed. -/
theorem not_mem_rids_of_split {v : View} (hformed : v.Formed (before ++ g :: after)) {r : RequestId}
    (hr : r ∈ g.rids) : (∀ x ∈ before, r ∉ x.rids) ∧ ∀ x ∈ after, r ∉ x.rids := by
  have hnodup := hformed.nodup
  rw [List.flatMap_append, List.flatMap_cons] at hnodup
  obtain ⟨-, hrest, hbefore⟩ := List.nodup_append.mp hnodup
  obtain ⟨-, -, hafter⟩ := List.nodup_append.mp hrest
  refine ⟨fun x hx hrx => ?_, fun x hx hrx => ?_⟩
  · exact hbefore r (List.mem_flatMap.mpr ⟨x, hx, hrx⟩) r (List.mem_append_left _ hr) rfl
  · exact hafter r hr r (List.mem_flatMap.mpr ⟨x, hx, hrx⟩) rfl

section

variable (hwf : σ.view.Wf) (hsplit : σ.formed env now = before ++ g :: after)
include hwf hsplit

/-- **The moment a group is tried**: it is still formed, and its requests are as the sweep has left
them. -/
theorem tried_spec :
    (σ.tried env now before).1.view.Wf ∧
      (σ.tried env now before).1.view.Formed (g :: after) ∧
      ∀ r ∈ g.rids,
        (σ.tried env now before).1.view.req r = (σ.expirySweep now).view.req r := by
  have hsweep := (effects_expirySweep env now σ hwf).wf hwf
  obtain ⟨hidle, hformed⟩ := formGroups_spec env hsweep
    (nodup_sortedCandidates env now (σ.expirySweep now))
  have hidle' : Effect env _ .idle _ := Effect.idle hidle
  rw [show (formGroups env ((σ.expirySweep now).sortedCandidates env now)
    (σ.expirySweep now)).2 = before ++ g :: after from hsplit] at hformed
  have hspec : (σ.tried env now before).1.view.Wf ∧
      (σ.tried env now before).1.view.Formed (g :: after) ∧ _ :=
    foldl_dispatchGroup_spec env before (g :: after) (hidle'.wf hsweep) hformed
  obtain ⟨hwf', hformed', hreq⟩ := hspec
  refine ⟨hwf', hformed', fun r hr => ?_⟩
  exact (hreq r (not_mem_rids_of_split hformed hr).1).trans (congrFun hidle.req r)

/-- What a request of the group is like after the cycle, it is like once the group has been
tried. -/
theorem req_runCycle_of_split {r : RequestId} (hr : r ∈ g.rids) :
    (σ.runCycle env now).1.view.req r =
      (dispatchGroup now (σ.tried env now before) g).1.view.req r := by
  obtain ⟨hwf', hformed, -⟩ := tried_spec hwf hsplit
  obtain ⟨ms, heffects, -, hrest⟩ := dispatchGroup_spec env now hwf' hformed
  rw [runCycle_eq_tried, refreshStats, view_count, view_ageWaiting, hsplit, tried_append,
    List.foldl_cons]
  rw [← List.append_nil after] at hrest
  have hformed₀ : (σ.tried env now before).1.view.Formed ([] ++ g :: after) := hformed
  exact (foldl_dispatchGroup_spec env after [] (heffects.wf hwf') hrest).2.2 r
    (not_mem_rids_of_split hformed₀ hr).2

/-- The requests of the group wait when it is tried, as they did before the cycle. -/
theorem req_eq_of_split {r : RequestId} (hr : r ∈ g.rids) :
    ∃ s, σ.view.req r = some s ∧ (σ.tried env now before).1.view.req r = some s ∧
      s.isWaiting = true ∧ s.reservation = .nil := by
  obtain ⟨hwf', hformed, hreq⟩ := tried_spec hwf hsplit
  obtain ⟨s, hs, hwait⟩ := exists_isWaiting_of_formed hformed List.mem_cons_self r hr
  have hs' := view_req hs
  have hnil : s.core.reservation = .nil :=
    (hwf'.holds r s.core hs').reservation_eq (Rs.isWaiting_iff.mp hwait).2.1
  refine ⟨s.core, ?_, hs', hwait, hnil⟩
  rw [hreq r hr] at hs'
  exact ((effects_expirySweep env now σ hwf).req_of_isWaiting hs' hwait).1

/-- **Dispatched whole, or not at all**, in the cycle as a whole. -/
theorem dispatched_or_kept :
    (∃ d ∈ (σ.runCycle env now).2.groups, d.group.plain = g.plain ∧
      ∀ r ∈ g.rids, ∃ s, (σ.runCycle env now).1.requests.lookup r = some s ∧
        s.lifecycle = .dispatched ∧ s.inFlight = true ∧ s.currentGroup = d.groupId) ∨
    ((∀ d ∈ (σ.runCycle env now).2.groups, ∀ r ∈ g.rids, r ∉ d.group.rids) ∧
      ∀ r ∈ g.rids, ∃ s s', σ.requests.lookup r = some s ∧
        (σ.runCycle env now).1.requests.lookup r = some s' ∧ s'.core = s.core) := by
  obtain ⟨hwf', hformed, -⟩ := tried_spec hwf hsplit
  have hafter := fun r (hr : r ∈ g.rids) => req_runCycle_of_split hwf hsplit hr
  rcases dispatchGroup_cases now hwf' hformed with ⟨hidle, -⟩ | ⟨w, -, -, heq, hmap, hlaunch⟩
  · -- nothing is seen of the group, so that its requests are those from before the cycle
    have hkept : ∀ r ∈ g.rids, ∃ s s', σ.requests.lookup r = some s ∧
        (σ.runCycle env now).1.requests.lookup r = some s' ∧ s'.core = s.core ∧
        s'.inFlight = false := by
      intro r hr
      obtain ⟨t, ht, ht', hwait, -⟩ := req_eq_of_split hwf hsplit hr
      obtain ⟨s, hs, rfl⟩ := exists_of_view_req ht
      have hs' := hafter r hr
      rw [hidle.req, ht'] at hs'
      obtain ⟨s', hs', hcore⟩ := exists_of_view_req hs'
      refine ⟨s, s', hs, hs', hcore, ?_⟩
      have hflight : s'.core.inFlight = s.core.inFlight := congrArg Rs.inFlight hcore
      exact hflight.trans (Rs.isWaiting_iff.mp hwait).2.1
    refine Or.inr ⟨fun d hd r hr hrd => ?_, fun r hr => ?_⟩
    · -- what is handed out is in flight
      obtain ⟨m, hm, rfl⟩ := List.mem_map.mp hrd
      have hsweep := (effects_expirySweep env now σ hwf).wf hwf
      obtain ⟨t, ht, hflight, -⟩ := (effects_dispatchPhase env now hsweep).isDispatched
        (Or.inr ⟨m, List.mem_flatMap.mpr ⟨d, hd, hm⟩, rfl⟩)
      obtain ⟨s, hs, rfl⟩ := exists_of_view_req ht
      obtain ⟨-, s', -, hs', -, hnot⟩ := hkept _ hr
      obtain rfl := Option.some.inj (hs.symm.trans hs')
      exact Bool.noConfusion (hnot.symm.trans hflight)
    · obtain ⟨s, s', hs, hs', hcore, -⟩ := hkept r hr
      exact ⟨s, s', hs, hs', hcore⟩
  · obtain ⟨d, hgroups, hplain, hid, -⟩ := groups_commitGroup now w g (σ.tried env now before).2
      (reserveMembers g.rids (σ.tried env now before).1).1
    refine Or.inl ⟨d, ?_, hplain, fun r hr => ?_⟩
    · rw [runCycle_eq_tried, hsplit, tried_append, List.foldl_cons]
      refine mem_groups_foldl after ?_
      rw [heq, hgroups]
      exact List.mem_append_right _ (List.mem_singleton_self d)
    · rw [← hmap] at hr
      obtain ⟨m, hm, rfl⟩ := List.mem_map.mp hr
      obtain ⟨t, id, -, -, -, ht⟩ := hlaunch.exists_of_mem hm
      rw [← hafter m.requestId (hmap ▸ hr)] at ht
      obtain ⟨s, hs, hcore⟩ := exists_of_view_req ht
      have hfields : (s.core.lifecycle, s.core.inFlight, s.core.currentGroup) =
          (.dispatched, true, g.groupId) := by
        rw [hcore]
        rfl
      obtain ⟨hlife, hrest⟩ := Prod.mk.inj hfields
      obtain ⟨hflight, hgroup⟩ := Prod.mk.inj hrest
      exact ⟨s, hs, hlife, hflight, hgroup.trans hid.symm⟩

end

end Split

/-! ### Putting off for want of memory -/

/-- **A group is put off for want of memory**, and the cycle says so. -/
def DefersForMemory (now : Nanoseconds) (acc : Impl × DispatchBatch) (g : ExecutionGroup) : Prop :=
  (dispatchGroup now acc g).2.notes = acc.2.notes ++ ["memory reservation failed; group deferred"]

/-- It is if there is a worker for it, and the reservation of some member fails. -/
theorem defersForMemory_iff (hne : g.members ≠ []) :
    DefersForMemory now acc g ↔
      (chooseWorker g.backend acc.1).isSome = true ∧ (reserveMembers g.rids acc.1).2.2 = false := by
  rw [DefersForMemory, dispatchGroup, if_neg (by rwa [List.isEmpty_iff])]
  cases chooseWorker g.backend acc.1 with
  | none => simp
  | some w =>
    have hnotes : (commitGroup now w g acc.2 (reserveMembers g.rids acc.1).1).2.notes =
        acc.2.notes := rfl
    dsimp only
    split_ifs with hok
    · simp [hnotes, hok]
    · simp [hok]

/-- **The reservations of a group are undone**: the same bytes are reserved, the same reservations
are active, the requests of the group are what they were but for a line in their explanations, and
hold nothing; no worker has a unit less, and nothing is in the batch. -/
structure RolledBack (g : ExecutionGroup) (acc acc' : Impl × DispatchBatch) : Prop where
  reserved : acc'.1.mem.reserved = acc.1.mem.reserved
  active : ∀ id, acc'.1.mem.isActive id = acc.1.mem.isActive id
  member : ∀ r ∈ g.rids, ∃ s s', acc.1.requests.lookup r = some s ∧
    acc'.1.requests.lookup r = some s' ∧ s'.core = s.core ∧ s'.reservation = .nil
  workers : acc'.1.workers = acc.1.workers
  groups : acc'.2.groups = acc.2.groups

theorem rolledBack_of_defersForMemory {gs : List ExecutionGroup} (hwf : acc.1.view.Wf)
    (hformed : acc.1.view.Formed (g :: gs)) (h : DefersForMemory now acc g) :
    RolledBack g acc (dispatchGroup now acc g) := by
  have hfails := ((defersForMemory_iff (hformed.ne_nil g List.mem_cons_self)).mp h).2
  have hnot : ¬acc.1.Takes g := fun htakes =>
    Bool.noConfusion (hfails.symm.trans
      ((reserveMembers_ok_iff g.rids acc.1 (held_eq_none hwf)).mpr htakes.memory))
  obtain ⟨hgroups, hspared⟩ := spared_dispatchGroup hwf hformed hnot now acc.2
  rcases dispatchGroup_cases now hwf hformed with ⟨hidle, -⟩ | ⟨w, -, hok, -⟩
  · refine ⟨hspared.reserved, fun id => ?_, fun r hr => ?_, hspared.workers, hgroups⟩
    · have hheld := hidle.held id
      rw [MemoryGovernor.isActive_eq_isSome_held, MemoryGovernor.isActive_eq_isSome_held]
      exact congrArg Option.isSome hheld
    · obtain ⟨s, hs, hwait⟩ := exists_isWaiting_of_formed hformed List.mem_cons_self r hr
      have hreq := view_req hs
      have hnil : s.core.reservation = .nil :=
        (hwf.holds r s.core hreq).reservation_eq (Rs.isWaiting_iff.mp hwait).2.1
      rw [← hidle.req] at hreq
      obtain ⟨s', hs', hcore⟩ := exists_of_view_req hreq
      have hres : s'.core.reservation = s.core.reservation := congrArg Rs.reservation hcore
      exact ⟨s, s', hs, hs', hcore, hres.trans hnil⟩
  · exact Bool.noConfusion (hfails.symm.trans hok)

end Impl

/-- **A group is dispatched whole or not at all.** In every state a scheduler can be in, take any
of the groups that a cycle forms, with those that are tried before it and after it. If it is put
off for want of memory, the reservations it had made are undone without a trace. And in the end
either the group is in the batch with all its members, and all of its requests are in flight in it;
or none of its requests is in the batch, and all of them are what they were before the cycle, but
for their explanations and their age. -/
theorem Life.dispatched_whole_or_not (ℓ : Life) (n : ℕ) (now : Nanoseconds)
    {before after : List ExecutionGroup} {g : ExecutionGroup}
    (hsplit : (ℓ.stateAt n).formed ℓ.env now = before ++ g :: after) :
    (Impl.DefersForMemory now ((ℓ.stateAt n).tried ℓ.env now before) g →
      Impl.RolledBack g ((ℓ.stateAt n).tried ℓ.env now before)
        (Impl.dispatchGroup now ((ℓ.stateAt n).tried ℓ.env now before) g)) ∧
    ((∃ d ∈ ((ℓ.stateAt n).runCycle ℓ.env now).2.groups, d.group.plain = g.plain ∧
        ∀ r ∈ g.rids, ∃ s, ((ℓ.stateAt n).runCycle ℓ.env now).1.requests.lookup r = some s ∧
          s.lifecycle = .dispatched ∧ s.inFlight = true ∧ s.currentGroup = d.groupId) ∨
      ((∀ d ∈ ((ℓ.stateAt n).runCycle ℓ.env now).2.groups, ∀ r ∈ g.rids, r ∉ d.group.rids) ∧
        ∀ r ∈ g.rids, ∃ s s', (ℓ.stateAt n).requests.lookup r = some s ∧
          ((ℓ.stateAt n).runCycle ℓ.env now).1.requests.lookup r = some s' ∧
          s'.core = s.core)) := by
  obtain ⟨hwf, hformed, -⟩ := Impl.tried_spec (ℓ.wf n) hsplit
  exact ⟨Impl.rolledBack_of_defersForMemory hwf hformed,
    Impl.dispatched_or_kept (ℓ.wf n) hsplit⟩

/-- Sixteen requests that need the whole device. -/
def Life.crowd : Life where
  env := .standard
  turns := Run.crowdCalls.map .call

/-- They are packed into one group, fourteen of them are reserved for, and the group is put off as
a whole. -/
theorem Life.rolledBack_crowd :
    ∃ g, (crowd.stateAt 16).formed crowd.env 0 = [] ++ g :: [] ∧
      Impl.DefersForMemory 0 ((crowd.stateAt 16).tried crowd.env 0 []) g ∧
      Impl.RolledBack g ((crowd.stateAt 16).tried crowd.env 0 [])
        (Impl.dispatchGroup 0 ((crowd.stateAt 16).tried crowd.env 0 []) g) := by
  have hnotes : ((crowd.stateAt 16).formed crowd.env 0).map
      (fun g => (Impl.dispatchGroup 0 ((crowd.stateAt 16).tried crowd.env 0 []) g).2.notes) =
      [["memory reservation failed; group deferred"]] := by
    decide +kernel
  obtain ⟨g, hg⟩ := List.length_eq_one_iff.mp
    ((List.length_map ..).symm.trans (congrArg List.length hnotes))
  have hdefers : Impl.DefersForMemory 0 ((crowd.stateAt 16).tried crowd.env 0 []) g := by
    rw [hg] at hnotes
    exact (List.cons.inj hnotes).1
  exact ⟨g, hg, hdefers, (Life.dispatched_whole_or_not crowd 16 0 hg).1 hdefers⟩

/-! ### The budget -/

theorem MemoryGovernor.budget_releaseIf (m : MemoryGovernor) (id : ReservationId) :
    (m.releaseIf id).budget = m.budget := by
  rw [releaseIf]
  split_ifs
  · rfl
  · exact m.budget_release id

/-- What is seen of a call, other than of a cycle, leaves the budget alone. -/
theorem Effect.budget_eq {env : Env} {v v' : View} {l : Label} (h : Effect env v l v')
    (hl : ¬l.Dispatching) : v'.mem.budget = v.mem.budget := by
  cases h with
  | idle => exact absurd trivial hl
  | launch => exact absurd trivial hl
  | expire | finish | cancel | withdraw | retry => exact MemoryGovernor.budget_releaseIf ..
  | lose h =>
    obtain ⟨rs, -, -, hmem⟩ := h.mem
    rw [hmem]
    refine List.foldlRecOn rs _ (motive := fun m : MemoryGovernor => m.budget = v.mem.budget) rfl
      fun m hm r _ => ?_
    rw [MemoryGovernor.budget_releaseIf, hm]
  | enter | flag | boot | roll => rfl

namespace Impl

variable {env : Env} {now : Nanoseconds} {σ : Impl} {g : ExecutionGroup}
  {acc : Impl × DispatchBatch}

theorem budget_expirySweep (env : Env) (hwf : σ.view.Wf) :
    (σ.expirySweep now).mem.budget = σ.mem.budget := by
  refine (List.foldlRecOn σ.requests.keys (sweepRequest now)
    (motive := fun τ : Impl => τ.view.Wf ∧ τ.mem.budget = σ.mem.budget) ⟨hwf, rfl⟩
    fun τ h r _ => ?_).2
  by_cases hover : τ.Overdue now r
  · have heffect := effect_sweepRequest env now h.1 hover
    exact ⟨heffect.wf h.1, (heffect.budget_eq id).trans h.2⟩
  · rwa [sweepRequest_of_not_overdue hover]

theorem mem_commitMembers (gid : GroupId) (w : WorkerId) (ms : List ExecutableMember) (σ : Impl) :
    (commitMembers now gid w ms σ).1.mem = σ.mem := by
  induction ms generalizing σ with
  | nil => rfl
  | cons m ms ih =>
    rw [commitMembers]
    exact (ih _).trans rfl

/-- Trying a group leaves the budget alone. -/
theorem budget_dispatchGroup (acc : Impl × DispatchBatch) (g : ExecutionGroup) :
    (dispatchGroup now acc g).1.mem.budget = acc.1.mem.budget := by
  rw [dispatchGroup]
  split_ifs
  · rfl
  · cases chooseWorker g.backend acc.1 with
    | none => exact congrArg (·.mem.budget) (view_noteAll ..)
    | some w =>
      have hreserve := (reserved_reserveMembers g.rids acc.1).2
      dsimp only
      split_ifs
      · refine Eq.trans (congrArg MemoryGovernor.budget ?_) hreserve
        exact mem_commitMembers g.groupId w g.members _
      · refine (congrArg (·.mem.budget) (view_noteAll ..)).trans ?_
        refine List.foldlRecOn (reserveMembers g.rids acc.1).2.1 undoReservation
          (motive := fun τ : Impl => τ.mem.budget = acc.1.mem.budget) hreserve fun τ h p _ => ?_
        exact (τ.mem.budget_release p.1).trans h

theorem budget_tried (hwf : σ.view.Wf) (gs : List ExecutionGroup) :
    (σ.tried env now gs).1.mem.budget = σ.mem.budget := by
  obtain ⟨⟨n, hview⟩, -⟩ := formGroups_rec (P := fun _ => True) (fun _ _ _ _ _ => trivial)
    (fun _ _ _ _ _ _ _ => trivial) ((σ.expirySweep now).sortedCandidates env now)
    (rfl : (σ.expirySweep now).view = _)
  refine List.foldlRecOn gs (dispatchGroup now)
    (motive := fun acc : Impl × DispatchBatch => acc.1.mem.budget = σ.mem.budget) ?_
    fun acc h g _ => (budget_dispatchGroup acc g).trans h
  exact (congrArg (·.mem.budget) hview).trans (budget_expirySweep env hwf)

theorem memBudget_step (env : Env) (hwf : σ.view.Wf) (c : Call) :
    (σ.step env c).1.mem.budget = σ.mem.budget := by
  have heffects := effects_step env hwf c
  obtain ⟨now, op⟩ := c
  cases op with
  | runCycle =>
    rw [step_runCycle, runCycle_eq_tried, refreshStats]
    exact (congrArg (·.mem.budget) (view_ageWaiting _)).trans (budget_tried hwf _)
  | _ =>
    refine heffects.invariant (P := fun v => v.mem.budget = σ.mem.budget)
      (fun v l v' h hl hv => (h.budget_eq fun hd => ?_).trans hv) rfl
    cases l with
    | idle | launch => exact hl.elim
    | _ => exact hd.elim

end Impl

/-- **The headroom is taken off twice**: what can be reserved, in every state of every life, is
what is usable without the headroom. -/
theorem Life.budget_eq (ℓ : Life) (n : ℕ) :
    (ℓ.stateAt n).mem.budget = ℓ.env.usableMemoryBytes - ℓ.env.cfg.memoryHeadroomBytes.toNat := by
  refine (invariant_of_turn
    (P := fun σ => σ.mem.budget =
      ℓ.env.usableMemoryBytes - ℓ.env.cfg.memoryHeadroomBytes.toNat)
    (A := fun _ _ => True) rfl (fun σ c hwf h _ => (Impl.memBudget_step ℓ.env hwf c).trans h)
    (fun σ now st _ h _ => ?_) (fun _ _ _ => trivial) n).2
  rw [Impl.mem_importState]
  exact h

/-! ### Enough memory, and yet put off -/

namespace Impl

variable {env : Env} {now : Nanoseconds} {σ : Impl} {g : ExecutionGroup}
  {before after : List ExecutionGroup}

/-- What a group asks the governor for is what its members are estimated at. -/
theorem bytesOf_tried (hwf : σ.view.Wf) (hsplit : σ.formed env now = before ++ g :: after) :
    (σ.tried env now before).1.bytesOf g.rids =
      (g.members.map (·.memoryEstimateBytes.toNat)).sum := by
  have hg : g ∈ σ.formed env now := by
    rw [hsplit]
    exact List.mem_append_right _ List.mem_cons_self
  rw [bytesOf, ExecutionGroup.rids, List.map_map]
  refine congrArg List.sum (List.map_congr_left fun m hm => ?_)
  obtain ⟨s, hs, -, heq⟩ := (formed_spec hg).2 m hm
  have hreq := (tried_spec hwf hsplit).2.2 m.requestId (List.mem_map_of_mem hm)
  rw [Function.comp_apply, nextChunkOf_eq, hreq, hs, Option.getD_some]
  exact (congrArg (fun m : ExecutableMember => m.memoryEstimateBytes.toNat) heq).symm

/-- **When a group is put off for want of memory**: there is a worker for it, and its members need
some memory, and together more than is left of the budget. -/
theorem defersForMemory_iff_of_split (hwf : σ.view.Wf)
    (hsplit : σ.formed env now = before ++ g :: after) :
    DefersForMemory now (σ.tried env now before) g ↔
      (∃ w ws, (σ.tried env now before).1.workers.lookup w = some ws ∧
        eligible g.backend ws = true) ∧
      ¬(σ.tried env now before).1.mem.Affords
        (g.members.map (·.memoryEstimateBytes.toNat)).sum := by
  obtain ⟨hwf', hformed, -⟩ := tried_spec hwf hsplit
  have hworker : (chooseWorker g.backend (σ.tried env now before).1).isSome = true ↔
      ∃ w ws, (σ.tried env now before).1.workers.lookup w = some ws ∧
        eligible g.backend ws = true := by
    rw [Option.isSome_iff_exists]
    constructor
    · rintro ⟨w, hw⟩
      exact ⟨w, exists_of_chooseWorker hw⟩
    · rintro ⟨w, ws, hws, helig⟩
      exact exists_chooseWorker hws helig
  rw [defersForMemory_iff (hformed.ne_nil g List.mem_cons_self), hworker, Bool.eq_false_iff, Ne,
    reserveMembers_ok_iff g.rids _ (held_eq_none hwf'), bytesOf_tried hwf hsplit]

end Impl

/-- **When a chunk is put off only for want of usable memory.** In every state a scheduler can be
in, take a group of one member that a cycle forms, and the state it is tried in. If it is put off
for want of memory, the bytes reserved and those of the chunk are more than what is usable: this is
so exactly if no worker could take the group, or the chunk needs no memory, or the bytes together
fit what is usable even without the headroom, or they exceed what is usable. -/
theorem Life.deferred_only_if_iff (ℓ : Life) (n : ℕ) (now : Nanoseconds)
    {before after : List ExecutionGroup} {g : ExecutionGroup} {m : ExecutableMember}
    (hsplit : (ℓ.stateAt n).formed ℓ.env now = before ++ g :: after) (hone : g.members = [m]) :
    (Impl.DefersForMemory now ((ℓ.stateAt n).tried ℓ.env now before) g →
      ℓ.env.usableMemoryBytes < ((ℓ.stateAt n).tried ℓ.env now before).1.mem.reserved +
        m.memoryEstimateBytes.toNat) ↔
    ((∃ w ws, ((ℓ.stateAt n).tried ℓ.env now before).1.workers.lookup w = some ws ∧
        Impl.eligible g.backend ws = true) →
      m.memoryEstimateBytes.toNat = 0 ∨
      ((ℓ.stateAt n).tried ℓ.env now before).1.mem.reserved + m.memoryEstimateBytes.toNat ≤
        ℓ.env.usableMemoryBytes - ℓ.env.cfg.memoryHeadroomBytes.toNat ∨
      ℓ.env.usableMemoryBytes <
        ((ℓ.stateAt n).tried ℓ.env now before).1.mem.reserved + m.memoryEstimateBytes.toNat) := by
  have hsum : (g.members.map (·.memoryEstimateBytes.toNat)).sum = m.memoryEstimateBytes.toNat := by
    rw [hone]
    exact Nat.add_zero _
  rw [Impl.defersForMemory_iff_of_split (ℓ.wf n) hsplit, hsum, MemoryGovernor.Affords,
    Impl.budget_tried (ℓ.wf n), ℓ.budget_eq n, and_imp]
  refine imp_congr_right fun _ => ?_
  omega

/-- The default policy on a device of 768 MiB, of which 512 MiB are usable, and one request of a
single token that needs as much. -/
def Life.snug : Life where
  env := { Env.standard with cfg := { deviceMemoryBytes := 805306368 } }
  turns := [.call ⟨0, .submitWithTokens
    { Run.plainRequest 1 1 with memoryEstimateBytes := 536870912 } [5]⟩]

/-- A request of a few bytes on the same device. -/
def Life.loose : Life where
  env := snug.env
  turns := [.call ⟨0, .submitWithTokens
    { Run.plainRequest 1 1 with memoryEstimateBytes := 100 } [5]⟩]

theorem Life.deferred_only_if_loose :
    ∃ g m, (loose.stateAt 1).formed loose.env 0 = [] ++ g :: [] ∧ g.members = [m] ∧
      (Impl.DefersForMemory 0 ((loose.stateAt 1).tried loose.env 0 []) g →
        loose.env.usableMemoryBytes < ((loose.stateAt 1).tried loose.env 0 []).1.mem.reserved +
          m.memoryEstimateBytes.toNat) := by
  have hformed : ((loose.stateAt 1).formed loose.env 0).map
      (fun g => g.members.map (·.memoryEstimateBytes.toNat)) = [[100]] := by
    decide +kernel
  have hroom : ((loose.stateAt 1).tried loose.env 0 []).1.mem.reserved + 100 ≤
      loose.env.usableMemoryBytes - loose.env.cfg.memoryHeadroomBytes.toNat := by
    decide +kernel
  obtain ⟨g, hg⟩ := List.length_eq_one_iff.mp
    ((List.length_map ..).symm.trans (congrArg List.length hformed))
  rw [hg] at hformed
  obtain ⟨m, hm, hbytes⟩ := List.map_eq_singleton_iff.mp (List.cons.inj hformed).1
  refine ⟨g, m, hg, hm, (Life.deferred_only_if_iff loose 1 0 hg hm).mpr fun _ => ?_⟩
  rw [hbytes]
  exact Or.inr (Or.inl hroom)

/-- Nothing is reserved and the request fits what is usable, to the byte; but it is put off for
want of memory, and will be in every cycle. -/
theorem Life.deferred_snug :
    ∃ g m, (snug.stateAt 1).formed snug.env 0 = [] ++ g :: [] ∧ g.members = [m] ∧
      Impl.DefersForMemory 0 ((snug.stateAt 1).tried snug.env 0 []) g ∧
      ((snug.stateAt 1).tried snug.env 0 []).1.mem.reserved + m.memoryEstimateBytes.toNat =
        snug.env.usableMemoryBytes := by
  have hformed : ((snug.stateAt 1).formed snug.env 0).map
      (fun g => (g.members.map (·.memoryEstimateBytes.toNat),
        (Impl.dispatchGroup 0 ((snug.stateAt 1).tried snug.env 0 []) g).2.notes)) =
      [([536870912], ["memory reservation failed; group deferred"])] := by
    decide +kernel
  have husable : ((snug.stateAt 1).tried snug.env 0 []).1.mem.reserved + 536870912 =
      snug.env.usableMemoryBytes := by
    decide +kernel
  obtain ⟨g, hg⟩ := List.length_eq_one_iff.mp
    ((List.length_map ..).symm.trans (congrArg List.length hformed))
  rw [hg] at hformed
  obtain ⟨hmembers, hnotes⟩ := Prod.mk.inj (List.cons.inj hformed).1
  obtain ⟨m, hm, hbytes⟩ := List.map_eq_singleton_iff.mp hmembers
  exact ⟨g, m, hg, hm, hnotes, hbytes ▸ husable⟩

end PrefillFabric
