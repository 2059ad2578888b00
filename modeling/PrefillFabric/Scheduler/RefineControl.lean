import PrefillFabric.Scheduler.Refine

/-!
# The effects of cancellation, retry and worker loss

The remaining operations outside the scheduling cycle. Only the loss of a worker
takes work: the operation goes through the groups of the worker and, inside each,
through its outstanding members, and what it does must be read off at the end. That
is done on views: one member is `View.recover`, one group `View.loseGrp`, and the
two folds are computed by induction (`View.foldl_recover`, `View.foldl_loseGrp`).
-/

namespace PrefillFabric

namespace Impl

variable (env : Env) (now : Nanoseconds) (σ : Impl) (r : RequestId)

/-! ### Cancellation -/

/-- A cancellation is not seen, is left pending, or takes a waiting request out. -/
theorem effect_cancel : (σ.cancel now r).1.view = σ.view ∨
    Effect env σ.view (.flag r) (σ.cancel now r).1.view ∨
    Effect env σ.view (.cancel r) (σ.cancel now r).1.view := by
  unfold cancel
  cases hs : σ.requests.lookup r with
  | none => exact Or.inl rfl
  | some s =>
    have hreq : σ.view.req r = some s.core := congrArg (Option.map Rs.core) hs
    dsimp only
    by_cases hterm : s.lifecycle.isTerminal = true
    · rw [if_pos hterm]
      exact Or.inl rfl
    rw [if_neg hterm]
    have hlive : s.core.lifecycle.isTerminal = false := Bool.eq_false_iff.mpr hterm
    by_cases hflight : s.inFlight = true
    · rw [if_pos hflight]
      refine Or.inr (Or.inl ?_)
      rw [view_record, view_setRequest, Rs.core_note]
      exact Effect.flag hreq hflight hlive
    · rw [if_neg hflight]
      refine Or.inr (Or.inr ?_)
      rw [view_record, view_setRequest, Rs.core_cancelled, view_ite_detachMember, view_charge,
        view_count, view_releaseReservation]
      exact Effect.cancel hreq (Bool.eq_false_iff.mpr hflight) hlive

/-- A cancellation of one generation is not seen or is left pending. -/
theorem effect_cancelGeneration (g : Generation) : (σ.cancelGeneration r g).1.view = σ.view ∨
    Effect env σ.view (.flag r) (σ.cancelGeneration r g).1.view := by
  unfold cancelGeneration
  cases hs : σ.requests.lookup r with
  | none => exact Or.inl rfl
  | some s =>
    have hreq : σ.view.req r = some s.core := congrArg (Option.map Rs.core) hs
    dsimp only
    by_cases hterm : s.lifecycle.isTerminal = true
    · rw [if_pos hterm]
      exact Or.inl rfl
    rw [if_neg hterm]
    by_cases hflight : s.inFlight = true ∧ s.currentGeneration = g
    · rw [if_pos hflight]
      refine Or.inr ?_
      rw [view_setRequest, Rs.core_note]
      exact Effect.flag hreq hflight.1 (Bool.eq_false_iff.mpr hterm)
    · rw [if_neg hflight]
      exact Or.inl rfl

/-! ### Retry -/

theorem view_withdraw (s : Rs) : (σ.withdraw r s).view =
    ((σ.view.release s.reservation).dropGrpIf (!s.currentGroup.isNil) s.currentGroup).setReq r
      s.core.withdrawn := by
  unfold withdraw
  dsimp only
  rw [view_setRequest, Rs.core_withdrawn]
  refine congrArg (View.setReq · r s.core.withdrawn) ?_
  have hgroups : (σ.releaseReservation s).groups = σ.groups := by
    unfold releaseReservation
    split <;> rfl
  rw [hgroups, ← view_releaseReservation]
  have hgrp : (σ.releaseReservation s).view.grp s.currentGroup =
      (σ.groups.lookup s.currentGroup).map fun gs => (gs.worker, gs.outstanding) :=
    hgroups ▸ rfl
  cases hg : σ.groups.lookup s.currentGroup with
  | none =>
    rw [hg, Option.map_none] at hgrp
    refine View.ext rfl ?_ rfl rfl rfl rfl rfl rfl rfl
    cases s.currentGroup.isNil with
    | true => rfl
    | false =>
      change _ = Function.update (σ.releaseReservation s).view.grp s.currentGroup none
      rw [← hgrp, Function.update_eq_self]
  | some gs =>
    cases s.currentGroup.isNil with
    | true => rfl
    | false => exact view_eraseGroup _ s.currentGroup gs

theorem view_retryWithinBudget {s : Rs} (hbudget : ¬s.request.maxRetries ≤ s.retriesUsed) :
    (retryWithinBudget env now r s σ).1.view =
      { σ.view.setReq r (s.core.beginAttempt env ⟨σ.nextAttemptValue⟩) with
        nextAttempt := σ.nextAttemptValue + 1 } := by
  rw [retryWithinBudget, if_neg hbudget]
  dsimp only
  rw [view_record, view_setRequest]
  rfl

/-- A forced retry starts a new attempt if the budget allows; if it does not, a
request in flight is withdrawn all the same, and only one that was not in flight is
left as it was. -/
theorem effect_forceRetry :
    ((σ.forceRetry env now r).1.view = σ.view ∧ ∀ s, σ.view.req r = some s →
      s.lifecycle.isTerminal = false →
        s.inFlight = false ∧ s.request.maxRetries ≤ s.retriesUsed) ∨
    Effect env σ.view (.withdraw r) (σ.forceRetry env now r).1.view ∨
    Effect env σ.view (.retry r) (σ.forceRetry env now r).1.view := by
  unfold forceRetry
  cases hs : σ.requests.lookup r with
  | none =>
    have hnone : σ.view.req r = none := congrArg (Option.map Rs.core) hs
    refine Or.inl ⟨rfl, fun s hreq => ?_⟩
    rw [hnone] at hreq
    exact absurd hreq.symm (Option.some_ne_none s)
  | some s =>
    have hreq : σ.view.req r = some s.core := congrArg (Option.map Rs.core) hs
    dsimp only
    by_cases hterm : s.lifecycle.isTerminal = true
    · rw [if_pos hterm]
      refine Or.inl ⟨rfl, fun t ht hlive => ?_⟩
      obtain rfl := Option.some.inj (hreq.symm.trans ht)
      exact absurd hterm (Bool.eq_false_iff.mp hlive)
    rw [if_neg hterm]
    have hlive : s.core.lifecycle.isTerminal = false := Bool.eq_false_iff.mpr hterm
    have hrequest : s.withdrawn.request = s.request := s.dropReservation_request
    have hused : s.withdrawn.retriesUsed = s.retriesUsed := by
      rw [Rs.withdrawn, Rs.dropReservation_eq]
    by_cases hbudget : s.request.maxRetries ≤ s.retriesUsed
    · cases hflight : s.inFlight with
      | true =>
        rw [if_pos rfl, retryWithinBudget, hrequest, hused, if_pos hbudget, view_withdraw]
        exact Or.inr (Or.inl (Effect.withdraw hreq hflight hlive hbudget))
      | false =>
        rw [if_neg Bool.false_ne_true, retryWithinBudget, if_pos hbudget]
        refine Or.inl ⟨rfl, fun t ht _ => ?_⟩
        obtain rfl := Option.some.inj (hreq.symm.trans ht)
        exact ⟨hflight, hbudget⟩
    · have heffect : Effect env _ _ _ := Effect.retry hreq hlive (not_le.mp hbudget)
      rw [Rs.retried, show s.core.inFlight = s.inFlight from rfl] at heffect
      refine Or.inr (Or.inr ?_)
      cases hflight : s.inFlight with
      | true =>
        rw [hflight] at heffect
        have hattempt : (σ.withdraw r s).nextAttemptValue = σ.nextAttemptValue :=
          congrArg View.nextAttempt (σ.view_withdraw r s)
        rw [if_pos rfl, view_retryWithinBudget _ _ _ _ (by rw [hrequest, hused]; exact hbudget),
          view_withdraw, hattempt, Rs.core_withdrawn, View.setReq_setReq]
        exact heffect
      | false =>
        rw [hflight] at heffect
        rw [if_neg Bool.false_ne_true, view_retryWithinBudget _ _ _ _ hbudget]
        exact heffect

/-! ### Registration, retirement, the epoch -/

theorem view_insert_worker (w : WorkerId) (ws : Ws) :
    ({ σ with workers := σ.workers.insert w ws } : Impl).view =
      { σ.view with boot := Function.update σ.view.boot w (some ws.desc.bootId) } := by
  refine View.ext rfl rfl rfl (funext fun x => ?_) rfl rfl rfl rfl rfl
  change ((σ.workers.insert w ws).lookup x).map _ = Function.update σ.view.boot w _ x
  rw [AList.lookup_insert_eq_ite, Function.update_apply]
  split_ifs <;> rfl

/-- Writing a worker that keeps its boot number is not seen. -/
theorem view_insert_worker_of_boot {w : WorkerId} {ws ws' : Ws} (hw : σ.workers.lookup w = some ws)
    (hboot : ws'.desc.bootId = ws.desc.bootId) :
    ({ σ with workers := σ.workers.insert w ws' } : Impl).view = σ.view := by
  have hold : σ.view.boot w = some ws.desc.bootId :=
    congrArg (Option.map fun ws : Ws => ws.desc.bootId) hw
  rw [view_insert_worker, hboot, ← hold, Function.update_eq_self]

/-- A registration changes a boot number; without an identity, nothing. -/
theorem effect_registerWorker (w : WorkerDescriptor) :
    (w.workerId = .nil ∧ (σ.registerWorker now w).1.view = σ.view) ∨
    (w.workerId ≠ .nil ∧ Effect env σ.view (.boot w.workerId (σ.registeredBoot w))
      (σ.registerWorker now w).1.view) := by
  unfold registerWorker
  by_cases hnil : w.workerId.isNil = true
  · rw [if_pos hnil]
    exact Or.inl ⟨StrongId.isNil_eq_true.mp hnil, rfl⟩
  · rw [if_neg hnil]
    refine Or.inr ⟨fun hc => hnil (StrongId.isNil_eq_true.mpr hc), ?_⟩
    dsimp only
    rw [view_record, view_insert_worker { σ with
      nextBootValue := if w.bootId.isNil then σ.nextBootValue + 1 else σ.nextBootValue }]
    exact Effect.boot w.workerId (σ.registeredBoot w)

theorem view_unregisterWorker (w : WorkerId) : (σ.unregisterWorker now w).1.view = σ.view := by
  unfold unregisterWorker
  cases hw : σ.workers.lookup w with
  | none => rfl
  | some ws =>
    dsimp only
    rw [view_record]
    exact σ.view_insert_worker_of_boot hw rfl

theorem effect_attachExecutor (ex : Option Executor) (backend : String) :
    (σ.attachExecutor ex backend).view = σ.view ∨
    (σ.view.boot .nil = none ∧
      ∃ b, Effect env σ.view (.boot .nil b) (σ.attachExecutor ex backend).view) := by
  unfold attachExecutor
  cases hw : σ.workers.lookup .nil with
  | none =>
    refine Or.inr ⟨congrArg (Option.map fun ws : Ws => ws.desc.bootId) hw, ⟨σ.nextBootValue⟩, ?_⟩
    dsimp only
    rw [view_insert_worker { σ with nextBootValue := σ.nextBootValue + 1 }]
    exact Effect.boot .nil ⟨σ.nextBootValue⟩
  | some ws => exact Or.inl (σ.view_insert_worker_of_boot hw rfl)

theorem effect_rollEpoch : Effect env σ.view .roll (σ.rollEpoch now).view := Effect.roll

end Impl

/-! ### Worker loss -/

namespace View

/-- A request that is recovered when its turn comes. -/
def Recoverable (v : View) (r : RequestId) : Prop :=
  ∃ s, v.req r = some s ∧ s.inFlight = true ∧ s.lifecycle = .dispatched

/-- Recover one request. -/
def recover (v : View) (r : RequestId) : View :=
  match v.req r with
  | none => v
  | some s =>
    if s.inFlight ∧ s.lifecycle = .dispatched then
      (v.release s.reservation).setReq r s.recovered
    else v

/-- Recover the members of a group if it is on the lost worker, and drop it. -/
def loseGrp (w : WorkerId) (v : View) (g : GroupId) : View :=
  match v.grp g with
  | none => v
  | some (w', out) => if w' = w then (out.foldl recover v).dropGrp g else v

/-- The outstanding members of a group, if it is on the lost worker. -/
def lostMembers (v : View) (w : WorkerId) (g : GroupId) : List RequestId :=
  match v.grp g with
  | none => []
  | some (w', out) => if w' = w then out else []

variable {v : View}

theorem recover_of_recoverable {r : RequestId} {s : Rs} (hs : v.req r = some s)
    (h : v.Recoverable r) : v.recover r = (v.release s.reservation).setReq r s.recovered := by
  obtain ⟨t, ht, hrec⟩ := h
  obtain rfl : t = s := Option.some.inj (ht.symm.trans hs)
  rw [recover, hs]
  exact if_pos hrec

theorem recover_of_not {r : RequestId} (h : ¬v.Recoverable r) : v.recover r = v := by
  rw [recover]
  cases hs : v.req r with
  | none => rfl
  | some s => exact if_neg fun hrec => h ⟨s, hs, hrec⟩

/-- Recovering does not look at the groups. -/
theorem recover_with_grp (G : GroupId → Option (WorkerId × List RequestId)) (r : RequestId) :
    ({ v with grp := G } : View).recover r = { v.recover r with grp := G } := by
  unfold recover
  cases v.req r with
  | none => rfl
  | some s =>
    dsimp only
    split_ifs <;> rfl

theorem foldl_recover_with_grp (G : GroupId → Option (WorkerId × List RequestId))
    (rs : List RequestId) :
    rs.foldl recover { v with grp := G } = { rs.foldl recover v with grp := G } := by
  induction rs generalizing v with
  | nil => rfl
  | cons r rs ih => rw [List.foldl_cons, recover_with_grp, ih, List.foldl_cons]

/-- What recovering a list of requests comes to. -/
structure Recovered (rs : List RequestId) (v u : View) : Prop where
  done : ∀ r s, r ∈ rs → v.Recoverable r → v.req r = some s → u.req r = some s.recovered
  kept : ∀ r, ¬(r ∈ rs ∧ v.Recoverable r) → u.req r = v.req r
  mem : ∃ ds : List RequestId, ds.Nodup ∧ (∀ r, r ∈ ds ↔ r ∈ rs ∧ v.Recoverable r) ∧
    u.mem = ds.foldl (fun m r => m.releaseIf (v.reservationOf r)) v.mem
  rest : u = { v with req := u.req, mem := u.mem }

/-- A recovered request is not recovered again, and the others are as before. -/
theorem recoverable_setReq {v' : View} {r x : RequestId} {s : Rs} (hreq : v'.req =
    Function.update v.req r (some s.recovered)) :
    v'.Recoverable x ↔ x ≠ r ∧ v.Recoverable x := by
  unfold Recoverable
  rw [hreq]
  by_cases hx : x = r
  · subst hx
    rw [Function.update_self]
    constructor
    · rintro ⟨t, ht, hflight, -⟩
      obtain rfl := Option.some.inj ht
      exact absurd hflight Bool.false_ne_true
    · exact fun h => absurd rfl h.1
  · rw [Function.update_of_ne hx]
    exact ⟨fun h => ⟨hx, h⟩, fun h => h.2⟩

theorem foldl_recover (rs : List RequestId) (v : View) : Recovered rs v (rs.foldl recover v) := by
  induction rs generalizing v with
  | nil =>
    exact
      { done := fun r _ h => absurd h List.not_mem_nil
        kept := fun _ _ => rfl
        mem := ⟨[], List.nodup_nil, fun r => by simp, rfl⟩
        rest := rfl }
  | cons r rs ih =>
    rw [List.foldl_cons]
    by_cases hrec : v.Recoverable r
    · obtain ⟨s, hs, hflight, hdisp⟩ := id hrec
      have hfirst := recover_of_recoverable hs hrec
      have hreq : (v.recover r).req = Function.update v.req r (some s.recovered) := by
        rw [hfirst]
        rfl
      have hiff : ∀ x, (v.recover r).Recoverable x ↔ x ≠ r ∧ v.Recoverable x :=
        fun x => recoverable_setReq hreq
      obtain ⟨hdone, hkept, ⟨ds, hnodup, hds, hmem⟩, hrest⟩ := ih (v.recover r)
      have hother : ∀ x, x ≠ r → (v.recover r).req x = v.req x := fun x hx => by
        rw [hreq, Function.update_of_ne hx]
      refine
        { done := fun x t hx hxrec ht => ?_
          kept := fun x hx => ?_
          mem := ⟨r :: ds, ?_, fun x => ?_, ?_⟩
          rest := ?_ }
      · by_cases hxr : x = r
        · subst hxr
          obtain rfl : s = t := Option.some.inj (hs.symm.trans ht)
          rw [hkept x fun h => ((hiff x).mp h.2).1 rfl, hreq, Function.update_self]
        · refine hdone x t (List.mem_of_ne_of_mem hxr hx) ((hiff x).mpr ⟨hxr, hxrec⟩) ?_
          rw [hother x hxr]
          exact ht
      · have hxr : x ≠ r := by
          rintro rfl
          exact hx ⟨List.mem_cons_self, hrec⟩
        rw [hkept x fun h => hx ⟨List.mem_cons_of_mem r h.1, ((hiff x).mp h.2).2⟩, hother x hxr]
      · exact List.nodup_cons.mpr ⟨fun h => ((hiff r).mp ((hds r).mp h).2).1 rfl, hnodup⟩
      · rw [List.mem_cons, hds, hiff, List.mem_cons]
        constructor
        · rintro (rfl | ⟨hx, -, hxrec⟩)
          · exact ⟨Or.inl rfl, hrec⟩
          · exact ⟨Or.inr hx, hxrec⟩
        · rintro ⟨hx, hxrec⟩
          by_cases hxr : x = r
          · exact Or.inl hxr
          · exact Or.inr ⟨hx.resolve_left hxr, hxr, hxrec⟩
      · have hres : v.reservationOf r = s.reservation := by
          rw [reservationOf, hs]
          rfl
        have hfirstmem : (v.recover r).mem = v.mem.releaseIf (v.reservationOf r) := by
          rw [hfirst, hres]
          rfl
        rw [hmem, hfirstmem, List.foldl_cons]
        refine List.foldl_ext _ _ _ fun m x hx => ?_
        rw [reservationOf, reservationOf, hother x ((hiff x).mp ((hds x).mp hx).2).1]
      · rw [hrest, hfirst]
        rfl
    · rw [recover_of_not hrec]
      obtain ⟨hdone, hkept, ⟨ds, hnodup, hds, hmem⟩, hrest⟩ := ih v
      have hiff : ∀ x, x ∈ r :: rs ∧ v.Recoverable x ↔ x ∈ rs ∧ v.Recoverable x := by
        intro x
        refine ⟨fun ⟨hx, hxrec⟩ => ⟨(List.mem_cons.mp hx).resolve_left ?_, hxrec⟩,
          fun h => ⟨List.mem_cons_of_mem r h.1, h.2⟩⟩
        rintro rfl
        exact hrec hxrec
      exact
        { done := fun x t hx hxrec ht => hdone x t ((hiff x).mp ⟨hx, hxrec⟩).1 hxrec ht
          kept := fun x hx => hkept x fun h => hx ((hiff x).mpr h)
          mem := ⟨ds, hnodup, fun x => (hds x).trans (hiff x).symm, hmem⟩
          rest := hrest }

/-- What becomes of a group when a worker is lost. -/
def keepOther (w : WorkerId) (p : WorkerId × List RequestId) :
    Option (WorkerId × List RequestId) :=
  if p.1 = w then none else some p

theorem loseGrp_eq (w : WorkerId) (v : View) (g : GroupId) : v.loseGrp w g =
    { (v.lostMembers w g).foldl recover v with
      grp := Function.update v.grp g ((v.grp g).bind (keepOther w)) } := by
  have hself : v = { v with grp := Function.update v.grp g (v.grp g) } := by
    rw [Function.update_eq_self]
  unfold loseGrp lostMembers
  cases hg : v.grp g with
  | none =>
    rw [hg] at hself
    exact hself
  | some p =>
    obtain ⟨w', out⟩ := p
    rw [hg] at hself
    by_cases hw : w' = w
    · subst hw
      have hgrp := congrArg View.grp (foldl_recover out v).rest
      simp only [if_true, dropGrp, Option.bind_some, keepOther]
      rw [hgrp]
    · simpa only [hw, if_false, Option.bind_some, keepOther, List.foldl_nil] using hself

theorem foldl_loseGrp (w : WorkerId) (gs : List GroupId) (hnodup : gs.Nodup) (v : View) :
    gs.foldl (loseGrp w) v = { (gs.flatMap (v.lostMembers w)).foldl recover v with
      grp := fun g => if g ∈ gs then (v.grp g).bind (keepOther w) else v.grp g } := by
  induction gs generalizing v with
  | nil => rfl
  | cons g gs ih =>
    obtain ⟨hg, hgs⟩ := List.nodup_cons.mp hnodup
    rw [List.foldl_cons, ih hgs, List.flatMap_cons, List.foldl_append]
    -- the groups still to come are as they were
    have hgrp : ∀ x, x ≠ g → (v.loseGrp w g).grp x = v.grp x := fun x hx => by
      rw [loseGrp_eq]
      exact Function.update_of_ne hx ..
    have hmembers : gs.flatMap ((v.loseGrp w g).lostMembers w) = gs.flatMap (v.lostMembers w) := by
      refine List.flatMap_congr fun x hx => ?_
      rw [lostMembers, lostMembers, hgrp x fun h => hg (h ▸ hx)]
    have hgrp_g : (v.loseGrp w g).grp g = (v.grp g).bind (keepOther w) := by
      rw [loseGrp_eq]
      exact Function.update_self ..
    have hG : (fun x => if x ∈ gs then ((v.loseGrp w g).grp x).bind (keepOther w)
        else (v.loseGrp w g).grp x) =
        fun x => if x ∈ g :: gs then (v.grp x).bind (keepOther w) else v.grp x := by
      funext x
      by_cases hx : x = g
      · subst hx
        rw [if_neg hg, if_pos List.mem_cons_self, hgrp_g]
      · simp only [List.mem_cons, hx, false_or, hgrp x hx]
    rw [hmembers, hG, loseGrp_eq, foldl_recover_with_grp]

/-- The groups of a view are among the keys of a list. -/
theorem lost_iff_mem_flatMap {w : WorkerId} {gs : List GroupId}
    (hgs : ∀ g p, v.grp g = some p → g ∈ gs) (r : RequestId) :
    v.Lost w r ↔ r ∈ gs.flatMap (v.lostMembers w) ∧ v.Recoverable r := by
  rw [List.mem_flatMap]
  constructor
  · rintro ⟨g, out, s, hg, hr, hs⟩
    refine ⟨⟨g, hgs g _ hg, ?_⟩, s, hs⟩
    simp only [lostMembers, hg, if_true]
    exact hr
  · rintro ⟨⟨g, -, hr⟩, s, hs⟩
    unfold lostMembers at hr
    cases hg : v.grp g with
    | none =>
      rw [hg] at hr
      exact absurd hr List.not_mem_nil
    | some p =>
      obtain ⟨w', out⟩ := p
      simp only [hg] at hr
      split_ifs at hr with hw
      · exact ⟨g, out, s, hw ▸ hg, hr, hs⟩
      · exact absurd hr List.not_mem_nil

theorem lose_foldl_loseGrp (w : WorkerId) {gs : List GroupId} (hnodup : gs.Nodup)
    (hgs : ∀ g p, v.grp g = some p → g ∈ gs) : Lose w v (gs.foldl (loseGrp w) v) := by
  have hlost := lost_iff_mem_flatMap (w := w) hgs
  obtain ⟨hdone, hkept, ⟨ds, hds, hmem_ds, hmem⟩, hrest⟩ :=
    foldl_recover (gs.flatMap (v.lostMembers w)) v
  rw [foldl_loseGrp w gs hnodup v]
  refine
    { lost := fun r s h hs => hdone r s ((hlost r).mp h).1 ((hlost r).mp h).2 hs
      kept := fun r h => hkept r fun hc => h ((hlost r).mpr hc)
      grp := fun g => ?_
      mem := ⟨ds, hds, fun r => (hmem_ds r).trans (hlost r).symm, hmem⟩
      boot := (congrArg View.boot hrest :)
      epoch := (congrArg View.epoch hrest :)
      nextGeneration := (congrArg View.nextGeneration hrest :)
      nextAttempt := (congrArg View.nextAttempt hrest :)
      nextGroup := (congrArg View.nextGroup hrest :)
      nextReservation := (congrArg View.nextReservation hrest :) }
  cases hg : v.grp g with
  | none => simp [hg]
  | some p =>
    simp only [hg, hgs g p hg, if_true]
    rfl

end View

namespace Impl

theorem view_recoverMember (now : Nanoseconds) (σ : Impl) (r : RequestId) :
    (σ.recoverMember now r).view = σ.view.recover r := by
  unfold recoverMember View.recover
  have hreq : σ.view.req r = (σ.requests.lookup r).map Rs.core := rfl
  cases hs : σ.requests.lookup r with
  | none =>
    rw [hs, Option.map_none] at hreq
    rw [hreq]
  | some s =>
    rw [hs, Option.map_some] at hreq
    rw [hreq]
    dsimp only
    by_cases hrec : s.inFlight = true ∧ s.lifecycle = .dispatched
    · rw [if_pos hrec,
        if_pos (show s.core.inFlight = true ∧ s.core.lifecycle = .dispatched from hrec),
        view_record, view_setRequest, Rs.core_recovered, view_releaseReservation]
      rfl
    · rw [if_neg hrec,
        if_neg (show ¬(s.core.inFlight = true ∧ s.core.lifecycle = .dispatched) from hrec)]

theorem view_foldl_recoverMember (now : Nanoseconds) (rs : List RequestId) (σ : Impl) :
    (rs.foldl (recoverMember now) σ).view = rs.foldl View.recover σ.view := by
  induction rs generalizing σ with
  | nil => rfl
  | cons r rs ih => rw [List.foldl_cons, ih, view_recoverMember, List.foldl_cons]

theorem view_loseGroup (now : Nanoseconds) (w : WorkerId) (σ : Impl) (g : GroupId) :
    (σ.loseGroup now w g).view = σ.view.loseGrp w g := by
  unfold loseGroup View.loseGrp
  have hgrp : σ.view.grp g = (σ.groups.lookup g).map fun gs => (gs.worker, gs.outstanding) := rfl
  cases hg : σ.groups.lookup g with
  | none =>
    rw [hg, Option.map_none] at hgrp
    rw [hgrp]
  | some gs =>
    rw [hg, Option.map_some] at hgrp
    rw [hgrp]
    dsimp only
    split_ifs
    · rw [view_erase_group, view_foldl_recoverMember]
    · rfl

theorem view_foldl_loseGroup (now : Nanoseconds) (w : WorkerId) (gs : List GroupId) (σ : Impl) :
    (gs.foldl (loseGroup now w) σ).view = gs.foldl (View.loseGrp w) σ.view := by
  induction gs generalizing σ with
  | nil => rfl
  | cons g gs ih => rw [List.foldl_cons, ih, view_loseGroup, List.foldl_cons]

theorem view_markLost (w : WorkerId) (σ : Impl) : (σ.markLost w).view = σ.view :=
  σ.view_modify_worker w fun _ => rfl

/-- **The loss of a worker** puts what was in flight in its groups back in the queue
and drops the groups. -/
theorem lose_workerLost (now : Nanoseconds) (w : WorkerId) (σ : Impl) :
    View.Lose w σ.view (σ.workerLost now w).view := by
  rw [workerLost, view_record, view_markLost, view_foldl_loseGroup]
  refine View.lose_foldl_loseGrp w σ.groups.keys_nodup fun g p hg => ?_
  obtain ⟨gs, hgs, -⟩ := Option.map_eq_some_iff.mp hg
  exact AList.mem_keys_iff_lookup.mpr ⟨gs, hgs⟩

theorem effect_workerLost (env : Env) (now : Nanoseconds) (w : WorkerId) (σ : Impl) :
    Effect env σ.view (.lose w) (σ.workerLost now w).view :=
  .lose (lose_workerLost now w σ)

end Impl

end PrefillFabric
