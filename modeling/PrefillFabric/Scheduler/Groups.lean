import PrefillFabric.Scheduler.Places
import PrefillFabric.Scheduler.Progress

/-!
# Requests and their groups

Membership in a group is stored twice: a request names its current group, and a group
lists the requests it waits for. `View.Grouped` says that the two agree. All effects
keep the agreement but one: a forced retry of a request in flight drops the whole
group the request is in, and with it the places of the others. A run in which a forced
retry only ever hits a request that is alone in its group is exactly a run in which
requests and groups always agree (`Run.forall_groupsAgree_iff`).

Where they agree a lost worker leaves nothing in flight: everything that was in flight
on it is back in the queue (`Impl.groupsAgree_of_grouped`).
-/

namespace PrefillFabric

variable {env : Env} {v v' : View} {l : Label} {r : RequestId} {s s' : Rs}

/-- **Requests and groups agree**: what is in flight is in its current group, on its
worker; and whatever a group lists is in flight, with the group as its current one. -/
structure View.Grouped (v : View) : Prop where
  member : ∀ r s, v.req r = some s → s.isLive = true →
    ∃ out, v.grp s.currentGroup = some (s.dispatchedWorker, out) ∧ r ∈ out
  outstanding : ∀ g w out r, v.grp g = some (w, out) → r ∈ out →
    ∃ s, v.req r = some s ∧ s.isLive = true ∧ s.currentGroup = g
  ne_nil : ∀ g w out, v.grp g = some (w, out) → out ≠ []
  grp_nil : v.grp .nil = none

/-- What is in flight has a place: it is in its current group, on its worker. -/
def View.Placed (v : View) : Prop :=
  ∀ r s, v.req r = some s → s.isLive = true →
    ∃ out, v.grp s.currentGroup = some (s.dispatchedWorker, out) ∧ r ∈ out

namespace View

theorem Grouped.attached (hv : v.Grouped) : v.Attached := ⟨hv.outstanding, hv.ne_nil, hv.grp_nil⟩

theorem Attached.grouped (hv : v.Attached) (h : v.Placed) : v.Grouped :=
  ⟨h, hv.outstanding, hv.ne_nil, hv.grp_nil⟩

theorem Grouped.currentGroup_ne_nil (hv : v.Grouped) (hs : v.req r = some s)
    (hlive : s.isLive = true) : s.currentGroup ≠ .nil := by
  intro hnil
  obtain ⟨out, hgrp, -⟩ := hv.member r s hs hlive
  rw [hnil, hv.grp_nil] at hgrp
  exact absurd hgrp.symm (Option.some_ne_none _)

/-! ### Keeping the places -/

/-- Whatever is in flight was in flight before, in the same group. -/
theorem Placed.same (hv : v.Placed) (hgrp : v'.grp = v.grp)
    (hreq : ∀ x t, v'.req x = some t → t.isLive = true → ∃ t₀, v.req x = some t₀ ∧
      t₀.isLive = true ∧ t₀.currentGroup = t.currentGroup ∧
        t₀.dispatchedWorker = t.dispatchedWorker) : v'.Placed := by
  intro x t ht hlive
  obtain ⟨t₀, ht₀, hlive₀, hcur, hworker⟩ := hreq x t ht hlive
  rw [hgrp, ← hcur, ← hworker]
  exact hv x t₀ ht₀ hlive₀

/-- A request that goes out of flight and leaves a group takes nobody's place but its own. -/
theorem Placed.leave (hv : v.Placed) (hs' : s'.isLive = false) {b : Bool} {g : GroupId}
    (hreq : v'.req = Function.update v.req r (some s'))
    (hgrp : v'.grp = (v.detachIf b g r).grp) : v'.Placed := by
  intro x t ht hlive
  have hother : x ≠ r ∧ v.req x = some t := by
    rw [hreq, Function.update_apply] at ht
    split_ifs at ht with hx
    · obtain rfl := Option.some.inj ht
      exact Bool.noConfusion (hs'.symm.trans hlive)
    · exact ⟨hx, ht⟩
  obtain ⟨out, hout, hmem⟩ := hv x t hother.2 hlive
  rw [hgrp, detachIf_grp]
  split_ifs with hg
  · have hmem' : x ∈ eraseOutstanding r out := mem_eraseOutstanding.mpr ⟨hmem, hother.1⟩
    refine ⟨eraseOutstanding r out, ?_, hmem'⟩
    rw [← hg.2, hout, Option.bind_some, leaveGroup_eq_some]
    exact ⟨rfl, rfl, List.ne_nil_of_mem hmem'⟩
  · exact ⟨out, hout, hmem⟩

theorem Placed.launch {now : Nanoseconds} {gid : GroupId} {w : WorkerId}
    {ms : List ExecutableMember} (hv : v.Placed) (h : View.Launch now gid w ms v v') :
    v'.Placed := by
  obtain ⟨out, hgrp, hout⟩ := h.grp
  intro x t ht hlive
  by_cases hx : ∃ m ∈ ms, m.requestId = x
  · obtain ⟨m, hm, rfl⟩ := hx
    obtain ⟨t₀, res, -, -, -, hreq⟩ := h.exists_of_mem hm
    obtain rfl := Option.some.inj (hreq.symm.trans ht)
    refine ⟨out, ?_, (hout _).mpr ⟨m, hm, rfl⟩⟩
    rw [hgrp]
    exact Function.update_self ..
  · rw [h.others x fun m hm hc => hx ⟨m, hm, hc⟩] at ht
    obtain ⟨out', hout', hmem⟩ := hv x t ht hlive
    have hne : t.currentGroup ≠ gid := by
      intro hc
      rw [hc, h.grp_gid] at hout'
      exact absurd hout'.symm (Option.some_ne_none _)
    exact ⟨out', by rw [hgrp, Function.update_of_ne hne]; exact hout', hmem⟩

theorem Placed.lose {w : WorkerId} (hv : v.Placed)
    (hdisp : ∀ r s, v.req r = some s → s.isLive = true → s.lifecycle = .dispatched)
    (h : View.Lose w v v') : v'.Placed := by
  intro x t ht hlive
  by_cases hlost : v.Lost w x
  · obtain ⟨-, -, t₀, -, -, ht₀, -⟩ := id hlost
    obtain rfl := Option.some.inj ((h.lost x t₀ hlost ht₀).symm.trans ht)
    exact Bool.noConfusion hlive
  · rw [h.kept x hlost] at ht
    obtain ⟨out, hout, hmem⟩ := hv x t ht hlive
    -- on the lost worker it would be lost itself
    have hw : t.dispatchedWorker ≠ w := by
      rintro rfl
      exact hlost ⟨t.currentGroup, out, t, hout, hmem, ht, (Rs.isLive_iff.mp hlive).1,
        hdisp x t ht hlive⟩
    refine ⟨out, ?_, hmem⟩
    rw [h.grp, hout, Option.bind_some, if_neg hw]

theorem Grouped.lose {w : WorkerId} (hv : v.Grouped)
    (hdisp : ∀ r s, v.req r = some s → s.isLive = true → s.lifecycle = .dispatched)
    (h : View.Lose w v v') : v'.Grouped :=
  (hv.attached.lose h).grouped (Placed.lose hv.member hdisp h)

/-- In a group on a worker and in flight is to be lost with the worker. -/
theorem Grouped.lost_iff (hv : v.Grouped)
    (hdisp : ∀ r s, v.req r = some s → s.isLive = true → s.lifecycle = .dispatched)
    (w : WorkerId) (hs : v.req r = some s) :
    v.Lost w r ↔ s.isLive = true ∧ s.dispatchedWorker = w := by
  constructor
  · rintro ⟨g, out, t, hgrp, hr, ht, -, -⟩
    obtain rfl := Option.some.inj (ht.symm.trans hs)
    obtain ⟨t', ht', hlive, hcur⟩ := hv.outstanding g w out r hgrp hr
    obtain rfl := Option.some.inj (ht'.symm.trans hs)
    obtain ⟨out', hgrp', -⟩ := hv.member r _ hs hlive
    rw [hcur, hgrp] at hgrp'
    exact ⟨hlive, (Prod.mk.inj (Option.some.inj hgrp')).1.symm⟩
  · rintro ⟨hlive, rfl⟩
    obtain ⟨out, hgrp, hr⟩ := hv.member r s hs hlive
    exact ⟨s.currentGroup, out, s, hgrp, hr, hs, (Rs.isLive_iff.mp hlive).1, hdisp r s hs hlive⟩

/-- Dropping the group of a request that is alone in it is leaving it. -/
theorem dropGrpIf_grp_of_alone {b : Bool} {g : GroupId}
    (halone : b = true → ∀ w out, v.grp g = some (w, out) → ∀ x ∈ out, x = r) :
    (v.dropGrpIf b g).grp = (v.detachIf b g r).grp := by
  cases b with
  | false => rfl
  | true =>
    change Function.update v.grp g none = Function.update v.grp g ((v.grp g).bind (leaveGroup r))
    congr 1
    cases hg : v.grp g with
    | none => rfl
    | some p =>
      obtain ⟨w, out⟩ := p
      have hempty : eraseOutstanding r out = [] := by
        rw [List.eq_nil_iff_forall_not_mem]
        intro x hx
        obtain ⟨hmem, hne⟩ := mem_eraseOutstanding.mp hx
        exact hne (halone rfl w out hg x hmem)
      rw [Option.bind_some, leaveGroup, hempty]
      rfl

end View

theorem View.dropGrpIf_grp_self {b : Bool} {g : GroupId} (hb : b = true) :
    (v.dropGrpIf b g).grp g = none := by
  subst hb
  exact Function.update_self ..

/-- The request a label takes out of its group by dropping the group. -/
def Label.drops : Label → Option RequestId
  | withdraw r | retry r => some r
  | _ => none

/-- **Effects keep requests and groups in agreement**, as long as no group is dropped
that has other requests in it. -/
theorem Effect.grouped (h : Effect env v l v') (hv : v.Grouped)
    (hdisp : ∀ r s, v.req r = some s → s.isLive = true → s.lifecycle = .dispatched)
    (halone : ∀ r s, l.drops = some r → v.req r = some s → s.isLive = true →
      ∀ w out, v.grp s.currentGroup = some (w, out) → ∀ x ∈ out, x = r) : v'.Grouped := by
  -- places only go to requests in flight; it is left that these keep theirs
  refine (h.attached hv.attached).grouped ?_
  have hplaced : v.Placed := hv.member
  cases h with
  | idle h => exact hplaced.same h.grp fun x t ht hlive => ⟨t, h.req ▸ ht, hlive, rfl, rfl⟩
  | @enter now req hnew _ =>
    refine hplaced.same rfl fun x t ht hlive => ?_
    change Function.update v.req _ _ x = some t at ht
    rw [Function.update_apply] at ht
    split_ifs at ht
    · obtain rfl := Option.some.inj ht
      exact Bool.noConfusion hlive
    · exact ⟨t, ht, hlive, rfl, rfl⟩
  | @expire r s => exact hplaced.leave (Bool.and_false s.expired.inFlight) rfl rfl
  | launch h => exact hplaced.launch h
  | @finish r s o =>
    refine hplaced.leave ?_ rfl rfl
    rw [Rs.isLive, s.finished_inFlight env o, Bool.false_and]
  | @flag r s hs _ _ =>
    refine hplaced.same rfl fun x t ht hlive => ?_
    change Function.update v.req r (some s.flagged) x = some t at ht
    rw [Function.update_apply] at ht
    split_ifs at ht with hx
    · subst hx
      obtain rfl := Option.some.inj ht
      exact ⟨s, hs, hlive, rfl, rfl⟩
    · exact ⟨t, ht, hlive, rfl, rfl⟩
  | @cancel r s => exact hplaced.leave (Bool.and_false s.cancelled.inFlight) rfl rfl
  | @withdraw r s hs hflight hlive _ =>
    refine hplaced.leave rfl rfl (View.dropGrpIf_grp_of_alone fun _ => ?_)
    exact halone r s rfl hs (Rs.isLive_iff.mpr ⟨hflight, hlive⟩)
  | @retry r s hs hlive _ =>
    refine hplaced.leave ?_ rfl (View.dropGrpIf_grp_of_alone fun hb => ?_)
    · rw [Rs.isLive, s.retried_inFlight env, Bool.false_and]
    · exact halone r s rfl hs (Rs.isLive_iff.mpr ⟨(Bool.and_eq_true _ _ ▸ hb).1, hlive⟩)
  | boot w b => exact hplaced
  | lose h => exact hplaced.lose hdisp h
  | roll => exact hplaced

/-! ### States in which requests and groups agree -/

/-- **Requests and groups agree** in a state: a request in flight is listed by its
current group and by no other; what a group lists is a request in flight with that
group as its current one; and so the loss of any worker puts everything in flight on it
back in the queue and leaves nothing in flight on it. -/
structure Impl.GroupsAgree (σ : Impl) : Prop where
  listed : ∀ r s, σ.requests.lookup r = some s → s.inFlight = true →
    s.lifecycle.isTerminal = false →
      ∃ gs, σ.groups.lookup s.currentGroup = some gs ∧ r ∈ gs.outstanding ∧
        ∀ g gs', σ.groups.lookup g = some gs' → r ∈ gs'.outstanding → g = s.currentGroup
  inFlight : ∀ g gs r, σ.groups.lookup g = some gs → r ∈ gs.outstanding →
    ∃ s, σ.requests.lookup r = some s ∧ s.inFlight = true ∧
      s.lifecycle.isTerminal = false ∧ s.currentGroup = g
  requeued : ∀ w now r s, σ.requests.lookup r = some s → s.inFlight = true →
    s.lifecycle.isTerminal = false → s.dispatchedWorker = w →
      ∃ s', (σ.workerLost now w).requests.lookup r = some s' ∧ s'.lifecycle = .queued ∧
        s'.inFlight = false
  cleared : ∀ w now r s', (σ.workerLost now w).requests.lookup r = some s' →
    s'.inFlight = true → s'.lifecycle.isTerminal = false → s'.dispatchedWorker ≠ w

namespace Impl

variable {σ : Impl}

theorem view_grp {g : GroupId} {gs : Gs} (h : σ.groups.lookup g = some gs) :
    σ.view.grp g = some (gs.worker, gs.outstanding) :=
  congrArg (Option.map fun gs : Gs => (gs.worker, gs.outstanding)) h

theorem exists_of_view_grp {g : GroupId} {w : WorkerId} {out : List RequestId}
    (h : σ.view.grp g = some (w, out)) :
    ∃ gs, σ.groups.lookup g = some gs ∧ gs.worker = w ∧ gs.outstanding = out := by
  obtain ⟨gs, hgs, heq⟩ := Option.map_eq_some_iff.mp h
  exact ⟨gs, hgs, Prod.mk.inj heq⟩

/-- What is in flight and not over is dispatched, in a sane state. -/
theorem dispatched_of_sane (hsane : σ.view.Each fun _ s => s.Sane env) (r : RequestId) (s : Rs)
    (hs : σ.view.req r = some s) (hlive : s.isLive = true) : s.lifecycle = .dispatched :=
  (hsane r s hs).dispatched (Rs.isLive_iff.mp hlive).1 (Rs.isLive_iff.mp hlive).2

/-- Where requests and groups agree in the view, they agree in the state. -/
theorem groupsAgree_of_grouped (hsane : σ.view.Each fun _ s => s.Sane env)
    (hv : σ.view.Grouped) : σ.GroupsAgree := by
  have hdisp := dispatched_of_sane hsane
  refine ⟨fun r s hs hflight hlive => ?_, fun g gs r hg hr => ?_,
    fun w now r s hs hflight hlive hw => ?_, fun w now r s' hs' hflight hlive hw => ?_⟩
  · obtain ⟨out, hgrp, hr⟩ := hv.member r s.core (view_req hs) (Rs.isLive_iff.mpr ⟨hflight, hlive⟩)
    obtain ⟨gs, hgs, -, rfl⟩ := exists_of_view_grp hgrp
    refine ⟨gs, hgs, hr, fun g gs' hg' hr' => ?_⟩
    obtain ⟨t, ht, -, hcur⟩ := hv.outstanding g _ _ r (view_grp hg') hr'
    obtain rfl := Option.some.inj ((view_req hs).symm.trans ht)
    exact hcur.symm
  · obtain ⟨t, ht, hlive, hcur⟩ := hv.outstanding g _ _ r (view_grp hg) hr
    obtain ⟨s, hs, rfl⟩ := exists_of_view_req ht
    exact ⟨s, hs, (Rs.isLive_iff.mp hlive).1, (Rs.isLive_iff.mp hlive).2, hcur⟩
  · have hlost := (hv.lost_iff hdisp w (view_req hs)).mpr ⟨Rs.isLive_iff.mpr ⟨hflight, hlive⟩, hw⟩
    have hrecovered := (lose_workerLost now w σ).lost r s.core hlost (view_req hs)
    obtain ⟨s', hs', hcore⟩ := exists_of_view_req hrecovered
    exact ⟨s', hs', congrArg Rs.lifecycle hcore, congrArg Rs.inFlight hcore⟩
  · have hafter := hv.lose hdisp (lose_workerLost now w σ)
    obtain ⟨out, hgrp, -⟩ := hafter.member r s'.core (view_req hs')
      (Rs.isLive_iff.mpr ⟨hflight, hlive⟩)
    have hw' : s'.core.dispatchedWorker = w := hw
    rw [hw', (lose_workerLost now w σ).grp, Option.bind_eq_some_iff] at hgrp
    obtain ⟨p, -, hkeep⟩ := hgrp
    split_ifs at hkeep with hp
    exact hp (congrArg Prod.fst (Option.some.inj hkeep))

end Impl

/-! ### Runs in which requests and groups agree -/

/-- **An operation breaks up no group**: a forced retry of a request in flight hits one
that is alone in its group. -/
def Impl.KeepsGroups (σ : Impl) : Op → Prop
  | .forceRetry r => ∀ s gs, σ.requests.lookup r = some s → s.isLive = true →
      σ.groups.lookup s.currentGroup = some gs → ∀ x ∈ gs.outstanding, x = r
  | _ => True

namespace Run

variable {ρ : Run} {n : ℕ}

theorem grouped_succ (hwf : ρ.start.view.Wf) (hsane : ρ.start.view.Each fun _ s => s.Sane ρ.env)
    {c : Call} (hc : ρ.calls[n]? = some c) (h : (ρ.stateAt n).view.Grouped)
    (hkeep : (ρ.stateAt n).KeepsGroups c.op) : (ρ.stateAt (n + 1)).view.Grouped := by
  have hsane' := sane hwf hsane n
  have hlabels : (∀ l, c.op.Causes l → l.drops = none) → (ρ.stateAt (n + 1)).view.Grouped := by
    intro hL
    refine ((effects hwf hc).invariant (P := fun u => (u.Each fun _ s => s.Sane ρ.env) ∧ u.Grouped)
      (fun u l u' hl hcause hu => ⟨?_, ?_⟩) ⟨hsane', h⟩).2
    · exact hl.each (fun now req _ _ => Rs.sane_admitted now req _)
        (fun _ _ _ _ hfate hs => hfate.sane hs) hu.1
    · refine hl.grouped hu.2 (fun r s hs hlive => ?_) fun r s hdrops => ?_
      · exact (hu.1 r s hs).dispatched (Rs.isLive_iff.mp hlive).1 (Rs.isLive_iff.mp hlive).2
      · exact absurd ((hL l hcause).symm.trans hdrops) (Option.some_ne_none r).symm
  obtain ⟨now, op⟩ := c
  cases op with
  | forceRetry r =>
    have hnext : ρ.stateAt (n + 1) = ((ρ.stateAt n).forceRetry ρ.env now r).1 := stateAt_succ hc
    have halone : ∀ x s, some r = some x → (ρ.stateAt n).view.req x = some s → s.isLive = true →
        ∀ w out, (ρ.stateAt n).view.grp s.currentGroup = some (w, out) → ∀ y ∈ out, y = x := by
      rintro x t hx ht hlive w out hgrp
      obtain rfl := Option.some.inj hx
      obtain ⟨s, hs, rfl⟩ := Impl.exists_of_view_req ht
      obtain ⟨gs, hgs, -, rfl⟩ := Impl.exists_of_view_grp hgrp
      exact hkeep s gs hs hlive hgs
    rw [hnext]
    rcases (ρ.stateAt n).effect_forceRetry ρ.env now r with ⟨hview, -⟩ | heffect | heffect
    · rw [hview]
      exact h
    · exact heffect.grouped h (Impl.dispatched_of_sane hsane') halone
    · exact heffect.grouped h (Impl.dispatched_of_sane hsane') halone
  | runCycle => exact hlabels fun l hl => by cases l <;> first | rfl | exact False.elim hl
  | _ => exact hlabels fun l hl => by cases l <;> first | rfl | exact False.elim hl

/-- A forced retry that drops the group of others leaves them without one. -/
theorem not_groupsAgree_of_forceRetry (h : (ρ.stateAt n).view.Grouped) {now : Nanoseconds}
    {r x : RequestId} (hc : ρ.calls[n]? = some ⟨now, .forceRetry r⟩) {s : Rs} {gs : Gs}
    (hs : (ρ.stateAt n).requests.lookup r = some s) (hlive : s.isLive = true)
    (hgs : (ρ.stateAt n).groups.lookup s.currentGroup = some gs) (hx : x ∈ gs.outstanding)
    (hne : x ≠ r) : ¬(ρ.stateAt (n + 1)).GroupsAgree := by
  have hnext : ρ.stateAt (n + 1) = ((ρ.stateAt n).forceRetry ρ.env now r).1 := stateAt_succ hc
  have hreq := Impl.view_req hs
  have hcur := h.currentGroup_ne_nil hreq hlive
  obtain ⟨hflight, hterm⟩ := Rs.isLive_iff.mp hlive
  obtain ⟨t, ht, htlive, htcur⟩ := h.outstanding _ _ _ x (Impl.view_grp hgs) hx
  have hnotNil : (!s.currentGroup.isNil) = true := by
    rw [Bool.not_eq_true', StrongId.isNil_eq_false]
    exact hcur
  have hafter : (ρ.stateAt (n + 1)).view.req x = some t ∧
      (ρ.stateAt (n + 1)).view.grp s.currentGroup = none := by
    rw [hnext]
    rcases (ρ.stateAt n).effect_forceRetry ρ.env now r with ⟨-, hwhy⟩ | heffect | heffect
    · exact Bool.noConfusion ((hwhy _ hreq hterm).1.symm.trans hflight)
    · generalize ((ρ.stateAt n).forceRetry ρ.env now r).1.view = u at heffect
      cases heffect with
      | withdraw hs' =>
        obtain rfl := Option.some.inj (hs'.symm.trans hreq)
        exact ⟨(Function.update_of_ne hne ..).trans ht,
          View.dropGrpIf_grp_self hnotNil⟩
    · generalize ((ρ.stateAt n).forceRetry ρ.env now r).1.view = u at heffect
      cases heffect with
      | retry hs' =>
        obtain rfl := Option.some.inj (hs'.symm.trans hreq)
        refine ⟨(Function.update_of_ne hne ..).trans ht, View.dropGrpIf_grp_self ?_⟩
        exact (Bool.and_eq_true _ _).mpr ⟨hflight, hnotNil⟩
  intro hagree
  obtain ⟨t', ht', rfl⟩ := Impl.exists_of_view_req hafter.1
  obtain ⟨gs', hgs', -⟩ := hagree.listed x t' ht' (Rs.isLive_iff.mp htlive).1
    (Rs.isLive_iff.mp htlive).2
  have htcur' : t'.currentGroup = s.currentGroup := htcur
  have hsome := Impl.view_grp hgs'
  rw [htcur', hafter.2] at hsome
  exact absurd hsome.symm (Option.some_ne_none _)

/-- **When requests and groups agree.** In every run of a new scheduler, each request
in flight is listed by its current group and no other, whatever a group lists is in
flight in it, and the loss of a worker puts everything in flight on it back in the
queue, at every moment, exactly if every forced retry of a request in flight hits a
request that is alone in its group. -/
theorem forall_groupsAgree_iff (env : Env) (calls : List Call) :
    (∀ n, n ≤ calls.length → ((fresh env calls).stateAt n).GroupsAgree) ↔
      ∀ n c, calls[n]? = some c → ((fresh env calls).stateAt n).KeepsGroups c.op := by
  have hwf := fresh_wf env calls
  have hsane₀ : (fresh env calls).start.view.Each fun _ s => s.Sane env :=
    fun _ s h => absurd h (Option.some_ne_none s).symm
  refine Machine.forall_iff_forall_allowed
    (P := fun n => ((fresh env calls).stateAt n).GroupsAgree)
    (Q := fun n => ((fresh env calls).stateAt n).view.Grouped)
    (A := fun n (c : Call) => ((fresh env calls).stateAt n).KeepsGroups c.op)
    (fun n => Impl.groupsAgree_of_grouped (sane hwf hsane₀ n)) ?_
    (fun n c hc h hkeep => grouped_succ hwf hsane₀ hc h hkeep) (fun n c hc h hnot => ?_)
  · exact
      { member := fun _ s hs => absurd hs (Option.some_ne_none s).symm
        outstanding := fun _ _ _ _ hg => absurd hg (Option.some_ne_none _).symm
        ne_nil := fun _ _ _ hg => absurd hg (Option.some_ne_none _).symm
        grp_nil := rfl }
  · obtain ⟨now, op⟩ := c
    cases op with
    | forceRetry r =>
      simp only [Impl.KeepsGroups, Classical.not_imp, not_forall] at hnot
      obtain ⟨s, gs, hs, hlive, hgs, x, hx, hne⟩ := hnot
      exact not_groupsAgree_of_forceRetry h hc hs hlive hgs hx hne
    | _ => exact absurd trivial hnot

/-- Two requests are packed into one group, and one of them is forced to retry. -/
def splitCalls : List Call :=
  [⟨0, .submitWithTokens (plainRequest 1 2) [5, 6]⟩,
    ⟨0, .submitWithTokens (plainRequest 2 2) [7, 8]⟩, ⟨0, .runCycle⟩, ⟨0, .forceRetry ⟨1⟩⟩]

/-- The other is in flight in a group that is gone, and the loss of its worker leaves it
in flight. -/
theorem not_groupsAgree_splitCalls : ¬((fresh .standard splitCalls).stateAt 4).GroupsAgree := by
  have hflight : (((fresh .standard splitCalls).stateAt 4).requests.lookup ⟨2⟩).map
      (fun s => (s.inFlight, s.lifecycle, s.dispatchedWorker)) =
        some (true, .dispatched, .nil) := by
    decide +kernel
  have hlost : ((((fresh .standard splitCalls).stateAt 4).workerLost 0 .nil).requests.lookup
      ⟨2⟩).map (fun s => (s.inFlight, s.lifecycle)) = some (true, .dispatched) := by
    decide +kernel
  intro h
  obtain ⟨s, hs, hstate⟩ := Option.map_eq_some_iff.mp hflight
  obtain ⟨hin, hdisp, hw⟩ : s.inFlight = true ∧ s.lifecycle = .dispatched ∧
      s.dispatchedWorker = .nil := by
    simpa using hstate
  obtain ⟨s', hs', hqueued, -⟩ := h.requeued .nil 0 ⟨2⟩ s hs hin (by rw [hdisp]; rfl) hw
  obtain ⟨t, ht, hstate'⟩ := Option.map_eq_some_iff.mp hlost
  obtain rfl := Option.some.inj (hs'.symm.trans ht)
  exact Lifecycle.noConfusion ((Prod.mk.inj hstate').2.symm.trans hqueued)

end Run

end PrefillFabric
