import PrefillFabric.Scheduler.Lifetime
import PrefillFabric.Scheduler.Service

/-!
# How the execution of a chunk ends

A cycle hands out a chunk, and from then on its completion is awaited. For how long? Until one of
five things happens: its completion is accepted; the deadline of its request passes, and a cycle
notices; its worker is lost; a retry is forced; or the scheduler reads a snapshot and forgets what
it was doing. This file says that nothing else ends it, and that it ends once
(`Lineage.ends_once`). In particular a cancellation, a change of the epoch, another registration
of the worker or whatever happens to others leaves it awaited; and once it is not awaited any more
it never is again, so that its completion is too late for good.

The last part rests on generations that are not used twice. It is said of a scheduler that reads
what schedulers have written (`Lineage`), for then their counter is at most the number of
dispatches; a snapshot from elsewhere could hold the greatest number of 64 bits, and the next
generation would be zero.

That it is the loss of its own worker is the part that needs an invariant: a request names its
worker, and so does the group it is in, and the two are the same (`View.Manned`). This is so even
where a request in flight has lost its group to the forced retry of another.
-/

namespace PrefillFabric

/-! ### Workers of groups -/

/-- **A group is on the worker of the requests it waits for.** -/
structure View.Manned (v : View) : Prop extends v.Attached where
  worker : ∀ g w out r s, v.grp g = some (w, out) → r ∈ out → v.req r = some s →
    s.dispatchedWorker = w

section

variable {env : Env} {v v' : View} {l : Label} {L : Label → Prop} {r : RequestId} {s s' : Rs}
  {g : GroupId} {w : WorkerId} {out out' : List RequestId} {m : ExecutableMember}
  {ms : List ExecutableMember}

/-- Only being launched gives a request another worker. -/
theorem Fate.dispatchedWorker_eq (h : Fate env v r s l s') (hlive : s.isLive = true) :
    s'.dispatchedWorker = s.dispatchedWorker := by
  cases h with
  | keep | flag => rfl
  | expire => rw [Rs.expired, Rs.dropReservation_eq]
  | launch _ _ hwait =>
    have hflight := (Rs.isWaiting_iff.mp hwait).2.1
    exact absurd ((Rs.isLive_iff.mp hlive).1.symm.trans hflight) Bool.noConfusion
  | finish o =>
    rw [Rs.finished, Rs.dropReservation_eq]
    cases o with
    | success | needsNextChunk =>
      dsimp only [Rs.settled, Rs.advanced]
      split_ifs <;> rfl
    | retryableFailure =>
      dsimp only [Rs.settled]
      split_ifs <;> rfl
    | _ => rfl
  | cancel => rw [Rs.cancelled, Rs.dropReservation_eq]
  | withdraw => rw [Rs.withdrawn, Rs.dropReservation_eq]
  | retry =>
    rw [Rs.retried, Rs.withdrawn, Rs.dropReservation_eq]
    split_ifs <;> rfl
  | recover => rw [Rs.recovered, Rs.dropReservation_eq]

/-- **Where a place in a group comes from**: it was there before, or the group has just been
dispatched. -/
theorem Effect.exists_of_grp (h : Effect env v l v') (hg : v'.grp g = some (w, out'))
    (hr : r ∈ out') :
    (∃ out, v.grp g = some (w, out) ∧ r ∈ out) ∨
      ∃ s', v'.req r = some s' ∧ s'.dispatchedWorker = w := by
  have hdetach : ∀ {u : View} {b : Bool} {x : GroupId} {q : RequestId},
      (u.detachIf b x q).grp g = some (w, out') → ∃ out, u.grp g = some (w, out) ∧ r ∈ out := by
    intro u b x q hg
    obtain ⟨out, hout, ⟨-, -, rfl, -⟩ | ⟨-, rfl⟩⟩ := View.exists_of_detachIf_grp hg
    · exact ⟨out, hout, (mem_eraseOutstanding.mp hr).1⟩
    · exact ⟨out', hout, hr⟩
  have hdrop : ∀ {u : View} {b : Bool} {x : GroupId},
      (u.dropGrpIf b x).grp g = some (w, out') → ∃ out, u.grp g = some (w, out) ∧ r ∈ out := by
    intro u b x hg
    cases b with
    | false => exact ⟨out', hg, hr⟩
    | true =>
      change Function.update u.grp x none g = _ at hg
      rw [Function.update_apply] at hg
      split_ifs at hg
      exact ⟨out', hg, hr⟩
  cases h with
  | idle h => exact Or.inl ⟨out', h.grp ▸ hg, hr⟩
  | expire | finish => exact Or.inl (hdetach (u := v) hg)
  | cancel => exact Or.inl (hdetach (u := v.release _) hg)
  | withdraw | retry => exact Or.inl (hdrop (u := v.release _) hg)
  | enter | flag | boot | roll => exact Or.inl ⟨out', hg, hr⟩
  | launch h =>
    obtain ⟨new, hgrp, hnew⟩ := h.grp
    rw [hgrp, Function.update_apply] at hg
    split_ifs at hg
    · obtain ⟨rfl, rfl⟩ := Prod.mk.inj (Option.some.inj hg)
      obtain ⟨m, hm, rfl⟩ := (hnew r).mp hr
      obtain ⟨_, _, -, -, -, hreq⟩ := h.exists_of_mem hm
      exact Or.inr ⟨_, hreq, rfl⟩
    · exact Or.inl ⟨out', hg, hr⟩
  | lose h =>
    rw [h.grp, Option.bind_eq_some_iff] at hg
    obtain ⟨p, hp, hkeep⟩ := hg
    split_ifs at hkeep
    obtain rfl := Option.some.inj hkeep
    exact Or.inl ⟨out', hp, hr⟩

theorem Effect.manned (h : Effect env v l v') (hv : v.Manned) : v'.Manned where
  toAttached := h.attached hv.toAttached
  worker g w out' r s' hg hr hs' := by
    rcases h.exists_of_grp hg hr with ⟨out, hout, hmem⟩ | ⟨t, ht, hworker⟩
    · obtain ⟨s, hs, hlive, -⟩ := hv.outstanding g w out r hout hmem
      obtain ⟨t, ht, hfate⟩ := h.exists_fate hs
      obtain rfl := Option.some.inj (ht.symm.trans hs')
      rw [hfate.dispatchedWorker_eq hlive]
      exact hv.worker g w out r s hout hmem hs
    · obtain rfl := Option.some.inj (ht.symm.trans hs')
      exact hworker

/-! ### What ends the execution of a chunk -/

/-- What takes a member out of flight. -/
def Label.Stops (m : ExecutableMember) : Label → Prop
  | expire r | finish r _ | withdraw r | retry r => r = m.requestId
  | lose w => w = m.assignedWorker
  | _ => False

/-- **A member is awaited until something stops it.** -/
theorem Effect.awaits_or_stops (h : Effect env v l v') (hv : v.Manned) (hm : v.Awaits m) :
    v'.Awaits m ∨ l.Stops m := by
  obtain ⟨s, hs, hawaits⟩ := hm
  obtain ⟨s', hs', hfate⟩ := h.exists_fate hs
  cases hfate with
  | keep => exact Or.inl ⟨s, hs', hawaits⟩
  | launch _ _ hwait =>
    have hflight := (Rs.isWaiting_iff.mp hwait).2.1
    exact absurd (hawaits.inFlight.symm.trans hflight) Bool.noConfusion
  | flag => exact Or.inl ⟨_, hs', hawaits.1, hawaits.2, hawaits.3, hawaits.4, hawaits.5⟩
  | cancel hflight => exact absurd (hawaits.inFlight.symm.trans hflight) Bool.noConfusion
  | expire | finish | withdraw | retry => exact Or.inr rfl
  | recover hlost =>
    obtain ⟨g, out, t, hg, hr, -⟩ := hlost
    exact Or.inr ((hv.worker g _ out _ s hg hr hs).symm.trans hawaits.worker)

theorem Effects.manned (h : Effects env L v ms v') (hv : v.Manned) : v'.Manned :=
  h.invariant (fun _ _ _ hl _ hu => hl.manned hu) hv

theorem Effects.awaits_or_stops (h : Effects env L v ms v') (hv : v.Manned) (hm : v.Awaits m) :
    v'.Awaits m ∨ ∃ l, L l ∧ l.Stops m := by
  induction h with
  | refl => exact Or.inl hm
  | tail h hl hL ih =>
    rcases ih with hawaits | hstopped
    · exact (hl.awaits_or_stops (h.manned hv) hawaits).imp_right fun hstops => ⟨_, hL, hstops⟩
    · exact Or.inr hstopped

/-- Nothing is stopped once the sweep is over. -/
theorem Label.Dispatching.not_stops (h : l.Dispatching) : ¬l.Stops m := by
  cases l with
  | idle | launch => exact id
  | _ => exact h.elim

end

namespace Impl

variable {env : Env} {σ : Impl} {m : ExecutableMember} {now : Nanoseconds}

/-- **The five ends** of what has been handed out. -/
inductive Ends (env : Env) (σ : Impl) (m : ExecutableMember) : Turn → Prop
  /-- Its completion is accepted. -/
  | completed {now : Nanoseconds} {result : MemberResult}
      (hrequest : result.requestId = m.requestId) (hattempt : result.attemptId = m.attemptId)
      (hgeneration : result.generation = m.generation)
      (hok : isOk (σ.reportCompletion env now result).2 = true) :
      Ends env σ m (.call ⟨now, .reportCompletion result⟩)
  /-- The deadline of its request has passed. -/
  | expired {now : Nanoseconds} {s : Rs} (hs : σ.requests.lookup m.requestId = some s)
      (hlate : s.deadlinePassed now = true) : Ends env σ m (.call ⟨now, .runCycle⟩)
  /-- Its worker is lost. -/
  | lost {now : Nanoseconds} : Ends env σ m (.call ⟨now, .workerLost m.assignedWorker⟩)
  /-- Its request is to be tried again. -/
  | retried {now : Nanoseconds} : Ends env σ m (.call ⟨now, .forceRetry m.requestId⟩)
  /-- A snapshot is read. -/
  | forgotten {now : Nanoseconds} {st : PersistedState} : Ends env σ m (.importState now st)

/-- A cycle ends nothing but by a deadline. -/
theorem awaits_or_ends_runCycle (hwf : σ.view.Wf) (hv : σ.view.Manned) (h : σ.Awaits m) :
    (σ.runCycle env now).1.Awaits m ∨ σ.Ends env m (.call ⟨now, .runCycle⟩) := by
  by_cases hlate : σ.Overdue now m.requestId
  · obtain ⟨s, hs, -, hpassed⟩ := hlate
    obtain ⟨t, ht, hawaits⟩ := h
    obtain rfl := Option.some.inj (ht.symm.trans hs)
    refine Or.inr (.expired hs (hpassed.resolve_right fun hdelay => ?_))
    -- the bound on the time in the queue is not for requests in flight
    rw [Rs.queueDelayPassed, hawaits.inFlight] at hdelay
    exact Bool.noConfusion hdelay
  · have hsweep := effects_expirySweep env now σ hwf
    have hspared : (σ.expirySweep now).view.Awaits m := by
      obtain ⟨s, hs, hawaits⟩ := view_awaits.mpr h
      exact ⟨s, (view_req_foldl_sweepRequest env hlate hwf _).trans hs, hawaits⟩
    rw [runCycle_eq, ← view_awaits]
    refine Or.inl (((effects_dispatchPhase env now (hsweep.wf hwf)).awaits_or_stops
      (hsweep.manned hv) hspared).resolve_right ?_)
    rintro ⟨l, hl, hstops⟩
    exact hl.not_stops hstops

theorem awaits_or_ends_reportCompletion (hwf : σ.view.Wf) (hv : σ.view.Manned) (h : σ.Awaits m)
    (result : MemberResult) : (σ.reportCompletion env now result).1.Awaits m ∨
      σ.Ends env m (.call ⟨now, .reportCompletion result⟩) := by
  rcases effect_reportCompletion env now result hwf with ⟨-, hview⟩ | ⟨hok, heffect⟩
  · rw [← view_awaits, hview, view_awaits]
    exact Or.inl h
  · rw [← view_awaits]
    refine (heffect.awaits_or_stops hv (view_awaits.mpr h)).imp_right fun hrequest => ?_
    obtain ⟨s, hs⟩ := isOk_reportCompletion_iff.mp hok
    obtain ⟨t, ht, hawaits⟩ := view_awaits.mpr h
    obtain rfl : s = t := by
      have hreq := hs.req
      rw [show result.requestId = m.requestId from hrequest] at hreq
      exact Option.some.inj (hreq.symm.trans ht)
    exact .completed hrequest (hs.attempt.trans hawaits.attempt)
      (hs.generation.trans hawaits.generation) hok

/-- **What is awaited stays so, or is ended by one of the five.** -/
theorem awaits_or_ends (hwf : σ.view.Wf) (hv : σ.view.Manned) (h : σ.Awaits m) (t : Turn) :
    (σ.turn env t).1.Awaits m ∨ σ.Ends env m t := by
  cases t with
  | importState now st => exact Or.inr .forgotten
  | call c =>
    have hcases := (effects_step env hwf c).awaits_or_stops hv (view_awaits.mpr h)
    rw [view_awaits] at hcases
    obtain ⟨now, op⟩ := c
    cases op with
    | runCycle =>
      rw [turn, step_runCycle]
      exact awaits_or_ends_runCycle hwf hv h
    | reportCompletion result => exact awaits_or_ends_reportCompletion hwf hv h result
    | workerLost w =>
      refine hcases.imp_right ?_
      rintro ⟨l, hl, hstops⟩
      cases l with
      | lose x =>
        obtain rfl : x = w := hl
        obtain rfl : x = m.assignedWorker := hstops
        exact .lost
      | _ => exact hl.elim
    | forceRetry r =>
      refine hcases.imp_right ?_
      rintro ⟨l, hl, hstops⟩
      cases l with
      | withdraw x | retry x =>
        obtain rfl : x = r := hl
        obtain rfl : x = m.requestId := hstops
        exact .retried
      | _ => exact hl.elim
    | _ =>
      refine hcases.imp_right ?_
      rintro ⟨l, hl, hstops⟩
      cases l with
      | expire | finish | withdraw | retry | lose => exact hl.elim
      | _ => exact hstops.elim

/-- What a cycle hands out is awaited when it is over. -/
theorem awaits_of_mem_members (hwf : σ.view.Wf) (hm : m ∈ (σ.runCycle env now).2.members) :
    (σ.runCycle env now).1.Awaits m := by
  have hsweep := effects_expirySweep env now σ hwf
  rw [runCycle_eq] at hm ⊢
  obtain ⟨s, hs, hawaits, -⟩ :=
    (effects_dispatchPhase env now (hsweep.wf hwf)).awaits_of_mem m hm
  exact view_awaits.mp ⟨s, hs, hawaits⟩

end Impl

/-- Where there are no groups there is nobody in a wrong one. -/
theorem View.manned_of_grp {v : View} (h : ∀ g, v.grp g = none) : v.Manned where
  outstanding g _ _ _ hg := absurd ((h g).symm.trans hg).symm (Option.some_ne_none _)
  ne_nil g _ _ hg := absurd ((h g).symm.trans hg).symm (Option.some_ne_none _)
  grp_nil := h .nil
  worker g _ _ _ _ hg := absurd ((h g).symm.trans hg).symm (Option.some_ne_none _)

namespace Life

variable {ℓ : Life} {n k : ℕ} {m : ExecutableMember}

theorem manned (ℓ : Life) (n : ℕ) : (ℓ.stateAt n).view.Manned := by
  refine view_invariant (View.manned_of_grp fun g => rfl) (fun v l v' _ hl hv => hl.manned hv)
    (fun σ now st _ => View.manned_of_grp fun g => ?_) n
  show (((σ.importState ℓ.env now st).groups.lookup g).map _) = none
  rw [Impl.groups_importState]
  rfl

/-! ### Generations -/

/-- **The counter of generations never goes back**, and what is handed out is above it. -/
theorem generations (ℓ : Life) (n : ℕ) :
    (ℓ.stateAt n).nextGenerationValue ≤ (ℓ.stateAt (n + 1)).nextGenerationValue ∧
      ∀ m ∈ ℓ.emitted n, (ℓ.stateAt n).nextGenerationValue ≤ m.generation.value ∧
        m.generation.value < (ℓ.stateAt (n + 1)).nextGenerationValue := by
  unfold emitted
  cases ht : ℓ.turns[n]? with
  | none =>
    have hsame : ℓ.stateAt (n + 1) = ℓ.stateAt n := Machine.stateAt_succ_of_none ht
    rw [hsame]
    exact ⟨le_rfl, List.forall_mem_nil _⟩
  | some t =>
    rw [stateAt_succ ht]
    cases t with
    | call c =>
      obtain ⟨hnext, hmap⟩ := (Impl.effects_step ℓ.env (ℓ.wf n) c).generations
      have hafter : ((ℓ.stateAt n).turn ℓ.env (.call c)).1.nextGenerationValue = _ := hnext
      rw [hafter]
      refine ⟨Nat.le_add_right .., fun m hm => ?_⟩
      have hmem : m.generation.value ∈ (((ℓ.stateAt n).step ℓ.env c).2.members).map
          (·.generation.value) := List.mem_map_of_mem hm
      rw [hmap, List.mem_range'_1] at hmem
      exact hmem
    | importState now st =>
      refine ⟨?_, List.forall_mem_nil _⟩
      exact Impl.importState_rec
        (P := fun τ => (ℓ.stateAt n).nextGenerationValue ≤ τ.nextGenerationValue) ℓ.env now st
        (le_max_left ..) (fun _ _ h => h) (fun _ _ h => h) (fun _ _ h => h) (fun _ _ h => h)
        fun _ _ _ _ _ _ h => h

theorem nextGeneration_mono (ℓ : Life) {i j : ℕ} (h : i ≤ j) :
    (ℓ.stateAt i).nextGenerationValue ≤ (ℓ.stateAt j).nextGenerationValue :=
  monotone_nat_of_le_succ (fun n => (ℓ.generations n).1) h

/-! ### Ends -/

theorem awaits_of_mem_emitted (hm : m ∈ ℓ.emitted k) : (ℓ.stateAt (k + 1)).Awaits m := by
  unfold emitted at hm
  cases ht : ℓ.turns[k]? with
  | none =>
    rw [ht] at hm
    exact absurd hm List.not_mem_nil
  | some t =>
    rw [ht] at hm
    cases t with
    | importState now st => exact absurd hm List.not_mem_nil
    | call c =>
      obtain ⟨now, rfl, hmem⟩ := Impl.exists_runCycle_of_mem_members hm
      rw [stateAt_succ ht, Impl.turn, Impl.step_runCycle]
      exact Impl.awaits_of_mem_members (ℓ.wf k) hmem

/-- What is not awaited any more is not awaited again. -/
theorem not_awaits_of_le (hm : m ∈ ℓ.emitted k) {i j : ℕ} (hkj : k < j) (hji : j ≤ i)
    (hj : ¬(ℓ.stateAt j).Awaits m) : ¬(ℓ.stateAt i).Awaits m := by
  induction i, hji using Nat.le_induction with
  | base => exact hj
  | succ i hji ih =>
    intro hawaits
    cases ht : ℓ.turns[i]? with
    | none =>
      have hsame : ℓ.stateAt (i + 1) = ℓ.stateAt i := Machine.stateAt_succ_of_none ht
      exact ih (hsame ▸ hawaits)
    | some t =>
      rw [stateAt_succ ht] at hawaits
      rcases awaits_turn (ℓ.wf i) hawaits with hbefore | ⟨m', hm', hticket⟩
      · exact ih hbefore
      · -- it would have to be handed out once more, under the same generation
        have hgen : m'.generation = m.generation :=
          congrArg (fun x : RequestId × AttemptId × Generation × WorkerId => x.2.2.1) hticket
        have hnew := ((ℓ.generations i).2 m' (by rw [emitted, ht]; exact hm')).1
        have hold := ((ℓ.generations k).2 m hm).2
        have hmono := ℓ.nextGeneration_mono (show k + 1 ≤ i by omega)
        rw [hgen] at hnew
        omega

end Life

/-! ### Lives among schedulers -/

/-- **A life in which a scheduler reads what schedulers have written.** -/
structure Lineage extends Life where
  written : ∀ now st, Turn.importState now st ∈ turns →
    ∃ env' σ, Reachable env' σ ∧ st = σ.exportState

namespace Lineage

variable {n k : ℕ} {m : ExecutableMember}

theorem reachable (ℓ : Lineage) (n : ℕ) : Reachable ℓ.env (ℓ.stateAt n) := by
  refine (Life.invariant_of_turn (P := Reachable ℓ.env)
    (A := fun _ t => ∀ now st, t = .importState now st →
      ∃ env' σ, Reachable env' σ ∧ st = σ.exportState)
    (.fresh ℓ.env) (fun _ c _ h _ => h.step c) (fun τ now st _ h hwritten => ?_)
    (fun i t ht now st heq => ?_) n).2
  · obtain ⟨env', σ, hσ, rfl⟩ := hwritten now st rfl
    exact h.importState hσ now
  · exact ℓ.written now st (heq ▸ List.mem_of_getElem? ht)

/-- The counter of generations is no more than the number of dispatches, by this scheduler and
by those whose snapshots it has read: 64 bits are enough for it. -/
theorem exists_nextGenerationValue_le (ℓ : Lineage) (n : ℕ) :
    ∃ ms, HandedOut ℓ.env (ℓ.stateAt n) ms ∧
      (ℓ.stateAt n).nextGenerationValue ≤ ms.length + 1 := by
  obtain ⟨ms, hms⟩ := (ℓ.reachable n).exists_handedOut
  exact ⟨ms, hms, hms.nextGenerationValue_le⟩

/-- **The execution of a chunk ends once, in one of five ways.** In every life of a scheduler
among schedulers: what is handed out is awaited, without a break, until its completion is
accepted, its deadline has passed, its worker is lost, a retry is forced or a snapshot is read;
and it is never awaited again. -/
theorem ends_once (ℓ : Lineage) (hm : m ∈ ℓ.emitted k) (hkn : k < n) :
    (∀ i, k < i → i ≤ n → (ℓ.stateAt i).Awaits m) ∨
      ∃ j t, k < j ∧ j < n ∧ ℓ.turns[j]? = some t ∧ (ℓ.stateAt j).Ends ℓ.env m t ∧
        (∀ i, k < i → i ≤ j → (ℓ.stateAt i).Awaits m) ∧
        ∀ i, j < i → ¬(ℓ.stateAt i).Awaits m := by
  have hstep : ∀ j t, ℓ.turns[j]? = some t → (ℓ.stateAt j).Awaits m →
      (ℓ.stateAt (j + 1)).Awaits m ∨ (ℓ.stateAt j).Ends ℓ.env m t := by
    intro j t ht hj
    rw [Life.stateAt_succ ht]
    exact Impl.awaits_or_ends (ℓ.wf j) (ℓ.manned j) hj t
  refine (Machine.exists_end (M := lifetime ℓ.env) (P := fun σ => σ.Awaits m)
    (E := fun σ t => σ.Ends ℓ.env m t) hstep hkn (Life.awaits_of_mem_emitted hm)).imp_right ?_
  rintro ⟨j, t, hkj, hjn, ht, hE, hbefore, hafter⟩
  exact ⟨j, t, hkj, hjn, ht, hE, hbefore, fun i hji =>
    Life.not_awaits_of_le hm (Nat.lt_succ_of_lt hkj) hji hafter⟩

/-- A chunk whose worker is lost. -/
def bereft : Lineage where
  env := .standard
  turns := [.call ⟨0, .submitWithTokens (Run.plainRequest 1 2) [5, 6]⟩, .call ⟨0, .runCycle⟩,
    .call ⟨0, .rollEpoch⟩, .call ⟨0, .workerLost .nil⟩]
  written _ _ h := by simp at h

/-- The change of the epoch before has ended nothing. -/
theorem ends_once_bereft :
    ∃ m ∈ bereft.emitted 1, ∃ j t, 1 < j ∧ j < 4 ∧ bereft.turns[j]? = some t ∧
      (bereft.stateAt j).Ends .standard m t ∧
      (∀ i, 1 < i → i ≤ j → (bereft.stateAt i).Awaits m) ∧
      ∀ i, j < i → ¬(bereft.stateAt i).Awaits m := by
  have hids : (bereft.emitted 1).map (·.requestId) = [⟨1⟩] := by decide +kernel
  have hback : ((bereft.stateAt 4).requests.lookup ⟨1⟩).map (·.inFlight) = some false := by
    decide +kernel
  obtain ⟨m, hm, hid⟩ := List.mem_map.mp (hids ▸ List.mem_singleton_self (⟨1⟩ : RequestId))
  refine ⟨m, hm, (ends_once bereft hm (show 1 < 4 by decide)).resolve_left fun hheld => ?_⟩
  obtain ⟨s, hs, hawaits⟩ := hheld 4 (by decide) le_rfl
  rw [hid] at hs
  rw [hs, Option.map_some, hawaits.inFlight] at hback
  exact Bool.noConfusion (Option.some.inj hback)

end Lineage

end PrefillFabric
