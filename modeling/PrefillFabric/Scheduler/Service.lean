import PrefillFabric.Scheduler.Accounts
import PrefillFabric.Scheduler.Formation
import PrefillFabric.Scheduler.GroupMemory
import PrefillFabric.Scheduler.Overrun
import PrefillFabric.Scheduler.Provision
import PrefillFabric.Scheduler.Queries
import PrefillFabric.Scheduler.Waiting

/-!
# Service by the local worker

`World.exists_quiesces` says that the loop of a scheduler comes to rest, and nothing about what
it has done by then. Here is the other half, for a scheduler that has no worker but the local
one, and on it the executor of the CPU: whatever the clock shows, when the loop has come to rest
every request that was not over is complete (`Run.driveUntilQuiescent_completes`).

Between two accesses of the loop the state is one in which some members are *in hand*: handed
out by the last cycle, in flight, and not yet reported. All other requests that are not over wait
(`Impl.Serving`). A cycle takes everything in hand that it dispatches; a report settles one
member, whose request goes on to its next chunk or is complete, and the chunks that are left are
one fewer. With nothing in hand no group is on file, the worker has all its units and nothing is
reserved, so that a cycle dispatches as long as a request waits.
-/

namespace PrefillFabric

/-! ### Members in hand -/

section Dispatching

variable {env : Env} {v v' : View} {ms : List ExecutableMember} {r : RequestId} {s : Rs}

/-- **What is handed out is awaited**, until the end of the cycle that hands it out. -/
theorem Effects.awaits_of_mem (h : Effects env Label.Dispatching v ms v') :
    ∀ m ∈ ms, ∃ s, v'.req m.requestId = some s ∧ s.Awaits m ∧ m.Carries s := by
  induction h with
  | refl => exact List.forall_mem_nil _
  | tail _ hl hL ih =>
    cases hl with
    | idle hidle =>
      refine List.forall_mem_append.mpr ⟨fun m hm => ?_, List.forall_mem_nil _⟩
      rw [hidle.req]
      exact ih m hm
    | launch hlaunch =>
      refine List.forall_mem_append.mpr ⟨fun m hm => ?_, fun m hm => ?_⟩
      · obtain ⟨s, hs, hawaits, hcarries⟩ := ih m hm
        exact ⟨s, hlaunch.req_of_live hs (Rs.isLive_iff.mpr ⟨hawaits.inFlight, hawaits.lifecycle⟩),
          hawaits, hcarries⟩
      · obtain ⟨i, hi⟩ := List.mem_iff_getElem?.mp hm
        obtain ⟨-, hw, s, -, -, hcarries, hreq, -⟩ := hlaunch.member i m hi
        exact ⟨_, hreq, ⟨rfl, rfl, hcarries.attempt.symm, rfl, hw.symm⟩,
          ⟨hcarries.attempt, hcarries.start, hcarries.count⟩⟩
    | _ => exact hL.elim

/-- A request that is not handed out is not touched. -/
theorem Effects.req_of_forall_ne (h : Effects env Label.Dispatching v ms v')
    (hr : ∀ m ∈ ms, m.requestId ≠ r) : v'.req r = v.req r := by
  induction h with
  | refl => rfl
  | tail _ hl hL ih =>
    obtain ⟨hold, hnew⟩ := List.forall_mem_append.mp hr
    cases hl with
    | idle hidle => exact (congrFun hidle.req r).trans (ih hold)
    | launch hlaunch => exact (hlaunch.others r hnew).trans (ih hold)
    | _ => exact hL.elim

/-- Nor does a cycle that dispatches make a request known. -/
theorem Effects.req_eq_none (h : Effects env Label.Dispatching v ms v') (hr : v.req r = none) :
    v'.req r = none := by
  induction h with
  | refl => exact hr
  | tail _ hl hL ih =>
    rcases hl.req_eq_none_or_enter ih with hnone | ⟨-, -, -, rfl, -⟩
    · exact hnone
    · exact hL.elim

/-- One that is handed out keeps its place in its plan. -/
theorem Effects.exists_kept (h : Effects env Label.Dispatching v ms v') (hs : v.req r = some s) :
    ∃ s', v'.req r = some s' ∧ s'.request = s.request ∧ s'.plan = s.plan ∧
      s'.nextChunkIndex = s.nextChunkIndex ∧ s'.cancelPending = s.cancelPending ∧
      (s'.lifecycle = s.lifecycle ∨
        s.lifecycle.isTerminal = false ∧ s'.lifecycle.isTerminal = false) := by
  refine h.exists_of_fate (fun _ _ t t' hl hfate ht => ?_) hs ⟨rfl, rfl, rfl, rfl, Or.inl rfl⟩
  cases hfate with
  | keep => exact ht
  | launch _ _ hwait =>
    obtain ⟨hrequest, hplan, hindex, hcancel, hstage⟩ := ht
    have hlive := Rs.isTerminal_of_isWaiting hwait
    refine ⟨hrequest, hplan, hindex, hcancel, Or.inr ⟨?_, rfl⟩⟩
    rcases hstage with heq | ⟨hbefore, -⟩
    · rwa [← heq]
    · exact hbefore
  | _ => exact hl.elim

end Dispatching

/-! ### Requests that can be served -/

namespace Rs

variable {env : Env} {d : WorkerDescriptor} {budget : ℕ} {s t : Rs}

/-- The chunks that are left of a request. -/
def chunksLeft (s : Rs) : ℕ :=
  if s.lifecycle.isTerminal then 0 else s.plan.chunks.length - s.nextChunkIndex

/-- **A request that a worker can serve** whatever comes: it is never late, nobody wants it
cancelled, the worker has its backend, its chunks can be numbered, and a group of them fits into
the memory. -/
structure Servable (env : Env) (d : WorkerDescriptor) (budget : ℕ) (s : Rs) : Prop where
  deadline : s.request.deadline = none
  maxQueueDelay : s.request.maxQueueDelay = none
  cancelPending : s.cancelPending = false
  backend : (makeCompatKey env s.request).backend = kBackendAny ∨ d.backend = kBackendAny ∨
    d.backend = (makeCompatKey env s.request).backend
  few : s.plan.chunks.length < 2 ^ 32
  fits : ∀ c ∈ s.plan.chunks,
    max 1 env.cfg.maxRequestsPerGroup.toNat * c.memoryEstimateBytes.toNat ≤ budget

theorem Servable.of_same (h : s.Servable env d budget) (hrequest : t.request = s.request)
    (hplan : t.plan = s.plan) (hcancel : t.cancelPending = s.cancelPending) :
    t.Servable env d budget where
  deadline := hrequest ▸ h.deadline
  maxQueueDelay := hrequest ▸ h.maxQueueDelay
  cancelPending := hcancel.trans h.cancelPending
  backend := hrequest ▸ h.backend
  few := hplan ▸ h.few
  fits := hplan ▸ h.fits

/-- **A chunk that succeeds** is one fewer, and its request waits for the next or is complete. -/
theorem Servable.finished (h : s.Servable env d budget) (hlive : s.lifecycle.isTerminal = false)
    (hlt : s.nextChunkIndex < s.plan.chunks.length) (a : AttemptId) :
    (s.finished env .success a).Servable env d budget ∧
      (s.finished env .success a).chunksLeft + 1 = s.chunksLeft ∧
      ((s.finished env .success a).isWaiting = true ∨
        (s.finished env .success a).lifecycle = .completed) := by
  have hfew := h.few
  have hmod : (s.nextChunkIndex + 1) % 2 ^ 32 = s.nextChunkIndex + 1 := Nat.mod_eq_of_lt (by omega)
  have hleft : s.chunksLeft = s.plan.chunks.length - s.nextChunkIndex :=
    if_neg (Bool.eq_false_iff.mp hlive)
  have hcancel : ¬(s.landed env).cancelPending = true := Bool.eq_false_iff.mp h.cancelPending
  rw [hleft]
  by_cases hnext : (s.nextChunkIndex + 1) % 2 ^ 32 < s.plan.chunks.length
  · have hadvanced : (s.landed env).advanced = { s.landed env with
        nextChunkIndex := (s.nextChunkIndex + 1) % 2 ^ 32, lifecycle := .queued } :=
      (if_neg hcancel).trans (if_pos hnext)
    rw [Rs.finished, settled, hadvanced, dropReservation_eq]
    refine ⟨h.of_same rfl rfl rfl, ?_, Or.inl (isWaiting_iff.mpr ⟨rfl, rfl, hnext⟩)⟩
    show s.plan.chunks.length - (s.nextChunkIndex + 1) % 2 ^ 32 + 1 = _
    omega
  · have hadvanced : (s.landed env).advanced = { s.landed env with lifecycle := .completed } :=
      (if_neg hcancel).trans (if_neg hnext)
    rw [Rs.finished, settled, hadvanced, dropReservation_eq]
    refine ⟨h.of_same rfl rfl rfl, ?_, Or.inr rfl⟩
    show 0 + 1 = _
    omega

end Rs

/-! ### The state of the loop -/

namespace Impl

variable {env : Env} {now : Nanoseconds} {σ τ : Impl} {d : WorkerDescriptor}
  {ms : List ExecutableMember} {m : ExecutableMember}

/-- **The local worker is alone**: it takes groups and executes them on the CPU, and no other
worker takes any. -/
structure Alone (d : WorkerDescriptor) (σ : Impl) : Prop where
  post : σ.posts .nil = some (d, some cpuExecutor)
  ready : d.state = .ready ∨ d.state = .registered
  capacity : 0 < d.capacityUnits.toNat
  only : ∀ w d' ex, σ.posts w = some (d', ex) → d'.state = .ready ∨ d'.state = .registered →
    w = .nil

theorem Alone.of_posts (h : σ.Alone d) (heq : τ.posts = σ.posts) : τ.Alone d :=
  ⟨heq ▸ h.post, h.ready, h.capacity, heq ▸ h.only⟩

/-- **The state of the loop** with some members in hand: these are in flight, and every other
request that is not over waits. -/
structure Serving (env : Env) (d : WorkerDescriptor) (ms : List ExecutableMember) (σ : Impl) :
    Prop extends σ.Regular env, σ.Alone d where
  balanced : σ.slots.Balanced
  nodup : (ms.map (·.requestId)).Nodup
  inHand : ∀ m ∈ ms, ∃ s, σ.view.req m.requestId = some s ∧ s.Awaits m ∧ m.Carries s
  servable : ∀ r s, σ.view.req r = some s → s.lifecycle.isTerminal = false →
    s.Servable env d σ.mem.budget ∧ (s.isWaiting = true ∨ ∃ m ∈ ms, m.requestId = r)

/-- The chunks that are left of all requests. -/
def chunksLeft (σ : Impl) : ℕ := AList.total (fun _ s => s.chunksLeft) σ.requests

theorem map_chunksLeft (σ : Impl) (r : RequestId) :
    (σ.requests.lookup r).map Rs.chunksLeft = (σ.view.req r).map Rs.chunksLeft :=
  (Option.map_map Rs.chunksLeft Rs.core _).symm

theorem lifecycle_eq_view (σ : Impl) (r : RequestId) :
    σ.lifecycle r = (σ.view.req r).map (·.lifecycle) :=
  (Option.map_map (fun s : Rs => s.lifecycle) Rs.core _).symm

/-- **Nothing has got lost**: the requests are the same, those that were over are as they were,
and the others are under way or complete. -/
def Furthers (σ τ : Impl) : Prop :=
  ∀ r, (σ.lifecycle r = none ∧ τ.lifecycle r = none) ∨
    ∃ l l', σ.lifecycle r = some l ∧ τ.lifecycle r = some l' ∧
      (l' = l ∨ l.isTerminal = false ∧ (l'.isTerminal = false ∨ l' = .completed))

theorem furthers_of_lifecycle_eq {r : RequestId} (h : τ.lifecycle r = σ.lifecycle r) :
    (σ.lifecycle r = none ∧ τ.lifecycle r = none) ∨
      ∃ l l', σ.lifecycle r = some l ∧ τ.lifecycle r = some l' ∧
        (l' = l ∨ l.isTerminal = false ∧ (l'.isTerminal = false ∨ l' = .completed)) := by
  rw [h]
  cases σ.lifecycle r with
  | none => exact Or.inl ⟨rfl, rfl⟩
  | some l => exact Or.inr ⟨l, l, rfl, rfl, Or.inl rfl⟩

theorem Furthers.refl (σ : Impl) : σ.Furthers σ := fun _ => furthers_of_lifecycle_eq rfl

theorem Furthers.trans {ρ : Impl} (h : σ.Furthers τ) (h' : τ.Furthers ρ) : σ.Furthers ρ := by
  intro r
  rcases h r with ⟨hnone, hnone'⟩ | ⟨l, l', hl, hl', hcase⟩
  · rcases h' r with ⟨-, hlast⟩ | ⟨l, -, hl, -⟩
    · exact Or.inl ⟨hnone, hlast⟩
    · exact absurd (hl.symm.trans hnone') (Option.some_ne_none l)
  · rcases h' r with ⟨hlast, -⟩ | ⟨l₁, l₂, hl₁, hl₂, hcase'⟩
    · exact absurd (hl'.symm.trans hlast) (Option.some_ne_none l')
    · obtain rfl := Option.some.inj (hl'.symm.trans hl₁)
      refine Or.inr ⟨l, l₂, hl, hl₂, ?_⟩
      rcases hcase with rfl | ⟨hlive, hend⟩
      · exact hcase'
      · rcases hcase' with rfl | ⟨-, hend'⟩
        · exact Or.inr ⟨hlive, hend⟩
        · exact Or.inr ⟨hlive, hend'⟩

/-! ### A cycle -/

theorem Serving.not_overdue (h : σ.Serving env d ms) (now : Nanoseconds) (r : RequestId) :
    ¬σ.Overdue now r := by
  rw [overdue_iff_view]
  rintro ⟨s, hs, hlive, hlate⟩
  have hs' := (h.servable r s hs hlive).1
  rcases hlate with hlate | hlate
  · simp [Rs.deadlinePassed, hs'.deadline] at hlate
  · simp [Rs.queueDelayPassed, hs'.maxQueueDelay] at hlate

theorem Serving.expirySweep_eq (h : σ.Serving env d ms) (now : Nanoseconds) :
    σ.expirySweep now = σ :=
  foldl_sweepRequest_of_not_overdue _ (h.not_overdue now)

theorem Serving.effects (h : σ.Serving env d ms) (now : Nanoseconds) :
    Effects env Label.Dispatching σ.view (σ.runCycle env now).2.members
      (σ.runCycle env now).1.view := by
  rw [runCycle_eq, h.expirySweep_eq]
  exact effects_dispatchPhase env now h.wf

theorem Serving.furthers_runCycle (h : σ.Serving env d ms) (now : Nanoseconds) :
    σ.Furthers (σ.runCycle env now).1 := by
  intro r
  rw [lifecycle_eq_view, lifecycle_eq_view]
  cases hs : σ.view.req r with
  | none =>
    rw [(h.effects now).req_eq_none hs]
    exact Or.inl ⟨rfl, rfl⟩
  | some s =>
    obtain ⟨t, ht, -, -, -, -, hstage⟩ := (h.effects now).exists_kept hs
    rw [ht]
    exact Or.inr ⟨_, _, rfl, rfl, hstage.imp_right (And.imp_right Or.inl)⟩

theorem Serving.chunksLeft_runCycle (h : σ.Serving env d ms) (now : Nanoseconds) :
    (σ.runCycle env now).1.chunksLeft = σ.chunksLeft := by
  refine AList.total_congr (f := Rs.chunksLeft) (fun _ n => n) fun r => ?_
  rw [map_chunksLeft, map_chunksLeft]
  cases hs : σ.view.req r with
  | none => rw [(h.effects now).req_eq_none hs]
  | some s =>
    obtain ⟨t, ht, -, hplan, hindex, -, hstage⟩ := (h.effects now).exists_kept hs
    have hover : t.lifecycle.isTerminal = s.lifecycle.isTerminal := by
      rcases hstage with heq | ⟨hs', ht'⟩
      · rw [heq]
      · rw [hs', ht']
    rw [ht, Option.map_some, Option.map_some, Rs.chunksLeft, hover, hplan, hindex]
    rfl

/-- **A cycle takes in hand what it hands out.** -/
theorem Serving.runCycle (h : σ.Serving env d []) (now : Nanoseconds) :
    (σ.runCycle env now).1.Serving env d (σ.runCycle env now).2.members := by
  have hregular : (σ.runCycle env now).1.Regular env := by
    have hstep := h.toRegular.step ⟨now, .runCycle⟩
    rwa [step_runCycle] at hstep
  have hbudget : (σ.runCycle env now).1.mem.budget = σ.mem.budget := by
    have hstep := memBudget_step env h.wf ⟨now, .runCycle⟩
    rwa [step_runCycle] at hstep
  refine ⟨hregular, h.toAlone.of_posts (posts_runCycle env now σ).1,
    (slots_runCycle env now h.wf).balanced h.balanced, (soundCycle h.wf env now).nodup,
    (h.effects now).awaits_of_mem, fun r t ht hlive => ?_⟩
  cases hs : σ.view.req r with
  | none => exact absurd (ht.symm.trans ((h.effects now).req_eq_none hs)) (Option.some_ne_none t)
  | some s =>
    obtain ⟨t', ht', hrequest, hplan, -, hcancel, hstage⟩ := (h.effects now).exists_kept hs
    obtain rfl := Option.some.inj (ht.symm.trans ht')
    have hlive' : s.lifecycle.isTerminal = false := by
      rcases hstage with heq | ⟨hbefore, -⟩
      · rwa [← heq]
      · exact hbefore
    obtain ⟨hservable, hwait⟩ := h.servable r s hs hlive'
    refine ⟨hbudget ▸ hservable.of_same hrequest hplan hcancel, ?_⟩
    by_cases hm : ∃ m ∈ (σ.runCycle env now).2.members, m.requestId = r
    · exact Or.inr hm
    · -- what is not handed out waits as before
      have hsame := (h.effects now).req_of_forall_ne fun m hmem hr => hm ⟨m, hmem, hr⟩
      obtain rfl := Option.some.inj (ht.symm.trans (hsame.trans hs))
      exact Or.inl (hwait.resolve_right fun ⟨m, hmem, _⟩ => absurd hmem List.not_mem_nil)

/-! ### With nothing in hand -/

/-- Nothing is in flight. -/
theorem Serving.not_live (h : σ.Serving env d []) {r : RequestId} {s : Rs}
    (hs : σ.view.req r = some s) : s.isLive = false := by
  refine Bool.eq_false_iff.mpr fun hlive => ?_
  obtain ⟨hflight, hover⟩ := Rs.isLive_iff.mp hlive
  rcases (h.servable r s hs hover).2 with hwait | ⟨m, hm, -⟩
  · exact absurd (hflight.symm.trans (Rs.isWaiting_iff.mp hwait).2.1) Bool.noConfusion
  · exact absurd hm List.not_mem_nil

/-- The local worker has all its units. -/
theorem Serving.busyUnits_eq (h : σ.Serving env d []) {ws : Ws}
    (hws : σ.workers.lookup .nil = some ws) : ws.busyUnits = 0 := by
  have hnone : σ.groupsOn .nil = 0 := by
    refine countOn_eq_zero fun gid gs hgs => ?_
    obtain ⟨r, hr⟩ := List.exists_mem_of_ne_nil _ (h.attached.ne_nil gid _ _ (view_grp hgs))
    obtain ⟨s, hs, hlive, -⟩ := h.attached.outstanding gid _ _ r (view_grp hgs) hr
    exact absurd ((h.not_live hs).symm.trans hlive) Bool.noConfusion
  have hbalanced : busyIn σ.workers .nil = σ.groupsOn .nil := h.balanced .nil
  rwa [hnone, busyIn, hws] at hbalanced

/-- It can take a group of any request that is not over. -/
theorem Serving.exists_eligible (h : σ.Serving env d []) {s : Rs}
    (hs : s.Servable env d σ.mem.budget) :
    ∃ w ws, σ.workers.lookup w = some ws ∧
      eligible (makeCompatKey env s.request).backend ws = true := by
  obtain ⟨ws, hws, hpost⟩ := Option.map_eq_some_iff.mp h.post
  obtain ⟨rfl, -⟩ := Prod.mk.inj hpost
  refine ⟨.nil, ws, hws, ?_⟩
  simp only [eligible, h.busyUnits_eq hws, Bool.and_eq_true, Bool.or_eq_true, beq_iff_eq,
    decide_eq_true_eq]
  exact ⟨⟨h.ready, h.capacity⟩, or_assoc.mpr hs.backend⟩

/-- Nothing is reserved. -/
theorem Serving.reserved_eq (h : σ.Serving env d []) : σ.mem.reserved = 0 :=
  (reservationsBalance_of_reserving h.sane h.reserving).reserved_eq_zero fun _ s hs =>
    h.not_live (s := s.core) (view_req hs)

/-- There is room for any group that is formed. -/
theorem Serving.affords (h : σ.Serving env d []) (now : Nanoseconds) {g : ExecutionGroup}
    (hg : g ∈ σ.formed env now) : σ.mem.Affords (σ.bytesOf g.rids) := by
  obtain ⟨htallied, hnext⟩ := formed_spec hg
  rw [h.expirySweep_eq] at hnext
  let k := max 1 env.cfg.maxRequestsPerGroup.toNat
  have hk : g.rids.length ≤ k := by
    rw [ExecutionGroup.rids, List.length_map]
    by_cases htwo : 2 ≤ g.members.length
    · exact (htallied.checked htwo).1.trans (le_max_right ..)
    · exact (show g.members.length ≤ 1 by omega).trans (le_max_left ..)
  -- each member needs at most a `k`-th of the budget
  have heach : ∀ b ∈ g.rids.map fun r => (σ.nextChunkOf r).memoryEstimateBytes.toNat,
      b ≤ σ.mem.budget / k := by
    intro b hb
    obtain ⟨r, hr, rfl⟩ := List.mem_map.mp hb
    obtain ⟨m, hm, rfl⟩ := List.mem_map.mp hr
    obtain ⟨s, hs, hwait, -⟩ := hnext m hm
    have hservable := (h.servable _ s hs (Rs.isTerminal_of_isWaiting hwait)).1
    have hchunk : s.nextChunk ∈ s.plan.chunks := Rs.nextChunk_mem hwait
    rw [nextChunkOf_eq, hs, Option.getD_some, Nat.le_div_iff_mul_le (by omega), Nat.mul_comm]
    exact hservable.fits _ hchunk
  refine Or.inr ?_
  rw [h.reserved_eq, Nat.zero_add, bytesOf]
  calc _ ≤ (g.rids.map fun r => (σ.nextChunkOf r).memoryEstimateBytes.toNat).length •
          (σ.mem.budget / k) := List.sum_le_card_nsmul _ _ heach
    _ = g.rids.length * (σ.mem.budget / k) := by rw [List.length_map]; rfl
    _ ≤ k * (σ.mem.budget / k) := Nat.mul_le_mul_right _ hk
    _ ≤ σ.mem.budget := Nat.mul_div_le _ _

/-- **A cycle dispatches as long as a request waits.** -/
theorem Serving.groups_ne_nil (h : σ.Serving env d []) (now : Nanoseconds) {r : RequestId} {s : Rs}
    (hs : σ.view.req r = some s) (hwait : s.isWaiting = true) :
    (σ.runCycle env now).2.groups ≠ [] := by
  obtain ⟨t, ht, rfl⟩ := exists_of_view_req hs
  have hpacked := packed_formed env now σ
  rw [h.expirySweep_eq] at hpacked
  have hr : r ∈ (σ.formed env now).flatMap (·.rids) :=
    hpacked.perm.mem_iff.mpr (mem_sortedCandidates.mpr (mem_candidates.mpr ⟨t, ht, hwait⟩))
  obtain ⟨g, hg, hrg⟩ := List.mem_flatMap.mp hr
  rw [groups_runCycle_ne_nil_iff h.wf, h.expirySweep_eq]
  refine ⟨g, hg, ?_, h.affords now hg⟩
  have hkeyed : ∃ u, (σ.expirySweep now).view.req r = some u ∧
      makeCompatKey env u.request = g.key := keyed_formGroups _ _ g hg r hrg
  rw [h.expirySweep_eq] at hkeyed
  obtain ⟨u, hu, hkey⟩ := hkeyed
  obtain rfl := Option.some.inj (hs.symm.trans hu)
  rw [backend_of_mem_formed hg, ← hkey]
  exact h.exists_eligible (h.servable r t.core hs (Rs.isTerminal_of_isWaiting hwait)).1

/-! ### Execution -/

/-- What the CPU makes of a member, as the loop reports it. -/
def answer (σ : Impl) (d : WorkerDescriptor) (m : ExecutableMember) : MemberResult :=
  { CpuExecutor.executeMember σ.tokenResolver m with
    epoch := σ.epoch
    worker := .nil
    boot := d.bootId }

/-- The results of a group are those of its members, one by one. -/
theorem Alone.resultsFor_eq (h : σ.Alone d) {dg : DispatchedGroup}
    (hdg : dg.assignedWorker = .nil) :
    σ.resultsFor dg = dg.group.members.map (σ.answer d) := by
  obtain ⟨ws, hws, hpost⟩ := Option.map_eq_some_iff.mp h.post
  obtain ⟨rfl, hexec⟩ := Prod.mk.inj hpost
  rw [resultsFor, hdg, hws, Option.bind_some, hexec]
  exact List.map_map

/-- A result is for the member it was computed from. -/
theorem ticket_executeMember (tokens : InMemoryTokenResolver) (m : ExecutableMember) :
    (CpuExecutor.executeMember tokens m).requestId = m.requestId ∧
      (CpuExecutor.executeMember tokens m).attemptId = m.attemptId ∧
      (CpuExecutor.executeMember tokens m).generation = m.generation := by
  rw [CpuExecutor.executeMember]
  dsimp only
  split_ifs
  · exact ⟨rfl, rfl, rfl⟩
  · cases tokens.resolveTokens m.requestId m.tokenStart m.tokenCount <;> exact ⟨rfl, rfl, rfl⟩

/-- **A member that carries the next chunk of a request succeeds.** -/
theorem Regular.outcome_executeMember (h : σ.Regular env) {s : Rs}
    (hs : σ.view.req m.requestId = some s) (hlive : s.lifecycle.isTerminal = false)
    (hm : m.Carries s) :
    (CpuExecutor.executeMember σ.tokenResolver m).outcome = .success := by
  obtain ⟨t, ht, rfl⟩ := exists_of_view_req hs
  obtain ⟨tokens, htokens, hlen⟩ := h.provided m.requestId t ht
  have hsane := h.sane m.requestId t.core hs
  have hchunk : t.core.nextChunk ∈ t.core.plan.chunks :=
    List.mem_of_getElem? (Rs.getElem?_nextChunkIndex (hsane.pending hlive))
  rw [hsane.plan_eq] at hchunk
  have hpos := (ChunkPlanner.tokenCount_of_mem_plan env _ _ _ hchunk).1
  have hend := ChunkPlanner.end_le_of_mem_plan env _ _ _ hchunk
  rw [← hm.count] at hpos hend
  rw [← hm.start, PrefillRequest.remainingPrefillTokens_eq] at hend
  have hle : m.tokenStart + m.tokenCount ≤ tokens.length := by
    rw [hlen]
    exact hend.trans (Nat.sub_le ..)
  have hlt : tokens.length < 2 ^ 64 := hlen ▸ UInt64.toNat_lt _
  have hresolve : σ.tokenResolver.resolveTokens m.requestId m.tokenStart m.tokenCount =
      .ok (tokens.drop m.tokenStart) := by
    rw [InMemoryTokenResolver.resolveTokens, htokens, Option.bind_some, pointInto,
      Nat.mod_eq_of_lt (hle.trans_lt hlt), if_neg (Nat.not_lt.mpr hle)]
  rw [CpuExecutor.executeMember, if_neg (by omega), hresolve]

/-! ### A report -/

/-- A report is about one request. -/
theorem view_req_reportCompletion_of_ne (env : Env) (now : Nanoseconds) (hwf : σ.view.Wf)
    {result : MemberResult} {r : RequestId} (hne : r ≠ result.requestId) :
    (σ.reportCompletion env now result).1.view.req r = σ.view.req r := by
  rcases effect_reportCompletion env now result hwf with ⟨-, hview⟩ | ⟨-, heffect⟩
  · rw [hview]
  · generalize (σ.reportCompletion env now result).1.view = v at heffect
    cases heffect with
    | finish _ _ => exact Function.update_of_ne hne ..

/-- The result of a member in hand is accepted. -/
theorem Serving.accepts (h : σ.Serving env d (m :: ms)) {s : Rs}
    (hs : σ.view.req m.requestId = some s) (hawaits : s.Awaits m) :
    σ.view.Accepts (σ.answer d m) s := by
  obtain ⟨hid, hattempt, hgen⟩ := ticket_executeMember σ.tokenResolver m
  obtain ⟨ws, hws, hpost⟩ := Option.map_eq_some_iff.mp h.post
  obtain ⟨hdesc, -⟩ := Prod.mk.inj hpost
  have hboot : σ.view.boot .nil = some d.bootId := by
    show (σ.workers.lookup .nil).map _ = _
    rw [hws, Option.map_some, hdesc]
  exact
    { epoch_ne_nil := StrongId.ne_nil_of_pos h.epoch_pos
      epoch := rfl
      req := (congrArg σ.view.req hid).trans hs
      boot := Or.inr hboot
      attempt := hattempt.trans hawaits.attempt.symm
      generation := hgen.trans hawaits.generation.symm
      lifecycle := hawaits.lifecycle
      inFlight := hawaits.inFlight
      worker := Or.inl rfl }

/-- **What a report makes of the requests**: that of its member has one chunk fewer, and waits or
is complete; the others are as they were. -/
theorem Serving.exists_settled (h : σ.Serving env d (m :: ms)) (now : Nanoseconds) :
    let v := (σ.reportCompletion env now (σ.answer d m)).1.view
    (∃ s t, σ.view.req m.requestId = some s ∧ v.req m.requestId = some t ∧
      s.lifecycle.isTerminal = false ∧ t.Servable env d σ.mem.budget ∧
      t.chunksLeft + 1 = s.chunksLeft ∧ (t.isWaiting = true ∨ t.lifecycle = .completed)) ∧
    ∀ r, r ≠ m.requestId → v.req r = σ.view.req r := by
  intro v
  obtain ⟨s, hs, hawaits, hcarries⟩ := h.inHand m List.mem_cons_self
  have hlive := hawaits.lifecycle
  have hid : (σ.answer d m).requestId = m.requestId := (ticket_executeMember _ m).1
  have hout : (σ.answer d m).outcome = .success :=
    h.toRegular.outcome_executeMember hs hlive hcarries
  obtain ⟨a, ha⟩ := exists_finished_of_accepts env now h.wf (h.accepts hs hawaits)
  rw [hid, hout] at ha
  refine ⟨⟨s, _, hs, ha, hlive, ?_⟩,
    fun r hne => view_req_reportCompletion_of_ne env now h.wf (hid ▸ hne)⟩
  exact (h.servable _ s hs hlive).1.finished hlive ((h.sane _ s hs).pending hlive) a

/-- **A report settles one member**: what else is in hand still is. -/
theorem Serving.reportCompletion (h : σ.Serving env d (m :: ms)) (now : Nanoseconds) :
    (σ.reportCompletion env now (σ.answer d m)).1.Serving env d ms := by
  obtain ⟨⟨s, t, hs, ht, -, hservable, -, hstage⟩, hother⟩ := h.exists_settled now
  obtain ⟨hnew, hnodup⟩ := List.nodup_cons.mp h.nodup
  have hleaves := leaves_reportCompletion env now (σ.answer d m) σ
  refine ⟨h.toRegular.step ⟨now, .reportCompletion (σ.answer d m)⟩,
    h.toAlone.of_posts hleaves.posts, hleaves.reaches.balanced h.balanced, hnodup,
    fun x hx => ?_, fun r u hu hlive => ?_⟩
  · have hne : x.requestId ≠ m.requestId := fun heq => hnew (List.mem_map.mpr ⟨x, hx, heq⟩)
    rw [hother _ hne]
    exact h.inHand x (List.mem_cons_of_mem m hx)
  · rw [show (σ.reportCompletion env now (σ.answer d m)).1.mem.budget = σ.mem.budget from
      memBudget_step env h.wf ⟨now, .reportCompletion (σ.answer d m)⟩]
    by_cases hr : r = m.requestId
    · subst hr
      obtain rfl := Option.some.inj (ht.symm.trans hu)
      refine ⟨hservable, Or.inl (hstage.resolve_right fun hover => ?_)⟩
      rw [hover] at hlive
      exact Bool.noConfusion hlive
    · obtain ⟨hservable', hwait⟩ := h.servable r u ((hother r hr).symm.trans hu) hlive
      refine ⟨hservable', hwait.imp_right ?_⟩
      rintro ⟨x, hx, hxr⟩
      rcases List.mem_cons.mp hx with rfl | hx
      · exact absurd hxr.symm hr
      · exact ⟨x, hx, hxr⟩

theorem Serving.furthers_reportCompletion (h : σ.Serving env d (m :: ms)) (now : Nanoseconds) :
    σ.Furthers (σ.reportCompletion env now (σ.answer d m)).1 := by
  obtain ⟨⟨s, t, hs, ht, hlive, -, -, hstage⟩, hother⟩ := h.exists_settled now
  intro r
  by_cases hr : r = m.requestId
  · subst hr
    rw [lifecycle_eq_view, lifecycle_eq_view, hs, ht]
    exact Or.inr ⟨_, _, rfl, rfl,
      Or.inr ⟨hlive, hstage.imp_left Rs.isTerminal_of_isWaiting⟩⟩
  · refine furthers_of_lifecycle_eq ?_
    rw [lifecycle_eq_view, lifecycle_eq_view, hother r hr]

theorem Serving.chunksLeft_reportCompletion (h : σ.Serving env d (m :: ms)) (now : Nanoseconds) :
    (σ.reportCompletion env now (σ.answer d m)).1.chunksLeft + 1 = σ.chunksLeft := by
  obtain ⟨⟨s, t, hs, ht, -, -, hleft, -⟩, hother⟩ := h.exists_settled now
  have hsame : (σ.reportCompletion env now (σ.answer d m)).1.chunksLeft =
      AList.total (fun _ s => s.chunksLeft) (σ.requests.insert m.requestId t) := by
    refine AList.total_congr (f := Rs.chunksLeft) (fun _ n => n) fun r => ?_
    rw [map_chunksLeft, AList.lookup_insert_eq_ite]
    split_ifs with hr
    · rw [hr, ht]
    · rw [hother r hr, map_chunksLeft]
  have hinsert := AList.total_insert (fun _ s => Rs.chunksLeft s) σ.requests m.requestId t
  obtain ⟨s', hs', rfl⟩ := exists_of_view_req hs
  rw [hs', Option.elim_some, ← hsame] at hinsert
  change t.chunksLeft + 1 = s'.chunksLeft at hleft
  rw [← hleft] at hinsert
  show _ = AList.total (fun _ s => s.chunksLeft) σ.requests
  omega

/-- A report does not change how the members in hand are answered. -/
theorem answer_reportCompletion (env : Env) (now : Nanoseconds) (hwf : σ.view.Wf)
    (result : MemberResult) (d : WorkerDescriptor) :
    (σ.reportCompletion env now result).1.answer d = σ.answer d := by
  have hepoch : (σ.reportCompletion env now result).1.view.epoch = σ.view.epoch := by
    rcases effect_reportCompletion env now result hwf with ⟨-, hview⟩ | ⟨-, heffect⟩
    · rw [hview]
    · exact (heffect.authority_eq trivial).1
  funext m
  rw [answer, answer, tokenResolver_reportCompletion]
  exact congrArg (fun e => ({ CpuExecutor.executeMember σ.tokenResolver m with
    epoch := e, worker := .nil, boot := d.bootId } : MemberResult)) hepoch

end Impl

/-! ### The loop -/

namespace World

variable {W : World} {env : Env} {d : WorkerDescriptor} {p : Impl × ℕ}
  {ms ms' : List ExecutableMember}

/-- The loop has the scheduler to itself. -/
def Undisturbed (W : World) : Prop := ∀ k, W.others k = []

theorem Undisturbed.await_eq (hW : W.Undisturbed) (env : Env) (p : Impl × ℕ) :
    W.await env p = (p.1, p.2 + 1) := by
  rw [await, hW p.2, List.foldl_nil]

/-- **Between two moments of the loop**: what was in hand and no longer is has been settled, one
chunk for each. -/
structure Serves (env : Env) (d : WorkerDescriptor) (p : Impl × ℕ) (n : ℕ)
    (ms : List ExecutableMember) (q : Impl × ℕ) : Prop where
  serving : q.1.Serving env d ms
  furthers : p.1.Furthers q.1
  chunksLeft : q.1.chunksLeft + n = p.1.chunksLeft

theorem Serves.trans {q o : Impl × ℕ} {n k : ℕ} (h : Serves env d p n ms q)
    (h' : Serves env d q k ms' o) : Serves env d p (n + k) ms' o where
  serving := h'.serving
  furthers := h.furthers.trans h'.furthers
  chunksLeft := by
    have := h.chunksLeft
    have := h'.chunksLeft
    omega

/-- The results of some members, reported in order, settle these members. -/
theorem serves_foldl_report (hW : W.Undisturbed) {answer : ExecutableMember → MemberResult}
    (hp : p.1.Serving env d (ms ++ ms')) (hanswer : p.1.answer d = answer) :
    Serves env d p ms.length ms' ((ms.map answer).foldl (W.report env) p) := by
  induction ms generalizing p with
  | nil => exact ⟨hp, .refl _, rfl⟩
  | cons m ms ih =>
    have hreport : W.report env p (answer m) =
        ((p.1.reportCompletion env (W.clock p.2) (p.1.answer d m)).1, p.2 + 1) := by
      rw [report, hW.await_eq, ← hanswer]
    have hserving := hp.reportCompletion (W.clock p.2)
    rw [List.map_cons, List.foldl_cons, hreport, List.length_cons, Nat.add_comm]
    refine Serves.trans ⟨hserving, hp.furthers_reportCompletion _,
      hp.chunksLeft_reportCompletion _⟩ (ih hserving ?_)
    exact (Impl.answer_reportCompletion env _ hp.wf _ d).trans hanswer

/-- A group that is executed is settled. -/
theorem serves_execute (hW : W.Undisturbed) {dg : DispatchedGroup}
    (hdg : dg.assignedWorker = .nil) (hp : p.1.Serving env d (dg.group.members ++ ms)) :
    Serves env d p dg.group.members.length ms (W.execute env p dg) := by
  rw [execute, hW.await_eq]
  dsimp only
  rw [hp.toAlone.resultsFor_eq hdg]
  obtain ⟨hserving, hfurthers, hleft⟩ := serves_foldl_report (p := (p.1, p.2 + 1)) hW hp rfl
  exact ⟨hserving, hfurthers, hleft⟩

/-- So are all groups of a batch. -/
theorem serves_foldl_execute (hW : W.Undisturbed) {groups : List DispatchedGroup}
    (hgroups : ∀ dg ∈ groups, dg.assignedWorker = .nil)
    (hp : p.1.Serving env d (groups.flatMap (·.group.members))) :
    Serves env d p (groups.flatMap (·.group.members)).length []
      (groups.foldl (W.execute env) p) := by
  induction groups generalizing p with
  | nil => exact ⟨hp, .refl _, rfl⟩
  | cons dg groups ih =>
    obtain ⟨hdg, hrest⟩ := List.forall_mem_cons.mp hgroups
    rw [List.flatMap_cons] at hp
    have hfirst := serves_execute hW hdg hp
    rw [List.flatMap_cons, List.length_append, List.foldl_cons]
    exact hfirst.trans (ih hrest hfirst.serving)

theorem serves_cycle (hW : W.Undisturbed) (hp : p.1.Serving env d []) :
    Serves env d p 0 (W.cycle env p).2.members (W.cycle env p).1 ∧
      ∀ dg ∈ (W.cycle env p).2.groups, dg.assignedWorker = .nil := by
  have hcycle : W.cycle env p = (((p.1.runCycle env (W.clock p.2)).1, p.2 + 1),
      (p.1.runCycle env (W.clock p.2)).2) := by
    rw [cycle, hW.await_eq]
  have hserving := hp.runCycle (W.clock p.2)
  have hfurthers := hp.furthers_runCycle (W.clock p.2)
  have hleft := hp.chunksLeft_runCycle (W.clock p.2)
  have hposts := (Impl.posts_runCycle env (W.clock p.2) p.1).2
  rw [hcycle]
  generalize p.1.runCycle env (W.clock p.2) = ran at *
  refine ⟨⟨hserving, hfurthers, hleft⟩, fun dg hdg => ?_⟩
  obtain ⟨d', ex, hpost, hready⟩ := hposts dg hdg
  exact hp.only _ d' ex hpost hready

/-- **A round settles what its cycle hands out.** -/
theorem serves_round (hW : W.Undisturbed) (hp : p.1.Serving env d []) :
    Serves env d p (W.cycle env p).2.members.length [] (W.round env p) := by
  obtain ⟨hcycle, hgroups⟩ := serves_cycle hW hp
  have hround := hcycle.trans (serves_foldl_execute hW hgroups hcycle.serving)
  rwa [Nat.zero_add] at hround

/-- **The loop comes to rest** after no more rounds than chunks are left, with nothing in hand and
nothing lost. -/
theorem exists_quiesces_serving (hW : W.Undisturbed) (hp : p.1.Serving env d []) :
    ∃ c ≤ p.1.chunksLeft, (∀ j < c, (W.cycle env ((W.round env)^[j] p)).2.groups ≠ []) ∧
      (W.cycle env ((W.round env)^[c] p)).2.groups = [] ∧
      ((W.round env)^[c] p).1.Serving env d [] ∧ p.1.Furthers ((W.round env)^[c] p).1 := by
  generalize hn : p.1.chunksLeft = n
  induction n using Nat.strong_induction_on generalizing p with
  | _ n ih =>
    by_cases hidle : (W.cycle env p).2.groups = []
    · exact ⟨0, Nat.zero_le _, fun j hj => absurd hj (Nat.not_lt_zero j), hidle, hp, .refl _⟩
    obtain ⟨hserving, hfurthers, hleft⟩ := serves_round hW hp
    have hone : 1 ≤ (W.cycle env p).2.members.length := by
      obtain ⟨dg, hdg⟩ := List.exists_mem_of_ne_nil _ hidle
      obtain ⟨m, hm⟩ := List.exists_mem_of_ne_nil _ (Impl.members_ne_nil_of_mem_groups hdg)
      exact List.length_pos_of_mem (List.mem_flatMap.mpr ⟨dg, hdg, hm⟩)
    obtain ⟨c, hc, hbusy, hrest, hserving', hfurthers'⟩ := ih _ (by omega) hserving rfl
    refine ⟨c + 1, by omega, fun j hj => ?_, hrest, hserving', hfurthers.trans hfurthers'⟩
    cases j with
    | zero => exact hidle
    | succ j => exact hbusy j (Nat.lt_of_succ_lt_succ hj)

/-- With nothing dispatched by a cycle, everything is over. -/
theorem isTerminal_of_idle (hW : W.Undisturbed) (hp : p.1.Serving env d [])
    (hidle : (W.cycle env p).2.groups = []) {r : RequestId} {l : Lifecycle}
    (hl : (W.cycle env p).1.1.lifecycle r = some l) : l.isTerminal = true := by
  have hcycle : W.cycle env p = (((p.1.runCycle env (W.clock p.2)).1, p.2 + 1),
      (p.1.runCycle env (W.clock p.2)).2) := by
    rw [cycle, hW.await_eq]
  have heffects := hp.effects (W.clock p.2)
  have hserving := hp.runCycle (W.clock p.2)
  have hwaits : ∀ {r s}, p.1.view.req r = some s → s.isWaiting = true →
      (p.1.runCycle env (W.clock p.2)).2.groups ≠ [] := hp.groups_ne_nil (W.clock p.2)
  rw [hcycle] at hidle hl
  generalize p.1.runCycle env (W.clock p.2) = ran at *
  have hnone : ran.2.members = [] := by rw [DispatchBatch.members, hidle, List.flatMap_nil]
  rw [Impl.lifecycle_eq_view] at hl
  obtain ⟨s, hs, rfl⟩ := Option.map_eq_some_iff.mp hl
  change ran.1.view.req r = some s at hs
  refine Bool.eq_true_of_not_eq_false fun hlive => ?_
  rcases (hserving.servable r s hs hlive).2 with hwait | ⟨m, hm, -⟩
  · refine hwaits (r := r) ?_ hwait hidle
    rw [← hs, heffects.req_of_forall_ne]
    rw [hnone]
    exact List.forall_mem_nil _
  · rw [hnone] at hm
    exact absurd hm List.not_mem_nil

end World

/-- **A scheduler left to itself**: the local worker is alone and idle, and every request that is
not over waits and can be served. -/
structure Impl.LeftAlone (env : Env) (d : WorkerDescriptor) (σ : Impl) : Prop extends
    σ.Alone d where
  idle : ∀ w ws, σ.workers.lookup w = some ws → ws.busyUnits = 0
  waiting : ∀ r s, σ.requests.lookup r = some s → s.lifecycle.isTerminal = false →
    s.isWaiting = true ∧ s.Servable env d σ.mem.budget

theorem Impl.LeftAlone.serving {env : Env} {d : WorkerDescriptor} {σ : Impl}
    (h : σ.LeftAlone env d) (hregular : σ.Regular env) : σ.Serving env d [] := by
  have hwaiting : ∀ r s, σ.view.req r = some s → s.lifecycle.isTerminal = false →
      s.isWaiting = true ∧ s.Servable env d σ.mem.budget := by
    intro r u hu hlive
    obtain ⟨s, hs, rfl⟩ := Impl.exists_of_view_req hu
    obtain ⟨hwait, hservable⟩ := h.waiting r s hs hlive
    exact ⟨hwait, hservable.of_same rfl rfl rfl⟩
  refine ⟨hregular, h.toAlone, fun w => ?_, List.nodup_nil, List.forall_mem_nil _,
    fun r s hs hlive => ⟨(hwaiting r s hs hlive).2, Or.inl (hwaiting r s hs hlive).1⟩⟩
  -- no worker is busy, and no group is on file
  have hnone : σ.groupsOn w = 0 := by
    refine countOn_eq_zero fun gid gs hgs => ?_
    obtain ⟨r, hr⟩ := List.exists_mem_of_ne_nil _ (hregular.attached.ne_nil gid _ _ (view_grp hgs))
    obtain ⟨s, hs, hlive, -⟩ := hregular.attached.outstanding gid _ _ r (view_grp hgs) hr
    obtain ⟨hflight, hover⟩ := Rs.isLive_iff.mp hlive
    have hwait := (hwaiting r s hs hover).1
    exact absurd (hflight.symm.trans (Rs.isWaiting_iff.mp hwait).2.1) Bool.noConfusion
  show busyIn σ.workers w = σ.groupsOn w
  rw [hnone, busyIn]
  cases hw : σ.workers.lookup w with
  | none => rfl
  | some ws => exact h.idle w ws hw

/-- **The local worker serves everybody.** In every run of a new scheduler, from a state in which
the scheduler is left to itself, whatever its clock shows: the loop comes to rest, after no more
rounds than there are chunks left, and then every request that was not over is complete and every
other one is as it was. -/
theorem Run.driveUntilQuiescent_completes (env : Env) (calls : List Call) (n : ℕ) {W : World}
    (hW : W.Undisturbed) {d : WorkerDescriptor}
    (h : ((fresh env calls).stateAt n).LeftAlone env d) (k : ℕ) :
    ∃ c ≤ ((fresh env calls).stateAt n).chunksLeft,
      W.Quiesces env ((fresh env calls).stateAt n, k) c ∧
      ∀ maxCycles, c < maxCycles → ∀ r,
        (W.driveUntilQuiescent env maxCycles ((fresh env calls).stateAt n, k)).1.lifecycle r =
          (((fresh env calls).stateAt n).lifecycle r).map fun l =>
            if l.isTerminal then l else .completed := by
  have hserving := h.serving (regular env calls n)
  generalize (fresh env calls).stateAt n = σ at *
  obtain ⟨c, hc, hbusy, hidle, hserving', hfurthers⟩ :=
    World.exists_quiesces_serving (p := (σ, k)) hW hserving
  have hquiesces := World.quiesces_of_idle hbusy hidle
  refine ⟨c, hc, hquiesces, fun maxCycles hlt r => ?_⟩
  rw [hquiesces.ends maxCycles hlt]
  have hover := @World.isTerminal_of_idle W env d _ hW hserving' hidle r
  have hall := hfurthers.trans (World.serves_cycle hW hserving').1.furthers
  generalize (W.cycle env ((W.round env)^[c] (σ, k))).1.1 = τ at *
  rcases hall r with ⟨hnone, hnone'⟩ | ⟨l, l', hl, hl', hcase⟩
  · rw [hnone, hnone', Option.map_none]
  · have hover' := hover hl'
    rw [hl, hl', Option.map_some]
    rcases hcase with rfl | ⟨hlive, hlive' | rfl⟩
    · rw [if_pos hover']
    · exact absurd (hlive'.symm.trans hover') Bool.noConfusion
    · rw [hlive, if_neg Bool.false_ne_true]

/-- Two requests, one of several chunks, for a scheduler that executes on its own. -/
def Run.serviceCalls : List Call :=
  [⟨0, .attachExecutor (some cpuExecutor) ""⟩,
    ⟨0, .submitWithTokens (plainRequest 1 2) [5, 6]⟩,
    ⟨0, .submitWithTokens (plainRequest 2 1) [7]⟩]

theorem Run.stateAt_serviceCalls (env : Env) : (fresh env serviceCalls).stateAt 3 =
    ((((Impl.fresh env).attachExecutor (some cpuExecutor) "").submitWithTokens env 0
      (plainRequest 1 2) [5, 6]).1.submitWithTokens env 0 (plainRequest 2 1) [7]).1 := rfl

theorem Run.workers_serviceCalls (env : Env) :
    ((fresh env serviceCalls).stateAt 3).workers.entries =
      [⟨.nil, { desc := Impl.localDescriptor, localExec := some cpuExecutor }⟩] := by
  rw [stateAt_serviceCalls]
  exact congrArg (fun c => AList.entries (Prod.snd c))
    ((Impl.crew_submitWithTokens env 0 _ _ _).trans (Impl.crew_submitWithTokens env 0 _ _ _))

theorem Run.leftAlone_serviceCalls :
    ((fresh .standard serviceCalls).stateAt 3).LeftAlone .standard Impl.localDescriptor := by
  have hworkers := workers_serviceCalls .standard
  have hrequests : ((fresh .standard serviceCalls).stateAt 3).requests.entries.all fun e =>
      e.2.isWaiting && e.2.request.deadline.isNone && e.2.request.maxQueueDelay.isNone &&
        !e.2.cancelPending && (makeCompatKey .standard e.2.request).backend == kBackendAny &&
        decide (e.2.plan.chunks.length < 2 ^ 32) &&
        e.2.plan.chunks.all (·.memoryEstimateBytes == 0) := by
    decide +kernel
  generalize (fresh .standard serviceCalls).stateAt 3 = σ at *
  have hlookup : ∀ w ws, σ.workers.lookup w = some ws →
      w = .nil ∧ ws = { desc := Impl.localDescriptor, localExec := some cpuExecutor } := by
    intro w ws hws
    have hmem := AList.mem_lookup_iff.mp hws
    rw [hworkers, List.mem_singleton] at hmem
    cases hmem
    exact ⟨rfl, rfl⟩
  have hnil : σ.workers.lookup .nil =
      some { desc := Impl.localDescriptor, localExec := some cpuExecutor } :=
    AList.mem_lookup_iff.mpr (hworkers ▸ List.mem_singleton_self _)
  refine
    { post := by rw [Impl.posts, hnil, Option.map_some]
      ready := Or.inl rfl
      capacity := by decide
      only := fun w d' ex hpost _ => ?_
      idle := fun w ws hws => by rw [(hlookup w ws hws).2]
      waiting := fun r s hs _ => ?_ }
  · obtain ⟨ws, hws, -⟩ := Option.map_eq_some_iff.mp hpost
    exact (hlookup w ws hws).1
  · have hall := List.all_eq_true.mp hrequests _ (AList.mem_lookup_iff.mp hs)
    simp only [Bool.and_eq_true, decide_eq_true_eq, beq_iff_eq, Option.isNone_iff_eq_none,
      Bool.not_eq_true', List.all_eq_true] at hall
    obtain ⟨⟨⟨⟨⟨⟨hwait, hdeadline⟩, hdelay⟩, hcancel⟩, hbackend⟩, hfew⟩, hmem⟩ := hall
    refine ⟨hwait, hdeadline, hdelay, hcancel, Or.inl hbackend, hfew, fun c hc => ?_⟩
    rw [hmem c hc]
    exact Nat.zero_le _

/-- A clock that goes on by one at each access, and nobody else. -/
def World.ticking : World := ⟨fun k => k, fun _ => []⟩

/-- They are completed by a loop that may run four cycles. -/
theorem Run.driveUntilQuiescent_serviceCalls :
    ((fresh .standard serviceCalls).stateAt 3).LeftAlone .standard Impl.localDescriptor ∧
      ((World.ticking.driveUntilQuiescent .standard 4
        ((fresh .standard serviceCalls).stateAt 3, 0)).1.lifecycle ⟨1⟩ = some .completed) := by
  obtain ⟨c, hc, -, hends⟩ := driveUntilQuiescent_completes .standard serviceCalls 3
    (W := .ticking) (fun _ => rfl) leftAlone_serviceCalls 0
  have hleft : ((fresh .standard serviceCalls).stateAt 3).chunksLeft = 2 := by decide +kernel
  have hqueued : ((fresh .standard serviceCalls).stateAt 3).lifecycle ⟨1⟩ = some .queued := by
    decide +kernel
  refine ⟨leftAlone_serviceCalls, (hends 4 (by omega) ⟨1⟩).trans ?_⟩
  rw [hqueued]
  rfl

end PrefillFabric
