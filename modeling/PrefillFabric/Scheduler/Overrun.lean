import PrefillFabric.Scheduler.Drive
import PrefillFabric.Scheduler.Packing
import PrefillFabric.Scheduler.Slots
import PrefillFabric.Scheduler.Workers

/-!
# A request that is never finished

The index of a chunk is a number of 32 bits. A request planned in `2 ^ 32` chunks or more starts
over, in the same attempt and without using up a retry, when chunk number `2 ^ 32 - 1` has
succeeded: it can be dispatched any number of times (`exists_spends_dispatchCount_eq`).

The run is that of a single request on the local worker. Each round a cycle dispatches it and
its completion is reported; what makes the next round possible, that the worker has its unit
back and the group is gone, is what holds in every state without a request in flight.
-/

namespace PrefillFabric

/-! ### The chunk to execute -/

namespace ChunkPlanner

variable {env : Env} {req : PrefillRequest} {attempt : AttemptId} {seed : Generation}

/-- Where a chunk has one token there are as many chunks as tokens. -/
theorem chunkCount_of_one (hone : effectiveChunkTokenCount env req = 1) :
    chunkCount env req = req.remainingPrefillTokens := by
  have hloop : ∀ fuel offset idx, offset + fuel = req.remainingPrefillTokens →
      (chunksFrom env req .nil .nil fuel offset idx).length = fuel := by
    intro fuel
    induction fuel with
    | zero => exact fun _ _ _ => rfl
    | succ fuel ih =>
      intro offset idx hfuel
      have hlt : offset < req.remainingPrefillTokens := by omega
      have hsize : min (req.remainingPrefillTokens - offset) 1 = 1 := by omega
      rw [chunksFrom, if_pos hlt, hone, hsize, List.length_cons, ih _ _ (by omega)]
  exact hloop _ 0 0 (Nat.zero_add _)

/-- No chunk of a request that is estimated to need no memory needs any. -/
theorem memoryEstimateBytes_eq_zero (hmem : req.memoryEstimateBytes = 0) {c : PrefillChunk}
    (hc : c ∈ (plan env req attempt seed).chunks) : c.memoryEstimateBytes = 0 := by
  have hloop : ∀ fuel offset idx, ∀ c ∈ chunksFrom env req attempt seed fuel offset idx,
      c.memoryEstimateBytes = 0 := by
    intro fuel
    induction fuel with
    | zero => exact fun _ _ c hc => absurd hc List.not_mem_nil
    | succ fuel ih =>
      intro offset idx c hc
      rw [chunksFrom] at hc
      split_ifs at hc
      · rcases List.mem_cons.mp hc with rfl | hc
        · simp [chunkAt, proportional, hmem]
        · exact ih _ _ c hc
      · exact absurd hc List.not_mem_nil
  exact hloop _ _ _ c hc

end ChunkPlanner

section Cursor

variable {env : Env} {v v' : View} {l : Label} {r : RequestId} {s s' : Rs}
  {ms : List ExecutableMember}

/-- A cycle does not touch the index of the next chunk, a pending cancellation, nor what is
counted. -/
theorem Fate.cursor_eq (h : Fate env v r s l s') (hl : l.Cyclic) :
    s'.nextChunkIndex = s.nextChunkIndex ∧ s'.cancelPending = s.cancelPending ∧
      s'.completedUncached = s.completedUncached := by
  cases h with
  | keep => exact ⟨rfl, rfl, rfl⟩
  | expire =>
    rw [Rs.expired, Rs.dropReservation_eq]
    exact ⟨rfl, rfl, rfl⟩
  | launch => exact ⟨rfl, rfl, rfl⟩
  | _ => exact hl.elim

theorem Effects.exists_cursor_eq (h : Effects env Label.Cyclic v ms v') (hs : v.req r = some s) :
    ∃ s', v'.req r = some s' ∧ s'.nextChunkIndex = s.nextChunkIndex ∧
      s'.cancelPending = s.cancelPending ∧ s'.completedUncached = s.completedUncached := by
  refine h.exists_of_fate (fun _ _ t t' hl hfate ht => ?_) hs ⟨rfl, rfl, rfl⟩
  obtain ⟨hidx, hcancel, hcounted⟩ := ht
  obtain ⟨hidx', hcancel', hcounted'⟩ := hfate.cursor_eq hl
  exact ⟨hidx'.trans hidx, hcancel'.trans hcancel, hcounted'.trans hcounted⟩

/-- **The next chunk, in 32 bits**: a request with enough chunks is queued again. -/
theorem Rs.isWaiting_finished (hcancel : s.cancelPending = false)
    (hlt : (s.nextChunkIndex + 1) % 2 ^ 32 < s.plan.chunks.length) (a : AttemptId) :
    (s.finished env .success a).isWaiting = true ∧
      (s.finished env .success a).cancelPending = false ∧
      (s.finished env .success a).nextChunkIndex = (s.nextChunkIndex + 1) % 2 ^ 32 := by
  have hadvanced : (s.landed env).advanced = { s.landed env with
      nextChunkIndex := (s.nextChunkIndex + 1) % 2 ^ 32, lifecycle := .queued } :=
    (if_neg (Bool.eq_false_iff.mp hcancel)).trans (if_pos hlt)
  rw [Rs.finished, Rs.settled, hadvanced, Rs.dropReservation_eq]
  refine ⟨?_, hcancel, rfl⟩
  rw [Rs.isWaiting_iff]
  exact ⟨rfl, rfl, hlt⟩

end Cursor

/-- The operations on requests, and a change of the epoch. -/
def Op.Routine : Op → Prop
  | submitWithTokens _ _ | runCycle | reportCompletion _ | cancel _ | forceRetry _ | rollEpoch =>
    True
  | _ => False

theorem Op.Routine.steady {op : Op} (h : op.Routine) : op.Steady := by
  cases op <;> trivial

/-- A request that asks for nothing in particular. -/
structure PrefillRequest.Undemanding (req : PrefillRequest) : Prop where
  deadline : req.deadline = none
  maxQueueDelay : req.maxQueueDelay = none
  memoryEstimateBytes : req.memoryEstimateBytes = 0
  backend : req.backend = kBackendAny

namespace Impl

variable {env : Env} {now : Nanoseconds} {σ : Impl} {r : RequestId} {s : Rs}

/-! ### A cycle with one request -/

/-- **A request that is alone and needs no memory is dispatched**, if there is a worker for it. -/
theorem groups_runCycle_ne_nil (hwf : σ.view.Wf) (hs : σ.requests.entries = [⟨r, s⟩])
    (hwait : s.isWaiting = true) (hdeadline : s.deadlinePassed now = false)
    (hdelay : s.queueDelayPassed now = false) (hmem : s.nextChunk.memoryEstimateBytes = 0)
    {w : WorkerId} {ws : Ws} (hw : σ.workers.lookup w = some ws)
    (helig : eligible (makeCompatKey env s.request).backend ws = true) :
    (σ.runCycle env now).2.groups ≠ [] := by
  have hlookup : σ.requests.lookup r = some s :=
    AList.mem_lookup_iff.mpr (by rw [hs]; exact List.mem_singleton_self _)
  have hsweep : σ.expirySweep now = σ := by
    have hkeys : σ.requests.keys = [r] := by
      rw [AList.keys, hs]
      rfl
    rw [expirySweep, hkeys, List.foldl_cons, List.foldl_nil, sweepRequest, hlookup]
    simp [hdeadline, hdelay]
  have hcands : σ.sortedCandidates env now = [r] := by
    rw [sortedCandidates, candidates, hs]
    simp [hwait]
  have hform : (formGroups env [r] σ).2 = [.opened env ⟨σ.nextGroupValue⟩ r s] := by
    simp [formGroups, placeCandidate, hlookup, hwait, packInto]
  rw [groups_runCycle_ne_nil_iff hwf, formed, hsweep, hcands, hform]
  refine ⟨_, List.mem_singleton_self _, ⟨w, ws, hw, helig⟩, Or.inl ?_⟩
  have hrids : (ExecutionGroup.opened env ⟨σ.nextGroupValue⟩ r s).rids = [r] := rfl
  have hchunk : σ.nextChunkOf r = s.nextChunk := by rw [nextChunkOf, hlookup, Option.getD_some]
  rw [hrids, bytesOf_cons, hchunk, hmem]
  rfl

/-- **What a cycle makes of a request that is alone**, if it dispatches anything: the request is in
flight, once, with its cursor as it was. -/
theorem exists_live_of_groups_ne_nil (hwf : σ.view.Wf) (hs : σ.requests.lookup r = some s)
    (honly : ∀ x, x ≠ r → σ.requests.lookup x = none)
    (hgroups : (σ.runCycle env now).2.groups ≠ []) :
    dispatchCount r (σ.runCycle env now).2.members = 1 ∧
      ∃ t, (σ.runCycle env now).1.requests.lookup r = some t ∧ t.request = s.request ∧
        t.isLive = true ∧ t.nextChunkIndex = s.nextChunkIndex ∧
        t.cancelPending = s.cancelPending ∧ t.completedUncached = s.completedUncached := by
  have hsound := soundCycle hwf env now
  obtain ⟨m, hm⟩ : ∃ m, m ∈ (σ.runCycle env now).2.members := by
    obtain ⟨dg, hdg⟩ := List.exists_mem_of_ne_nil _ hgroups
    obtain ⟨m, hm⟩ := List.exists_mem_of_ne_nil _ (members_ne_nil_of_mem_groups hdg)
    exact ⟨m, List.mem_flatMap.mpr ⟨dg, hdg, hm⟩⟩
  have hid : m.requestId = r := by
    by_contra hne
    obtain ⟨t, ht, -⟩ := hsound.carries m hm
    exact absurd (ht.symm.trans (honly _ hne)) (Option.some_ne_none t)
  refine ⟨List.count_eq_one_of_mem hsound.nodup (hid ▸ List.mem_map_of_mem hm), ?_⟩
  obtain ⟨t, ht, hflight, hdispatched⟩ := ((hsound.dispatched r).mpr ⟨m, hm, hid⟩).2
  have heffects := effects_runCycle env now hwf
  obtain ⟨u, hu, hcursor⟩ := heffects.exists_cursor_eq (view_req hs)
  obtain ⟨u', hu', hsame⟩ := heffects.exists_request (view_req hs)
  obtain rfl := Option.some.inj ((view_req ht).symm.trans hu)
  obtain rfl := Option.some.inj ((view_req ht).symm.trans hu')
  refine ⟨t, ht, hsame, ?_, hcursor⟩
  rw [Rs.isLive_iff, hdispatched]
  exact ⟨hflight, rfl⟩

/-! ### Rounds -/

/-- The descriptor of the local worker of a new scheduler. -/
def localDescriptor : WorkerDescriptor where
  workerId := .nil
  bootId := ⟨1⟩
  host := "local"
  backend := kBackendCpu
  capacityUnits := 1
  state := .ready

/-- A scheduler with no other request, and with the worker it started with. -/
structure Tidy (req : PrefillRequest) (σ : Impl) : Prop where
  only : ∀ r, r ≠ req.requestId → σ.requests.lookup r = none
  attached : σ.view.Attached
  balanced : σ.slots.Balanced
  worker : σ.descs .nil = some localDescriptor
  epoch_pos : 0 < σ.epoch.value

/-- **A request is alone**, and waits with a given chunk to execute. -/
structure Lone (req : PrefillRequest) (idx : ℕ) (σ : Impl) : Prop extends σ.Tidy req where
  record : ∃ s, σ.requests.lookup req.requestId = some s ∧ s.request = req ∧ s.isWaiting = true ∧
    s.cancelPending = false ∧ s.nextChunkIndex = idx

variable {req : PrefillRequest} {idx : ℕ} {ms : List ExecutableMember}

/-- The local worker is idle where the only request is not in flight. -/
theorem Lone.exists_eligible (h : σ.Lone req idx) :
    ∃ ws, σ.workers.lookup .nil = some ws ∧ eligible kBackendAny ws = true := by
  obtain ⟨s, hs, -, hwait, -⟩ := h.record
  have hnone : σ.groupsOn .nil = 0 := by
    refine countOn_eq_zero fun gid gs hgs => ?_
    obtain ⟨r, hr⟩ := List.exists_mem_of_ne_nil _ (h.attached.ne_nil gid _ _ (view_grp hgs))
    obtain ⟨u, hu, hlive, -⟩ := h.attached.outstanding gid _ _ r (view_grp hgs) hr
    obtain ⟨t, ht, rfl⟩ := exists_of_view_req hu
    have hid : r = req.requestId := by
      by_contra hne
      exact absurd (ht.symm.trans (h.only r hne)) (Option.some_ne_none t)
    obtain rfl := Option.some.inj (ht.symm.trans (hid ▸ hs))
    have hidle := (Rs.isWaiting_iff.mp hwait).2.1
    exact absurd (hidle.symm.trans (Rs.isLive_iff.mp hlive).1) Bool.noConfusion
  obtain ⟨ws, hws, hdesc⟩ := Option.map_eq_some_iff.mp h.worker
  have hbusy : ws.busyUnits = 0 := by
    have hbalanced : busyIn σ.workers .nil = σ.groupsOn .nil := h.balanced .nil
    rwa [hnone, busyIn, hws] at hbalanced
  refine ⟨ws, hws, ?_⟩
  simp [eligible, hdesc, hbusy, localDescriptor]

/-- The next cycle dispatches it. -/
theorem Lone.groups_ne_nil (h : σ.Lone req idx) (hspends : Spends Op.Routine env σ ms)
    (hreq : req.Undemanding) (now : Nanoseconds) : (σ.runCycle env now).2.groups ≠ [] := by
  obtain ⟨s, hs, hsame, hwait, -⟩ := h.record
  obtain ⟨ws, hws, helig⟩ := h.exists_eligible
  have hbackend : (makeCompatKey env s.request).backend = kBackendAny := by
    rw [hsame]
    simp [makeCompatKey, hreq.backend]
  have hmem : s.nextChunk.memoryEstimateBytes = 0 := by
    have hsteady := hspends.mono fun _ => Op.Routine.steady
    have hplan : s.plan = ChunkPlanner.plan env req s.attempt .nil :=
      hsame ▸ ((hsteady.charged req.requestId).known s.core (view_req hs)).1.plan_eq
    have hchunk : s.nextChunk ∈ s.plan.chunks := Rs.nextChunk_mem hwait
    rw [hplan] at hchunk
    exact ChunkPlanner.memoryEstimateBytes_eq_zero hreq.memoryEstimateBytes hchunk
  refine groups_runCycle_ne_nil hspends.handedOut.wf (AList.entries_eq_singleton hs h.only) hwait
    ?_ ?_ hmem hws (hbackend ▸ helig)
  · simp [Rs.deadlinePassed, hsame, hreq.deadline]
  · simp [Rs.queueDelayPassed, hsame, hreq.maxQueueDelay]

theorem Tidy.step {c : Call} (h : σ.Tidy req) (hwf : σ.view.Wf) (hsubmit : ¬c.op.Submits)
    (hslots : σ.KeepsSlots (.call c)) (hdescs : (σ.step env c).1.descs = σ.descs) :
    (σ.step env c).1.Tidy req where
  only r hne := by
    have hsame : ((σ.step env c).1.requests.lookup r).map (·.request) = _ :=
      map_request_step hwf hsubmit r
    rwa [h.only r hne, Option.map_none, Option.map_eq_none_iff] at hsame
  attached := (effects_step env hwf c).invariant (fun _ _ _ hl _ => hl.attached) h.attached
  balanced := (slots_step env hwf h.balanced hslots).1
  worker := hdescs ▸ h.worker
  epoch_pos := (effects_step env hwf c).invariant (P := fun v => 0 < v.epoch.value)
    (fun _ _ _ hl _ hv => hv.trans_le hl.epoch_le) h.epoch_pos

/-- The cycle dispatches the request once, and leaves its cursor as it was. -/
theorem Lone.runCycle (h : σ.Lone req idx) (hspends : Spends Op.Routine env σ ms)
    (hreq : req.Undemanding) :
    dispatchCount req.requestId (σ.runCycle env 0).2.members = 1 ∧
      ∃ s, (σ.runCycle env 0).1.requests.lookup req.requestId = some s ∧ s.request = req ∧
        s.isLive = true ∧ s.cancelPending = false ∧ s.nextChunkIndex = idx := by
  obtain ⟨s, hs, hsame, -, hcancel, hidx⟩ := h.record
  obtain ⟨hone, t, ht, hsame', hlive, hidx', hcancel', -⟩ := exists_live_of_groups_ne_nil
    hspends.handedOut.wf hs h.only (h.groups_ne_nil hspends hreq 0)
  exact ⟨hone, t, ht, hsame'.trans hsame, hlive, hcancel'.trans hcancel, hidx'.trans hidx⟩

/-- Its completion puts it back in the queue, with the next chunk to execute. -/
theorem Tidy.exists_completion (h : σ.Tidy req) (hspends : Spends Op.Routine env σ ms)
    (hs : σ.requests.lookup req.requestId = some s) (hsame : s.request = req)
    (hlive : s.isLive = true) (hcancel : s.cancelPending = false)
    (hmany : 2 ^ 32 ≤ ChunkPlanner.chunkCount env req) :
    ∃ σ', Spends Op.Routine env σ' ms ∧ σ'.Lone req ((s.nextChunkIndex + 1) % 2 ^ 32) := by
  obtain ⟨hflight, hover⟩ := Rs.isLive_iff.mp hlive
  have hwf := hspends.handedOut.wf
  have hlength := (hspends.mono fun _ => Op.Routine.steady).length_chunks hs
  rw [hsame] at hlength
  have hlt : (s.nextChunkIndex + 1) % 2 ^ 32 < s.core.plan.chunks.length := by
    change _ < s.plan.chunks.length
    omega
  obtain ⟨result, hid, hout, haccepts⟩ : ∃ result : MemberResult,
      result.requestId = req.requestId ∧ result.outcome = .success ∧
        σ.view.Accepts result s.core :=
    ⟨_, rfl, rfl, accepts_of_live h.epoch_pos hs hflight hover⟩
  obtain ⟨a, ha⟩ := exists_finished_of_accepts env 0 hwf haccepts
  rw [hid, hout] at ha
  obtain ⟨t, ht, hcore⟩ := exists_of_view_req ha
  have hfinished : (s.core.finished env .success a).isWaiting = true ∧ _ :=
    Rs.isWaiting_finished (s := s.core) hcancel hlt a
  rw [← hcore] at hfinished
  obtain ⟨hwait, hcancel', hidx⟩ := hfinished
  obtain ⟨u, hu, hrequest⟩ := (effects_step env hwf ⟨0, .reportCompletion result⟩).exists_request
    (view_req hs)
  have hspends' := hspends.step ⟨0, .reportCompletion result⟩ trivial
  have htidy : (σ.step env ⟨0, .reportCompletion result⟩).1.Tidy req :=
    h.step hwf id trivial (descs_reportCompletion env 0 result σ)
  have hstep : σ.step env ⟨0, .reportCompletion result⟩ =
      ((σ.reportCompletion env 0 result).1, .status (σ.reportCompletion env 0 result).2) := rfl
  rw [hstep] at hu hspends' htidy
  generalize (σ.reportCompletion env 0 result).1 = σ' at ht hu hspends' htidy
  obtain rfl := Option.some.inj ((view_req ht).symm.trans hu)
  change Spends Op.Routine env σ' (ms ++ []) at hspends'
  rw [List.append_nil] at hspends'
  change t.request = s.request at hrequest
  exact ⟨σ', hspends', htidy, t, ht, hrequest.trans hsame, hwait, hcancel', hidx⟩

/-- **One round**: a cycle dispatches the request once, and when the completion is reported it
is alone and waits as before, with the next chunk to execute. -/
theorem Lone.exists_round (h : σ.Lone req idx) (hspends : Spends Op.Routine env σ ms)
    (hreq : req.Undemanding) (hmany : 2 ^ 32 ≤ ChunkPlanner.chunkCount env req) :
    ∃ σ' ms', Spends Op.Routine env σ' ms' ∧ σ'.Lone req ((idx + 1) % 2 ^ 32) ∧
      dispatchCount req.requestId ms' = dispatchCount req.requestId ms + 1 := by
  obtain ⟨hone, s, hs, hsame, hlive, hcancel, rfl⟩ := h.runCycle hspends hreq
  have hspends' := hspends.step ⟨0, .runCycle⟩ trivial
  have htidy : (σ.step env ⟨0, .runCycle⟩).1.Tidy req := by
    refine h.toTidy.step hspends.handedOut.wf id trivial ?_
    rw [step_runCycle]
    exact (runCycle_descs env 0 σ).1
  rw [step_runCycle] at hspends' htidy
  generalize σ.runCycle env 0 = ran at *
  change Spends Op.Routine env ran.1 (ms ++ ran.2.members) at hspends'
  obtain ⟨σ', hspends'', hlone⟩ := htidy.exists_completion hspends' hs hsame hlive hcancel hmany
  refine ⟨σ', ms ++ ran.2.members, hspends'', hlone, ?_⟩
  rw [dispatchCount_append, hone]

/-- The request as it is submitted to a new scheduler. -/
theorem lone_submitWithTokens {tokens : List UInt32} (hadmits : (fresh env).Admits env req)
    (htokens : tokens.length = req.promptTokenCount.toNat)
    (hpos : 0 < req.remainingPrefillTokens) :
    ((fresh env).submitWithTokens env 0 req tokens).1.Lone req 0 := by
  rcases (fresh env).submitWithTokens_cases env 0 req tokens with ⟨-, hnot, -⟩ | ⟨-, -, heq⟩
  · exact absurd ⟨hadmits, htokens⟩ hnot
  have hwf := wf_fresh env
  have heffects := effects_step env hwf ⟨0, .submitWithTokens req tokens⟩
  have hlookup : ∀ r, ((fresh env).submitWithTokens env 0 req tokens).1.requests.lookup r =
      if r = req.requestId then some (admittedRecord env 0 req ⟨1⟩) else none := by
    intro r
    rw [heq, admitRequest_eq, if_neg (Nat.pos_iff_ne_zero.mp hpos)]
    exact AList.lookup_insert_eq_ite _ _ _ _
  have hslots : ((fresh env).submitWithTokens env 0 req tokens).1.slots.Balanced :=
    (slots_step env hwf (balanced_fresh env) (c := ⟨0, .submitWithTokens req tokens⟩) trivial).1
  have hdescs := descs_submitWithTokens env 0 req tokens (fresh env)
  have hstep : (fresh env).step env ⟨0, .submitWithTokens req tokens⟩ =
      (((fresh env).submitWithTokens env 0 req tokens).1,
        .status ((fresh env).submitWithTokens env 0 req tokens).2) := rfl
  rw [hstep] at heffects
  generalize ((fresh env).submitWithTokens env 0 req tokens).1 = σ' at *
  refine
    { only := fun r hne => by rw [hlookup, if_neg hne]
      attached := heffects.invariant (fun _ _ _ hl _ => hl.attached) ?_
      balanced := hslots
      worker := hdescs ▸ rfl
      epoch_pos := heffects.invariant (P := fun v => 0 < v.epoch.value)
        (fun _ _ _ hl _ hv => hv.trans_le hl.epoch_le) Nat.one_pos
      record := ⟨admittedRecord env 0 req ⟨1⟩, by rw [hlookup, if_pos rfl], rfl, ?_, rfl, rfl⟩ }
  · exact ⟨fun g w out r h => absurd h (Option.some_ne_none _).symm,
      fun g w out h => absurd h (Option.some_ne_none _).symm, rfl⟩
  · rw [Rs.isWaiting_iff]
    exact ⟨rfl, rfl,
      List.length_pos_iff.mpr (ChunkPlanner.plan_chunks_ne_nil env req ⟨1⟩ .nil hpos)⟩

/-- **A request with `2 ^ 32` chunks or more is dispatched any number of times.** -/
theorem exists_spends_dispatchCount_eq (tokens : List UInt32)
    (hadmits : (fresh env).Admits env req)
    (htokens : tokens.length = req.promptTokenCount.toNat) (hreq : req.Undemanding)
    (hmany : 2 ^ 32 ≤ ChunkPlanner.chunkCount env req) (k : ℕ) :
    ∃ σ ms, Spends Op.Routine env σ ms ∧ σ.Lone req (k % 2 ^ 32) ∧
      dispatchCount req.requestId ms = k := by
  induction k with
  | zero =>
    have hpos : 0 < req.remainingPrefillTokens := by
      rw [Nat.pos_iff_ne_zero]
      intro hzero
      rw [ChunkPlanner.chunkCount, ChunkPlanner.plan_chunks_eq_nil env req _ _ hzero] at hmany
      exact absurd hmany (by decide)
    exact ⟨_, _, Spends.fresh.step ⟨0, .submitWithTokens req tokens⟩ trivial,
      lone_submitWithTokens hadmits htokens hpos, rfl⟩
  | succ k ih =>
    obtain ⟨σ, ms, hspends, hlone, hcount⟩ := ih
    obtain ⟨σ', ms', hspends', hlone', hcount'⟩ := hlone.exists_round hspends hreq hmany
    refine ⟨σ', ms', hspends', ?_, hcount'.trans (congrArg (· + 1) hcount)⟩
    rwa [Nat.mod_add_mod] at hlone'

end Impl

/-! ### Dispatches are bounded, and the loop is finite -/

/-- What a run without the loss of a worker has handed out up to a call. -/
theorem Run.spends (env : Env) (calls : List Call) (hcalls : ∀ c ∈ calls, c.op.Steady) (n : ℕ) :
    Spends Op.Steady env ((fresh env calls).stateAt n)
      ((List.range n).flatMap (fresh env calls).emitted) :=
  rec_emitted .fresh (fun _ _ h c hc => h.step c (hcalls c hc)) n

/-- **Dispatches are bounded, and the loop is finite**, as long as chunks can be told apart by a
number of 32 bits. In every state reached without the loss of a worker, each request has been
dispatched at most `maxRetries + 1` times the number of its chunks; and whatever executors there
are and other threads do, short of submitting requests and of losing workers, the loop comes to
rest. -/
theorem Spends.dispatchCount_le_and_quiesces {env : Env} {σ : Impl} {ms : List ExecutableMember}
    (h : Spends Op.Steady env σ ms) :
    (∀ r s, σ.requests.lookup r = some s → s.plan.chunks.length < 2 ^ 32 →
      (dispatchCount r ms : ℤ) ≤ (s.request.maxRetries + 1) * s.plan.chunks.length) ∧
    (σ.Indexable → ∀ W : World, W.Steady → ∀ k,
      ∃ c ≤ σ.budget env, W.Quiesces env (σ, k) c) :=
  ⟨fun _ _ => h.dispatchCount_le, fun hfew _ hW _ =>
    World.exists_quiesces hW ⟨ms, h, Nat.zero_le _, hfew, rfl⟩⟩

/-- A request is dispatched twice, since it is retried in between. -/
def Run.relaunchedCalls : List Call :=
  [⟨0, .submitWithTokens (plainRequest 1 2) [5, 6]⟩, ⟨0, .runCycle⟩, ⟨0, .forceRetry ⟨1⟩⟩,
    ⟨0, .runCycle⟩]

/-- Nobody else is about, and the clock stands still. -/
def World.empty : World := ⟨fun _ => 0, fun _ => []⟩

/-- It may be dispatched once more; and without an executor the loop comes to rest. -/
theorem Spends.quiesces_relaunchedCalls :
    let ρ := Run.fresh .standard Run.relaunchedCalls
    dispatchCount ⟨1⟩ ((List.range 4).flatMap ρ.emitted) = 2 ∧
      (ρ.stateAt 4).budget .standard = 3 ∧
      ∃ c ≤ 3, World.empty.Quiesces .standard (ρ.stateAt 4, 0) c := by
  have hsteady : ∀ c ∈ Run.relaunchedCalls, c.op.Steady := by
    simp [Run.relaunchedCalls, Op.Steady]
  have hspends := Run.spends .standard Run.relaunchedCalls hsteady 4
  have hbudget : ((Run.fresh .standard Run.relaunchedCalls).stateAt 4).budget .standard = 3 := by
    decide +kernel
  have hfew : ((Run.fresh .standard Run.relaunchedCalls).stateAt 4).requests.entries.all
      (fun e => decide (e.2.plan.chunks.length < 2 ^ 32)) = true := by
    decide +kernel
  refine ⟨by decide +kernel, hbudget, ?_⟩
  have hquiesces := hspends.dispatchCount_le_and_quiesces.2
    (fun r s hs => of_decide_eq_true (List.all_eq_true.mp hfew ⟨r, s⟩ (AList.mem_lookup_iff.mp hs)))
    World.empty (fun _ _ hc => absurd hc List.not_mem_nil) 0
  rwa [hbudget] at hquiesces

/-- A request of `2 ^ 32` tokens that is not retried. -/
def Run.longRequest : PrefillRequest := { Run.plainRequest 1 4294967296 with maxRetries := 0 }

/-- Where a plan has `2 ^ 32` chunks the bound does not hold: the request is dispatched once more
than it has chunks, with no retry, and still waits. -/
theorem Spends.not_dispatchCount_le_longRequest :
    ∃ σ ms s, Spends Op.Routine .singly σ ms ∧ σ.requests.lookup ⟨1⟩ = some s ∧
      s.isWaiting = true ∧ s.request = Run.longRequest ∧
      (s.request.maxRetries + 1) * s.plan.chunks.length < dispatchCount ⟨1⟩ ms := by
  have hcount : ChunkPlanner.chunkCount .singly Run.longRequest = 2 ^ 32 :=
    (ChunkPlanner.chunkCount_of_one (by decide +kernel)).trans (by decide +kernel)
  have hadmits : (Impl.fresh .singly).Admits .singly Run.longRequest :=
    ⟨by decide +kernel, rfl, by decide +kernel, by decide +kernel, by decide +kernel⟩
  obtain ⟨σ, ms, hspends, hlone, hdispatched⟩ :=
    Impl.exists_spends_dispatchCount_eq (List.replicate (2 ^ 32) 0) hadmits
      (List.length_replicate.trans (by decide +kernel)) ⟨rfl, rfl, rfl, rfl⟩ hcount.ge
      (2 ^ 32 + 1)
  obtain ⟨s, hs, hsame, hwait, -⟩ := hlone.record
  refine ⟨σ, ms, s, hspends, hs, hwait, hsame, ?_⟩
  have hlength := (hspends.mono fun _ => Op.Routine.steady).length_chunks hs
  rw [hsame, hcount] at hlength
  have hretries : Run.longRequest.maxRetries = 0 := rfl
  have hid : dispatchCount ⟨1⟩ ms = 2 ^ 32 + 1 := hdispatched
  rw [hlength, hsame, hretries, hid]
  decide

end PrefillFabric
