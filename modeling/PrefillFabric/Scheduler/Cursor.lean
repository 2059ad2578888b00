import PrefillFabric.Scheduler.Overrun
import PrefillFabric.Scheduler.Resumption

/-!
# The cursor of a request

A record counts the tokens of the chunks whose completions were accepted, and points at its next
chunk. The number counted is subtracted from the tokens of the request, and the chunk pointed at
is read from the plan; neither is checked at these places.

What keeps the number within the tokens is that a request that waits or is in flight has not
counted past the start of its next chunk (`Rs.Measured`). Outcomes that count without moving the
cursor do not break this, since none of them leaves the request in the queue. It is the 32 bits of
the cursor that do: a request planned in `2 ^ 32` chunks has its cursor back at the first chunk when
everything is counted. For every other request both hold in every state of every life, whatever
snapshots are read (`Life.completedUncached_le_and_pending`). The chunk in flight is always one of
the plan.
-/

namespace PrefillFabric

/-! ### The chunks of a plan, one after the other -/

/-- A chunk ends where the next one starts, or before. -/
theorem ChunkPlanner.end_le_tokenStart_succ {env : Env} {req : PrefillRequest}
    {attempt : AttemptId} {seed : Generation} {i : ℕ} {c d : PrefillChunk}
    (hc : (plan env req attempt seed).chunks[i]? = some c)
    (hd : (plan env req attempt seed).chunks[i + 1]? = some d) :
    c.tokenStart + c.tokenCount ≤ d.tokenStart := by
  rw [plan_chunks_eq_map, List.getElem?_map, Option.map_eq_some_iff] at hc hd
  obtain ⟨j, hj, rfl⟩ := hc
  obtain ⟨k, hk, rfl⟩ := hd
  obtain ⟨_, rfl⟩ := List.getElem?_eq_some_iff.mp hj
  obtain ⟨_, rfl⟩ := List.getElem?_eq_some_iff.mp hk
  rw [List.getElem_range, List.getElem_range]
  change i * _ + min _ (effectiveChunkTokenCount env req) ≤ (i + 1) * _
  rw [Nat.succ_mul]
  exact Nat.add_le_add_left (Nat.min_le_right _ _) _

/-! ### What is counted, and the cursor -/

/-- **The cursor of a record**: it points into the plan while the request is in flight, and the
tokens counted are those before it, if it fits in 32 bits. -/
structure Rs.Measured (env : Env) (s : Rs) : Prop where
  plan_eq : s.plan = ChunkPlanner.plan env s.request s.attempt .nil
  not_queued : s.inFlight = true → s.lifecycle ≠ .queued
  pending : s.inFlight = true → s.nextChunkIndex < s.plan.chunks.length
  le : s.plan.chunks.length < 2 ^ 32 → s.completedUncached ≤ s.request.remainingPrefillTokens
  le_start : s.plan.chunks.length < 2 ^ 32 → s.isWaiting = true ∨ s.inFlight = true →
    s.completedUncached ≤ s.nextChunk.tokenStart

namespace Rs

variable {env : Env} {s t : Rs}

/-- A record that is neither queued nor in flight has nothing to do with its cursor. -/
theorem Measured.of_idle (hplan : t.plan = ChunkPlanner.plan env t.request t.attempt .nil)
    (hflight : t.inFlight = false) (hqueued : t.lifecycle ≠ .queued)
    (hle : t.plan.chunks.length < 2 ^ 32 →
      t.completedUncached ≤ t.request.remainingPrefillTokens) : t.Measured env where
  plan_eq := hplan
  not_queued h := absurd (hflight.symm.trans h) Bool.noConfusion
  pending h := absurd (hflight.symm.trans h) Bool.noConfusion
  le := hle
  le_start _ h := h.elim (fun hwait => absurd (isWaiting_iff.mp hwait).1 hqueued)
    fun h => absurd (hflight.symm.trans h) Bool.noConfusion

/-- A record that starts from the beginning. -/
theorem Measured.of_zero (hplan : t.plan = ChunkPlanner.plan env t.request t.attempt .nil)
    (hflight : t.inFlight = false) (hzero : t.completedUncached = 0) : t.Measured env where
  plan_eq := hplan
  not_queued h := absurd (hflight.symm.trans h) Bool.noConfusion
  pending h := absurd (hflight.symm.trans h) Bool.noConfusion
  le _ := hzero ▸ Nat.zero_le _
  le_start _ _ := hzero ▸ Nat.zero_le _

section Landing

variable (h : s.Measured env) (hflight : s.inFlight = true)
include h hflight

theorem Measured.mem_plan :
    s.nextChunk ∈ (ChunkPlanner.plan env s.request s.attempt .nil).chunks :=
  h.plan_eq ▸ List.mem_of_getElem? (getElem?_nextChunkIndex (h.pending hflight))

/-- The chunk in flight is counted within the tokens of the request. -/
theorem Measured.landed_le (hfew : s.plan.chunks.length < 2 ^ 32) :
    s.completedUncached + s.nextChunk.tokenCount ≤ s.request.remainingPrefillTokens := by
  have hstart := h.le_start hfew (Or.inr hflight)
  have hend := ChunkPlanner.end_le_of_mem_plan env _ _ _ (h.mem_plan hflight)
  omega

/-- After a successful chunk the cursor is at the end of what is counted. -/
theorem Measured.advanced : (s.landed env).advanced.Measured env := by
  have hle : s.plan.chunks.length < 2 ^ 32 → _ := h.landed_le hflight
  have hpending := h.pending hflight
  unfold Rs.advanced
  split_ifs with hcancel hnext
  · exact .of_idle h.plan_eq rfl Lifecycle.noConfusion hle
  · change (s.nextChunkIndex + 1) % 2 ^ 32 < s.plan.chunks.length at hnext
    refine ⟨h.plan_eq, Bool.noConfusion, Bool.noConfusion, hle, fun hfew _ => ?_⟩
    change s.plan.chunks.length < 2 ^ 32 at hfew
    have hmod : (s.nextChunkIndex + 1) % 2 ^ 32 = s.nextChunkIndex + 1 :=
      Nat.mod_eq_of_lt (by omega)
    have hchunk := getElem?_nextChunkIndex hpending
    have hchunk' : s.plan.chunks[s.nextChunkIndex + 1]? =
        some (s.plan.chunks.getD ((s.nextChunkIndex + 1) % 2 ^ 32) {}) := by
      rw [hmod] at hnext ⊢
      rw [List.getD_eq_getElem?_getD, List.getElem?_eq_getElem hnext, Option.getD_some]
    rw [h.plan_eq] at hchunk hchunk'
    have hstart := h.le_start hfew (Or.inr hflight)
    have hsucc := ChunkPlanner.end_le_tokenStart_succ hchunk hchunk'
    rw [← h.plan_eq] at hsucc
    change s.completedUncached + s.nextChunk.tokenCount ≤
      (s.plan.chunks.getD ((s.nextChunkIndex + 1) % 2 ^ 32) {}).tokenStart
    omega
  · exact .of_idle h.plan_eq rfl Lifecycle.noConfusion hle

/-- **Every outcome** leaves the cursor where it should be: what is counted without moving it is
not queued again. -/
theorem Measured.settled (o : MemberOutcome) (a : AttemptId) :
    ((s.landed env).settled env o a).Measured env := by
  have hle : s.plan.chunks.length < 2 ^ 32 → _ := h.landed_le hflight
  cases o with
  | success | needsNextChunk => exact h.advanced hflight
  | retryableFailure =>
    unfold Rs.settled
    dsimp only
    split_ifs
    · exact .of_zero rfl rfl rfl
    · exact .of_idle h.plan_eq rfl Lifecycle.noConfusion hle
  | nonRetryableFailure | cancelled | expired =>
    exact .of_idle h.plan_eq rfl Lifecycle.noConfusion hle
  | staleRejected => exact .of_idle h.plan_eq rfl (h.not_queued hflight) hle

end Landing

/-- The fields of a record that its cursor is about. -/
theorem Measured.of_same (h : s.Measured env) (hrequest : t.request = s.request)
    (hattempt : t.attempt = s.attempt) (hplan : t.plan = s.plan)
    (hidx : t.nextChunkIndex = s.nextChunkIndex)
    (hcounted : t.completedUncached = s.completedUncached) (hflight : t.inFlight = s.inFlight)
    (hqueued : t.lifecycle = .queued → s.lifecycle = .queued) : t.Measured env := by
  have hchunk : t.nextChunk = s.nextChunk := by rw [nextChunk, nextChunk, hplan, hidx]
  refine ⟨?_, ?_, ?_, ?_, ?_⟩
  · rw [hplan, hrequest, hattempt]
    exact h.plan_eq
  · exact fun hf hq => h.not_queued (hflight ▸ hf) (hqueued hq)
  · rw [hflight, hidx, hplan]
    exact h.pending
  · rw [hplan, hcounted, hrequest]
    exact h.le
  · rw [hplan, hcounted, hflight, hchunk]
    refine fun hfew hor => h.le_start hfew (hor.imp_left fun hwait => ?_)
    obtain ⟨hq, hf, hlt⟩ := isWaiting_iff.mp hwait
    exact isWaiting_iff.mpr ⟨hqueued hq, hflight ▸ hf, by rwa [hidx, hplan] at hlt⟩

end Rs

section

variable {env : Env} {v v' : View} {l : Label} {r : RequestId} {s s' : Rs}

/-- **Whatever happens to a request, its cursor stays where it should be.** -/
theorem Fate.measured (h : Fate env v r s l s') (hs : s.Measured env) : s'.Measured env := by
  cases h with
  | keep => exact hs
  | expire =>
    rw [Rs.expired, Rs.dropReservation_eq]
    exact hs.of_same rfl rfl rfl rfl rfl rfl Lifecycle.noConfusion
  | launch _ _ hwait =>
    exact ⟨hs.plan_eq, fun _ => Lifecycle.noConfusion, fun _ => (Rs.isWaiting_iff.mp hwait).2.2,
      hs.le, fun hfew _ => hs.le_start hfew (Or.inl hwait)⟩
  | finish o hflight =>
    rw [Rs.finished, Rs.dropReservation_eq]
    exact (hs.settled hflight o _).of_same rfl rfl rfl rfl rfl rfl id
  | flag => exact hs.of_same rfl rfl rfl rfl rfl rfl id
  | cancel =>
    rw [Rs.cancelled, Rs.dropReservation_eq]
    exact hs.of_same rfl rfl rfl rfl rfl rfl Lifecycle.noConfusion
  | withdraw hflight =>
    rw [Rs.withdrawn, Rs.dropReservation_eq]
    exact .of_idle hs.plan_eq rfl (hs.not_queued hflight) hs.le
  | retry => exact .of_zero rfl (s.retried_inFlight env _) rfl
  | recover _ hflight =>
    rw [Rs.recovered, Rs.dropReservation_eq]
    exact ⟨hs.plan_eq, Bool.noConfusion, Bool.noConfusion, hs.le,
      fun hfew _ => hs.le_start hfew (Or.inr hflight)⟩

theorem Effect.measured (h : Effect env v l v') (hv : v.Each fun _ s => s.Measured env) :
    v'.Each fun _ s => s.Measured env :=
  h.each (fun _ _ _ _ => .of_zero rfl rfl rfl) (fun _ _ _ _ hfate hs => hfate.measured hs) hv

end

theorem PersistedRequestRecord.recovered_completedUncached_of_past {env : Env}
    {rec : PersistedRequestRecord}
    (h : rec.request.remainingPrefillTokens ≤ rec.nextChunkTokenStart) :
    (rec.recovered env).completedUncached = rec.request.remainingPrefillTokens := by
  simp only [recovered, h, decide_true, if_true]
  split_ifs <;> rfl

/-- What is read back from a snapshot is at rest: it has counted nothing, or everything and then
there is nothing left to execute. -/
theorem PersistedRequestRecord.measured_recovered (env : Env) (rec : PersistedRequestRecord) :
    (rec.recovered env).Measured env := by
  have hplan : (rec.recovered env).plan = ChunkPlanner.plan env (rec.recovered env).request
      (rec.recovered env).attempt .nil := by
    rw [recovered_plan, recovered_request, recovered_attempt]
  have hidle := recovered_inFlight env rec
  rcases Nat.lt_or_ge rec.nextChunkTokenStart rec.request.remainingPrefillTokens with hlt | hge
  · exact .of_zero hplan hidle (recovered_completedUncached hlt)
  · have hcounted : (rec.recovered env).completedUncached = _ :=
      recovered_completedUncached_of_past hge
    refine ⟨hplan, fun h => absurd (hidle.symm.trans h) Bool.noConfusion,
      fun h => absurd (hidle.symm.trans h) Bool.noConfusion,
      fun _ => by rw [hcounted, recovered_request], fun hfew h => ?_⟩
    rcases h with hwait | hflight
    · rcases recovered_pending_iff.mp (Rs.isWaiting_iff.mp hwait).2.2 with hlt | hmany
      · exact absurd hlt (Nat.not_lt.mpr hge)
      · exact absurd hfew (Nat.not_lt.mpr hmany)
    · exact absurd (hidle.symm.trans hflight) Bool.noConfusion

theorem Impl.measured_importState (env : Env) (now : Nanoseconds) (st : PersistedState)
    (σ : Impl) : (σ.importState env now st).view.Each fun _ s => s.Measured env := by
  intro r u hu
  obtain ⟨s, hs, rfl⟩ := exists_of_view_req hu
  rw [lookup_importState] at hs
  obtain ⟨rec, -, rfl⟩ := Option.map_eq_some_iff.mp hs
  exact (rec.measured_recovered env).of_same rfl rfl rfl rfl rfl rfl id

/-! ### A cursor that comes back to the first chunk -/

theorem Rs.finished_success (env : Env) (a : AttemptId) (s : Rs) :
    (s.finished env .success a).completedUncached =
        s.completedUncached + s.nextChunk.tokenCount ∧
      (s.finished env .success a).request = s.request := by
  rw [finished, dropReservation_eq, settled, advanced]
  split_ifs <;> exact ⟨rfl, rfl⟩

namespace Impl

variable {env : Env} {rec : PersistedRequestRecord}

/-- **A round of a request that is alone** counts the tokens of a chunk, wherever the cursor is. -/
theorem exists_counted {σ : Impl} {r : RequestId} {s : Rs} (hwf : σ.view.Wf)
    (hepoch : 0 < σ.epoch.value) (hmeasured : σ.view.Each fun _ s => s.Measured env)
    (hs : σ.requests.lookup r = some s) (honly : ∀ x, x ≠ r → σ.requests.lookup x = none)
    (hgroups : (σ.runCycle env 0).2.groups ≠ []) :
    ∃ result t, (((σ.runCycle env 0).1.reportCompletion env 0 result).1).requests.lookup r =
        some t ∧ t.request = s.request ∧ s.completedUncached < t.completedUncached := by
  obtain ⟨-, t, ht, hsame, hlive, -, -, hcounted⟩ :=
    exists_live_of_groups_ne_nil hwf hs honly hgroups
  obtain ⟨hflight, hover⟩ := Rs.isLive_iff.mp hlive
  have heffects := effects_runCycle env 0 hwf
  have hwf' := heffects.wf hwf
  have hepoch' : 0 < (σ.runCycle env 0).1.view.epoch.value :=
    heffects.invariant (P := fun v => 0 < v.epoch.value)
      (fun _ _ _ hl _ hv => hv.trans_le hl.epoch_le) hepoch
  have hmeasured' := heffects.invariant (fun _ _ _ hl _ hv => hl.measured hv) hmeasured r t.core
    (view_req ht)
  have hpos := (ChunkPlanner.tokenCount_of_mem_plan env _ _ _ (hmeasured'.mem_plan hflight)).1
  generalize (σ.runCycle env 0).1 = σ' at ht hwf' hepoch' ⊢
  obtain ⟨a, ha⟩ :=
    exists_finished_of_accepts env 0 hwf' (accepts_of_live hepoch' ht hflight hover)
  obtain ⟨u, hu, hcore⟩ := exists_of_view_req ha
  obtain ⟨hcounted', hsame'⟩ := Rs.finished_success env a t.core
  rw [← hcore] at hcounted' hsame'
  change u.completedUncached = t.completedUncached + t.nextChunk.tokenCount at hcounted'
  refine ⟨_, u, hu, hsame'.trans hsame, ?_⟩
  rw [hcounted', hcounted]
  exact Nat.lt_add_of_pos_right hpos

/-- A scheduler that has read a single request back. -/
def readBack (env : Env) (rec : PersistedRequestRecord) : Impl :=
  (fresh env).importState env 0 { epoch := ⟨1⟩, requests := [rec] }

theorem lookup_readBack (r : RequestId) : (readBack env rec).requests.lookup r =
    if rec.requestId = r then some (rec.recovered env) else none := by
  rw [readBack, lookup_importState]
  by_cases h : rec.requestId = r <;> simp [h]

/-- **A request past its last token is dispatched again**, if its cursor has come round. -/
theorem groups_readBack_ne_nil (hreq : rec.request.Undemanding) (hqueued : rec.lifecycle = .queued)
    (hmany : 2 ^ 32 ≤ (rec.recovered env).plan.chunks.length) :
    ((readBack env rec).runCycle env 0).2.groups ≠ [] := by
  have hwf := (quiet_importState (wf_fresh env) env 0 { epoch := ⟨1⟩, requests := [rec] }).1.wf
  have hs : (readBack env rec).requests.lookup rec.requestId = some (rec.recovered env) := by
    rw [lookup_readBack, if_pos rfl]
  have honly : ∀ r, r ≠ rec.requestId → (readBack env rec).requests.lookup r = none :=
    fun r hne => by rw [lookup_readBack, if_neg hne.symm]
  have hwait : (rec.recovered env).isWaiting = true :=
    PersistedRequestRecord.recovered_isWaiting_iff.mpr ⟨Or.inl hqueued, Or.inr hmany⟩
  have hsame := rec.recovered_request env
  have hbackend : (makeCompatKey env (rec.recovered env).request).backend = kBackendAny := by
    rw [hsame]
    simp [makeCompatKey, hreq.backend]
  have hmem : (rec.recovered env).nextChunk.memoryEstimateBytes = 0 := by
    have hchunk := Rs.nextChunk_mem hwait
    rw [rec.recovered_plan env] at hchunk
    exact ChunkPlanner.memoryEstimateBytes_eq_zero hreq.memoryEstimateBytes hchunk
  obtain ⟨ws, hws, helig⟩ : ∃ ws, (readBack env rec).workers.lookup .nil = some ws ∧
      eligible kBackendAny ws = true := ⟨_, rfl, rfl⟩
  refine groups_runCycle_ne_nil hwf (AList.entries_eq_singleton hs honly) hwait ?_ ?_ hmem hws
    (hbackend ▸ helig)
  · simp [Rs.deadlinePassed, hsame, hreq.deadline]
  · simp [Rs.queueDelayPassed, hsame, hreq.maxQueueDelay]

end Impl

namespace Life

theorem measured (ℓ : Life) (n : ℕ) : (ℓ.stateAt n).view.Each fun _ s => s.Measured ℓ.env :=
  view_invariant (P := View.Each fun _ s => s.Measured ℓ.env)
    (fun _ s hs => absurd hs (Option.some_ne_none s).symm) (fun _ _ _ _ h hv => h.measured hv)
    (fun σ now st _ => σ.measured_importState ℓ.env now st) n

/-- **The subtraction does not wrap and the chunk read is there.** In every state of every life,
whatever snapshots were read: a request planned in fewer than `2 ^ 32` chunks has not counted more
tokens than it has, and the cursor of a request in flight is within its plan. -/
theorem completedUncached_le_and_pending (ℓ : Life) (n : ℕ) {r : RequestId} {s : Rs}
    (hs : (ℓ.stateAt n).requests.lookup r = some s) :
    (s.plan.chunks.length < 2 ^ 32 →
      s.completedUncached ≤ s.request.remainingPrefillTokens) ∧
    (s.inFlight = true → s.nextChunkIndex < s.plan.chunks.length) := by
  have h := ℓ.measured n r s.core (Impl.view_req hs)
  exact ⟨h.le, h.pending⟩

/-- A request of four chunks of which the first is done and the second is in flight. -/
def secondChunk : Life :=
  ⟨.standard, Reachable.landedCalls.map .call ++ [.call ⟨0, .runCycle⟩]⟩

theorem completedUncached_le_and_pending_secondChunk :
    ∃ s, (secondChunk.stateAt 4).requests.lookup ⟨1⟩ = some s ∧ s.inFlight = true ∧
      s.completedUncached ≤ s.request.remainingPrefillTokens ∧
      s.nextChunkIndex < s.plan.chunks.length := by
  have hvalues : ((secondChunk.stateAt 4).requests.lookup ⟨1⟩).map
      (fun s => (s.inFlight, s.plan.chunks.length)) = some (true, 4) := by decide +kernel
  obtain ⟨s, hs, hvalue⟩ := Option.map_eq_some_iff.mp hvalues
  obtain ⟨hflight, hlength⟩ := Prod.mk.inj hvalue
  obtain ⟨hle, hpending⟩ := completedUncached_le_and_pending secondChunk 4 hs
  exact ⟨s, hs, hflight, hle (by rw [hlength]; decide), hpending hflight⟩

/-- What a scheduler is asked that reads a request back, runs a cycle and gets a result. -/
def readBackTurns (rec : PersistedRequestRecord) (result : MemberResult) : List Turn :=
  [.importState 0 { epoch := ⟨1⟩, requests := [rec] }, .call ⟨0, .runCycle⟩,
    .call ⟨0, .reportCompletion result⟩]

theorem stateAt_readBackTurns (env : Env) (rec : PersistedRequestRecord) (result : MemberResult) :
    (⟨env, readBackTurns rec result⟩ : Life).stateAt 3 =
      (((Impl.readBack env rec).runCycle env 0).1.reportCompletion env 0 result).1 := by
  have hcycle : (⟨env, readBackTurns rec result⟩ : Life).stateAt 2 =
      ((Impl.readBack env rec).step env ⟨0, .runCycle⟩).1 := rfl
  have hreport : (⟨env, readBackTurns rec result⟩ : Life).turns[2]? =
      some (.call ⟨0, .reportCompletion result⟩) := rfl
  rw [stateAt_succ hreport, hcycle, Impl.step_runCycle]
  rfl

/-- **Where the cursor comes round, more is counted than there is.** A request planned in
`2 ^ 32` chunks or more is read back as past its last token and still in the queue; the next
completion is counted on top of all of its tokens. -/
theorem exists_completedUncached_gt {env : Env} {rec : PersistedRequestRecord}
    (hreq : rec.request.Undemanding) (hqueued : rec.lifecycle = .queued)
    (hpast : rec.request.remainingPrefillTokens ≤ rec.nextChunkTokenStart)
    (hmany : 2 ^ 32 ≤ (rec.recovered env).plan.chunks.length) :
    ∃ result s, ((⟨env, readBackTurns rec result⟩ : Life).stateAt 3).requests.lookup
        rec.requestId = some s ∧
      s.request.remainingPrefillTokens < s.completedUncached := by
  have hwf : (Impl.readBack env rec).view.Wf := (Impl.quiet_importState (Impl.wf_fresh env) ..).1.wf
  have hs : (Impl.readBack env rec).requests.lookup rec.requestId = some (rec.recovered env) := by
    rw [Impl.lookup_readBack, if_pos rfl]
  have honly : ∀ r, r ≠ rec.requestId → (Impl.readBack env rec).requests.lookup r = none :=
    fun r hne => by rw [Impl.lookup_readBack, if_neg hne.symm]
  obtain ⟨result, t, ht, hsame, hlt⟩ := Impl.exists_counted hwf Nat.one_pos
    (Impl.measured_importState env 0 _ _) hs honly
    (Impl.groups_readBack_ne_nil hreq hqueued hmany)
  refine ⟨result, t, by rw [stateAt_readBackTurns]; exact ht, ?_⟩
  rwa [hsame, rec.recovered_request,
    ← PersistedRequestRecord.recovered_completedUncached_of_past hpast]

/-- One token to a chunk. -/
def finest : Env := { Env.standard with cfg := { maxTokensPerChunk := 1 } }

/-- A request of `2 ^ 32` tokens, past the last of them and in the queue. -/
def roundRecord : PersistedRequestRecord :=
  { requestId := ⟨1⟩, attemptId := ⟨1⟩, promptTokenCount := 4294967296
    nextChunkTokenStart := 4294967296, lifecycle := .queued }

/-- One token more is counted than the request has. -/
theorem completedUncached_roundRecord :
    ∃ result s, ((⟨finest, readBackTurns roundRecord result⟩ : Life).stateAt 3).requests.lookup
        ⟨1⟩ = some s ∧
      s.request.remainingPrefillTokens < s.completedUncached := by
  have hmany : 2 ^ 32 ≤ (roundRecord.recovered finest).plan.chunks.length := by
    rw [PersistedRequestRecord.recovered_plan, ChunkPlanner.length_plan_of_unestimated]
    · decide +kernel
    · rfl
    · rfl
  exact exists_completedUncached_gt ⟨rfl, rfl, rfl, rfl⟩ rfl
    (by decide +kernel) hmany

end Life

end PrefillFabric
