import PrefillFabric.Scheduler.Forgetting

/-!
# Restarts

A process that dies is started again, reads the snapshot of the one before, and may die again
before it has done anything: a crash loop. What a snapshot does not keep is lost the first time,
and work under way goes back into the queue. But only the first time: what the second scheduler
would write down is what the first recovered one would have written, and so on for ever
(`Impl.restarts_settle`). Nothing is worn down, be it the place in a prompt, the service of a
tenant, a counter or the state of a worker.

For a request this is not obvious. The snapshot has a token, not the index of a chunk; the plan is
made anew, and the chunk is searched for. Where the search fails the request starts over at its
first chunk, and so the next snapshot has the token zero, for which the search does not fail.
-/

namespace PrefillFabric

namespace PersistedRequestRecord

variable {env : Env} {rec : PersistedRequestRecord}

/-- What was under way. -/
abbrev UnderWay (rec : PersistedRequestRecord) : Prop :=
  rec.lifecycle = .dispatched ∨ rec.lifecycle = .running

/-- A recovered record, field by field. -/
theorem recovered_eq (env : Env) (rec : PersistedRequestRecord) : rec.recovered env =
    { request := rec.request
      attempt := rec.attemptId
      lifecycle := if rec.UnderWay then .queued else rec.lifecycle
      plan := ChunkPlanner.plan env rec.request rec.attemptId .nil
      nextChunkIndex :=
        if rec.request.remainingPrefillTokens ≤ rec.nextChunkTokenStart then
          (ChunkPlanner.plan env rec.request rec.attemptId .nil).chunks.length % 2 ^ 32
        else
          (indexForTokenStart (ChunkPlanner.plan env rec.request rec.attemptId .nil)
            rec.nextChunkTokenStart).getD 0
      completedUncached :=
        if rec.request.remainingPrefillTokens ≤ rec.nextChunkTokenStart then
          rec.request.remainingPrefillTokens
        else 0
      completedTokenTotal := rec.completedTokenTotal
      currentGeneration := if rec.UnderWay then .nil else rec.currentGeneration
      normalizedService := rec.normalizedService
      admitTime := rec.arrivalNs
      lastWorkKind := rec.workKind
      recoveredWork := decide rec.UnderWay
      trace := "recovered from persistence" :: if rec.UnderWay then
        ["reconciled in-flight-at-death work conservatively (redo chunk)"] else [] } := by
  simp only [recovered, decide_eq_true_eq]
  by_cases h : rec.lifecycle = .dispatched ∨ rec.lifecycle = .running
  · simp only [UnderWay, h, if_true, decide_true]
    rfl
  · simp only [UnderWay, h, if_false, decide_false]

/-- The search for the chunk that was found finds it again. -/
theorem indexForTokenStart_tokenStart {plan : PrefillPlan} {start : ℕ} {c : PrefillChunk}
    (hc : plan.chunks[(indexForTokenStart plan start).getD 0]? = some c) :
    (indexForTokenStart plan c.tokenStart).getD 0 = (indexForTokenStart plan start).getD 0 := by
  by_cases hindexed : Indexed plan start
  · obtain ⟨k, c', hsome, -, hc', rfl⟩ := exists_indexForTokenStart hindexed
    rw [hsome, Option.getD_some, hc'] at hc
    rw [Option.some.inj hc]
  · -- the first chunk is the first one with its own start
    rw [indexForTokenStart_getD_eq_zero hindexed] at hc ⊢
    have hzero : searchFrom plan c.tokenStart 1 0 = some 0 := by
      rw [searchFrom, UInt32.toNat_zero, hc]
      exact if_pos rfl
    rw [indexForTokenStart_eq_some_iff.mpr ⟨1, hzero⟩, Option.getD_some]

end PersistedRequestRecord

namespace Rs

variable {env : Env} {r : RequestId} {s : Rs}

open PersistedRequestRecord

/-- What is written of a recovered request is the request that was recovered. -/
theorem request_persisted_resumed (env : Env) (r : RequestId) (s : Rs) :
    ((s.resumed env r).persisted r).request = (s.resumed env r).request := by
  have hoption : ∀ x : Option Nanoseconds,
      (if x.isSome then some (x.getD 0) else none) = x := by
    rintro (_ | _) <;> rfl
  have hdeadline := hoption (s.persisted r).request.deadline
  have hdelay := hoption (s.persisted r).request.maxQueueDelay
  rw [resumed, recovered_eq]
  exact congrArg₂ (fun d q => { (s.persisted r).request with deadline := d, maxQueueDelay := q })
    hdeadline hdelay

/-- **A recovered request is at the same chunk when it is recovered again.** -/
theorem tokenStart_persisted_resumed (hsize : (s.resumed env r).plan.chunks.length < 2 ^ 32) :
    ((s.resumed env r).request.remainingPrefillTokens ≤
        ((s.resumed env r).persisted r).nextChunkTokenStart ↔
      (s.resumed env r).request.remainingPrefillTokens ≤ (s.persisted r).nextChunkTokenStart) ∧
    ((s.persisted r).nextChunkTokenStart < (s.resumed env r).request.remainingPrefillTokens →
      (indexForTokenStart (s.resumed env r).plan
          ((s.resumed env r).persisted r).nextChunkTokenStart).getD 0 =
        (indexForTokenStart (s.resumed env r).plan
          (s.persisted r).nextChunkTokenStart).getD 0) := by
  have hreq : (s.resumed env r).request = (s.persisted r).request := recovered_request env _
  rw [hreq]
  rcases Nat.lt_or_ge (s.persisted r).nextChunkTokenStart
    (s.persisted r).request.remainingPrefillTokens with hlt | hge
  · have hpending : (s.resumed env r).nextChunkIndex < (s.resumed env r).plan.chunks.length :=
      recovered_pending hlt
    have hstart : ((s.resumed env r).persisted r).nextChunkTokenStart =
        (s.resumed env r).nextChunk.tokenStart := if_pos (decide_eq_true hpending)
    have hget := Rs.getElem?_nextChunkIndex hpending
    have hmem := List.mem_of_getElem? hget
    rw [resumed, recovered_plan] at hmem
    have hbelow := ChunkPlanner.tokenStart_lt_of_mem_plan env _ _ _ hmem
    rw [resumed, recovered_nextChunkIndex hlt] at hget
    rw [hstart]
    exact ⟨iff_of_false (Nat.not_le.mpr hbelow) (Nat.not_le.mpr hlt),
      fun _ => indexForTokenStart_tokenStart hget⟩
  · have hidle : ¬(s.resumed env r).nextChunkIndex < (s.resumed env r).plan.chunks.length := by
      rw [resumed, recovered_pending_iff]
      rintro (hlt | hmany)
      · exact absurd hlt (Nat.not_lt.mpr hge)
      · exact absurd hsize (Nat.not_lt.mpr hmany)
    have hstart : ((s.resumed env r).persisted r).nextChunkTokenStart =
        (s.persisted r).request.remainingPrefillTokens := by
      rw [← hreq]
      exact if_neg (by rw [hasPendingChunk, decide_eq_true_eq]; exact hidle)
    rw [hstart]
    exact ⟨iff_of_true le_rfl hge, fun hlt => absurd hlt (Nat.not_lt.mpr hge)⟩

/-- **To recover twice is to recover once**, but for what is noted about it. -/
theorem resumed_resumed (hsize : (s.resumed env r).plan.chunks.length < 2 ^ 32) :
    (s.resumed env r).resumed env r =
      { s.resumed env r with
        recoveredWork := false
        trace := ["recovered from persistence"] } := by
  obtain ⟨hdone, hindex⟩ := tokenStart_persisted_resumed hsize
  have hreq := request_persisted_resumed env r s
  have hattempt : ((s.resumed env r).persisted r).attemptId = (s.resumed env r).attempt := rfl
  have hplan : (s.resumed env r).plan = ChunkPlanner.plan env (s.resumed env r).request
      (s.resumed env r).attempt .nil := by
    rw [resumed, recovered_plan, recovered_request, recovered_attempt]
  have hlife : ¬((s.resumed env r).persisted r).UnderWay := by
    change ¬((s.resumed env r).lifecycle = .dispatched ∨ (s.resumed env r).lifecycle = .running)
    rw [resumed, recovered_lifecycle]
    split_ifs with h
    · decide
    · exact h
  conv_lhs => rw [resumed, recovered_eq]
  simp only [hreq, hattempt, ← hplan, hlife, if_false, decide_false, hdone]
  have hnext : (if (s.resumed env r).request.remainingPrefillTokens ≤
        (s.persisted r).nextChunkTokenStart then (s.resumed env r).plan.chunks.length % 2 ^ 32
      else (indexForTokenStart (s.resumed env r).plan
        ((s.resumed env r).persisted r).nextChunkTokenStart).getD 0) =
      (s.resumed env r).nextChunkIndex := by
    rcases Nat.lt_or_ge (s.persisted r).nextChunkTokenStart
      (s.resumed env r).request.remainingPrefillTokens with hlt | hge
    · rw [if_neg (Nat.not_le.mpr hlt), hindex hlt]
      rw [resumed, recovered_request] at hlt
      exact (recovered_nextChunkIndex hlt).symm
    · rw [if_pos hge]
      rw [resumed, recovered_request] at hge
      rw [resumed, recovered_eq]
      exact (if_pos hge).symm
  rw [hnext, resumed, recovered_eq]
  rfl

end Rs

/-! ### What would be written -/

namespace Impl

variable {env : Env} {now : Nanoseconds} {σ τ : Impl} {r : RequestId}

/-- A new scheduler that has read what this one has written. -/
def restarted (env : Env) (σ : Impl) (now : Nanoseconds) : Impl :=
  (fresh env).importState env now σ.exportState

/-- The record of a worker, if it is known. -/
def workerRecord (σ : Impl) (w : WorkerId) : Option PersistedWorkerRecord :=
  (σ.workers.lookup w).map (Ws.persisted w)

/-- The record of a tenant, if it has an account. -/
def tenantRecord (σ : Impl) (t : TenantId) : Option PersistedTenantRecord :=
  (σ.tenants.lookup t).map (TenantService.persisted t)

/-- The record of a request, if it is known. -/
def requestRecord (σ : Impl) (r : RequestId) : Option PersistedRequestRecord :=
  (σ.requests.lookup r).map (Rs.persisted r)

/-- The workers of a recovered scheduler are those of the snapshot, and its own. -/
theorem workerRecord_restarted (env : Env) (σ : Impl) (now : Nanoseconds) (w : WorkerId) :
    (σ.restarted env now).workerRecord w =
      (σ.workerRecord w).or ((fresh env).workerRecord w) := by
  -- but for the key, a record is written as it is
  have hrecord : ∀ (υ : Impl) w, υ.workerRecord w =
      ((AList.mapValues (Ws.persisted .nil) υ.workers).lookup w).map
        ({ · with workerId := w }) := by
    intro υ w
    rw [workerRecord, AList.lookup_mapValues, Option.map_map]
    rfl
  have hone : ∀ (υ : Impl) (rec : PersistedWorkerRecord),
      AList.mapValues (Ws.persisted .nil) (υ.importWorker rec).workers =
        (AList.mapValues (Ws.persisted .nil) υ.workers).insert rec.workerId
          { rec with workerId := .nil } := fun υ rec =>
    AList.mapValues_insert (Ws.persisted .nil) υ.workers rec.workerId _
  have hfold : ∀ (recs : List PersistedWorkerRecord) (υ : Impl),
      AList.mapValues (Ws.persisted .nil) (recs.foldl importWorker υ).workers =
        recs.foldl (fun t rec => t.insert rec.workerId { rec with workerId := .nil })
          (AList.mapValues (Ws.persisted .nil) υ.workers) := fun recs υ =>
    (List.foldl_hom (fun υ : Impl => AList.mapValues (Ws.persisted .nil) υ.workers)
      fun υ rec => (hone υ rec).symm).symm
  have hbefore : (σ.exportState.requests.foldl (importRequest env)
      ((fresh env).cleared σ.exportState)).workers = (fresh env).workers :=
    List.foldlRecOn _ (importRequest env)
      (motive := fun υ : Impl => υ.workers = (fresh env).workers) rfl fun _ h _ _ => h
  have hafter : (σ.restarted env now).workers = (σ.exportState.workers.foldl importWorker
      (σ.exportState.requests.foldl (importRequest env)
        ((fresh env).cleared σ.exportState))).workers :=
    List.foldlRecOn σ.exportState.tenants importTenant
      (motive := fun υ : Impl => υ.workers = (σ.exportState.workers.foldl importWorker
        (σ.exportState.requests.foldl (importRequest env)
          ((fresh env).cleared σ.exportState))).workers) rfl fun _ h _ _ => h
  rw [hrecord, hafter, hfold, hbefore, exportState, List.foldl_map]
  have hlookup := AList.lookup_foldl_insert (fun _ => Ws.persisted .nil) _ σ.workers.nodupKeys
    (AList.mapValues (Ws.persisted .nil) (fresh env).workers) w
  refine (congrArg (Option.map _) hlookup).trans ?_
  rw [Option.map_or, ← hrecord, Option.map_map]
  rfl

theorem lookup_restarted (env : Env) (σ : Impl) (now : Nanoseconds) (r : RequestId) :
    (σ.restarted env now).requests.lookup r = (σ.requests.lookup r).map (Rs.resumed env r) :=
  lookup_importState_exportState env now σ (fresh env) r

/-- Who is charged while the requests are read. -/
theorem lookup_foldl_importRequest_eq_none {env : Env} {t : TenantId}
    {recs : List PersistedRequestRecord} {υ : Impl} :
    (recs.foldl (importRequest env) υ).tenants.lookup t = none ↔
      υ.tenants.lookup t = none ∧ ∀ rec ∈ recs, rec.tenantId ≠ t := by
  induction recs generalizing υ with
  | nil => exact ⟨fun h => ⟨h, List.forall_mem_nil _⟩, And.left⟩
  | cons rec recs ih =>
    have hone : (υ.importRequest env rec).tenants.lookup t = none ↔
        υ.tenants.lookup t = none ∧ rec.tenantId ≠ t := by
      rw [importRequest, charge, AList.lookup_insert_eq_ite]
      split_ifs with h
      · exact iff_of_false id fun hne => hne.2 h.symm
      · exact ⟨fun hnone => ⟨hnone, Ne.symm h⟩, And.left⟩
    rw [List.foldl_cons, ih, hone, List.forall_mem_cons, and_assoc]

/-- Every request has its tenant's account. -/
def Housed (σ : Impl) : Prop :=
  ∀ r s, σ.requests.lookup r = some s → σ.tenants.lookup s.request.tenantId ≠ none

theorem housed_restarted (env : Env) (σ : Impl) (now : Nanoseconds) :
    (σ.restarted env now).Housed := by
  intro r s hs hnone
  obtain ⟨s, hold, rfl⟩ := lookup_of_importState hs
  rw [restarted, tenants_importState_exportState, Option.or_eq_none_iff] at hnone
  have hmem : s.persisted r ∈ σ.exportState.requests :=
    List.mem_map.mpr ⟨⟨r, s⟩, AList.mem_lookup_iff.mp hold, rfl⟩
  refine (lookup_foldl_importRequest_eq_none.mp hnone.2).2 _ hmem ?_
  rw [Rs.resumed, PersistedRequestRecord.recovered_request]
  rfl

/-- Where every request has an account, all accounts are read back. -/
theorem Housed.tenantRecord_restarted (h : σ.Housed) (now : Nanoseconds) (t : TenantId) :
    (σ.restarted env now).tenantRecord t = σ.tenantRecord t := by
  rw [tenantRecord, restarted, tenants_importState_exportState, tenantRecord]
  cases ht : σ.tenants.lookup t with
  | some ts => rfl
  | none =>
    have hnobody : (σ.exportState.requests.foldl (importRequest env)
        ((fresh env).cleared σ.exportState)).tenants.lookup t = none := by
      refine lookup_foldl_importRequest_eq_none.mpr ⟨rfl, fun rec hrec hid => ?_⟩
      obtain ⟨⟨r, s⟩, he, rfl⟩ := List.mem_map.mp hrec
      have hid : s.request.tenantId = t := hid
      rw [← hid] at ht
      exact h r s (AList.mem_lookup_iff.mpr he) ht
    rw [hnobody]
    rfl

theorem counters_restarted (env : Env) (σ : Impl) (now : Nanoseconds) :
    (σ.restarted env now).epoch = σ.epoch ∧
      (σ.restarted env now).nextGenerationValue = max 1 σ.nextGenerationValue ∧
      (σ.restarted env now).nextAttemptValue = max 1 σ.nextAttemptValue :=
  importState_rec (P := fun υ => υ.epoch = σ.epoch ∧
      υ.nextGenerationValue = max 1 σ.nextGenerationValue ∧
      υ.nextAttemptValue = max 1 σ.nextAttemptValue) env now σ.exportState ⟨rfl, rfl, rfl⟩
    (fun _ _ h => h) (fun _ _ h => h) (fun _ _ h => h) (fun _ _ h => h) fun _ _ _ _ _ _ h => h

/-! ### Restarts without end -/

/-- **A settled scheduler**: nothing would be lost by a restart. -/
structure Settled (env : Env) (σ : Impl) : Prop where
  requests : ∀ r s, σ.requests.lookup r = some s → (s.resumed env r).persisted r = s.persisted r
  workers : ∀ w, (σ.workerRecord w).or ((fresh env).workerRecord w) = σ.workerRecord w
  housed : σ.Housed
  groups : σ.groups = ∅
  nextGeneration : max 1 σ.nextGenerationValue = σ.nextGenerationValue
  nextAttempt : max 1 σ.nextAttemptValue = σ.nextAttemptValue

/-- The same would be written of two schedulers. -/
structure SameRecords (σ τ : Impl) : Prop where
  epoch : σ.epoch = τ.epoch
  nextGeneration : σ.nextGenerationValue = τ.nextGenerationValue
  nextAttempt : σ.nextAttemptValue = τ.nextAttemptValue
  groups : σ.groups = τ.groups
  requests : ∀ r, σ.requestRecord r = τ.requestRecord r
  workers : ∀ w, σ.workerRecord w = τ.workerRecord w
  tenants : ∀ t, σ.tenantRecord t = τ.tenantRecord t

/-- A restart settles whatever is left. -/
theorem settled_restarted (hrequests : ∀ r s, (σ.restarted env now).requests.lookup r = some s →
    (s.resumed env r).persisted r = s.persisted r) : (σ.restarted env now).Settled env where
  requests := hrequests
  workers w := by
    rw [workerRecord_restarted, Option.or_assoc, Option.or_self]
  housed := housed_restarted env σ now
  groups := groups_importState env now σ.exportState (fresh env)
  nextGeneration := by rw [(counters_restarted env σ now).2.1, ← max_assoc, max_self]
  nextAttempt := by rw [(counters_restarted env σ now).2.2, ← max_assoc, max_self]

theorem Settled.restarted (h : σ.Settled env) (now : Nanoseconds) :
    (σ.restarted env now).Settled env := by
  refine settled_restarted fun r s hs => ?_
  obtain ⟨s, hold, rfl⟩ := lookup_of_importState hs
  change ((((s.resumed env r).persisted r).recovered env).persisted r) = _
  rw [h.requests r s hold]
  exact h.requests r s hold

theorem Settled.sameRecords (h : σ.Settled env) (now : Nanoseconds) :
    (σ.restarted env now).SameRecords σ where
  epoch := (counters_restarted env σ now).1
  nextGeneration := (counters_restarted env σ now).2.1.trans h.nextGeneration
  nextAttempt := (counters_restarted env σ now).2.2.trans h.nextAttempt
  groups := (groups_importState env now σ.exportState (fresh env)).trans h.groups.symm
  requests r := by
    rw [requestRecord, requestRecord, lookup_restarted, Option.map_map]
    exact Option.map_congr fun s hs => h.requests r s hs
  workers w := (workerRecord_restarted env σ now w).trans (h.workers w)
  tenants := h.housed.tenantRecord_restarted now

end Impl

/-- Two snapshots that say the same, in whatever order. -/
structure PersistedState.Alike (st st' : PersistedState) : Prop where
  epoch : st.epoch = st'.epoch
  nextGenerationValue : st.nextGenerationValue = st'.nextGenerationValue
  nextAttemptValue : st.nextAttemptValue = st'.nextAttemptValue
  requests : st.requests.Perm st'.requests
  workers : st.workers.Perm st'.workers
  tenants : st.tenants.Perm st'.tenants
  wasCleanShutdown : st.wasCleanShutdown = st'.wasCleanShutdown

namespace Impl

variable {env : Env} {σ τ υ : Impl}

theorem SameRecords.trans (h : σ.SameRecords τ) (h' : τ.SameRecords υ) : σ.SameRecords υ :=
  ⟨h.epoch.trans h'.epoch, h.nextGeneration.trans h'.nextGeneration,
    h.nextAttempt.trans h'.nextAttempt, h.groups.trans h'.groups,
    fun r => (h.requests r).trans (h'.requests r), fun w => (h.workers w).trans (h'.workers w),
    fun t => (h.tenants t).trans (h'.tenants t)⟩

/-- A settled scheduler stays as it is. -/
theorem Settled.sameRecords_foldl (h : σ.Settled env) (nows : List Nanoseconds) :
    (nows.foldl (Impl.restarted env) σ).SameRecords σ := by
  induction nows generalizing σ with
  | nil => exact ⟨rfl, rfl, rfl, rfl, fun _ => rfl, fun _ => rfl, fun _ => rfl⟩
  | cons now nows ih => exact (ih (h.restarted now)).trans (h.sameRecords now)

theorem SameRecords.alike (h : σ.SameRecords τ) : σ.exportState.Alike τ.exportState where
  epoch := h.epoch
  nextGenerationValue := h.nextGeneration
  nextAttemptValue := h.nextAttempt
  requests := AList.perm_map_entries Rs.persisted h.requests
  workers := AList.perm_map_entries Ws.persisted h.workers
  tenants :=
    ((List.perm_insertionSort ..).map _).trans
      ((AList.perm_map_entries TenantService.persisted h.tenants).trans
        ((List.perm_insertionSort ..).map _).symm)
  wasCleanShutdown := congrArg (fun g => g.entries.isEmpty) h.groups

/-- **A crash loop does no harm.** Let a scheduler be restarted from what the one before has
written, any number of times. Then what the last one would write is what the first one would have
written: every request, worker and tenant is as it was. -/
theorem restarts_settle (env : Env) (σ : Impl)
    (hsize : ∀ r s, σ.requests.lookup r = some s →
      (s.resumed env r).plan.chunks.length < 2 ^ 32)
    (now : Nanoseconds) (nows : List Nanoseconds) :
    (nows.foldl (restarted env) (σ.restarted env now)).exportState.Alike
      (σ.restarted env now).exportState := by
  have hsettled : (σ.restarted env now).Settled env := by
    refine settled_restarted fun r s hs => ?_
    obtain ⟨s, hold, rfl⟩ := lookup_of_importState hs
    rw [Rs.resumed_resumed (hsize r s hold)]
    rfl
  exact (hsettled.sameRecords_foldl nows).alike

/-- A request that is under way goes back into the queue, once. -/
theorem restarts_settle_dispatched :
    ∃ σ : Impl, σ.exportState.requests.map (·.lifecycle) = [.dispatched] ∧
      ((σ.restarted .standard 1).exportState.requests.map (·.lifecycle) = [.queued]) ∧
      ([2, 3].foldl (restarted .standard) (σ.restarted .standard 1)).exportState.Alike
        (σ.restarted .standard 1).exportState := by
  refine ⟨(Run.fresh .standard Run.dispatchedCalls).stateAt 2, by decide +kernel,
    by decide +kernel, restarts_settle .standard _ (fun r s hs => ?_) 1 [2, 3]⟩
  have hall : ∀ e ∈ ((Run.fresh .standard Run.dispatchedCalls).stateAt 2).requests.entries,
      (e.2.resumed .standard e.1).plan.chunks.length < 2 ^ 32 := by
    decide +kernel
  exact hall ⟨r, s⟩ (AList.mem_lookup_iff.mp hs)

end Impl

end PrefillFabric
