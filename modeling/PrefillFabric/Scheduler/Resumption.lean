import PrefillFabric.Scheduler.Admission
import PrefillFabric.Scheduler.Lifetime
import PrefillFabric.Scheduler.Progress
import PrefillFabric.Scheduler.Search
import PrefillFabric.Scheduler.Terminal

/-!
# Where work is taken up again

A snapshot does not hold the plan of a request, only the token its next chunk starts at.
The recovered scheduler plans the request again, from a record without its estimates, and
looks for a chunk of the new plan that starts at that token. Chunks start at the multiples
of the chunk size, so there is one exactly if the *new* chunk size divides the token;
otherwise the search falls back to the first chunk
(`PersistedRequestRecord.recovered_tokenStart`), or does not end if there are too many chunks for
its index.

If it ends nothing is skipped: the chunks from there on tile the rest of the request, from
the token at the latest (`Reachable.nothing_skipped_iff`). But work may be done twice, and what
was done is no longer counted, since the number of completed tokens is written to a snapshot
and not read back (`Reachable.takesUp_iff`).
-/

namespace PrefillFabric

/-! ### One record -/

namespace PersistedRequestRecord

variable (env : Env) (rec : PersistedRequestRecord)

theorem recovered_plan :
    (rec.recovered env).plan = ChunkPlanner.plan env rec.request rec.attemptId .nil := by
  simp only [recovered]
  split_ifs <;> rfl

theorem recovered_attempt : (rec.recovered env).attempt = rec.attemptId := by
  simp only [recovered]
  split_ifs <;> rfl

theorem recovered_lifecycle : (rec.recovered env).lifecycle =
    if rec.lifecycle = .dispatched ∨ rec.lifecycle = .running then .queued
    else rec.lifecycle := by
  simp only [recovered]
  split_ifs <;> rfl

/-- Recovery ends no request, and revives none. -/
theorem recovered_isTerminal :
    (rec.recovered env).lifecycle.isTerminal = rec.lifecycle.isTerminal := by
  rw [recovered_lifecycle]
  split_ifs with h
  · rcases h with h | h <;> rw [h] <;> rfl
  · rfl

variable {env rec}

theorem recovered_nextChunkIndex
    (h : rec.nextChunkTokenStart < rec.request.remainingPrefillTokens) :
    (rec.recovered env).nextChunkIndex =
      (indexForTokenStart (rec.recovered env).plan rec.nextChunkTokenStart).getD 0 := by
  rw [recovered_plan]
  simp only [recovered, not_le.mpr h, decide_false, Bool.false_eq_true, if_false]
  split_ifs <;> rfl

theorem recovered_nextChunkIndex_of_past
    (h : rec.request.remainingPrefillTokens ≤ rec.nextChunkTokenStart) :
    (rec.recovered env).nextChunkIndex = (rec.recovered env).plan.chunks.length % 2 ^ 32 := by
  rw [recovered_plan]
  simp only [recovered, h, decide_true, if_true]
  split_ifs <;> rfl

theorem recovered_completedUncached
    (h : rec.nextChunkTokenStart < rec.request.remainingPrefillTokens) :
    (rec.recovered env).completedUncached = 0 := by
  simp only [recovered, not_le.mpr h, decide_false, Bool.false_eq_true, if_false]
  split_ifs <;> rfl

theorem recovered_pending (h : rec.nextChunkTokenStart < rec.request.remainingPrefillTokens) :
    (rec.recovered env).nextChunkIndex < (rec.recovered env).plan.chunks.length := by
  rw [recovered_nextChunkIndex h, recovered_plan]
  exact (indexForTokenStart_getD_lt
    (ChunkPlanner.plan_chunks_ne_nil env _ _ _ (Nat.zero_lt_of_lt h))).trans_le (min_le_left _ _)

/-- A request is left with a chunk to execute if it was not past its last token, or if it is
planned in so many chunks that the index past the last one is that of an earlier one. -/
theorem recovered_pending_iff :
    (rec.recovered env).nextChunkIndex < (rec.recovered env).plan.chunks.length ↔
      rec.nextChunkTokenStart < rec.request.remainingPrefillTokens ∨
        2 ^ 32 ≤ (rec.recovered env).plan.chunks.length := by
  rcases Nat.lt_or_ge rec.nextChunkTokenStart rec.request.remainingPrefillTokens with hlt | hge
  · exact iff_of_true (recovered_pending hlt) (Or.inl hlt)
  · rw [recovered_nextChunkIndex_of_past hge, or_iff_right (Nat.not_lt.mpr hge)]
    constructor
    · intro hlt
      by_contra hfew
      rw [Nat.mod_eq_of_lt (Nat.not_le.mp hfew)] at hlt
      exact lt_irrefl _ hlt
    · exact fun hmany => (Nat.mod_lt _ (by decide)).trans_le hmany

/-- **What waits once it is read back.** -/
theorem recovered_isWaiting_iff : (rec.recovered env).isWaiting = true ↔
    (rec.lifecycle = .queued ∨ rec.lifecycle = .dispatched ∨ rec.lifecycle = .running) ∧
      (rec.nextChunkTokenStart < rec.request.remainingPrefillTokens ∨
        2 ^ 32 ≤ (rec.recovered env).plan.chunks.length) := by
  rw [Rs.isWaiting_iff, recovered_pending_iff, recovered_lifecycle, recovered_inFlight]
  cases rec.lifecycle <;> simp

/-- **Where a request is taken up**: at the token it was at, if a chunk of the new plan starts
there that 32 bits can point to, and else at the first. -/
theorem recovered_tokenStart (h : rec.nextChunkTokenStart < rec.request.remainingPrefillTokens) :
    (rec.recovered env).nextChunk.tokenStart =
      if ChunkPlanner.effectiveChunkTokenCount env rec.request ∣ rec.nextChunkTokenStart ∧
        rec.nextChunkTokenStart / ChunkPlanner.effectiveChunkTokenCount env rec.request < 2 ^ 32
      then rec.nextChunkTokenStart else 0 := by
  have hpending : (rec.recovered env).nextChunkIndex < (rec.recovered env).plan.chunks.length :=
    recovered_pending h
  have hget := Rs.getElem?_nextChunkIndex hpending
  have hiff := indexed_plan_iff env rec.request rec.attemptId .nil rec.nextChunkTokenStart
  rw [recovered_nextChunkIndex h, recovered_plan] at hget
  split_ifs with hfits
  · obtain ⟨k, c, hsome, -, hc, hstart⟩ := exists_indexForTokenStart (hiff.mpr ⟨h, hfits⟩)
    rw [hsome, Option.getD_some, hc] at hget
    exact (congrArg PrefillChunk.tokenStart (Option.some.inj hget)).symm.trans hstart
  · rw [indexForTokenStart_getD_eq_zero fun hindexed => hfits (hiff.mp hindexed).2] at hget
    rw [ChunkPlanner.tokenStart_of_getElem? env _ _ _ hget, Nat.zero_mul]

/-- The index of a request read back has 32 bits. -/
theorem recovered_nextChunkIndex_lt : (rec.recovered env).nextChunkIndex < 2 ^ 32 := by
  rcases Nat.lt_or_ge rec.nextChunkTokenStart rec.request.remainingPrefillTokens with hlt | hge
  · rw [recovered_nextChunkIndex hlt, recovered_plan]
    exact (indexForTokenStart_getD_lt (ChunkPlanner.plan_chunks_ne_nil env _ _ _
      (Nat.zero_lt_of_lt hlt))).trans_le (min_le_right _ _)
  · rw [recovered_nextChunkIndex_of_past hge]
    exact Nat.mod_lt _ (by decide)

end PersistedRequestRecord

namespace Rs

variable {env env' : Env} {s : Rs}

/-- A record that is written to a snapshot and read back. -/
def resumed (env : Env) (r : RequestId) (s : Rs) : Rs := (s.persisted r).recovered env

theorem resumed_remaining (env : Env) (r : RequestId) (s : Rs) :
    (s.resumed env r).request.remainingPrefillTokens = s.request.remainingPrefillTokens := by
  rw [resumed, PersistedRequestRecord.recovered_request]
  rfl

theorem resumed_isTerminal (env : Env) (r : RequestId) (s : Rs) :
    (s.resumed env r).lifecycle.isTerminal = s.lifecycle.isTerminal :=
  (s.persisted r).recovered_isTerminal env

/-- The chunks left of a plan tile what is left of the request. -/
theorem Sane.tiles_drop (h : s.Sane env) (hlive : s.lifecycle.isTerminal = false) :
    Tiles s.nextChunk.tokenStart s.request.remainingPrefillTokens
      ((s.plan.chunks.drop s.nextChunkIndex).map (·.range)) := by
  have hget := Rs.getElem?_nextChunkIndex (h.pending hlive)
  have htiles := ChunkPlanner.tiles_plan env s.request s.attempt .nil
  rw [← h.plan_eq] at htiles
  rw [List.map_drop]
  exact htiles.drop (p := s.nextChunk.range)
    ((List.getElem?_map ..).trans (congrArg (Option.map PrefillChunk.range) hget))

theorem Sane.tokenStart_lt (h : s.Sane env) (hlive : s.lifecycle.isTerminal = false) :
    s.nextChunk.tokenStart < s.request.remainingPrefillTokens := by
  have hmem := List.mem_of_getElem? (Rs.getElem?_nextChunkIndex (h.pending hlive))
  rw [h.plan_eq] at hmem
  exact ChunkPlanner.tokenStart_lt_of_mem_plan env _ _ _ hmem

theorem Sane.persisted_tokenStart (h : s.Sane env) (hlive : s.lifecycle.isTerminal = false)
    (r : RequestId) : (s.persisted r).nextChunkTokenStart = s.nextChunk.tokenStart :=
  if_pos (decide_eq_true (h.pending hlive))

/-- The token a request that is not over was at is one of its tokens. -/
theorem Sane.persisted_lt (h : s.Sane env) (hlive : s.lifecycle.isTerminal = false)
    (r : RequestId) :
    (s.persisted r).nextChunkTokenStart < (s.persisted r).request.remainingPrefillTokens := by
  rw [h.persisted_tokenStart hlive]
  exact h.tokenStart_lt hlive

/-- What is written of a request is searched for if it has a chunk left, be it over or not. -/
theorem Sane.searchEnds_iff (h : s.Sane env) (env' : Env) (r : RequestId) :
    (s.persisted r).SearchEnds env' ↔ (s.hasPendingChunk = true →
      PersistedRequestRecord.Searchable env' s.request.remainingPrefillTokens
        s.nextChunk.tokenStart) := by
  rw [PersistedRequestRecord.searchEnds_iff]
  change ((s.persisted r).nextChunkTokenStart < s.request.remainingPrefillTokens →
    PersistedRequestRecord.Searchable env' s.request.remainingPrefillTokens _) ↔ _
  cases hpending : s.hasPendingChunk with
  | false =>
    have hpast : (s.persisted r).nextChunkTokenStart = s.request.remainingPrefillTokens :=
      if_neg (Bool.eq_false_iff.mp hpending)
    rw [hpast]
    exact iff_of_true (fun hlt => absurd hlt (lt_irrefl _)) fun hfalse => Bool.noConfusion hfalse
  | true =>
    have hat : (s.persisted r).nextChunkTokenStart = s.nextChunk.tokenStart := if_pos hpending
    have hmem := List.mem_of_getElem? (Rs.getElem?_nextChunkIndex (of_decide_eq_true hpending))
    rw [h.plan_eq] at hmem
    rw [hat]
    exact imp_congr_left (iff_of_true (ChunkPlanner.tokenStart_lt_of_mem_plan env _ _ _ hmem) rfl)

theorem Sane.resumed_lifecycle (h : s.Sane env) (hlive : s.lifecycle.isTerminal = false)
    (env' : Env) (r : RequestId) : (s.resumed env' r).lifecycle = .queued := by
  refine ((s.persisted r).recovered_lifecycle env').trans ?_
  rcases h.stage hlive with ⟨hqueued, -⟩ | hdisp
  · exact (if_neg (by simp [persisted, hqueued])).trans hqueued
  · exact if_pos (Or.inl hdisp)

/-- **A sane record is read back as a sane record**, under whatever policy. -/
theorem Sane.resumed (h : s.Sane env) (env' : Env) (r : RequestId) :
    (s.resumed env' r).Sane env' where
  plan_eq := by
    rw [Rs.resumed, PersistedRequestRecord.recovered_plan, PersistedRequestRecord.recovered_request,
      PersistedRequestRecord.recovered_attempt]
  pending hlive := by
    rw [resumed_isTerminal] at hlive
    exact PersistedRequestRecord.recovered_pending (h.persisted_lt hlive r)
  stage hlive := by
    rw [resumed_isTerminal] at hlive
    exact Or.inl ⟨h.resumed_lifecycle hlive env' r,
      PersistedRequestRecord.recovered_inFlight env' _⟩

theorem Sane.resumed_tokenStart (h : s.Sane env) (hlive : s.lifecycle.isTerminal = false)
    (env' : Env) (r : RequestId) : (s.resumed env' r).nextChunk.tokenStart =
      if ChunkPlanner.effectiveChunkTokenCount env' (s.persisted r).request ∣
          s.nextChunk.tokenStart ∧
        s.nextChunk.tokenStart /
          ChunkPlanner.effectiveChunkTokenCount env' (s.persisted r).request < 2 ^ 32
      then s.nextChunk.tokenStart else 0 := by
  rw [← h.persisted_tokenStart hlive r]
  exact PersistedRequestRecord.recovered_tokenStart (h.persisted_lt hlive r)

end Rs

/-! ### All records -/

namespace Impl

variable {σ : Impl} {r : RequestId}

/-- The requests of a recovered scheduler are written one after the other. -/
theorem requests_importState (env : Env) (now : Nanoseconds) (st : PersistedState) (τ : Impl) :
    (τ.importState env now st).requests =
      st.requests.foldl (fun t rec => t.insert rec.requestId (rec.recovered env)) ∅ := by
  calc (τ.importState env now st).requests
      = (st.workers.foldl importWorker
          (st.requests.foldl (importRequest env) (τ.cleared st))).requests :=
        List.foldlRecOn st.tenants importTenant
          (motive := fun υ : Impl => υ.requests = (st.workers.foldl importWorker
            (st.requests.foldl (importRequest env) (τ.cleared st))).requests) rfl
          fun _ h _ _ => h
    _ = (st.requests.foldl (importRequest env) (τ.cleared st)).requests :=
        List.foldlRecOn st.workers importWorker
          (motive := fun υ : Impl => υ.requests =
            (st.requests.foldl (importRequest env) (τ.cleared st)).requests) rfl
          fun _ h _ _ => h
    _ = st.requests.foldl (fun t rec => t.insert rec.requestId (rec.recovered env)) ∅ :=
        (List.foldl_hom Impl.requests fun _ _ => rfl).symm

/-- Each request is read back from the last of its records. -/
theorem lookup_importState (env : Env) (now : Nanoseconds) (st : PersistedState) (τ : Impl)
    (r : RequestId) : (τ.importState env now st).requests.lookup r =
      (st.requests.reverse.find? fun rec => decide (rec.requestId = r)).map (·.recovered env) := by
  rw [requests_importState, AList.lookup_foldl_insert_eq_find]
  exact Option.or_none

/-- **A snapshot read back**: each request, and no other, is read back from its record. -/
theorem lookup_importState_exportState (env : Env) (now : Nanoseconds) (σ τ : Impl)
    (r : RequestId) : (τ.importState env now σ.exportState).requests.lookup r =
      (σ.requests.lookup r).map (Rs.resumed env r) := by
  rw [requests_importState, exportState, List.foldl_map]
  refine (AList.lookup_foldl_insert (Rs.resumed env) _ σ.requests.nodupKeys ∅ r).trans ?_
  exact Option.or_none

theorem lookup_of_importState {env : Env} {now : Nanoseconds} {τ : Impl} {s' : Rs}
    (h : (τ.importState env now σ.exportState).requests.lookup r = some s') :
    ∃ s, σ.requests.lookup r = some s ∧ s' = s.resumed env r := by
  rw [lookup_importState_exportState] at h
  obtain ⟨s, hs, rfl⟩ := Option.map_eq_some_iff.mp h
  exact ⟨s, hs, rfl⟩

end Impl

/-- A request that can be admitted, and comes with its tokens, is. -/
theorem Impl.step_of_admits {env : Env} {σ : Impl} {req : PrefillRequest} {tokens : List UInt32}
    (now : Nanoseconds) (hadmits : σ.Admits env req)
    (htokens : tokens.length = req.promptTokenCount.toNat) :
    σ.step env ⟨now, .submitWithTokens req tokens⟩ =
      (((σ.withTokens req tokens).withAccount req).admitRequest env now req,
        .status (.ok ())) := by
  rcases σ.submitWithTokens_cases env now req tokens with ⟨-, hnot, -⟩ | ⟨-, -, heq⟩
  · exact absurd ⟨hadmits, htokens⟩ hnot
  · exact congrArg (Prod.map id Reply.status) heq

/-! ### The states of schedulers that recover from each other -/

/-- A policy of one token a chunk. -/
def Env.singly : Env := { Env.standard with cfg := { maxTokensPerChunk := 1 } }

/-- A policy of `2 ^ 32` tokens a chunk. -/
def Env.coarse : Env := { Env.standard with cfg := { maxTokensPerChunk := 4294967296 } }

/-- **The states a scheduler can reach** when it is built, called, and made to read the
snapshots of other schedulers, which may be under other policies. -/
inductive Reachable : Env → Impl → Prop
  | fresh (env : Env) : Reachable env (.fresh env)
  | step {env : Env} {σ : Impl} (h : Reachable env σ) (c : Call) : Reachable env (σ.step env c).1
  | importState {env env' : Env} {σ τ : Impl} (h : Reachable env τ) (h' : Reachable env' σ)
      (now : Nanoseconds) : Reachable env (τ.importState env now σ.exportState)

theorem Run.reachable (env : Env) (calls : List Call) (n : ℕ) :
    Reachable env ((Run.fresh env calls).stateAt n) :=
  Machine.invariant (M := scheduler env) (P := Reachable env) (.fresh env)
    (fun _ c h => h.step c) n

namespace Reachable

variable {env : Env} {σ : Impl} {r : RequestId} {s : Rs}

theorem wf_sane (h : Reachable env σ) : σ.view.Wf ∧ σ.view.Each fun _ s => s.Sane env := by
  induction h with
  | fresh env => exact ⟨Impl.wf_fresh env, fun _ s h => absurd h (Option.some_ne_none s).symm⟩
  | @step env σ _ c ih =>
    refine (Impl.effects_step env ih.1 c).invariant
      (P := fun v => v.Wf ∧ v.Each fun _ s => s.Sane env) (fun v l v' hl _ hv => ?_) ih
    refine ⟨hl.wf hv.1, hl.each (fun now req _ _ => ?_) (fun _ _ _ _ hfate hs => ?_) hv.2⟩
    · exact Rs.sane_admitted now req _
    · exact hfate.sane hs
  | @importState env env' σ τ _ _ now ih ih' =>
    refine ⟨(Impl.quiet_importState ih.1 env now _).1.wf, fun r t ht => ?_⟩
    obtain ⟨s', hs', rfl⟩ := Impl.exists_of_view_req ht
    obtain ⟨s, hs, rfl⟩ := Impl.lookup_of_importState hs'
    have hsane := Rs.Sane.resumed (ih'.2 r s.core (Impl.view_req hs)) env r
    exact ⟨hsane.plan_eq, hsane.pending, hsane.stage⟩

theorem sane (h : Reachable env σ) (hs : σ.requests.lookup r = some s) : s.Sane env := by
  have hcore := h.wf_sane.2 r s.core (Impl.view_req hs)
  exact ⟨hcore.plan_eq, hcore.pending, hcore.stage⟩

theorem nextChunkIndex_lt (h : Reachable env σ) (hs : σ.requests.lookup r = some s) :
    s.nextChunkIndex < 2 ^ 32 := by
  induction h generalizing r s with
  | fresh env => exact absurd hs (Option.some_ne_none s).symm
  | @step env σ h c ih =>
    refine (Impl.effects_step env h.wf_sane.1 c).invariant
      (P := View.Each fun _ s => s.nextChunkIndex < 2 ^ 32) (fun v l v' hl _ hv => ?_)
      (fun r t ht => ?_) r s.core (Impl.view_req hs)
    · exact hl.each (fun _ _ _ _ => Nat.two_pow_pos 32)
        (fun _ _ _ _ hfate => hfate.nextChunkIndex_lt) hv
    · obtain ⟨u, hu, rfl⟩ := Impl.exists_of_view_req ht
      change u.nextChunkIndex < 2 ^ 32
      exact ih hu
  | @importState env env' σ τ _ _ now _ _ =>
    obtain ⟨t, -, rfl⟩ := Impl.lookup_of_importState hs
    exact PersistedRequestRecord.recovered_nextChunkIndex_lt

/-- **When a snapshot is read back at all**: every chunk that a request is left with, be it over or
not, can be searched for under the policy of the reader. -/
theorem returns_iff (h : Reachable env σ) (env' : Env) : σ.exportState.Returns env' ↔
    ∀ r s, σ.requests.lookup r = some s → s.hasPendingChunk = true →
      PersistedRequestRecord.Searchable env' s.request.remainingPrefillTokens
        s.nextChunk.tokenStart := by
  constructor
  · intro hreturns r s hs
    refine ((h.sane hs).searchEnds_iff env' r).mp (hreturns _ ?_)
    exact List.mem_map.mpr ⟨⟨r, s⟩, AList.mem_lookup_iff.mp hs, rfl⟩
  · intro hall rec hrec
    obtain ⟨⟨r, s⟩, hmem, rfl⟩ := List.mem_map.mp hrec
    have hs : σ.requests.lookup r = some s := AList.mem_lookup_iff.mpr hmem
    exact ((h.sane hs).searchEnds_iff env' r).mpr (hall r s hs)

/-- What a request that is not over is taken up as: queued, a candidate of the next cycle, no
later than where it was, with chunks from there on that cover every token that was left. -/
theorem exists_resumed (h : Reachable env σ) (env' : Env) (now : Nanoseconds) (τ : Impl)
    (hs : σ.requests.lookup r = some s) (hlive : s.lifecycle.isTerminal = false) :
    ∃ s', (τ.importState env' now σ.exportState).requests.lookup r = some s' ∧
      s'.lifecycle = .queued ∧ r ∈ (τ.importState env' now σ.exportState).candidates ∧
      s'.nextChunk.tokenStart ≤ s.nextChunk.tokenStart ∧
      ∀ x, s.nextChunk.tokenStart ≤ x → x < s.request.remainingPrefillTokens →
        ∃ c ∈ s'.plan.chunks.drop s'.nextChunkIndex,
          c.tokenStart ≤ x ∧ x < c.tokenStart + c.tokenCount := by
  have hsane := h.sane hs
  have hlookup : (τ.importState env' now σ.exportState).requests.lookup r =
      some (s.resumed env' r) := by
    rw [Impl.lookup_importState_exportState, hs, Option.map_some]
  have hover := (s.resumed_isTerminal env' r).trans hlive
  have hnew := hsane.resumed env' r
  have hqueued := hsane.resumed_lifecycle hlive env' r
  have hle : (s.resumed env' r).nextChunk.tokenStart ≤ s.nextChunk.tokenStart := by
    rw [hsane.resumed_tokenStart hlive]
    split_ifs
    · exact le_rfl
    · exact Nat.zero_le _
  have hwait : (s.resumed env' r).isWaiting = true := Rs.isWaiting_iff.mpr
    ⟨hqueued, PersistedRequestRecord.recovered_inFlight env' _, hnew.pending hover⟩
  refine ⟨_, hlookup, hqueued, Impl.mem_candidates.mpr ⟨_, hlookup, hwait⟩, hle,
    fun x hx hlt => ?_⟩
  have htiles := hnew.tiles_drop hover
  rw [Rs.resumed_remaining] at htiles
  obtain ⟨p, hp, hcover⟩ := htiles.exists_mem (hle.trans hx) hlt
  obtain ⟨c, hc, rfl⟩ := List.mem_map.mp hp
  exact ⟨c, hc, hcover⟩

/-- A request that is over when the snapshot is taken is not handed out once it is read back. -/
theorem not_emitted_of_terminal (ℓ : Life) (k : ℕ) (now : Nanoseconds)
    (hs : σ.requests.lookup r = some s) (hterm : s.lifecycle.isTerminal = true)
    (calls : List Call) (n : ℕ) :
    ∀ m ∈ (Run.mk ℓ.env ((ℓ.stateAt k).importState ℓ.env now σ.exportState) calls).emitted n,
      m.requestId ≠ r := by
  have hlookup : ((ℓ.stateAt k).importState ℓ.env now σ.exportState).requests.lookup r =
      some (s.resumed ℓ.env r) := by
    rw [Impl.lookup_importState_exportState, hs, Option.map_some]
  have hover := (s.resumed_isTerminal ℓ.env r).trans hterm
  have hwf := (Impl.quiet_importState (ℓ.wf k) ℓ.env now σ.exportState).1.wf
  have hreq := Run.view_req_of_terminal (ρ := ⟨ℓ.env, _, calls⟩) hwf (Nat.zero_le n)
    (Impl.view_req hlookup) hover
  exact (Run.view_req_succ_of_terminal hwf hreq hover).2

/-- **When nothing is skipped.** Whatever state a scheduler is in when its snapshot is taken,
and whatever scheduler reads it, at any time of its life: this comes to an end, a request that is
not over is queued, a candidate of the next cycle, taken up no later than where it was, and the
chunks from there on cover every token that was left, and a request that is over is never handed
out, exactly if every chunk that a request is left with can be searched for. -/
theorem nothing_skipped_iff (h : Reachable env σ) (ℓ : Life) (k : ℕ) (now : Nanoseconds) :
    let τ := (ℓ.stateAt k).importState ℓ.env now σ.exportState
    (σ.exportState.Returns ℓ.env ∧ ∀ r s, σ.requests.lookup r = some s →
      (s.lifecycle.isTerminal = false → ∃ s', τ.requests.lookup r = some s' ∧
        s'.lifecycle = .queued ∧ r ∈ τ.candidates ∧
        s'.nextChunk.tokenStart ≤ s.nextChunk.tokenStart ∧
        ∀ x, s.nextChunk.tokenStart ≤ x → x < s.request.remainingPrefillTokens →
          ∃ c ∈ s'.plan.chunks.drop s'.nextChunkIndex,
            c.tokenStart ≤ x ∧ x < c.tokenStart + c.tokenCount) ∧
      (s.lifecycle.isTerminal = true → ∀ (calls : List Call) (n : ℕ),
        ∀ m ∈ (Run.mk ℓ.env τ calls).emitted n, m.requestId ≠ r)) ↔
    ∀ r s, σ.requests.lookup r = some s → s.hasPendingChunk = true →
      PersistedRequestRecord.Searchable ℓ.env s.request.remainingPrefillTokens
        s.nextChunk.tokenStart := by
  intro τ
  rw [← h.returns_iff]
  exact and_iff_left fun r s hs =>
    ⟨h.exists_resumed ℓ.env now _ hs, not_emitted_of_terminal ℓ k now hs⟩

/-- A request of four tokens that needs so much memory that it is cut into four chunks; the
first is done. -/
def landedCalls : List Call :=
  [⟨0, .submitWithTokens { Run.plainRequest 1 4 with memoryEstimateBytes := 2147483648 }
      [5, 6, 7, 8]⟩, ⟨0, .runCycle⟩,
    ⟨0, .reportCompletion (Run.firstReport .success)⟩]

/-- The snapshot is read back, and the three tokens left are covered when the request is taken up,
in one chunk of four. -/
theorem nothing_skipped_landedCalls :
    ((Run.fresh .standard landedCalls).stateAt 3).exportState.Returns .standard ∧
    ∃ s', ((Impl.fresh .standard).importState .standard 0
        ((Run.fresh .standard landedCalls).stateAt 3).exportState).requests.lookup ⟨1⟩ = some s' ∧
      ∀ x, 1 ≤ x → x < 4 → ∃ c ∈ s'.plan.chunks.drop s'.nextChunkIndex,
        c.tokenStart ≤ x ∧ x < c.tokenStart + c.tokenCount := by
  have hall : ∀ e ∈ ((Run.fresh .standard landedCalls).stateAt 3).requests.entries,
      PersistedRequestRecord.Searchable .standard e.2.request.remainingPrefillTokens
        e.2.nextChunk.tokenStart := by
    decide +kernel
  have hvalues : (((Run.fresh .standard landedCalls).stateAt 3).requests.lookup ⟨1⟩).map
      (fun s => (s.lifecycle.isTerminal, s.nextChunk.tokenStart,
        s.request.remainingPrefillTokens)) = some (false, 1, 4) := by
    decide +kernel
  obtain ⟨s, hs, heq⟩ := Option.map_eq_some_iff.mp hvalues
  simp only [Prod.mk.injEq] at heq
  obtain ⟨hlive, hstart, hrem⟩ := heq
  obtain ⟨hreturns, hrest⟩ :=
    (nothing_skipped_iff (Run.reachable .standard landedCalls 3) ⟨.standard, []⟩ 0 0).mpr
      fun r s hs _ => hall ⟨r, s⟩ (AList.mem_lookup_iff.mp hs)
  obtain ⟨s', hs', -, -, -, hcover⟩ := (hrest ⟨1⟩ s hs).1 hlive
  rw [hstart, hrem] at hcover
  exact ⟨hreturns, s', hs', hcover⟩

/-- One token more than 32 bits can count. -/
def wideRequest : PrefillRequest := Run.plainRequest 1 4294967297

/-- The first `2 ^ 32` tokens are done, in one chunk. -/
def wideCalls : List Call :=
  [⟨0, .submitWithTokens wideRequest (List.replicate 4294967297 0)⟩, ⟨0, .runCycle⟩,
    ⟨0, .reportCompletion (Run.firstReport .success)⟩]

/-- The tokens are too many to count them one by one; but what comes after they are accepted does
not look at them. -/
theorem lookup_wideCalls :
    (((Run.fresh .coarse wideCalls).stateAt 3).requests.lookup ⟨1⟩).map
      (fun s => (s.lifecycle, s.nextChunk.tokenStart, s.request.remainingPrefillTokens)) =
        some (.queued, 4294967296, 4294967297) := by
  have hthree : ∀ c c' c'', (Run.fresh .coarse [c, c', c'']).stateAt 3 =
      ((((Impl.fresh .coarse).step .coarse c).1.step .coarse c').1.step .coarse c'').1 :=
    fun _ _ _ => rfl
  have hadmits : (Impl.fresh .coarse).Admits .coarse wideRequest :=
    ⟨by decide +kernel, rfl, by decide +kernel, by decide +kernel, by decide +kernel⟩
  have htokens : (List.replicate 4294967297 (0 : UInt32)).length =
      wideRequest.promptTokenCount.toNat := List.length_replicate.trans (by decide +kernel)
  rw [wideCalls, hthree, Impl.step_of_admits 0 hadmits htokens]
  decide +kernel

/-- Read back in chunks of one token, the request is searched for at the chunk with the index
`2 ^ 32`, which is never reached, and nothing comes after it. -/
theorem not_returns_wideCalls :
    let σ := (Run.fresh .coarse wideCalls).stateAt 3
    (σ.requests.lookup ⟨1⟩).map (fun s => (s.lifecycle, s.nextChunk.tokenStart,
        s.request.remainingPrefillTokens)) = some (.queued, 4294967296, 4294967297) ∧
      ¬σ.exportState.Returns .singly := by
  have hreachable := Run.reachable .coarse wideCalls 3
  have hvalues := lookup_wideCalls
  generalize (Run.fresh .coarse wideCalls).stateAt 3 = σ at hreachable hvalues ⊢
  refine ⟨hvalues, fun hreturns => ?_⟩
  obtain ⟨s, hs, heq⟩ := Option.map_eq_some_iff.mp hvalues
  simp only [Prod.mk.injEq] at heq
  obtain ⟨hqueued, hstart, hrem⟩ := heq
  have hpending := (hreachable.sane hs).pending (by rw [hqueued]; rfl)
  have hsearch := (hreachable.returns_iff .singly).mp hreturns ⟨1⟩ s hs (decide_eq_true hpending)
  rw [hstart, hrem] at hsearch
  exact absurd hsearch (by decide +kernel)

end Reachable

/-! ### What is counted as done -/

/-- The tokens left of a request, unless it is over. -/
def Rs.tokensLeft (s : Rs) : ℕ :=
  if !s.lifecycle.isTerminal then
    (UInt64.ofNat s.request.remainingPrefillTokens - .ofNat s.completedUncached).toNat
  else 0

namespace Impl

theorem sum_map_uint64 {α : Type} (f : α → UInt64) (l : List α) :
    (l.map f).sum = UInt64.ofNat (l.map fun a => (f a).toNat).sum := by
  induction l with
  | nil => rfl
  | cons a l ih =>
    rw [List.map_cons, List.sum_cons, List.map_cons, List.sum_cons, UInt64.ofNat_add,
      UInt64.ofNat_toNat, ih]

theorem remainingTokens_eq (σ : Impl) :
    σ.remainingTokens = .ofNat (AList.total (fun _ s => s.tokensLeft) σ.requests) := by
  simp only [Rs.tokensLeft]
  rw [AList.total_ite (fun _ (s : Rs) => !s.lifecycle.isTerminal), remainingTokens,
    sum_map_uint64, requestList, List.filter_map, List.map_map]
  rfl

/-- **Work is taken up as it was**: each request that is not over is at the chunk that
starts where its next chunk did, with as many tokens done, and as many tokens are
reported to be left. -/
structure TakesUp (σ τ : Impl) : Prop where
  request : ∀ r s, σ.requests.lookup r = some s → s.lifecycle.isTerminal = false →
    ∃ s', τ.requests.lookup r = some s' ∧ s'.hasPendingChunk = true ∧
      s'.nextChunk.tokenStart = s.nextChunk.tokenStart ∧
      s'.completedUncached = s.completedUncached
  remaining : τ.remainingTokens = σ.remainingTokens

end Impl

namespace Reachable

variable {env : Env} {σ : Impl}

/-- Without its estimates a request has larger chunks, and so fewer before the one it is at. -/
theorem tokenStart_div_lt {r : RequestId} {s : Rs} (h : Reachable env σ)
    (hs : σ.requests.lookup r = some s) (hlive : s.lifecycle.isTerminal = false) :
    s.nextChunk.tokenStart / ChunkPlanner.effectiveChunkTokenCount env (s.persisted r).request <
      2 ^ 32 := by
  have hsane := h.sane hs
  have hget := Rs.getElem?_nextChunkIndex (hsane.pending hlive)
  rw [hsane.plan_eq] at hget
  have hsize : ChunkPlanner.effectiveChunkTokenCount env s.request ≤
      ChunkPlanner.effectiveChunkTokenCount env (s.persisted r).request := by
    rw [ChunkPlanner.effectiveChunkTokenCount_of_unestimated env (s.persisted r).request rfl rfl,
      min_comm]
    exact ChunkPlanner.effectiveChunkTokenCount_le env s.request
  refine lt_of_le_of_lt ?_ (h.nextChunkIndex_lt hs)
  rw [ChunkPlanner.tokenStart_of_getElem? env _ _ _ hget]
  refine Nat.div_le_of_le_mul ?_
  rw [Nat.mul_comm]
  exact Nat.mul_le_mul_right _ hsize

/-- When the records are read back as they were. -/
theorem takesUp_iff_multiple (h : Reachable env σ) (now : Nanoseconds) :
    σ.TakesUp ((Impl.fresh env).importState env now σ.exportState) ↔
      ∀ r s, σ.requests.lookup r = some s → s.lifecycle.isTerminal = false →
        s.completedUncached = 0 ∧
        ChunkPlanner.effectiveChunkTokenCount env (s.persisted r).request ∣
          s.nextChunk.tokenStart := by
  have hlookup := Impl.lookup_importState_exportState env now σ (Impl.fresh env)
  constructor
  · intro htakes r s hs hlive
    have hsane := h.sane hs
    obtain ⟨s', hs', -, hstart, hdone⟩ := htakes.request r s hs hlive
    rw [hlookup, hs, Option.map_some, Option.some.injEq] at hs'
    subst hs'
    rw [hsane.resumed_tokenStart hlive] at hstart
    refine ⟨hdone.symm.trans
      (PersistedRequestRecord.recovered_completedUncached (hsane.persisted_lt hlive r)), ?_⟩
    by_contra hdvd
    rw [if_neg fun hfits => hdvd hfits.1] at hstart
    exact hdvd (hstart ▸ Nat.dvd_zero _)
  · intro hall
    have hdone : ∀ r s, σ.requests.lookup r = some s → s.lifecycle.isTerminal = false →
        (s.resumed env r).completedUncached = s.completedUncached := by
      intro r s hs hlive
      rw [(hall r s hs hlive).1]
      exact PersistedRequestRecord.recovered_completedUncached ((h.sane hs).persisted_lt hlive r)
    refine ⟨fun r s hs hlive => ?_, ?_⟩
    · have hsane := h.sane hs
      refine ⟨s.resumed env r, by rw [hlookup, hs, Option.map_some], ?_, ?_, hdone r s hs hlive⟩
      · exact decide_eq_true
          (PersistedRequestRecord.recovered_pending (hsane.persisted_lt hlive r))
      · rw [hsane.resumed_tokenStart hlive,
          if_pos ⟨(hall r s hs hlive).2, h.tokenStart_div_lt hs hlive⟩]
    · rw [Impl.remainingTokens_eq, Impl.remainingTokens_eq]
      refine congrArg UInt64.ofNat (AList.total_congr (fun _ n => n) fun r => ?_)
      rw [hlookup]
      cases hs : σ.requests.lookup r with
      | none => rfl
      | some s =>
        refine congrArg some ?_
        simp only [Rs.tokensLeft, Rs.resumed_isTerminal, Rs.resumed_remaining]
        cases hlive : s.lifecycle.isTerminal with
        | true => rfl
        | false => rw [hdone r s hs hlive]

/-- The chunk of a request that is not over is found where one starts. -/
theorem searchable_of_dvd {r : RequestId} {s : Rs} (h : Reachable env σ)
    (hs : σ.requests.lookup r = some s) (hlive : s.lifecycle.isTerminal = false)
    (hdvd : ChunkPlanner.effectiveChunkTokenCount env (s.persisted r).request ∣
      s.nextChunk.tokenStart) :
    PersistedRequestRecord.Searchable env s.request.remainingPrefillTokens
      s.nextChunk.tokenStart := by
  have hsane := h.sane hs
  refine (hsane.searchEnds_iff env r).mp (fun hlt => ?_) (decide_eq_true (hsane.pending hlive))
  rw [PersistedRequestRecord.isSome_indexForTokenStart_iff]
  refine Or.inr ((PersistedRequestRecord.indexed_plan_iff env _ _ _ _).mpr ⟨hlt, ?_⟩)
  rw [hsane.persisted_tokenStart hlive]
  exact ⟨hdvd, h.tokenStart_div_lt hs hlive⟩

/-- **When work is taken up as it was** by a new scheduler under the same policy: exactly
if no request that is not over has tokens counted as done, and each is at a multiple of
the chunk size it would have without its estimates. To have read the snapshot to its end takes as
much, and that the chunk of a request that is over can be searched for as well. -/
theorem takesUp_iff (h : Reachable env σ) (now : Nanoseconds) :
    (σ.TakesUp ((Impl.fresh env).importState env now σ.exportState) ↔
      ∀ r s, σ.requests.lookup r = some s → s.lifecycle.isTerminal = false →
        s.completedUncached = 0 ∧
        ChunkPlanner.effectiveChunkTokenCount env (s.persisted r).request ∣
          s.nextChunk.tokenStart) ∧
    (σ.exportState.Returns env ∧
        σ.TakesUp ((Impl.fresh env).importState env now σ.exportState) ↔
      ∀ r s, σ.requests.lookup r = some s →
        (s.lifecycle.isTerminal = false → s.completedUncached = 0 ∧
          ChunkPlanner.effectiveChunkTokenCount env (s.persisted r).request ∣
            s.nextChunk.tokenStart) ∧
        (s.lifecycle.isTerminal = true → s.hasPendingChunk = true →
          PersistedRequestRecord.Searchable env s.request.remainingPrefillTokens
            s.nextChunk.tokenStart)) := by
  refine ⟨h.takesUp_iff_multiple now, ?_⟩
  rw [h.returns_iff, h.takesUp_iff_multiple now]
  constructor
  · exact fun hall r s hs => ⟨hall.2 r s hs, fun _ => hall.1 r s hs⟩
  · refine fun hall => ⟨fun r s hs hpending => ?_, fun r s hs => (hall r s hs).1⟩
    cases hlive : s.lifecycle.isTerminal with
    | true => exact (hall r s hs).2 hlive hpending
    | false => exact h.searchable_of_dvd hs hlive ((hall r s hs).1 hlive).2

/-- While the first chunk is executed, all is taken up as it was. -/
theorem takesUp_iff_dispatched :
    ((Run.fresh .standard landedCalls).stateAt 2).exportState.Returns .standard ∧
    ((Run.fresh .standard landedCalls).stateAt 2).TakesUp
      ((Impl.fresh .standard).importState .standard 0
        ((Run.fresh .standard landedCalls).stateAt 2).exportState) := by
  refine (takesUp_iff (Run.reachable .standard landedCalls 2) 0).2.mpr fun r s hs => ?_
  have hall : ∀ e ∈ ((Run.fresh .standard landedCalls).stateAt 2).requests.entries,
      e.2.lifecycle.isTerminal = false ∧ e.2.completedUncached = 0 ∧
        e.2.nextChunk.tokenStart = 0 := by
    decide +kernel
  obtain ⟨hlive, hdone, hstart⟩ := hall ⟨r, s⟩ (AList.mem_lookup_iff.mp hs)
  exact ⟨fun _ => ⟨hdone, hstart ▸ Nat.dvd_zero _⟩,
    fun hover => Bool.noConfusion (hlive.symm.trans hover)⟩

/-- Once it is done, the recovered scheduler starts the request from its first token, and
reports one token more. -/
theorem not_takesUp_landedCalls :
    let σ := (Run.fresh .standard landedCalls).stateAt 3
    let τ := (Impl.fresh .standard).importState .standard 0 σ.exportState
    (σ.requests.lookup ⟨1⟩).map (fun s => (s.lifecycle, s.nextChunk.tokenStart,
        s.completedUncached)) = some (.queued, 1, 1) ∧
      (τ.requests.lookup ⟨1⟩).map (fun s => (s.lifecycle, s.nextChunk.tokenStart,
        s.completedUncached)) = some (.queued, 0, 0) ∧
      σ.remainingTokens = 3 ∧ τ.remainingTokens = 4 ∧ ¬σ.TakesUp τ := by
  have hvalues : ((Run.fresh .standard landedCalls).stateAt 3).remainingTokens = 3 ∧
      ((Impl.fresh .standard).importState .standard 0
        ((Run.fresh .standard landedCalls).stateAt 3).exportState).remainingTokens = 4 := by
    decide +kernel
  refine ⟨by decide +kernel, by decide +kernel, hvalues.1, hvalues.2, fun htakes => ?_⟩
  exact absurd (hvalues.2.symm.trans (htakes.remaining.trans hvalues.1)) (by decide)

end Reachable

end PrefillFabric
