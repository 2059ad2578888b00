import PrefillFabric.Scheduler.Dispatches

/-!
# How often a request is dispatched

A retry starts a request over, so that the number of its dispatches is not bounded by the
number of its chunks; but retries are bounded too. A request that has used up `k` retries and
is about to execute chunk number `i` of its `C` chunks has been dispatched at most `k * C + i`
times, once more if the chunk is in flight (`Rs.Within`); and when it is over, at most
`(k + 1) * C` times. Whatever happens to a request keeps to this, but for two things. A lost
worker puts a chunk back in the queue that has been dispatched already. And the index of a chunk
is a number of 32 bits: after chunk number `2 ^ 32 - 1` comes chunk number `0`, of the same
attempt.

So where no worker is lost and a plan has less than `2 ^ 32` chunks, a request is dispatched at
most `(maxRetries + 1) * C` times in the whole run (`Spends.dispatchCount_le`), and all requests
together at most as often as the sum of these numbers (`Spends.length_le_budget`).
-/

namespace PrefillFabric

/-! ### The number of chunks -/

namespace ChunkPlanner

variable (env : Env) (req : PrefillRequest)

/-- The number of chunks a request is planned in. -/
def chunkCount : ℕ := (plan env req .nil .nil).chunks.length

/-- It is the same for every attempt. -/
theorem length_plan (attempt : AttemptId) (seed : Generation) :
    (plan env req attempt seed).chunks.length = chunkCount env req := by
  have hloop : ∀ fuel offset idx, (chunksFrom env req attempt seed fuel offset idx).length =
      (chunksFrom env req .nil .nil fuel offset idx).length := by
    intro fuel
    induction fuel with
    | zero => exact fun _ _ => rfl
    | succ fuel ih =>
      intro offset idx
      rw [chunksFrom, chunksFrom]
      split_ifs
      · rw [List.length_cons, List.length_cons, ih]
      · rfl
  exact hloop _ 0 0

end ChunkPlanner

theorem PrefillRequest.maxRetries_nonneg {req : PrefillRequest} (h : req.validate.code = .ok) :
    0 ≤ req.maxRetries := by
  by_contra hneg
  simp only [validate, not_le.mp hneg, if_true] at h
  split_ifs at h

/-! ### Within the budget -/

namespace Rs

open ChunkPlanner

variable {env : Env} {s t : Rs} {c : ℕ}

@[simp] theorem dropReservation_retriesUsed :
    s.dropReservation.retriesUsed = s.retriesUsed := by
  rw [dropReservation_eq]

theorem Sane.length_chunks (h : s.Sane env) :
    s.plan.chunks.length = chunkCount env s.request := by
  rw [h.plan_eq, length_plan]

theorem Sane.nextChunkIndex_lt (h : s.Sane env) (hlive : s.lifecycle.isTerminal = false) :
    s.nextChunkIndex < chunkCount env s.request :=
  h.length_chunks ▸ h.pending hlive

/-- **Dispatched `c` times, and within its budget.** -/
structure Within (env : Env) (s : Rs) (c : ℕ) : Prop where
  retries_nonneg : 0 ≤ s.retriesUsed
  retries_le : s.retriesUsed ≤ s.request.maxRetries
  total : c ≤ (s.retriesUsed.toNat + 1) * chunkCount env s.request
  waiting : s.isWaiting = true → c ≤ s.retriesUsed.toNat * chunkCount env s.request +
    s.nextChunkIndex
  live : s.isLive = true → c ≤ s.retriesUsed.toNat * chunkCount env s.request +
    s.nextChunkIndex + 1

/-- How often a request within its budget has been dispatched at most. -/
theorem Within.le_allowance (h : s.Within env c) :
    c ≤ (s.request.maxRetries + 1).toNat * chunkCount env s.request := by
  have hle := h.retries_le
  have hnonneg := h.retries_nonneg
  exact h.total.trans (Nat.mul_le_mul_right _ (by omega))

/-- A record from which no dispatch comes any more. -/
theorem Within.of_idle (h : s.Within env c) (hretries : t.retriesUsed = s.retriesUsed)
    (hrequest : t.request = s.request) (hwait : t.isWaiting = false) (hlive : t.isLive = false) :
    t.Within env c where
  retries_nonneg := hretries ▸ h.retries_nonneg
  retries_le := by
    rw [hretries, hrequest]
    exact h.retries_le
  total := by
    rw [hretries, hrequest]
    exact h.total
  waiting hc := Bool.noConfusion (hwait.symm.trans hc)
  live hc := Bool.noConfusion (hlive.symm.trans hc)

/-- What is over is not dispatched again. -/
theorem Within.of_over (h : s.Within env c) (hretries : t.retriesUsed = s.retriesUsed)
    (hrequest : t.request = s.request) (hover : t.lifecycle.isTerminal = true) :
    t.Within env c := by
  refine h.of_idle hretries hrequest (Bool.eq_false_iff.mpr fun hwait => ?_) ?_
  · exact Bool.noConfusion ((isTerminal_of_isWaiting hwait).symm.trans hover)
  · rw [isLive, hover, Bool.not_true, Bool.and_false]

/-- A record with the same chunk to execute, in flight or in the queue as before. -/
theorem Within.of_same (h : s.Within env c) (hretries : t.retriesUsed = s.retriesUsed)
    (hrequest : t.request = s.request) (hidx : t.nextChunkIndex = s.nextChunkIndex)
    (hwait : t.isWaiting = s.isWaiting) (hlive : t.isLive = s.isLive) : t.Within env c := by
  constructor <;> simp only [hretries, hrequest, hidx, hwait, hlive]
  · exact h.retries_nonneg
  · exact h.retries_le
  · exact h.total
  · exact h.waiting
  · exact h.live

/-- A new attempt has a budget of its own. -/
theorem Within.beginAttempt (h : s.Within env c) (hbudget : s.retriesUsed < s.request.maxRetries)
    (a : AttemptId) : (s.beginAttempt env a).Within env c := by
  have hnonneg := h.retries_nonneg
  have htotal := h.total
  have hretries : (s.retriesUsed + 1).toNat = s.retriesUsed.toNat + 1 := by omega
  constructor <;> simp only [Rs.beginAttempt, hretries]
  · omega
  · exact hbudget
  · exact htotal.trans (Nat.mul_le_mul_right _ (Nat.le_succ _))
  · exact fun _ => htotal.trans (Nat.le_add_right ..)
  · exact fun _ => htotal.trans (Nat.le_add_right ..)

/-- **A chunk has succeeded**, and the next is begun: here the index must not wrap around. -/
theorem Within.advanced (h : s.Within env c) (hflight : s.inFlight = false)
    (hlive : c ≤ s.retriesUsed.toNat * chunkCount env s.request + s.nextChunkIndex + 1)
    (hidx : s.nextChunkIndex + 1 < 2 ^ 32) : s.advanced.Within env c := by
  unfold Rs.advanced
  split_ifs with hcancel hnext
  · exact h.of_idle rfl rfl rfl (by rw [isLive, hflight]; rfl)
  · refine ⟨h.retries_nonneg, h.retries_le, h.total, fun _ => ?_, fun hc => ?_⟩
    · simp only [Nat.mod_eq_of_lt hidx]
      exact hlive
    · rw [isLive, hflight] at hc
      exact Bool.noConfusion hc
  · exact h.of_idle rfl rfl rfl (by rw [isLive, hflight]; rfl)

theorem Within.settled (h : s.Within env c) (hflight : s.inFlight = false)
    (hlive : c ≤ s.retriesUsed.toNat * chunkCount env s.request + s.nextChunkIndex + 1)
    (hidx : s.nextChunkIndex + 1 < 2 ^ 32) (o : MemberOutcome) (a : AttemptId) :
    (s.settled env o a).Within env c := by
  have hidle : ∀ l : Lifecycle, l ≠ .queued → ∀ pending : Bool,
      ({ s with lifecycle := l, cancelPending := pending } : Rs).Within env c := by
    intro l hl pending
    refine h.of_idle rfl rfl ?_ (by rw [isLive, hflight]; rfl)
    simp [isWaiting, hl]
  cases o with
  | success => exact h.advanced hflight hlive hidx
  | needsNextChunk => exact h.advanced hflight hlive hidx
  | retryableFailure =>
    unfold Rs.settled
    dsimp only
    split_ifs with hbudget
    · exact h.beginAttempt hbudget a
    · exact hidle .failedNonRetryable Lifecycle.noConfusion s.cancelPending
  | nonRetryableFailure => exact hidle .failedNonRetryable Lifecycle.noConfusion s.cancelPending
  | cancelled => exact hidle .cancelled Lifecycle.noConfusion false
  | expired => exact hidle .expired Lifecycle.noConfusion s.cancelPending
  | staleRejected => exact h

/-- An accepted completion of a chunk in flight. -/
theorem Within.finished (h : s.Within env c) (hsane : s.Sane env) (hlive : s.isLive = true)
    (hfew : chunkCount env s.request < 2 ^ 32) (o : MemberOutcome) (a : AttemptId) :
    (s.finished env o a).Within env c := by
  obtain ⟨hflight, hover⟩ := isLive_iff.mp hlive
  have hidx : s.nextChunkIndex < chunkCount env s.request := hsane.nextChunkIndex_lt hover
  have hlanded : (s.landed env).Within env c := by
    refine h.of_idle rfl rfl ?_ rfl
    simp [isWaiting, Rs.landed, hsane.dispatched hflight hover]
  have hsettled := hlanded.settled rfl (h.live hlive) (show s.nextChunkIndex + 1 < _ by omega) o a
  unfold Rs.finished
  rw [dropReservation_eq]
  exact hsettled.of_same rfl rfl rfl rfl rfl

/-- Out of flight, a request that was dispatched is neither awaited nor waiting. -/
theorem Within.withdrawn (h : s.Within env c) (hdispatched : s.lifecycle = .dispatched) :
    s.withdrawn.Within env c := by
  refine h.of_idle ?_ ?_ ?_ rfl <;> simp [Rs.withdrawn, isWaiting, hdispatched]

/-- **A chunk is dispatched**, which uses up what a waiting request has left to itself. -/
theorem Within.launched (h : s.Within env c) (hsane : s.Sane env) (hwait : s.isWaiting = true)
    {now : Nanoseconds} {gid : GroupId} {w : WorkerId} {gen : Generation} {id : ReservationId} :
    ((s.holding id).launched now gid w gen).Within env (c + 1) := by
  have hused := h.waiting hwait
  have hidx := hsane.nextChunkIndex_lt (isTerminal_of_isWaiting hwait)
  refine ⟨h.retries_nonneg, h.retries_le, ?_, fun hc => ?_, fun _ => ?_⟩
  · change c + 1 ≤ (s.retriesUsed.toNat + 1) * chunkCount env s.request
    rw [Nat.add_mul, Nat.one_mul]
    omega
  · exact absurd (isWaiting_iff.mp hc).1 Lifecycle.noConfusion
  · exact Nat.succ_le_succ hused

theorem within_admitted {req : PrefillRequest} (hvalid : req.validate.code = .ok)
    (now : Nanoseconds) (a : AttemptId) : (admitted env now req a).Within env 0 :=
  ⟨le_rfl, req.maxRetries_nonneg hvalid, Nat.zero_le _, fun _ => Nat.zero_le _,
    fun _ => Nat.zero_le _⟩

end Rs

/-! ### Through the effects -/

section Effects

variable {env : Env} {v v' : View} {l : Label} {L : Label → Prop} {r : RequestId} {s s' : Rs}
  {c : ℕ} {ms : List ExecutableMember}

open ChunkPlanner

/-- A forced retry finds budget. -/
theorem Effect.budget_of_retry (h : Effect env v (.retry r) v') (hs : v.req r = some s) :
    s.retriesUsed < s.request.maxRetries := by
  cases h with
  | retry hx _ hbudget => exact Option.some.inj (hx.symm.trans hs) ▸ hbudget

/-- **Whatever else happens to a request keeps it within its budget**, as long as no worker is
lost. -/
theorem Fate.within (h : Fate env v r s l s') (hlaunch : ∀ ms, l ≠ .launch ms)
    (hlose : ∀ w, l ≠ .lose w) (hbudget : l = .retry r → s.retriesUsed < s.request.maxRetries)
    (hsane : s.Sane env) (hfew : chunkCount env s.request < 2 ^ 32) (hs : s.Within env c) :
    s'.Within env c := by
  cases h with
  | keep => exact hs
  | expire _ => exact hs.of_over (by simp [Rs.expired]) (by simp [Rs.expired]) rfl
  | launch => exact absurd rfl (hlaunch _)
  | finish o hflight hlive =>
    exact hs.finished hsane (Rs.isLive_iff.mpr ⟨hflight, hlive⟩) hfew o _
  | flag => exact hs.of_same rfl rfl rfl rfl rfl
  | cancel => exact hs.of_over (by simp [Rs.cancelled]) (by simp [Rs.cancelled]) rfl
  | withdraw hflight hlive => exact hs.withdrawn (hsane.dispatched hflight hlive)
  | retry hlive =>
    rw [Rs.retried]
    split_ifs with hflight
    · refine (hs.withdrawn (hsane.dispatched hflight hlive)).beginAttempt ?_ _
      simpa [Rs.withdrawn] using hbudget rfl
    · exact hs.beginAttempt (hbudget rfl) _
  | recover => exact absurd rfl (hlose _)

/-- How many of the members are of a request. -/
def dispatchCount (r : RequestId) (ms : List ExecutableMember) : ℕ :=
  (ms.map (·.requestId)).count r

theorem dispatchCount_append (r : RequestId) (ms ms' : List ExecutableMember) :
    dispatchCount r (ms ++ ms') = dispatchCount r ms + dispatchCount r ms' := by
  rw [dispatchCount, List.map_append, List.count_append, dispatchCount, dispatchCount]

theorem dispatchCount_eq_zero (h : ∀ m ∈ ms, m.requestId ≠ r) : dispatchCount r ms = 0 := by
  refine List.count_eq_zero.mpr fun hr => ?_
  obtain ⟨m, hm, hmr⟩ := List.mem_map.mp hr
  exact h m hm hmr

/-- A launch has a request at most once among its members, and only if it waits. -/
theorem View.Launch.within {now : Nanoseconds} {gid : GroupId} {w : WorkerId}
    (h : View.Launch now gid w ms v v') (hr : v.req r = some s) (hsane : s.Sane env)
    (hs : s.Within env c) :
    ∃ s', v'.req r = some s' ∧ s'.Within env (c + dispatchCount r ms) := by
  by_cases hm : ∃ m ∈ ms, m.requestId = r
  · obtain ⟨m, hm, rfl⟩ := hm
    have hone : dispatchCount m.requestId ms = 1 :=
      List.count_eq_one_of_mem h.nodup (List.mem_map_of_mem hm)
    obtain ⟨t, id, ht, hwait, -, hreq⟩ := h.exists_of_mem hm
    obtain rfl := Option.some.inj (ht.symm.trans hr)
    exact ⟨_, hreq, hone ▸ hs.launched hsane hwait⟩
  · push Not at hm
    exact ⟨s, (h.others r hm).trans hr, dispatchCount_eq_zero hm ▸ hs⟩

/-- **What has been spent on a request**, as the members handed out so far tell: nothing before
it is admitted, and then never more than its budget. -/
structure View.Charged (env : Env) (v : View) (ms : List ExecutableMember) (r : RequestId) :
    Prop where
  unknown : v.req r = none → dispatchCount r ms = 0
  known : ∀ s, v.req r = some s → s.Sane env ∧
    (chunkCount env s.request < 2 ^ 32 → s.Within env (dispatchCount r ms))

/-- One effect, for a request that is known. -/
theorem Effect.exists_within (h : Effect env v l v') (hlose : ∀ w, l ≠ .lose w)
    (hr : v.req r = some s) (hsane : s.Sane env) (hfew : chunkCount env s.request < 2 ^ 32)
    (hs : s.Within env c) :
    ∃ s', v'.req r = some s' ∧ s'.Within env (c + dispatchCount r l.members) := by
  by_cases hlaunch : ∃ ms, l = .launch ms
  · obtain ⟨ms, rfl⟩ := hlaunch
    cases h with
    | launch hlaunch => exact hlaunch.within hr hsane hs
  · push Not at hlaunch
    have hnone : l.members = [] := by
      cases l with
      | launch ms => exact absurd rfl (hlaunch ms)
      | _ => rfl
    obtain ⟨s', hs', hfate⟩ := h.exists_fate hr
    refine ⟨s', hs', ?_⟩
    rw [hnone]
    refine hfate.within hlaunch hlose ?_ hsane hfew hs
    rintro rfl
    exact h.budget_of_retry hr

/-- **One effect.** -/
theorem Effect.charged (h : Effect env v l v') (hlose : ∀ w, l ≠ .lose w)
    (hv : v.Charged env ms r) : v'.Charged env (ms ++ l.members) r := by
  cases hr : v.req r with
  | none =>
    have hnot : ∀ m ∈ l.members, m.requestId ≠ r := by
      rintro m hm rfl
      obtain ⟨s, hs, -⟩ := h.members_spec.2 m hm
      exact absurd (hs.symm.trans hr) (Option.some_ne_none s)
    have hcount : dispatchCount r (ms ++ l.members) = 0 := by
      rw [dispatchCount_append, hv.unknown hr, dispatchCount_eq_zero hnot]
    refine ⟨fun _ => hcount, fun s' hs' => ?_⟩
    rcases h.req_eq_none_or_enter hr with hnone | ⟨now, req, -, -, hvalid, hsome⟩
    · exact absurd (hs'.symm.trans hnone) (Option.some_ne_none s')
    · obtain rfl := Option.some.inj (hsome.symm.trans hs')
      exact ⟨Rs.sane_admitted now req _, fun _ => hcount ▸ Rs.within_admitted hvalid now _⟩
  | some s =>
    obtain ⟨hsane, hwithin⟩ := hv.known s hr
    obtain ⟨s', hs', hfate⟩ := h.exists_fate hr
    refine ⟨fun hnone => absurd (hs'.symm.trans hnone) (Option.some_ne_none s'), fun t ht => ?_⟩
    obtain rfl := Option.some.inj (hs'.symm.trans ht)
    refine ⟨hfate.sane hsane, fun hfew => ?_⟩
    rw [hfate.request_eq] at hfew
    obtain ⟨t, ht, hkeep⟩ := h.exists_within hlose hr hsane hfew (hwithin hfew)
    obtain rfl := Option.some.inj (hs'.symm.trans ht)
    rwa [dispatchCount_append]

theorem Effects.charged {ms' : List ExecutableMember} (h : Effects env L v ms' v')
    (hlose : ∀ w, ¬L (.lose w)) (hv : v.Charged env ms r) : v'.Charged env (ms ++ ms') r := by
  induction h with
  | refl => rwa [List.append_nil]
  | tail _ hl hL ih =>
    rw [← List.append_assoc]
    refine hl.charged ?_ ih
    rintro w rfl
    exact hlose w hL

end Effects

/-! ### Runs without the loss of a worker -/

/-- Any operation but the report of a lost worker. -/
def Op.Steady : Op → Prop
  | workerLost _ => False
  | _ => True

theorem Op.Steady.not_causes_lose {op : Op} (h : op.Steady) (w : WorkerId) :
    ¬op.Causes (.lose w) := by
  cases op with
  | workerLost _ => exact absurd h id
  | _ => exact id

/-- **A state reached by operations of a kind**, and everything handed out on the way. -/
inductive Spends (A : Op → Prop) (env : Env) : Impl → List ExecutableMember → Prop
  | fresh : Spends A env (.fresh env) []
  | step {σ : Impl} {ms : List ExecutableMember} (h : Spends A env σ ms) (c : Call)
      (hc : A c.op) : Spends A env (σ.step env c).1 (ms ++ (σ.step env c).2.members)

namespace Spends

variable {A : Op → Prop} {env : Env} {σ : Impl} {ms : List ExecutableMember} {r : RequestId}
  {s : Rs}

theorem handedOut (h : Spends A env σ ms) : HandedOut env σ ms := by
  induction h with
  | fresh => exact .fresh env
  | step _ c _ ih => exact ih.step c

theorem mono {A' : Op → Prop} (h : Spends A env σ ms) (hA : ∀ op, A op → A' op) :
    Spends A' env σ ms := by
  induction h with
  | fresh => exact .fresh
  | step _ c hc ih => exact ih.step c (hA _ hc)

theorem charged (h : Spends Op.Steady env σ ms) (r : RequestId) : σ.view.Charged env ms r := by
  induction h with
  | fresh => exact ⟨fun _ => rfl, fun s hs => absurd hs (Option.some_ne_none s).symm⟩
  | step hσ c hc ih =>
    exact (Impl.effects_step env hσ.handedOut.wf c).charged hc.not_causes_lose ih

/-- Every member was of a request that is in the table, and stays there. -/
theorem exists_request (h : Spends Op.Steady env σ ms) {m : ExecutableMember} (hm : m ∈ ms) :
    ∃ s, σ.requests.lookup m.requestId = some s := by
  cases hs : σ.requests.lookup m.requestId with
  | some s => exact ⟨s, rfl⟩
  | none =>
    have hzero := (h.charged m.requestId).unknown (congrArg (Option.map Rs.core) hs)
    exact absurd (List.mem_map_of_mem hm) (List.count_eq_zero.mp hzero)

theorem length_chunks (h : Spends Op.Steady env σ ms) (hs : σ.requests.lookup r = some s) :
    s.plan.chunks.length = ChunkPlanner.chunkCount env s.request :=
  ((h.charged r).known s.core (Impl.view_req hs)).1.length_chunks

theorem within (h : Spends Op.Steady env σ ms) (hs : σ.requests.lookup r = some s)
    (hfew : s.plan.chunks.length < 2 ^ 32) : s.core.Within env (dispatchCount r ms) := by
  rw [h.length_chunks hs] at hfew
  exact ((h.charged r).known s.core (Impl.view_req hs)).2 hfew

/-- **A request is dispatched at most `maxRetries + 1` times the number of its chunks.** -/
theorem dispatchCount_le (h : Spends Op.Steady env σ ms) (hs : σ.requests.lookup r = some s)
    (hfew : s.plan.chunks.length < 2 ^ 32) :
    (dispatchCount r ms : ℤ) ≤ (s.request.maxRetries + 1) * s.plan.chunks.length := by
  have hwithin := h.within hs hfew
  have hnonneg : 0 ≤ s.request.maxRetries := hwithin.retries_nonneg.trans hwithin.retries_le
  have hle : (dispatchCount r ms : ℤ) ≤
      ((s.request.maxRetries + 1).toNat * ChunkPlanner.chunkCount env s.request : ℕ) :=
    Int.ofNat_le.mpr hwithin.le_allowance
  rwa [Int.natCast_mul, Int.toNat_of_nonneg (by omega), ← h.length_chunks hs] at hle

end Spends

/-! ### The budget of all requests together -/

/-- How often the requests of a state can be dispatched in all. -/
def Impl.budget (env : Env) (σ : Impl) : ℕ :=
  AList.total (fun _ s => (s.request.maxRetries + 1).toNat * ChunkPlanner.chunkCount env s.request)
    σ.requests

/-- Every plan has less than `2 ^ 32` chunks. -/
def Impl.Indexable (σ : Impl) : Prop :=
  ∀ r s, σ.requests.lookup r = some s → s.plan.chunks.length < 2 ^ 32

/-- No request is among the new ones of a chain that admits none. -/
theorem Effects.map_request {env : Env} {L : Label → Prop} {v v' : View}
    {ms : List ExecutableMember} (h : Effects env L v ms v') (henter : ∀ r, ¬L (.enter r))
    (r : RequestId) : (v'.req r).map (·.request) = (v.req r).map (·.request) := by
  induction h with
  | refl => rfl
  | @tail u v' _ _ _ hl hL ih =>
    rw [← ih]
    cases hr : u.req r with
    | none =>
      rcases hl.req_eq_none_or_enter hr with hnone | ⟨-, -, -, rfl, -⟩
      · rw [hnone]
      · exact absurd hL (henter r)
    | some s =>
      obtain ⟨s', hs', hsame⟩ := hl.exists_request hr
      rw [hs', Option.map_some, Option.map_some, hsame]

theorem Spends.length_le_budget {env : Env} {σ : Impl} {ms : List ExecutableMember}
    (h : Spends Op.Steady env σ ms) (hfew : σ.Indexable) : ms.length ≤ σ.budget env := by
  rw [← List.length_map (·.requestId)]
  refine AList.length_le_total (fun r hr => ?_) fun r s hs => ?_
  · obtain ⟨m, hm, rfl⟩ := List.mem_map.mp hr
    exact h.exists_request hm
  · exact (h.within hs (hfew r s hs)).le_allowance

end PrefillFabric
