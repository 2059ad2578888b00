import PrefillFabric.Scheduler.Budget

/-!
# Driving a scheduler until nothing is left to do

`World.driveUntilQuiescent` is the loop that runs cycles and has each dispatched group executed
in the process, until a cycle dispatches nothing or the bound on the number of cycles is
reached. Whatever comes of an execution is reported: the results of the executor, which may be
any results at all; or, without an executor or when it fails as a whole, a retryable failure of
every member.

The lock of the scheduler is free between any two accesses of the loop. A `World` says what the
clock shows at each of these and which calls other threads have made before it.

The loop is finite by a count of dispatches. A cycle that does not end it dispatches at least one
member, and there are no more dispatches than the budget of the requests
(`Spends.length_le_budget`), which no call but a submission changes: after at most as many cycles
there is one that dispatches nothing (`World.exists_quiesces`).
-/

namespace PrefillFabric

/-! ### The loop -/

/-- **What the loop does not control**: what its clock shows at its `k`-th access to the
scheduler, and the calls other threads have got in before that. -/
structure World where
  clock : ℕ → Nanoseconds
  others : ℕ → List Call

/-- What is reported for a dispatched group. The results of an executor are stamped with the
epoch and the boot number of the moment the executor was looked up. -/
def Impl.resultsFor (σ : Impl) (dg : DispatchedGroup) : List MemberResult :=
  let ws := σ.workers.lookup dg.assignedWorker
  let stamp (result : MemberResult) : MemberResult :=
    { result with
      epoch := σ.epoch
      worker := dg.assignedWorker
      boot := (ws.map (·.desc.bootId)).getD .nil }
  let failed (e : ErrorInfo) : List MemberResult := dg.group.members.map fun m =>
    stamp
      { requestId := m.requestId
        attemptId := m.attemptId
        generation := m.generation
        outcome := .retryableFailure
        failureCode := e.code
        message := e.message }
  match ws.bind (·.localExec) with
  | none => failed ⟨.noCompatibleWorker, "no in-process executor for worker"⟩
  | some ex =>
    match ex.execute dg.group σ.tokenResolver with
    | .error e => failed e
    | .ok er => er.members.map stamp

namespace World

variable (W : World) (env : Env)

/-- The loop waits for the lock. The second component counts its accesses. -/
def await (p : Impl × ℕ) : Impl × ℕ :=
  ((W.others p.2).foldl (fun σ c => (σ.step env c).1) p.1, p.2 + 1)

/-- The loop runs a cycle. -/
def cycle (p : Impl × ℕ) : (Impl × ℕ) × DispatchBatch :=
  let q := W.await env p
  let ran := q.1.runCycle env (W.clock p.2)
  ((ran.1, q.2), ran.2)

/-- The loop reports a result, and does not look at the answer. -/
def report (p : Impl × ℕ) (result : MemberResult) : Impl × ℕ :=
  let q := W.await env p
  ((q.1.reportCompletion env (W.clock p.2) result).1, q.2)

/-- The loop has one group executed. -/
def execute (p : Impl × ℕ) (dg : DispatchedGroup) : Impl × ℕ :=
  let q := W.await env p
  (q.1.resultsFor dg).foldl (W.report env) q

/-- One round of the loop: a cycle, and the execution of what it has dispatched. -/
def round (p : Impl × ℕ) : Impl × ℕ :=
  let ran := W.cycle env p
  ran.2.groups.foldl (W.execute env) ran.1

/-- Run rounds until a cycle dispatches nothing, at most as many as the bound says. -/
def driveUntilQuiescent : ℕ → Impl × ℕ → Impl × ℕ
  | 0, p => p
  | maxCycles + 1, p =>
    let ran := W.cycle env p
    if ran.2.groups.isEmpty then ran.1 else driveUntilQuiescent maxCycles (W.round env p)

/-- **The loop comes to rest** in the cycle that follows `c` rounds: each of these has dispatched
something, the cycle does not, and the loop ends with it whatever larger bound it is given. -/
structure Quiesces (p : Impl × ℕ) (c : ℕ) : Prop where
  busy : ∀ j < c, (W.cycle env ((W.round env)^[j] p)).2.groups ≠ []
  idle : (W.cycle env ((W.round env)^[c] p)).2.groups = []
  ends : ∀ maxCycles, c < maxCycles →
    W.driveUntilQuiescent env maxCycles p = (W.cycle env ((W.round env)^[c] p)).1

variable {W env}

/-- The loop does as many rounds as it is busy for. -/
theorem quiesces_of_idle {p : Impl × ℕ} {c : ℕ}
    (hbusy : ∀ j < c, (W.cycle env ((W.round env)^[j] p)).2.groups ≠ [])
    (hidle : (W.cycle env ((W.round env)^[c] p)).2.groups = []) : W.Quiesces env p c := by
  refine ⟨hbusy, hidle, fun maxCycles hlt => ?_⟩
  obtain ⟨k, rfl⟩ : ∃ k, maxCycles = c + 1 + k := ⟨maxCycles - (c + 1), by omega⟩
  clear hlt
  induction c generalizing p with
  | zero =>
    rw [Nat.zero_add, Nat.add_comm, driveUntilQuiescent]
    exact if_pos (List.isEmpty_iff.mpr hidle)
  | succ c ih =>
    have hfirst : (W.cycle env p).2.groups ≠ [] := hbusy 0 (Nat.succ_pos c)
    rw [show c + 1 + 1 + k = c + 1 + k + 1 by omega, driveUntilQuiescent,
      if_neg (by rwa [List.isEmpty_iff])]
    exact ih (fun j hj => hbusy (j + 1) (Nat.succ_lt_succ hj)) hidle

end World

/-! ### Calls that leave the budget alone -/

/-- A submission. -/
def Op.Submits : Op → Prop
  | submitWithTokens _ _ => True
  | _ => False

theorem Op.not_causes_enter {op : Op} (h : ¬op.Submits) (r : RequestId) :
    ¬op.Causes (.enter r) := by
  cases op with
  | submitWithTokens _ _ => exact absurd trivial h
  | _ => exact id

/-- No other thread submits a request or loses a worker. -/
def World.Steady (W : World) : Prop := ∀ k, ∀ c ∈ W.others k, c.op.Steady ∧ ¬c.op.Submits

/-- **At least `n` dispatches have been made** of the `B` that can be made. -/
def Impl.Spent (env : Env) (B n : ℕ) (σ : Impl) : Prop :=
  ∃ ms, Spends Op.Steady env σ ms ∧ n ≤ ms.length ∧ σ.Indexable ∧ σ.budget env = B

namespace Impl

variable {env : Env} {B n : ℕ} {σ : Impl}

theorem map_request_step (hwf : σ.view.Wf) {c : Call} (hc : ¬c.op.Submits) (r : RequestId) :
    ((σ.step env c).1.requests.lookup r).map (·.request) =
      (σ.requests.lookup r).map (·.request) := by
  have h := (effects_step env hwf c).map_request (Op.not_causes_enter hc) r
  change (Option.map Rs.core _).map _ = (Option.map Rs.core _).map _ at h
  rwa [Option.map_map, Option.map_map] at h

theorem budget_step (hwf : σ.view.Wf) {c : Call} (hc : ¬c.op.Submits) :
    (σ.step env c).1.budget env = σ.budget env :=
  AList.total_congr
    (fun _ (req : PrefillRequest) => (req.maxRetries + 1).toNat * ChunkPlanner.chunkCount env req)
    (map_request_step hwf hc)

/-- There are never more dispatches than the budget. -/
theorem Spent.le (h : σ.Spent env B n) : n ≤ B := by
  obtain ⟨ms, hspends, hn, hfew, rfl⟩ := h
  exact hn.trans (hspends.length_le_budget hfew)

theorem Spent.step (h : σ.Spent env B n) {c : Call} (hsteady : c.op.Steady)
    (hsubmit : ¬c.op.Submits) :
    (σ.step env c).1.Spent env B (n + (σ.step env c).2.members.length) := by
  obtain ⟨ms, hspends, hn, hfew, hbudget⟩ := h
  have hwf := hspends.handedOut.wf
  refine ⟨_, hspends.step c hsteady, ?_, fun r s hs => ?_, (budget_step hwf hsubmit).trans hbudget⟩
  · rw [List.length_append]
    omega
  · -- the plan is that of the same request as before
    have hsame : ((σ.step env c).1.requests.lookup r).map (·.request) = _ :=
      map_request_step hwf hsubmit r
    rw [hs, Option.map_some] at hsame
    obtain ⟨t, ht, hreq⟩ := Option.map_eq_some_iff.mp hsame.symm
    rw [(hspends.step c hsteady).length_chunks hs, ← hreq, ← hspends.length_chunks ht]
    exact hfew r t ht

/-- What others do in the meantime can only add to the dispatches. -/
theorem Spent.foldl (h : σ.Spent env B n) {calls : List Call}
    (hcalls : ∀ c ∈ calls, c.op.Steady ∧ ¬c.op.Submits) :
    (calls.foldl (fun σ c => (σ.step env c).1) σ).Spent env B n := by
  induction calls generalizing σ with
  | nil => exact h
  | cons c calls ih =>
    obtain ⟨hsteady, hsubmit⟩ := hcalls c List.mem_cons_self
    obtain ⟨ms, hspends, hn, hrest⟩ := h.step hsteady hsubmit
    exact ih ⟨ms, hspends, by omega, hrest⟩ fun x hx => hcalls x (List.mem_cons_of_mem c hx)

end Impl

/-! ### The loop is finite -/

namespace World

variable {W : World} {env : Env} {B n : ℕ} {p : Impl × ℕ}

theorem spent_await (hW : W.Steady) (h : p.1.Spent env B n) : (W.await env p).1.Spent env B n :=
  h.foldl (hW p.2)

theorem spent_cycle (hW : W.Steady) (h : p.1.Spent env B n) :
    (W.cycle env p).1.1.Spent env B (n + (W.cycle env p).2.members.length) := by
  have hstep := (spent_await hW h).step (c := ⟨W.clock p.2, .runCycle⟩) trivial id
  rwa [Impl.step_runCycle] at hstep

theorem spent_report (hW : W.Steady) (h : p.1.Spent env B n) (result : MemberResult) :
    (W.report env p result).1.Spent env B n :=
  (spent_await hW h).step (c := ⟨W.clock p.2, .reportCompletion result⟩) trivial id

theorem spent_execute (hW : W.Steady) (h : p.1.Spent env B n) (dg : DispatchedGroup) :
    (W.execute env p dg).1.Spent env B n :=
  List.foldlRecOn _ (W.report env) (motive := fun p : Impl × ℕ => p.1.Spent env B n)
    (spent_await hW h) fun _ hp result _ => spent_report hW hp result

/-- **One round** of which the cycle dispatches something. -/
theorem spent_round (hW : W.Steady) (h : p.1.Spent env B n)
    (hbusy : (W.cycle env p).2.groups ≠ []) : (W.round env p).1.Spent env B (n + 1) := by
  have hone : 1 ≤ (W.cycle env p).2.members.length := by
    obtain ⟨dg, hdg⟩ := List.exists_mem_of_ne_nil _ hbusy
    obtain ⟨m, hm⟩ := List.exists_mem_of_ne_nil _ (Impl.members_ne_nil_of_mem_groups hdg)
    exact List.length_pos_of_mem (List.mem_flatMap.mpr ⟨dg, hdg, hm⟩)
  refine List.foldlRecOn _ (W.execute env) (motive := fun p : Impl × ℕ => p.1.Spent env B (n + 1))
    ?_ fun _ hp dg _ => spent_execute hW hp dg
  obtain ⟨ms, hspends, hn, hrest⟩ := spent_cycle hW h
  exact ⟨ms, hspends, by omega, hrest⟩

/-- As many rounds, each of which dispatches something. -/
theorem spent_iterate_round (hW : W.Steady) (h : p.1.Spent env B n) (k : ℕ)
    (hbusy : ∀ j < k, (W.cycle env ((W.round env)^[j] p)).2.groups ≠ []) :
    ((W.round env)^[k] p).1.Spent env B (n + k) := by
  induction k with
  | zero => exact h
  | succ k ih =>
    rw [Function.iterate_succ_apply']
    exact spent_round hW (ih fun j hj => hbusy j (Nat.lt_succ_of_lt hj)) (hbusy k k.lt_succ_self)

/-- **The loop comes to rest**, after no more rounds than there can be dispatches. -/
theorem exists_quiesces (hW : W.Steady) (h : p.1.Spent env B n) : ∃ c ≤ B, W.Quiesces env p c := by
  have hidle : ∃ c, c ≤ B ∧ (W.cycle env ((W.round env)^[c] p)).2.groups = [] := by
    by_contra hnone
    push Not at hnone
    have hspent := spent_iterate_round hW h (B + 1) fun j hj => hnone j (Nat.le_of_lt_succ hj)
    have := hspent.le
    omega
  classical
  obtain ⟨hle, hfirst⟩ := Nat.find_spec hidle
  refine ⟨Nat.find hidle, hle, quiesces_of_idle (fun j hj hc => ?_) hfirst⟩
  exact Nat.find_min hidle hj ⟨by omega, hc⟩

end World

end PrefillFabric
