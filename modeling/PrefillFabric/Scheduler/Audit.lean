import Mathlib.Algebra.BigOperators.Intervals
import Mathlib.Data.List.DropRight
import PrefillFabric.Scheduler.History
import PrefillFabric.Scheduler.Journal

/-!
# Auditing the statistics

The statistics of a scheduler and its event stream are written by the operations and read
by nobody but its users, so nothing in the scheduler would notice if they were wrong. Two
audits are made of them here, over every run.

* Against the *replies*: whoever has kept the calls and what they returned can compute the
  counters of submissions, groups and completions, and arrives at what the statistics say
  (`Run.read_stats_eq_sum`).
* Against the *events*: the stream is the end of a history that only grows, and the
  counters of what becomes of requests count the events of that history
  (`Run.exists_history`). One kind of change leaves no event: the expiry of a request whose
  worker reports it expired.
-/

namespace PrefillFabric

/-! ### Counters -/

/-- The counters that can be told from the replies. -/
inductive Counter
  | submitted
  | admitted
  | rejected
  | rejectionByReason (code : ErrorCode)
  | groupsFormed
  | groupSizeDistribution (size : ℕ)
  | scheduledTokens
  | executionLatencySamples
  | staleAuthorityRejected
  | duplicateCompletionRejected

/-- What a counter says. -/
def Stats.read (st : Stats) : Counter → ℕ
  | .submitted => st.submitted
  | .admitted => st.admitted
  | .rejected => st.rejected
  | .rejectionByReason code => (st.rejectionByReason.lookup code).getD 0
  | .groupsFormed => st.groupsFormed
  | .groupSizeDistribution size => (st.groupSizeDistribution.lookup size).getD 0
  | .scheduledTokens => st.scheduledTokens
  | .executionLatencySamples => st.executionLatencySamples
  | .staleAuthorityRejected => st.staleAuthorityRejected
  | .duplicateCompletionRejected => st.duplicateCompletionRejected

/-- What a completion refused with this code adds. -/
def ErrorCode.adds : ErrorCode → Counter → ℕ
  | .staleEpoch, .staleAuthorityRejected => 1
  | .staleWorker, .staleAuthorityRejected => 1
  | .staleAttempt, .staleAuthorityRejected => 1
  | .staleGeneration, .staleAuthorityRejected => 1
  | .terminalCancelled, .duplicateCompletionRejected => 1
  | .duplicateCompletion, .duplicateCompletionRejected => 1
  | _, _ => 0

/-- What an entry adds. -/
def Entry.adds : Entry → Counter → ℕ
  | rejected, .rejected => 1
  | rejected, .rejectionByReason code => if code = .capacityExceeded then 1 else 0
  | admitted _ _ _, .submitted => 1
  | admitted _ _ _, .admitted => 1
  | launched tokens _, .scheduledTokens => tokens
  | formed _, .groupsFormed => 1
  | formed size, .groupSizeDistribution n => if n = size then 1 else 0
  | refused _ _ why, k => why.error.code.adds k
  | landed _ _, .executionLatencySamples => 1
  | declined, .staleAuthorityRejected => 1
  | _, _ => 0

theorem lookup_countUnder {κ : Type} [DecidableEq κ] (t : Table κ ℕ) (k k' : κ) :
    ((countUnder t k).lookup k').getD 0 = (t.lookup k').getD 0 + if k' = k then 1 else 0 := by
  rw [countUnder, AList.lookup_insert_eq_ite]
  split_ifs with h
  · subst h
    rfl
  · rfl

theorem Refusal.read_counted (why : Refusal) (st : Stats) (k : Counter) :
    (why.counted st).read k = st.read k + why.error.code.adds k := by
  cases why <;> cases k <;> rfl

theorem Entry.read_counted (e : Entry) (st : Stats) (k : Counter) :
    (e.counted st).read k = st.read k + e.adds k := by
  cases e with
  | refused now result why => exact why.read_counted st k
  | rejected =>
    cases k with
    | rejectionByReason code => exact lookup_countUnder st.rejectionByReason _ code
    | _ => rfl
  | formed size =>
    cases k with
    | groupSizeDistribution n => exact lookup_countUnder st.groupSizeDistribution size n
    | _ => rfl
  | _ => cases k <;> rfl

/-! ### What a call adds -/

/-- What a submission adds: one that is admitted counts twice, one that exceeds a capacity is
counted as rejected, and any other is not counted. -/
def Reply.submissionAdds : Result Unit → Counter → ℕ
  | .ok _, .submitted => 1
  | .ok _, .admitted => 1
  | .error e, .rejected => if e.code = .capacityExceeded then 1 else 0
  | .error e, .rejectionByReason code =>
    if e.code = .capacityExceeded ∧ code = .capacityExceeded then 1 else 0
  | _, _ => 0

/-- What a group that is handed out adds: itself, by its size too, and the tokens of its
members. -/
def DispatchedGroup.adds (d : DispatchedGroup) : Counter → ℕ
  | .groupsFormed => 1
  | .groupSizeDistribution size => if size = d.group.members.length % 2 ^ 32 then 1 else 0
  | .scheduledTokens => (d.group.members.map (·.tokenCount)).sum
  | _ => 0

/-- What a completion adds: one that is accepted is a sample of the execution latency, and
counts as stale if the worker says so; one that is refused is counted by its error. -/
def Reply.completionAdds (result : MemberResult) : Result Unit → Counter → ℕ
  | .ok _, .executionLatencySamples => 1
  | .ok _, .staleAuthorityRejected => if result.outcome = .staleRejected then 1 else 0
  | .error e, k => e.code.adds k
  | _, _ => 0

/-- What a call with this reply adds. -/
def Op.adds (k : Counter) : Op → Reply → ℕ
  | submitWithTokens _ _, .status result => Reply.submissionAdds result k
  | runCycle, .batch b => (b.groups.map (·.adds k)).sum
  | reportCompletion result, .status reply => Reply.completionAdds result reply k
  | _, _ => 0

/-- Whether this is an accepted completion that reports its request expired. -/
def Op.lapses : Op → Reply → ℕ
  | reportCompletion result, .status (.ok _) => if result.outcome = .expired then 1 else 0
  | _, _ => 0

namespace Entry

/-- Whether this is the entry of an expiry that leaves no event. -/
def lapses : Entry → ℕ
  | lapsed => 1
  | _ => 0

/-- A bare event is an aside, and a cancellation is not said to be pending. -/
def Proper : Entry → Prop
  | noted ev => Impl.Aside (.noted ev)
  | cancelled _ _ _ detail => detail ≠ "pending chunk boundary"
  | _ => True

/-- An entry that the replies do not tell of. -/
structure Quiet (e : Entry) : Prop where
  adds (k : Counter) : e.adds k = 0
  lapses : e.lapses = 0
  proper : e.Proper

/-- The entries of what becomes of a request, with an event each. -/
def isFate : Entry → Bool
  | expired _ _ _ _ | retried _ _ _ _ | failed _ _ _ _ | cancelled _ _ _ _ | completed _ _ _ => true
  | _ => false

theorem quiet_of_isFate {e : Entry} (h : e.isFate = true) (hproper : e.Proper) : e.Quiet := by
  cases e with
  | expired | retried | failed | cancelled | completed =>
    exact ⟨fun k => by cases k <;> rfl, rfl, hproper⟩
  | _ => cases h

theorem quiet_of_aside {e : Entry} (h : Impl.Aside e) : e.Quiet := by
  obtain ⟨ev, rfl, hkind⟩ := h
  exact ⟨fun k => by cases k <;> rfl, rfl, ev, rfl, hkind⟩

/-- The entries say what a call with this reply should have done. -/
structure Tells (es : List Entry) (op : Op) (reply : Reply) : Prop where
  adds (k : Counter) : (es.map (·.adds k)).sum = op.adds k reply
  lapses : (es.map lapses).sum = op.lapses reply
  proper : ∀ e ∈ es, e.Proper

theorem sum_eq_zero {es : List Entry} {f : Entry → ℕ} (h : ∀ e ∈ es, f e = 0) :
    (es.map f).sum = 0 :=
  List.sum_eq_zero fun _ hn => by
    obtain ⟨e, he, rfl⟩ := List.mem_map.mp hn
    exact h e he

/-- The entries of a call whose reply tells nothing. -/
theorem Tells.of_quiet {es : List Entry} {op : Op} {reply : Reply}
    (hop : (∀ k, op.adds k reply = 0) ∧ op.lapses reply = 0) (h : ∀ e ∈ es, e.Quiet) :
    Tells es op reply where
  adds k := (sum_eq_zero fun e he => (h e he).adds k).trans (hop.1 k).symm
  lapses := (sum_eq_zero fun e he => (h e he).lapses).trans hop.2.symm
  proper e he := (h e he).proper

/-- A sum over paired lists, one pair at a time. -/
theorem sum_of_forall₂ {α β : Type} {R : α → β → Prop} {f : α → ℕ} {g : β → ℕ}
    (hR : ∀ a b, R a b → f a = g b) {as : List α} {bs : List β} (h : List.Forall₂ R as bs) :
    (as.map f).sum = (bs.map g).sum := by
  induction h with
  | nil => rfl
  | cons hab _ ih => rw [List.map_cons, List.map_cons, List.sum_cons, List.sum_cons, hR _ _ hab, ih]

/-- The entries of a group say what the group adds. -/
theorem Forms.sum_adds {es : List Entry} {d : DispatchedGroup} (h : Forms es d) (k : Counter) :
    (es.map (·.adds k)).sum = d.adds k := by
  obtain ⟨ls, hls, rfl⟩ := h
  rw [List.map_append, List.sum_append]
  cases k with
  | scheduledTokens =>
    refine sum_of_forall₂ (fun e m hl => ?_) hls
    obtain ⟨wait, rfl⟩ := hl
    rfl
  | _ =>
    rw [sum_of_forall₂ (g := fun _ => 0) _ hls, List.sum_map_zero, Nat.zero_add]
    · rfl
    · rintro e m ⟨wait, rfl⟩
      rfl

theorem Forms.quiet {es : List Entry} {d : DispatchedGroup} (h : Forms es d) :
    ∀ e ∈ es, e.lapses = 0 ∧ e.Proper := by
  obtain ⟨ls, hls, rfl⟩ := h
  have hlaunched : List.Forall₂ (fun e m => (e.lapses = 0 ∧ e.Proper) ∧ Launches e m) ls
      d.group.members := by
    refine hls.imp ?_
    rintro e m ⟨wait, rfl⟩
    exact ⟨⟨rfl, trivial⟩, wait, rfl⟩
  exact List.forall_mem_append.mpr ⟨((List.forall₂_and_left _ _).mp hlaunched).1,
    List.forall_mem_singleton.mpr ⟨rfl, trivial⟩⟩

end Entry

namespace Impl

variable {env : Env} {now : Nanoseconds} {σ τ : Impl}

theorem tells_runCycle (env : Env) (now : Nanoseconds) (σ : Impl) :
    ∃ es, σ.Enters es (σ.runCycle env now).1 ∧
      Entry.Tells es .runCycle (.batch (σ.runCycle env now).2) := by
  obtain ⟨swept, ess, depth, waiting, left, henters, hswept, hforms⟩ := enters_runCycle env now σ
  generalize (σ.runCycle env now).2 = batch at hforms
  have hexpired : ∀ e ∈ swept, e.Quiet := by
    intro e he
    obtain ⟨r, a, delayed, rfl⟩ := hswept e he
    exact Entry.quiet_of_isFate rfl trivial
  have hquiet : ∀ e ∈ ess.flatten, e.lapses = 0 ∧ e.Proper := by
    have hall : List.Forall₂ (fun es d => (∀ e ∈ es, e.lapses = 0 ∧ e.Proper) ∧ Entry.Forms es d)
        ess batch.groups := hforms.imp fun _ _ hform => ⟨hform.quiet, hform⟩
    exact List.forall_mem_flatten.mpr ((List.forall₂_and_left _ _).mp hall).1
  have hrefresh : ∀ k, (Entry.refreshed depth waiting left).adds k = 0 := fun k => by
    cases k <;> rfl
  have hall : ∀ e ∈ swept ++ (ess.flatten ++ [.refreshed depth waiting left]),
      e.lapses = 0 ∧ e.Proper :=
    List.forall_mem_append.mpr ⟨fun e he => ⟨(hexpired e he).lapses, (hexpired e he).proper⟩,
      List.forall_mem_append.mpr ⟨hquiet, List.forall_mem_singleton.mpr ⟨rfl, trivial⟩⟩⟩
  refine ⟨_, henters, fun k => ?_, Entry.sum_eq_zero fun e he => (hall e he).1,
    fun e he => (hall e he).2⟩
  have hgroups : (ess.flatten.map (·.adds k)).sum = (batch.groups.map (·.adds k)).sum := by
    rw [List.map_flatten, List.sum_flatten, List.map_map]
    exact Entry.sum_of_forall₂ (fun es d hform => hform.sum_adds k) hforms
  rw [List.map_append, List.sum_append, Entry.sum_eq_zero fun e he => (hexpired e he).adds k,
    List.map_append, List.sum_append, hgroups, List.map_singleton, List.sum_singleton, hrefresh,
    Nat.zero_add, Nat.add_zero]
  rfl

theorem tells_submitWithTokens (env : Env) (now : Nanoseconds) (req : PrefillRequest)
    (tokens : List UInt32) (σ : Impl) :
    ∃ es, σ.Enters es (σ.submitWithTokens env now req tokens).1 ∧
      Entry.Tells es (.submitWithTokens req tokens)
        (.status (σ.submitWithTokens env now req tokens).2) := by
  rcases enters_submitWithTokens env now req tokens σ with
    ⟨henters, e, hreply, hcode⟩ | ⟨-, ⟨henters, e, hreply, hcode⟩ | ⟨henters, hreply⟩⟩
  · refine ⟨_, henters, .of_quiet ⟨fun k => ?_, rfl⟩ (List.forall_mem_nil _)⟩
    rw [hreply]
    cases k <;> simp [Op.adds, Reply.submissionAdds, hcode]
  all_goals
    refine ⟨_, henters, fun k => ?_, rfl, ?_⟩
    · rw [hreply]
      cases k <;> simp [Op.adds, Reply.submissionAdds, Entry.adds, *]
    · simp [Entry.Proper]

theorem quiet_settlement {result : MemberResult} (hstale : result.outcome ≠ .staleRejected)
    (hexpired : result.outcome ≠ .expired) (now : Nanoseconds) (s : Rs) (σ : Impl) :
    ∀ e ∈ settlement now result s σ, e.Quiet := by
  have hone : ∀ e : Entry, e.isFate = true → e.Proper → ∀ e' ∈ [e], e'.Quiet := fun e he hproper =>
    List.forall_mem_singleton.mpr (Entry.quiet_of_isFate he hproper)
  rw [settlement]
  cases houtcome : result.outcome with
  | staleRejected => exact absurd houtcome hstale
  | expired => exact absurd houtcome hexpired
  | nonRetryableFailure => exact hone _ rfl trivial
  | cancelled => exact hone _ rfl (by simp [Entry.Proper])
  | retryableFailure =>
    dsimp only
    split_ifs
    · exact hone _ rfl trivial
    · exact hone _ rfl trivial
  | success | needsNextChunk =>
    dsimp only
    split_ifs
    · exact hone _ rfl (by simp [Entry.Proper])
    · exact List.forall_mem_nil _
    · exact hone _ rfl trivial

/-- What becomes of the request of an accepted completion is told by the outcome. -/
theorem tells_settlement (now : Nanoseconds) (result : MemberResult) (s : Rs) (σ : Impl) :
    (∀ k, ((settlement now result s σ).map (·.adds k)).sum =
      if result.outcome = .staleRejected then Entry.declined.adds k else 0) ∧
    ((settlement now result s σ).map Entry.lapses).sum =
      (if result.outcome = .expired then 1 else 0) ∧
    ∀ e ∈ settlement now result s σ, e.Proper := by
  by_cases hstale : result.outcome = .staleRejected
  · rw [settlement, hstale]
    exact ⟨fun k => rfl, rfl, List.forall_mem_singleton.mpr trivial⟩
  by_cases hexpired : result.outcome = .expired
  · rw [settlement, hexpired]
    exact ⟨fun k => by cases k <;> rfl, rfl,
      List.forall_mem_singleton.mpr trivial⟩
  have hquiet := quiet_settlement hstale hexpired now s σ
  rw [if_neg hexpired]
  refine ⟨fun k => ?_, Entry.sum_eq_zero fun e he => (hquiet e he).lapses,
    fun e he => (hquiet e he).proper⟩
  rw [if_neg hstale]
  exact Entry.sum_eq_zero fun e he => (hquiet e he).adds k

theorem tells_reportCompletion (env : Env) (now : Nanoseconds) (result : MemberResult) (σ : Impl) :
    ∃ es, σ.Enters es (σ.reportCompletion env now result).1 ∧
      Entry.Tells es (.reportCompletion result)
        (.status (σ.reportCompletion env now result).2) := by
  rcases enters_reportCompletion env now result σ with
    ⟨why, henters, hreply⟩ | ⟨s, left, -, henters, hreply⟩
  · rw [hreply]
    exact ⟨_, henters, fun k => rfl, rfl, List.forall_mem_singleton.mpr trivial⟩
  · obtain ⟨hadds, hlapses, hproper⟩ := tells_settlement now result (s.landed env) σ
    rw [hreply]
    refine ⟨_, henters, fun k => ?_, ?_, ?_⟩
    · rw [List.map_append, List.map_cons, List.sum_append, List.sum_cons, hadds]
      cases k <;> simp [Op.adds, Reply.completionAdds, Entry.adds]
    · rw [List.map_append, List.map_cons, List.sum_append, List.sum_cons, hlapses]
      simp [Op.lapses, Entry.lapses]
    · exact List.forall_mem_append.mpr
        ⟨List.forall_mem_cons.mpr ⟨trivial, hproper⟩,
          List.forall_mem_singleton.mpr trivial⟩

/-- **A call** makes entries that tell what its reply tells. -/
theorem tells_step (env : Env) (σ : Impl) (c : Call) :
    ∃ es, σ.Enters es (σ.step env c).1 ∧ Entry.Tells es c.op (σ.step env c).2 := by
  obtain ⟨now, op⟩ := c
  have haside : ∀ {τ : Impl} {reply : Reply}, (∀ k, op.adds k reply = 0) ∧ op.lapses reply = 0 →
      σ.Makes Aside τ →
      ∃ es, σ.Enters es τ ∧ Entry.Tells es op reply := by
    rintro τ reply hop ⟨es, henters, hes⟩
    exact ⟨es, henters, .of_quiet hop fun e he => Entry.quiet_of_aside (hes e he)⟩
  cases op with
  | submitWithTokens req tokens => exact tells_submitWithTokens env now req tokens σ
  | runCycle =>
    rw [step_runCycle]
    exact tells_runCycle env now σ
  | reportCompletion result => exact tells_reportCompletion env now result σ
  | cancel r =>
    rcases enters_cancel now r σ with h | ⟨a, h⟩ | ⟨a, h⟩
    · exact haside ⟨fun _ => rfl, rfl⟩ ⟨[], h, List.forall_mem_nil _⟩
    · exact haside ⟨fun _ => rfl, rfl⟩
        ⟨_, h, List.forall_mem_singleton.mpr ⟨_, rfl, Or.inr ⟨rfl, rfl⟩⟩⟩
    · exact ⟨_, h, .of_quiet ⟨fun _ => rfl, rfl⟩
        (List.forall_mem_singleton.mpr (Entry.quiet_of_isFate rfl (by simp [Entry.Proper])))⟩
  | cancelGeneration r g =>
    exact haside ⟨fun _ => rfl, rfl⟩ ⟨[], enters_cancelGeneration r g σ, List.forall_mem_nil _⟩
  | forceRetry r =>
    rcases enters_forceRetry env now r σ with h | ⟨a, h⟩
    · exact haside ⟨fun _ => rfl, rfl⟩ ⟨[], h, List.forall_mem_nil _⟩
    · exact ⟨_, h, .of_quiet ⟨fun _ => rfl, rfl⟩
        (List.forall_mem_singleton.mpr (Entry.quiet_of_isFate rfl trivial))⟩
  | registerWorker w => exact haside ⟨fun _ => rfl, rfl⟩ (enters_registerWorker now w σ)
  | unregisterWorker w => exact haside ⟨fun _ => rfl, rfl⟩ (enters_unregisterWorker now w σ)
  | workerLost w => exact haside ⟨fun _ => rfl, rfl⟩ (enters_workerLost now w σ)
  | rollEpoch =>
    exact haside ⟨fun _ => rfl, rfl⟩ ⟨[.noted _], rfl,
      List.forall_mem_singleton.mpr ⟨_, rfl, Or.inl (by simp)⟩⟩
  | attachExecutor ex backend =>
    exact haside ⟨fun _ => rfl, rfl⟩ ⟨[], enters_attachExecutor ex backend σ, List.forall_mem_nil _⟩

/-- The entries between two states account for the counters. -/
theorem Enters.read_stats {es : List Entry} (h : σ.Enters es τ) (k : Counter) :
    τ.stats.read k = σ.stats.read k + (es.map (·.adds k)).sum :=
  h.stats_eq (f := fun st => st.read k) fun e st => e.read_counted st k

end Impl

/-! ### Against the replies -/

namespace Run

/-- What call number `n` adds to a counter, going by its reply. -/
def adds (ρ : Run) (n : ℕ) (k : Counter) : ℕ :=
  match ρ.calls[n]? with
  | some c => c.op.adds k ((ρ.stateAt n).step ρ.env c).2
  | none => 0

/-- Whether call number `n` is an accepted completion that reports its request expired. -/
def lapses (ρ : Run) (n : ℕ) : ℕ :=
  match ρ.calls[n]? with
  | some c => c.op.lapses ((ρ.stateAt n).step ρ.env c).2
  | none => 0

/-- The entries made between a state of a run and the next. -/
theorem exists_enters (ρ : Run) (n : ℕ) :
    ∃ es, (ρ.stateAt n).Enters es (ρ.stateAt (n + 1)) ∧
      (∀ k, (es.map (·.adds k)).sum = ρ.adds n k) ∧ (es.map Entry.lapses).sum = ρ.lapses n ∧
      ∀ e ∈ es, e.Proper := by
  cases h : ρ.calls[n]? with
  | none =>
    refine ⟨[], by rw [stateAt_succ_of_none h]; rfl, fun k => ?_, ?_, List.forall_mem_nil _⟩
    · rw [adds, h]
      rfl
    · rw [lapses, h]
      rfl
  | some c =>
    obtain ⟨es, henters, htells⟩ := Impl.tells_step ρ.env (ρ.stateAt n) c
    refine ⟨es, by rwa [stateAt_succ h], fun k => ?_, ?_, htells.proper⟩
    · rw [adds, h]
      exact htells.adds k
    · rw [lapses, h]
      exact htells.lapses

/-- **The statistics agree with the replies**: in every run of a fresh scheduler, each of
these counters is the sum of what its calls add, going by what they returned. -/
theorem read_stats_eq_sum (env : Env) (calls : List Call) (n : ℕ) (k : Counter) :
    ((fresh env calls).stateAt n).stats.read k =
      ∑ i ∈ Finset.range n, (fresh env calls).adds i k := by
  induction n with
  | zero => cases k <;> rfl
  | succ n ih =>
    obtain ⟨es, henters, hadds, -⟩ := (fresh env calls).exists_enters n
    rw [Finset.sum_range_succ, henters.read_stats, ih, hadds]

end Run

/-! ### Against the events -/

/-- What may happen to a request that the statistics count. -/
inductive Milestone
  | admitted
  | completed
  | retried
  | failed
  | cancelled
  | expired
deriving DecidableEq

/-- How often it has happened, going by the statistics. -/
def Stats.reached (st : Stats) : Milestone → ℕ
  | .admitted => st.admitted
  | .completed => st.completed
  | .retried => st.retried
  | .failed => st.failedNonRetryable
  | .cancelled => st.cancelled
  | .expired => st.expired

/-- Whether an event says that it has happened. A request with nothing left to prefill is
submitted and completed in one event; a cancellation that is put off is an event too. -/
def Event.shows (e : Event) : Milestone → Bool
  | .admitted => e.type = "submit"
  | .completed => e.type = "complete" ∨ e.type = "submit" ∧ e.detail = "complete-immediate"
  | .retried => e.type = "retry"
  | .failed => e.type = "fail"
  | .cancelled => e.type = "cancel" ∧ e.detail ≠ "pending chunk boundary"
  | .expired => e.type = "expire"

theorem Impl.Aside.not_shows {ev : Event} (h : Impl.Aside (.noted ev)) (t : Milestone) :
    ev.shows t = false := by
  obtain ⟨_, heq, hkind⟩ := h
  cases heq
  obtain ⟨now, type, r, a, detail⟩ := ev
  rcases hkind with hkind | ⟨rfl, rfl⟩
  · simp only [List.mem_cons, List.not_mem_nil, or_false] at hkind
    rcases hkind with rfl | rfl | rfl | rfl <;> cases t <;> simp [Event.shows]
  · cases t <;> simp [Event.shows]

/-- Every entry moves the counters of what happens to requests as the event it records
shows; an expiry may leave none. -/
theorem Entry.reached_counted {e : Entry} (he : e.Proper) (st : Stats) (t : Milestone) :
    (e.counted st).reached t =
      st.reached t + e.event?.toList.countP (·.shows t) + if t = .expired then e.lapses else 0 := by
  cases e with
  | noted ev => simp [counted, event?, lapses, Impl.Aside.not_shows he]
  | admitted now req a =>
    cases t <;> simp [counted, event?, lapses, Stats.reached, Event.shows]
    split_ifs <;> rfl
  | refused now result why => cases why <;> cases t <;>
      simp [counted, event?, lapses, Stats.reached, Event.shows, Refusal.counted, Refusal.detail]
  | cancelled now r a detail =>
    have hdetail : detail ≠ "pending chunk boundary" := he
    cases t <;> simp [counted, event?, lapses, Stats.reached, Event.shows, hdetail]
  | _ => cases t <;> simp [counted, event?, lapses, Stats.reached, Event.shows]

/-- A log that is the end of a history stays so. -/
theorem EventLog.events_record {log : EventLog} {hist : List Event}
    (h : log.events = hist.rtake log.capacity) (e : Event) :
    (log.record e).events = (hist ++ [e]).rtake log.capacity := by
  have hle : hist.length - log.capacity ≤ hist.length := Nat.sub_le _ _
  have hlength : log.events.length = hist.length - (hist.length - log.capacity) := by
    rw [h, List.rtake, List.length_drop]
  have hsucc : (log.events ++ [e]).length = log.events.length + 1 := List.length_append
  have happend : log.events ++ [e] = (hist ++ [e]).drop (hist.length - log.capacity) := by
    rw [h, List.rtake, List.drop_append_of_le_length hle]
  rw [List.rtake, List.length_append, List.length_singleton, record]
  dsimp only
  split_ifs with hfull
  · rw [happend, List.tail_drop]
    congr 1
    omega
  · rw [happend]
    congr 1
    omega

namespace Journal

/-- The stream is the end of a history, and the counters of what happens to requests count
its events. -/
structure Audited (j : Journal) (lapsed : ℕ) (hist : List Event) : Prop where
  capacity : j.events.capacity = 10000
  events : j.events.events = hist.rtake 10000
  reached (t : Milestone) :
    j.stats.reached t = hist.countP (·.shows t) + if t = .expired then lapsed else 0

theorem audited_fresh (env : Env) : (Impl.fresh env).journal.Audited 0 [] where
  capacity := rfl
  events := (List.rtake_nil 10000).symm
  reached t := by cases t <;> rfl

theorem Audited.enter {j : Journal} {lapsed : ℕ} {hist : List Event} {e : Entry}
    (h : j.Audited lapsed hist) (he : e.Proper) :
    (j.enter e).Audited (lapsed + e.lapses) (hist ++ e.event?.toList) := by
  refine ⟨?_, ?_, fun t => ?_⟩
  · show (e.event?.toList.foldl EventLog.record j.events).capacity = 10000
    cases e.event? with
    | none => exact h.capacity
    | some ev => exact h.capacity
  · show (e.event?.toList.foldl EventLog.record j.events).events = _
    have hevents : j.events.events = hist.rtake j.events.capacity := by
      rw [h.capacity]
      exact h.events
    cases e.event? with
    | none =>
      rw [Option.toList_none, List.append_nil]
      exact h.events
    | some ev => rw [← h.capacity]; exact EventLog.events_record hevents ev
  · show (e.counted j.stats).reached t = _
    rw [Entry.reached_counted he, h.reached, List.countP_append]
    split_ifs <;> omega

theorem Audited.foldl {es : List Entry} (hes : ∀ e ∈ es, e.Proper) {j : Journal} {lapsed : ℕ}
    {hist : List Event} (h : j.Audited lapsed hist) :
    (es.foldl Journal.enter j).Audited (lapsed + (es.map Entry.lapses).sum)
      (hist ++ es.filterMap Entry.event?) := by
  induction es generalizing j lapsed hist with
  | nil => simpa using h
  | cons e es ih =>
    obtain ⟨he, hes⟩ := List.forall_mem_cons.mp hes
    have hrest := ih hes (h.enter he)
    rw [List.append_assoc, Nat.add_assoc] at hrest
    have hevents : (e :: es).filterMap Entry.event? =
        e.event?.toList ++ es.filterMap Entry.event? := by
      rw [List.filterMap_cons]
      cases e.event? <;> rfl
    rw [hevents]
    exact hrest

end Journal

namespace Run

/-- **The statistics agree with the events**: every run of a fresh scheduler has a history of
events that only grows. The stream holds its last 10000, and the counters of what happens to
requests count its events, but for the expiries that accepted completions report. -/
theorem exists_history (env : Env) (calls : List Call) :
    ∃ hist : ℕ → List Event, (∀ n, hist n <+: hist (n + 1)) ∧
      ∀ n, ((fresh env calls).stateAt n).events.events = (hist n).rtake 10000 ∧
        ∀ t, ((fresh env calls).stateAt n).stats.reached t =
          (hist n).countP (·.shows t) +
            if t = .expired then ∑ i ∈ Finset.range n, (fresh env calls).lapses i else 0 := by
  choose es henters _ hlapses hproper using (fresh env calls).exists_enters
  let hist (n : ℕ) : List Event := (List.range n).flatMap fun i => (es i).filterMap Entry.event?
  have hsucc : ∀ n, hist (n + 1) = hist n ++ (es n).filterMap Entry.event? := by
    intro n
    simp only [hist, List.range_succ, List.flatMap_append, List.flatMap_singleton]
  have haudit : ∀ n, ((fresh env calls).stateAt n).journal.Audited
      (∑ i ∈ Finset.range n, (fresh env calls).lapses i) (hist n) := by
    intro n
    induction n with
    | zero => exact Journal.audited_fresh env
    | succ n ih =>
      rw [Finset.sum_range_succ, ← hlapses, hsucc,
        show ((fresh env calls).stateAt (n + 1)).journal = _ from henters n]
      exact ih.foldl (hproper n)
  refine ⟨hist, fun n => ?_, fun n => ⟨(haudit n).events, (haudit n).reached⟩⟩
  rw [hsucc]
  exact List.prefix_append _ _

end Run

end PrefillFabric
