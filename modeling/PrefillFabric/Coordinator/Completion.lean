import PrefillFabric.Coordinator.State
import PrefillFabric.Scheduler.History

/-!
# Completion messages

A completion message carries the results of all members of a group, and its handler
reports them one by one, up to the first that is refused (`Impl.completionLoop`). What the
message asks for is that each of them is offered (`Impl.offerAll`).

The two agree exactly if nothing that comes after a refused result would have had an
effect (`Impl.completionLoop_eq_offerAll_iff`). Hardly any result is without effect: one
that is accepted is, and so is one that is refused, as the refusal is counted; only a
result without an epoch, or one under the current epoch for a request nobody knows, leaves
no trace (`Impl.Ignores`). The proof weighs a state by its counters of reported results,
which every result with an effect raises.
-/

namespace PrefillFabric

namespace Impl

variable {env : Env} {now : Nanoseconds} {σ : Impl} {result : MemberResult}

/-- The loop over the results of a message, each with the time at which it is reported. It
ends at the first result that is refused. -/
def completionLoop (env : Env) : List (Nanoseconds × MemberResult) → Impl → Impl
  | [], σ => σ
  | (now, result) :: rest, σ =>
    let reported := σ.reportCompletion env now result
    if isOk reported.2 then completionLoop env rest reported.1 else reported.1

/-- All results of a message, offered to the scheduler in their order. -/
def offerAll (env : Env) : List (Nanoseconds × MemberResult) → Impl → Impl
  | [], σ => σ
  | (now, result) :: rest, σ => offerAll env rest (σ.reportCompletion env now result).1

/-! ### Results without effect -/

/-- **A result that leaves no trace**: it carries no epoch, or the current one and a
request that is not known. -/
def Ignores (σ : Impl) (result : MemberResult) : Prop :=
  result.epoch = .nil ∨ (result.epoch = σ.epoch ∧ σ.requests.lookup result.requestId = none)

/-- The number of results that have been reported, up to those that left no trace. -/
def reported (σ : Impl) : ℕ :=
  σ.stats.staleAuthorityRejected + σ.stats.duplicateCompletionRejected +
    σ.stats.executionLatencySamples

/-- The checks against a record find fault with the authority of a result, or with the
state of its request. -/
theorem counted_lt_of_checkRecord {s : Rs} {why : Refusal} (st : Stats)
    (h : σ.checkRecord result s = some why) :
    st.staleAuthorityRejected + st.duplicateCompletionRejected <
      (why.counted st).staleAuthorityRejected + (why.counted st).duplicateCompletionRejected := by
  unfold checkRecord at h
  split_ifs at h <;>
  · obtain rfl := Option.some.inj h
    simp only [Refusal.counted]
    omega

/-- A refusal is counted, except for the two that leave no trace. -/
theorem ignores_or_counted_lt {why : Refusal} (st : Stats)
    (h : σ.checkAuthority result = .error why) :
    σ.Ignores result ∨ st.staleAuthorityRejected + st.duplicateCompletionRejected <
      (why.counted st).staleAuthorityRejected + (why.counted st).duplicateCompletionRejected := by
  unfold checkAuthority at h
  split_ifs at h with hnil hepoch
  · exact Or.inl (Or.inl (StrongId.isNil_eq_true.mp hnil))
  · obtain rfl := Except.error.inj h
    refine Or.inr ?_
    simp only [Refusal.counted]
    omega
  · cases hs : σ.requests.lookup result.requestId with
    | none => exact Or.inl (Or.inr ⟨Decidable.not_not.mp hepoch, hs⟩)
    | some s =>
      rw [hs] at h
      dsimp only at h
      cases hc : σ.checkRecord result s with
      | none =>
        rw [hc] at h
        exact Except.noConfusion rfl rfl (heq_of_eq h)
      | some w =>
        rw [hc] at h
        obtain rfl := Except.error.inj h
        exact Or.inr (counted_lt_of_checkRecord st hc)

theorem reportCompletion_of_ignores (env : Env) (now : Nanoseconds) (h : σ.Ignores result) :
    (σ.reportCompletion env now result).1 = σ := by
  have hauth : σ.checkAuthority result = .error .noEpoch ∨
      σ.checkAuthority result = .error .unknownRequest := by
    unfold checkAuthority
    rcases h with hnil | ⟨hepoch, hnone⟩
    · exact Or.inl (if_pos (StrongId.isNil_eq_true.mpr hnil))
    · split_ifs with hnil hne
      · exact Or.inl rfl
      · exact absurd hepoch hne
      · rw [hnone]
        exact Or.inr rfl
  unfold reportCompletion
  rcases hauth with hauth | hauth <;>
  · rw [hauth]
    rfl

/-! ### Results with an effect -/

theorem reported_detachMember (σ : Impl) (gid : GroupId) (r : RequestId) :
    (σ.detachMember gid r).reported = σ.reported := by
  unfold detachMember
  cases σ.groups.lookup gid with
  | none => rfl
  | some gs =>
    dsimp only
    split_ifs <;> rfl

/-- Whatever becomes of the request, no counter of reported results goes down. -/
theorem reported_le_settleOutcome (env : Env) (now : Nanoseconds) (result : MemberResult) (s : Rs)
    (σ : Impl) : σ.reported ≤ (settleOutcome env now result s σ).1.reported := by
  unfold settleOutcome
  cases result.outcome with
  | staleRejected =>
    simp only [reported, count]
    omega
  | retryableFailure =>
    dsimp only
    split_ifs <;> exact le_rfl
  | success =>
    dsimp only [settleSuccess]
    split_ifs <;> exact le_rfl
  | needsNextChunk =>
    dsimp only [settleSuccess]
    split_ifs <;> exact le_rfl
  | _ => exact le_rfl

theorem reported_lt_applyCompletion (env : Env) (now : Nanoseconds) (result : MemberResult) (s : Rs)
    (σ : Impl) : σ.reported < (σ.applyCompletion env now result s).reported := by
  unfold applyCompletion
  dsimp only
  have hrelease : ∀ (σ : Impl) (s : Rs), (σ.releaseReservation s).reported = σ.reported := by
    intro σ s
    unfold releaseReservation
    split_ifs <;> rfl
  have hdetach : ∀ (σ : Impl) (p : Prop) [Decidable p] (gid : GroupId) (r : RequestId),
      (if p then σ else σ.detachMember gid r).reported = σ.reported := by
    intro σ p _ gid r
    split_ifs
    · rfl
    · exact reported_detachMember σ gid r
  refine lt_of_lt_of_eq ?_ ((hdetach _ _ _ _).trans (hrelease _ _)).symm
  refine lt_of_lt_of_le ?_ (reported_le_settleOutcome env now result _ _)
  simp only [reported, charge, count]
  omega

/-- **A result leaves no trace, or raises the counters.** -/
theorem ignores_or_reported_lt (env : Env) (now : Nanoseconds) (σ : Impl) (result : MemberResult) :
    σ.Ignores result ∨ σ.reported < (σ.reportCompletion env now result).1.reported := by
  unfold reportCompletion
  cases hauth : σ.checkAuthority result with
  | error why =>
    refine (ignores_or_counted_lt σ.stats hauth).imp id fun hlt => ?_
    have hsamples : (why.counted σ.stats).executionLatencySamples =
        σ.stats.executionLatencySamples := by
      cases why <;> rfl
    have hrefuse : (σ.refuse now result why).1.reported =
        (σ.count fun st => why.counted st).reported := by
      cases why <;> rfl
    dsimp only
    rw [hrefuse]
    simp only [reported, count, hsamples]
    omega
  | ok s => exact Or.inr (reported_lt_applyCompletion env now result s σ)

theorem reported_le_offerAll (env : Env) (results : List (Nanoseconds × MemberResult)) (σ : Impl) :
    σ.reported ≤ (σ.offerAll env results).reported := by
  induction results generalizing σ with
  | nil => exact le_rfl
  | cons p rest ih =>
    refine le_trans ?_ (ih _)
    rcases ignores_or_reported_lt env p.1 σ p.2 with h | h
    · rw [reportCompletion_of_ignores env p.1 h]
    · exact h.le

/-- Offering results changes nothing exactly if none of them leaves a trace. -/
theorem offerAll_eq_self_iff (env : Env) (results : List (Nanoseconds × MemberResult)) (σ : Impl) :
    σ.offerAll env results = σ ↔ ∀ p ∈ results, σ.Ignores p.2 := by
  induction results with
  | nil => exact ⟨fun _ p hp => absurd hp List.not_mem_nil, fun _ => rfl⟩
  | cons p rest ih =>
    rcases ignores_or_reported_lt env p.1 σ p.2 with h | h
    · rw [offerAll, reportCompletion_of_ignores env p.1 h, ih, List.forall_mem_cons]
      exact ⟨fun hrest => ⟨h, hrest⟩, fun hall => hall.2⟩
    · have hlt : σ.reported < (σ.offerAll env (p :: rest)).reported :=
        lt_of_lt_of_le h (reported_le_offerAll env rest _)
      refine ⟨fun heq => absurd hlt (by rw [heq]; exact lt_irrefl _), fun hall => ?_⟩
      rw [reportCompletion_of_ignores env p.1 (hall p List.mem_cons_self)] at h
      exact absurd h (lt_irrefl _)

/-! ### The loop and the message -/

/-- **Nothing is cut off**: after the first result that is not acceptable come only
results that leave no trace. -/
def CutsNothing (env : Env) : List (Nanoseconds × MemberResult) → Impl → Prop
  | [], _ => True
  | (now, result) :: rest, σ =>
    ((∃ s, σ.view.Accepts result s) → CutsNothing env rest (σ.reportCompletion env now result).1) ∧
      ((¬∃ s, σ.view.Accepts result s) → ∀ p ∈ rest, σ.Ignores p.2)

/-- A refusal changes neither the epoch nor what is known. -/
theorem ignores_reportCompletion_iff {x : MemberResult}
    (h : isOk (σ.reportCompletion env now result).2 = false) :
    (σ.reportCompletion env now result).1.Ignores x ↔ σ.Ignores x := by
  unfold reportCompletion at h ⊢
  cases hauth : σ.checkAuthority result with
  | error why => cases why <;> exact Iff.rfl
  | ok s =>
    rw [hauth] at h
    exact Bool.noConfusion h

/-- **The loop does what the message asks for exactly if it cuts nothing off.** -/
theorem completionLoop_eq_offerAll_iff (env : Env) (results : List (Nanoseconds × MemberResult))
    (σ : Impl) :
    σ.completionLoop env results = σ.offerAll env results ↔ σ.CutsNothing env results := by
  induction results generalizing σ with
  | nil => exact iff_of_true rfl trivial
  | cons p rest ih =>
    obtain ⟨now, result⟩ := p
    rw [completionLoop, offerAll, CutsNothing]
    by_cases hs : ∃ s, σ.view.Accepts result s
    · rw [if_pos (isOk_reportCompletion_iff.mpr hs), ih]
      exact ⟨fun h => ⟨fun _ => h, fun hnot => absurd hs hnot⟩, fun h => h.1 hs⟩
    · have hrefused : isOk (σ.reportCompletion env now result).2 = false :=
        Bool.eq_false_iff.mpr fun hok => hs (isOk_reportCompletion_iff.mp hok)
      rw [if_neg (Bool.eq_false_iff.mp hrefused), eq_comm, offerAll_eq_self_iff]
      simp only [ignores_reportCompletion_iff hrefused]
      exact ⟨fun h => ⟨fun hc => absurd hc hs, fun _ => h⟩, fun h => h.2 hs⟩

/-- Two requests in one group, and a deadline for the first that passes while the group is
executed. -/
def expiredCalls : List Call :=
  [⟨0, .submitWithTokens { Run.plainRequest 1 2 with deadline := some 5 } [5, 6]⟩,
    ⟨0, .submitWithTokens (Run.plainRequest 2 2) [7, 8]⟩, ⟨0, .runCycle⟩, ⟨9, .runCycle⟩]

/-- The message that comes back: both chunks are done. -/
def expiredResults : List (Nanoseconds × MemberResult) :=
  [(9, { requestId := ⟨1⟩, attemptId := ⟨1⟩, generation := ⟨1⟩, epoch := ⟨1⟩ }),
    (9, { requestId := ⟨2⟩, attemptId := ⟨2⟩, generation := ⟨2⟩, epoch := ⟨1⟩ })]

/-- The result of the expired request is refused, and that of the other is not looked at:
it would have completed its request, which is left in flight. -/
theorem completionLoop_ne_offerAll_expiredCalls :
    ((((Run.fresh .standard expiredCalls).stateAt 4).offerAll .standard
        expiredResults).requests.lookup ⟨2⟩).map (·.lifecycle) = some .completed ∧
      ((((Run.fresh .standard expiredCalls).stateAt 4).completionLoop .standard
        expiredResults).requests.lookup ⟨2⟩).map (fun s => (s.lifecycle, s.inFlight)) =
          some (.dispatched, true) ∧
      ((Run.fresh .standard expiredCalls).stateAt 4).completionLoop .standard expiredResults ≠
        ((Run.fresh .standard expiredCalls).stateAt 4).offerAll .standard expiredResults := by
  refine ⟨by decide +kernel, by decide +kernel, fun h => ?_⟩
  have hlifecycle := congrArg (fun σ => (σ.requests.lookup ⟨2⟩).map (·.lifecycle)) h
  revert hlifecycle
  decide +kernel

end Impl

/-! ### The handler -/

namespace Coordinator

variable {env : Env} {c : Coordinator} {conn : ConnectionId}

/-- A handler that waits does not go on by itself. -/
theorem foldl_proceed_of_serving {peer : Peer} (h : c.handlers.lookup conn = some (.serving peer))
    (times : List Nanoseconds) :
    times.foldl (fun c now => (c.step env (.proceed conn now)).1) c = c := by
  induction times with
  | nil => rfl
  | cons now times ih =>
    have hstep : (c.step env (.proceed conn now)).1 = c := by
      rw [step, proceed, h]
    rw [List.foldl_cons, hstep, ih]

/-- **The handler of a completion message, left alone, is the loop.** -/
theorem scheduler_foldl_proceed {peer : Peer} (results : List (Nanoseconds × MemberResult))
    (h : c.handlers.lookup conn = some (.completing peer (results.map (·.2)))) :
    ((results.map (·.1)).foldl (fun c now => (c.step env (.proceed conn now)).1) c).scheduler =
      c.scheduler.completionLoop env results := by
  induction results generalizing c with
  | nil => rfl
  | cons p rest ih =>
    obtain ⟨now, result⟩ := p
    rw [List.map_cons] at h
    rw [List.map_cons, List.foldl_cons, Impl.completionLoop]
    have hstep : (c.step env (.proceed conn now)).1 =
        ({ c with scheduler := (c.scheduler.reportCompletion env now result).1 } :
          Coordinator).setHandler conn
          (if isOk (c.scheduler.reportCompletion env now result).2 then
            .completing peer (rest.map (·.2)) else .serving peer) := by
      rw [step, proceed, h]
      dsimp only
      cases (c.scheduler.reportCompletion env now result).2 <;> rfl
    rw [hstep]
    split_ifs
    · exact ih (AList.lookup_insert _)
    · rw [foldl_proceed_of_serving (AList.lookup_insert _)]
      rfl

end Coordinator

end PrefillFabric
