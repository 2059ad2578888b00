import PrefillFabric.Coordinator.Deployment

/-!
# What comes of a request

The end of the way from a client's message to a completed request, in a deployment. A request
that is completed has been computed: for each chunk of its plan, in the order of the plan, one
result was accepted under its last attempt, and the digest of this result is that of the tokens of
the chunk in the message the request was accepted with (`Session.completed_genuine`). That it is
one result for each chunk is a matter of the scheduler, which is on track at all times
(`Session.onTrack`); that the results are genuine is a matter of everything else.

With workers that execute whatever can be executed, such as those with the executor on the CPU,
nothing fails either (`Session.never_fails`). Workers may be lost in the middle of their work, and
frames with them; this costs no request an attempt.
-/

namespace PrefillFabric

namespace Session

variable {S : Session} {n : ℕ} {r : RequestId} {s : Rs} {result : MemberResult}

/-! ### Successes -/

/-- The result that event number `j` reports and that is accepted as a success, with the record of
its request before. -/
def successAt (S : Session) (j : ℕ) : Option (MemberResult × Rs) :=
  match S.events[j]? with
  | some (.proceed conn now) =>
    match (S.stateAt j).handlers.lookup conn with
    | some (.completing _ (result :: _)) =>
      if isOk ((S.stateAt j).scheduler.reportCompletion S.env now result).2 ∧
          result.outcome.advances then
        ((S.stateAt j).scheduler.requests.lookup result.requestId).map (result, ·)
      else none
    | _ => none
  | _ => none

/-- The results accepted as successes of an attempt of a request before event number `n`, in the
order of their acceptance, each with the record of the request before. -/
def successes (S : Session) (n : ℕ) (r : RequestId) (a : AttemptId) : List (MemberResult × Rs) :=
  ((List.range n).filterMap S.successAt).filter fun p => p.1.requestId = r ∧ p.1.attemptId = a

/-- The ranges done. -/
def doneRanges (S : Session) (n : ℕ) : DoneRanges := fun r a =>
  (S.successes n r a).map (·.2.nextChunk.range)

theorem of_successAt {j : ℕ} (h : S.successAt j = some (result, s)) :
    S.Accepted j result ∧ result.outcome.advances = true ∧
      (S.stateAt j).scheduler.requests.lookup result.requestId = some s := by
  unfold successAt at h
  split at h
  · rename_i conn now he
    split at h
    · rename_i peer res rest hconn
      split_ifs at h with hok
      obtain ⟨t, ht, hpair⟩ := Option.map_eq_some_iff.mp h
      obtain ⟨rfl, rfl⟩ := Prod.mk.inj hpair
      exact ⟨⟨conn, now, peer, rest, he, hconn, hok.1⟩, hok.2, ht⟩
    · exact absurd h.symm (Option.some_ne_none _)
  · exact absurd h.symm (Option.some_ne_none _)

theorem exists_of_mem_successes {a : AttemptId} {p : MemberResult × Rs}
    (h : p ∈ S.successes n r a) :
    p.1.requestId = r ∧ p.1.attemptId = a ∧ ∃ j < n, S.successAt j = some p := by
  obtain ⟨hp, hid⟩ := List.mem_filter.mp h
  obtain ⟨j, hj, hsuccess⟩ := List.mem_filterMap.mp hp
  obtain ⟨hr, ha⟩ := of_decide_eq_true hid
  exact ⟨hr, ha, j, List.mem_range.mp hj, hsuccess⟩

theorem doneRanges_succ_of_none (h : S.successAt n = none) :
    S.doneRanges (n + 1) = S.doneRanges n := by
  funext r a
  rw [doneRanges, doneRanges, successes, List.range_succ, List.filterMap_append,
    List.filterMap_cons_none h, List.filterMap_nil, List.append_nil]
  rfl

theorem doneRanges_succ_of_some (h : S.successAt n = some (result, s)) (r : RequestId)
    (a : AttemptId) : S.doneRanges (n + 1) r a = S.doneRanges n r a ++
      if result.requestId = r ∧ result.attemptId = a then [s.nextChunk.range] else [] := by
  rw [doneRanges, doneRanges, successes, List.range_succ, List.filterMap_append,
    List.filterMap_cons_some h, List.filterMap_nil, List.filter_append, List.filter_singleton,
    List.map_append]
  by_cases hp : result.requestId = r ∧ result.attemptId = a
  · rw [if_pos hp, decide_eq_true hp]
    rfl
  · rw [if_neg hp, decide_eq_false hp]
    rfl

/-- Nothing succeeds but by a report. -/
theorem successAt_eq_none {e : NetEvent} (he : S.events[n]? = some e)
    (h : ∀ now result, (S.stateAt n).call e ≠ some ⟨now, .reportCompletion result⟩) :
    S.successAt n = none := by
  unfold successAt
  rw [he]
  cases e with
  | proceed conn now =>
    dsimp only
    split
    · rename_i peer res rest hconn
      exact absurd (by rw [Coordinator.call, hconn]) (h now res)
    · rfl
  | _ => rfl

/-! ### On track -/

/-- A report that is refused, or is no success, adds nothing. -/
theorem successAt_report {conn : ConnectionId} {now : Nanoseconds} {peer : Peer}
    {rest : List MemberResult} (he : S.events[n]? = some (.proceed conn now))
    (hconn : (S.stateAt n).handlers.lookup conn = some (.completing peer (result :: rest))) :
    S.successAt n =
      if isOk ((S.stateAt n).scheduler.reportCompletion S.env now result).2 ∧
          result.outcome.advances then
        ((S.stateAt n).scheduler.requests.lookup result.requestId).map (result, ·)
      else none := by
  rw [successAt, he]
  dsimp only
  rw [hconn]

theorem onTrack_report {conn : ConnectionId} {now : Nanoseconds} {peer : Peer}
    {rest : List MemberResult} (he : S.events[n]? = some (.proceed conn now))
    (hconn : (S.stateAt n).handlers.lookup conn = some (.completing peer (result :: rest)))
    (h : (S.stateAt n).scheduler.view.OnTrack S.env (S.doneRanges n)) :
    ((S.stateAt n).scheduler.reportCompletion S.env now result).1.view.OnTrack S.env
      (S.doneRanges (n + 1)) := by
  have hsuccess := successAt_report he hconn
  rcases Impl.effect_reportCompletion S.env now result (S.wf n) with
    ⟨hrefused, hview⟩ | ⟨hok, heffect⟩
  · rw [if_neg fun hc => Bool.false_ne_true (hrefused.symm.trans hc.1)] at hsuccess
    rw [doneRanges_succ_of_none hsuccess, hview]
    exact h
  · obtain ⟨t, hs⟩ := Impl.isOk_reportCompletion_iff.mp hok
    obtain ⟨s, hlookup, rfl⟩ := Impl.exists_of_view_req hs.req
    rw [hlookup, Option.map_some] at hsuccess
    refine heffect.onTrack_finish hs.req (fun hadv => ?_) (fun x a hne => ?_) h
    · rw [if_pos ⟨hok, hadv⟩] at hsuccess
      rw [doneRanges_succ_of_some hsuccess, if_pos ⟨rfl, hs.attempt⟩]
      rfl
    · split_ifs at hsuccess
      · rw [doneRanges_succ_of_some hsuccess, if_neg, List.append_nil]
        rintro ⟨rfl, rfl⟩
        exact hne ⟨rfl, hs.attempt⟩
      · rw [doneRanges_succ_of_none hsuccess]

/-- **Every request is on track**, in every session: what has been accepted of its attempt is what
its record says. -/
theorem onTrack (S : Session) (n : ℕ) :
    (S.stateAt n).scheduler.view.OnTrack S.env (S.doneRanges n) := by
  induction n with
  | zero =>
    have hnone : ∀ r s, (S.stateAt 0).scheduler.view.req r ≠ some s :=
      fun r s h => absurd h.symm (Option.some_ne_none s)
    exact ⟨fun r s hs => (hnone r s hs).elim, fun r s hs => (hnone r s hs).elim,
      fun r s hs => (hnone r s hs).elim, fun _ _ _ => rfl⟩
  | succ n ih =>
    cases he : S.events[n]? with
    | none =>
      have hnone : S.successAt n = none := by rw [successAt, he]
      rwa [doneRanges_succ_of_none hnone, stateAt_succ_of_none he]
    | some e =>
      rw [stateAt_succ he]
      cases hk : (S.stateAt n).call e with
      | none =>
        have hnone := successAt_eq_none he fun now result => by
          rw [hk]
          exact (Option.some_ne_none _).symm
        rwa [doneRanges_succ_of_none hnone, Coordinator.scheduler_step_of_none hk]
      | some call =>
        rw [Coordinator.scheduler_step_of_some hk]
        have hquiet : (∀ result, call.op ≠ .reportCompletion result) →
            ((S.stateAt n).scheduler.step S.env call).1.view.OnTrack S.env
              (S.doneRanges (n + 1)) := by
          intro hop
          have hnone := successAt_eq_none he fun now result heq =>
            hop result (congrArg Call.op (Option.some.inj (hk.symm.trans heq)))
          rw [doneRanges_succ_of_none hnone]
          refine (Impl.effects_step S.env (S.wf n) call).invariant
            (fun v l v' hl hL hv => hl.onTrack (fun x o heq => ?_) hv) ih
          obtain ⟨result, hresult⟩ := Op.exists_reportCompletion_of_causes_finish (heq ▸ hL)
          exact hop result hresult
        cases Coordinator.calls_of_call hk with
        | report hconn => exact onTrack_report he hconn ih
        | _ => exact hquiet fun _ => Op.noConfusion

/-! ### Completed requests -/

variable {crew : ConnectionId → Option Worker}

/-- The successes of an attempt are genuine, all with the tokens of one message. -/
theorem Deployed.genuine_successes (h : S.Deployed crew) {tokens : List UInt32}
    (htokens : S.AcceptedWith n r tokens) {a : AttemptId} {p : MemberResult × Rs}
    (hp : p ∈ S.successes n r a) : Genuine p.1 tokens a p.2.nextChunk := by
  obtain ⟨hr, ha, j, hj, hsuccess⟩ := exists_of_mem_successes hp
  obtain ⟨haccepted, hadv, hlookup⟩ := of_successAt hsuccess
  obtain ⟨s, tokens', hs, htokens', hgenuine⟩ := h.genuine haccepted hadv
  obtain rfl := Option.some.inj (hlookup.symm.trans hs)
  rw [hr] at htokens'
  obtain rfl := Option.some.inj ((h.payloads.kept n r tokens htokens).symm.trans
    (h.payloads.kept n r tokens' (htokens'.mono hj.le)))
  rwa [← hgenuine.attempt, ha] at hgenuine

/-- **A completed request has been computed.** In every deployment, whatever the interleaving and
whatever becomes of frames and workers: of a request that is completed, one result has been
accepted for each chunk of its plan, in the order of the plan and under its last attempt. The
chunks tile what was to be computed, and each result has the digest of the tokens of its chunk in
the message that the request was accepted with. -/
theorem completed_genuine (h : S.Deployed crew)
    (hs : (S.stateAt n).scheduler.requests.lookup r = some s)
    (hcompleted : s.lifecycle = .completed) :
    ∃ tokens, S.AcceptedWith n r tokens ∧
      Tiles 0 s.request.remainingPrefillTokens (s.plan.chunks.map (·.range)) ∧
      List.Forall₂ (fun result chunk => result.requestId = r ∧ (∃ j < n, S.Accepted j result) ∧
          Genuine result tokens s.attempt chunk)
        ((S.successes n r s.attempt).map (·.1)) s.plan.chunks := by
  have htrack := S.onTrack n
  have hreq := Impl.view_req hs
  obtain ⟨tokens, htokens⟩ := exists_acceptedWith hreq
  refine ⟨tokens, htokens, ?_, List.forall₂_map_left_iff.mpr ?_⟩
  · have hplan : s.plan = ChunkPlanner.plan S.env s.request s.attempt .nil :=
      (htrack.sane r s.core hreq).plan_eq
    rw [hplan]
    exact ChunkPlanner.tiles_plan S.env s.request s.attempt .nil
  · have hdone : (S.successes n r s.attempt).map (·.2.nextChunk.range) =
        s.plan.chunks.map (·.range) := (htrack.tracks r s.core hreq).completed hcompleted
    have hranges : List.Forall₂ (fun p chunk => p.2.nextChunk.range = chunk.range)
        (S.successes n r s.attempt) s.plan.chunks := by
      rw [← List.forall₂_map_right_iff, ← List.forall₂_map_left_iff, List.forall₂_eq_eq_eq]
      exact hdone
    refine ((List.forall₂_and_left _ _).mpr ⟨fun p hp => hp, hranges⟩).imp ?_
    rintro p chunk ⟨hp, hrange⟩
    obtain ⟨hr, -, j, hj, hsuccess⟩ := exists_of_mem_successes hp
    obtain ⟨-, hle, hdigest⟩ := h.genuine_successes htokens hp
    obtain ⟨hstart, hcount⟩ := Prod.mk.inj hrange
    rw [hstart, hcount] at hle hdigest
    exact ⟨hr, ⟨j, hj, (of_successAt hsuccess).1⟩,
      (h.genuine_successes htokens hp).attempt, hle, hdigest⟩

end Session

/-! ### Nothing fails -/

/-- **A request that has not failed**: it is in its first attempt, and has not been given up. -/
structure Rs.Unfailed (s : Rs) : Prop where
  retriesUsed : s.retriesUsed = 0
  lifecycle : s.lifecycle ≠ .failedNonRetryable

theorem Rs.Unfailed.dropReservation {s : Rs} (h : s.Unfailed) : s.dropReservation.Unfailed := by
  rw [Rs.dropReservation_eq]
  exact ⟨h.retriesUsed, h.lifecycle⟩

theorem Rs.Unfailed.advanced {s : Rs} (h : s.Unfailed) : s.advanced.Unfailed := by
  unfold Rs.advanced
  split_ifs <;> exact ⟨h.retriesUsed, Lifecycle.noConfusion⟩

/-- **Only a failure, or a forced retry, makes a request fail.** -/
theorem Fate.unfailed {env : Env} {v : View} {r : RequestId} {s s' : Rs} {l : Label}
    (h : Fate env v r s l s') (hretry : ∀ x, l ≠ .retry x)
    (hfinish : ∀ x o, l = .finish x o → o = .success) (hs : s.Unfailed) : s'.Unfailed := by
  have hdrop := hs.dropReservation
  cases h with
  | keep => exact hs
  | expire => exact ⟨hdrop.retriesUsed, Lifecycle.noConfusion⟩
  | launch => exact ⟨hs.retriesUsed, Lifecycle.noConfusion⟩
  | finish o =>
    obtain rfl := hfinish r o rfl
    have hlanded : (s.landed env).Unfailed := ⟨hs.retriesUsed, hs.lifecycle⟩
    have hdone := hlanded.advanced.dropReservation
    exact ⟨hdone.retriesUsed, hdone.lifecycle⟩
  | flag => exact ⟨hs.retriesUsed, hs.lifecycle⟩
  | cancel => exact ⟨hdrop.retriesUsed, Lifecycle.noConfusion⟩
  | withdraw => exact ⟨hdrop.retriesUsed, hdrop.lifecycle⟩
  | retry => exact absurd rfl (hretry r)
  | recover => exact ⟨hdrop.retriesUsed, Lifecycle.noConfusion⟩

namespace Session

variable {S : Session} {n : ℕ} {r : RequestId} {s : Rs} {result : MemberResult}
  {crew : ConnectionId → Option Worker}

/-- What is received of reliable workers is a success. -/
theorem Deployed.outcome_of_reliable (h : S.Deployed crew)
    (hreliable : ∀ conn w, crew conn = some w → w.Reliable) {conn : ConnectionId} {peer : Peer}
    {rest : List MemberResult}
    (hconn : (S.stateAt n).handlers.lookup conn = some (.completing peer (result :: rest))) :
    result.outcome = .success := by
  obtain ⟨i, -, now, results, he, hsub⟩ := exists_received hconn
  obtain ⟨w, j, d, m, x, hcrew, -, hd, hmembers, hresolve, hx, hcarried⟩ :=
    h.exists_execution he (hsub List.mem_cons_self)
  have hfeasible := h.feasible hd hresolve
  rw [← hmembers] at hfeasible
  exact (Coded.of_injective hcarried.outcome).trans
    ((hreliable conn w hcrew).execution hfeasible hx)

/-- A coordinator calls for no retry, and with reliable workers it reports no failure. -/
theorem Deployed.unfailed (h : S.Deployed crew)
    (hreliable : ∀ conn w, crew conn = some w → w.Reliable) (n : ℕ) :
    (S.stateAt n).scheduler.view.Each fun _ s => s.Unfailed := by
  induction n with
  | zero => exact fun r s hs => absurd hs.symm (Option.some_ne_none s)
  | succ n ih =>
    cases he : S.events[n]? with
    | none => rwa [stateAt_succ_of_none he]
    | some e =>
      rw [stateAt_succ he]
      cases hk : (S.stateAt n).call e with
      | none => rwa [Coordinator.scheduler_step_of_none hk]
      | some call =>
        have hcalls := Coordinator.calls_of_call hk
        rw [Coordinator.scheduler_step_of_some hk]
        refine (Impl.effects_step S.env (S.wf n) call).invariant
          (P := View.Each fun _ s => s.Unfailed) (fun v l v' hl hL hv => ?_) ih
        refine hl.each (fun now req _ _ => ⟨rfl, ?_⟩)
          (fun r s s' _ hfate hs => hfate.unfailed (fun x hx => ?_) (fun x o hx => ?_) hs) hv
        · change (if _ then Lifecycle.completed else .queued) ≠ .failedNonRetryable
          split_ifs <;> exact Lifecycle.noConfusion
        · subst hx
          cases hcalls <;> exact hL.elim
        · subst hx
          cases hcalls with
          | report hconn => exact hL.2.trans (h.outcome_of_reliable hreliable hconn)
          | _ => exact hL.elim

/-- **Reliable workers fail no request.** In every deployment of workers that execute whatever can
be executed, whatever the interleaving and however many of them are lost: no request is ever
retried, and none is given up. -/
theorem never_fails (h : S.Deployed crew)
    (hreliable : ∀ conn w, crew conn = some w → w.Reliable)
    (hs : (S.stateAt n).scheduler.requests.lookup r = some s) :
    s.retriesUsed = 0 ∧ s.lifecycle ≠ .failedNonRetryable := by
  obtain ⟨hretries, hlifecycle⟩ := h.unfailed hreliable n r s.core (Impl.view_req hs)
  exact ⟨hretries, hlifecycle⟩

/-! ### A deployment -/

/-- Once everything has happened nothing more is handed out. -/
theorem membersOut_subset_length (S : Session) (n : ℕ) :
    S.membersOut n ⊆ S.membersOut S.events.length := by
  rcases Nat.le_total n S.events.length with hle | hge
  · exact membersOut_subset hle
  · induction hge with
    | refl => exact List.Subset.refl _
    | @step k hk ih =>
      have hnone : S.handsOut k = [] := by rw [handsOut, List.getElem?_eq_none hk]
      rw [membersOut_succ, hnone, List.flatMap_nil, List.append_nil]
      exact ih

/-- The result of the only chunk of the request below, the second time it is executed. -/
def redoneResult : MemberResult where
  requestId := ⟨1⟩
  attemptId := ⟨1⟩
  generation := ⟨2⟩
  tokensCompleted := 2
  digest := ffMemberDigest ⟨1⟩ ⟨1⟩ ⟨2⟩ [5, 6] 0
  nextTokenStart := 2
  epoch := ⟨1⟩
  worker := ⟨1⟩
  boot := ⟨8⟩

/-- A worker and a client. The connection of the worker breaks off when the request has been sent
to it; the worker registers again, and the request is sent, executed and reported. -/
def redone : Session where
  env := .standard
  startedAt := 0
  events :=
    [.receive 0 0 (.workerRegister { workerId := ⟨1⟩, bootId := ⟨7⟩, state := .ready }),
      .proceed 0 0, .receive 1 0 .hello,
      .receive 1 0 (.submit (Run.plainRequest 1 2) [5, 6]), .proceed 1 0,
      .schedule 0 true, .schedule 0 true, .schedule 0 true, .schedule 0 true, .schedule 0 true,
      .schedule 0 true, .hangUp 0 0, .schedule 0 true,
      .receive 2 0 (.workerRegister { workerId := ⟨1⟩, bootId := ⟨8⟩, state := .ready }),
      .proceed 2 0,
      .schedule 0 true, .schedule 0 true, .schedule 0 true, .schedule 0 true, .schedule 0 true,
      .schedule 0 true, .receive 2 0 (.completion [redoneResult]), .proceed 2 0]

/-- The worker, before and after it has registered again. -/
def redoneCrew : ConnectionId → Option Worker
  | 0 => some (.cpu ⟨1⟩ ⟨7⟩ "w")
  | 2 => some (.cpu ⟨1⟩ ⟨8⟩ "w")
  | _ => none

theorem redoneCrew_cases {conn : ConnectionId} {w : Worker} (h : redoneCrew conn = some w) :
    ∃ id boot, w = .cpu id boot "w" := by
  unfold redoneCrew at h
  split at h
  · exact ⟨_, _, (Option.some.inj h).symm⟩
  · exact ⟨_, _, (Option.some.inj h).symm⟩
  · exact absurd h.symm (Option.some_ne_none w)

/-- What the worker sends at last is the result. -/
theorem run_redone :
    (((Worker.cpu ⟨1⟩ ⟨8⟩ "w").run (redone.outbox 2 21))[1]?.bind fun body =>
      (Wire.decodeFrame body).toOption) =
        some (Wire.completionOf [redoneResult.toWire]) := by
  decide +kernel

/-- A step at which the tokens stored for a request are those that come, or have come, with it. -/
def storesOwn (c : Coordinator) : NetEvent → Bool
  | .receive _ _ (.submit req tokens) =>
    !(c.scheduler.requests.lookup req.requestId).isSome ||
      decide (c.tokens.lookup req.requestId = some tokens)
  | .proceed conn _ =>
    match c.handlers.lookup conn with
    | some (.submitting req tokens) => decide (c.tokens.lookup req.requestId = some tokens)
    | _ => true
  | _ => true

theorem keepsPayloads_of_storesOwn {env : Env} {c : Coordinator} {e : NetEvent}
    (h : storesOwn c e = true) : c.KeepsPayloads env e := by
  cases e with
  | receive conn now msg =>
    cases msg with
    | submit req tokens =>
      intro _ hknown
      rcases (Bool.or_eq_true _ _).mp h with hunknown | hstored
      · rw [hknown] at hunknown
        exact Bool.noConfusion hunknown
      · exact of_decide_eq_true hstored
    | _ => exact trivial
  | proceed conn now =>
    intro req tokens hconn _
    rw [storesOwn, hconn] at h
    exact of_decide_eq_true h
  | _ => exact trivial

theorem keepsPayloads_redone : redone.KeepsPayloads := by
  have hall : ∀ n < 23, (redone.events[n]?).all (storesOwn (redone.stateAt n)) = true := by
    decide +kernel
  intro n e he
  have hn := hall n (List.getElem?_eq_some_iff.mp he).1
  rw [he] at hn
  exact keepsPayloads_of_storesOwn hn

theorem inRange_redone (n : ℕ) : ∀ m ∈ redone.membersOut n, m.InRange := by
  have hall : ∀ m ∈ redone.membersOut 23, IsWord m.requestId.value ∧ IsWord m.attemptId.value ∧
      IsWord m.generation.value ∧ IsWord m.parentGeneration.value ∧ IsWord m.tokenStart ∧
      IsWord m.tokenCount ∧ IsWord m.assignedWorker.value ∧ m.memberIndex < 2 ^ 32 := by
    decide +kernel
  intro m hm
  obtain ⟨h₁, h₂, h₃, h₄, h₅, h₆, h₇, h₈⟩ := hall m (redone.membersOut_subset_length n hm)
  exact ⟨h₁, h₂, h₃, h₄, h₅, h₆, h₇, h₈⟩

/-- Whether an event brings a completion. -/
def bringsCompletion : NetEvent → Bool
  | .receive _ _ (.completion _) => true
  | _ => false

theorem deployed_redone : redone.Deployed redoneCrew where
  honest conn w h := by
    obtain ⟨id, boot, rfl⟩ := redoneCrew_cases h
    exact Worker.honest_cpu id boot "w"
  completions n conn now results he := by
    -- one of the events brings a completion
    have hone : ∀ n < 23, (redone.events[n]?).any bringsCompletion = true → n = 21 := by decide
    obtain rfl := hone n (List.getElem?_eq_some_iff.mp he).1 (by rw [he]; rfl)
    obtain ⟨rfl, rfl, hmsg⟩ := NetEvent.receive.inj (Option.some.inj he)
    obtain rfl := Message.completion.inj hmsg
    obtain ⟨body, hbody, hdec⟩ := Option.bind_eq_some_iff.mp run_redone
    refine ⟨_, body, Wire.completionOf [redoneResult.toWire], rfl, List.mem_of_getElem? hbody, ?_,
      rfl, .cons (by constructor <;> rfl) .nil⟩
    cases hread : Wire.decodeFrame body with
    | error e =>
      rw [hread] at hdec
      exact absurd hdec.symm (Option.some_ne_none _)
    | ok m =>
      rw [hread] at hdec
      exact congrArg Except.ok (Option.some.inj hdec)
  payloads := keepsPayloads_redone
  prompts n conn now req tokens he := by
    have hall : ∀ e ∈ redone.events, ∀ x t q toks, e = .receive x t (.submit q toks) →
        toks = [5, 6] := by
      intro e he
      simp only [redone, List.mem_cons, List.not_mem_nil, or_false] at he
      rcases he with rfl | rfl | rfl | rfl | rfl | rfl | rfl | rfl | rfl | rfl | rfl | rfl | rfl |
        rfl | rfl | rfl | rfl | rfl | rfl | rfl | rfl | rfl | rfl
      all_goals rintro x t q toks ⟨⟩
      rfl
    rw [hall _ (List.mem_of_getElem? he) conn now req tokens rfl]
    decide
  inRange := inRange_redone

/-- The request that has been sent twice is completed by the second result. -/
theorem completed_genuine_redone :
    ∃ s tokens, (redone.stateAt 23).scheduler.requests.lookup ⟨1⟩ = some s ∧
      s.lifecycle = .completed ∧ redone.AcceptedWith 23 ⟨1⟩ tokens ∧
      List.Forall₂ (fun result chunk => result.requestId = ⟨1⟩ ∧
          (∃ j < 23, redone.Accepted j result) ∧ Genuine result tokens s.attempt chunk)
        ((redone.successes 23 ⟨1⟩ s.attempt).map (·.1)) s.plan.chunks := by
  have hdone : ∃ s, (redone.stateAt 23).scheduler.requests.lookup ⟨1⟩ = some s ∧
      s.lifecycle = .completed := ⟨_, rfl, by decide +kernel⟩
  obtain ⟨s, hs, hcompleted⟩ := hdone
  obtain ⟨tokens, haccepted, -, hresults⟩ := completed_genuine deployed_redone hs hcompleted
  exact ⟨s, tokens, hs, hcompleted, haccepted, hresults⟩

/-- Though a worker was lost, this was its first attempt. -/
theorem never_fails_redone :
    ∃ s, (redone.stateAt 23).scheduler.requests.lookup ⟨1⟩ = some s ∧ s.retriesUsed = 0 ∧
      s.lifecycle ≠ .failedNonRetryable := by
  have hknown : ∃ s, (redone.stateAt 23).scheduler.requests.lookup ⟨1⟩ = some s := ⟨_, rfl⟩
  obtain ⟨s, hs⟩ := hknown
  refine ⟨s, hs, never_fails deployed_redone (fun conn w h => ?_) hs⟩
  obtain ⟨id, boot, rfl⟩ := redoneCrew_cases h
  exact Worker.reliable_cpu id boot "w"

end Session

end PrefillFabric
