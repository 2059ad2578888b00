import PrefillFabric.Scheduler.Formation
import PrefillFabric.Scheduler.GroupMemory
import PrefillFabric.Scheduler.Ledger

/-!
# Explanations

With every request a scheduler keeps the lines that explain how it got where it is. They are
written for people, here and there in the operations, and nothing in the scheduler reads them.

Two things can be relied on all the same. Read from its first line on, the explanation of a
request says where the request stands: whether it is over and how, which of its chunks is next,
under which attempt, after how many retries, and whether a cancellation is pending
(`Run.replay_trace`). The reading is a strict one (`Progress.read`): there is no line after one
that says the request is over, and no chunk is said to be complete while a cancellation is
pending. And a request that a cycle puts off is told so, with the reason the cycle gives in its
notes (`Life.cycle_accounts`).
-/

namespace PrefillFabric

/-! ### Lines -/

/-- A line of an explanation. -/
inductive Line
  | admitted (remaining : ℕ)
  | fullyCached
  | packed
  | noWorker
  | noMemory
  | advanced
  | completed
  | retried (attempt : ℕ)
  | forced (attempt : ℕ)
  | exhausted
  | failed (message : String)
  | cancelAsked
  | generationCancelAsked
  | cancelledWaiting
  | cancelledAtBoundary
  | cancelled
  | expired (deadline : ℤ)
  | expiredRunning
  | recovered

/-- A line as it is written. -/
def Line.text : Line → String
  | admitted n => "admitted; remaining_prefill=" ++ toString n
  | fullyCached => "fully-cached prompt; no prefill work remains"
  | packed => "packed into group (compatible)"
  | noWorker => "deferred: no compatible worker"
  | noMemory => "deferred: memory unavailable"
  | advanced => "chunk complete; advancing to next chunk"
  | completed => "prefill completed"
  | retried a => "retryable failure; new attempt " ++ toString a
  | forced a => "forced retry; new attempt " ++ toString a
  | exhausted => "retry budget exhausted; non-retryable failure"
  | failed message => "non-retryable failure: " ++ message
  | cancelAsked => "cancel requested; authoritative at next safe chunk boundary"
  | generationCancelAsked => "generation cancel requested; authoritative at chunk boundary"
  | cancelledWaiting => "cancelled while waiting"
  | cancelledAtBoundary => "cancelled at chunk boundary"
  | cancelled => "cancelled"
  | expired d => "expired; deadline=" ++ toString d
  | expiredRunning => "expired during execution"
  | recovered => "recovered after worker loss"

/-- What an explanation says about a request: how it is over, if it is; its next chunk and its
attempt; how often it has been retried; and whether it is to be cancelled. -/
structure Progress where
  ended : Option Lifecycle := none
  chunk : ℕ := 0
  attempt : ℕ
  retries : ℤ := 0
  cancelPending : Bool := false

namespace Progress

/-- Read a line. A request that is over has no further lines, and one that is to be cancelled
completes no chunk. -/
def read (p : Progress) (line : Line) : Option Progress :=
  if p.ended.isSome then none
  else
    match line with
    | .admitted _ => none
    | .packed | .noWorker | .noMemory | .recovered => some p
    | .fullyCached => some { p with ended := some .completed }
    | .advanced =>
      if p.cancelPending then none else some { p with chunk := (p.chunk + 1) % 2 ^ 32 }
    | .completed => if p.cancelPending then none else some { p with ended := some .completed }
    | .retried a | .forced a =>
      some { p with chunk := 0, attempt := a, retries := p.retries + 1 }
    | .exhausted | .failed _ => some { p with ended := some .failedNonRetryable }
    | .cancelAsked | .generationCancelAsked => some { p with cancelPending := true }
    | .cancelledWaiting => some { p with ended := some .cancelled }
    | .cancelledAtBoundary =>
      if p.cancelPending then some { p with ended := some .cancelled, cancelPending := false }
      else none
    | .cancelled => some { p with ended := some .cancelled, cancelPending := false }
    | .expired _ | .expiredRunning => some { p with ended := some .expired }

/-- Read an explanation from its first line on, given the first attempt. -/
def replay (attempt : ℕ) : List Line → Option Progress
  | .admitted _ :: lines => lines.foldlM read { attempt := attempt }
  | _ => none

theorem replay_concat {attempt : ℕ} {lines : List Line} {p p' : Progress}
    (h : replay attempt lines = some p) {line : Line} (hread : p.read line = some p') :
    replay attempt (lines ++ [line]) = some p' := by
  rcases lines with _ | ⟨_ | _, lines⟩
  case cons.admitted =>
    show (lines ++ [line]).foldlM read { attempt := attempt } = some p'
    rw [List.foldlM_append, show lines.foldlM read { attempt := attempt } = some p from h]
    show List.foldlM read p [line] = some p'
    rw [List.foldlM_cons, hread]
    rfl
  all_goals cases h

end Progress

/-! ### Records -/

namespace Rs

variable {s s' : Rs}

/-- Where a request stands, as far as its explanation tells. -/
def progress (s : Rs) : Progress where
  ended := if s.lifecycle.isTerminal then some s.lifecycle else none
  chunk := s.nextChunkIndex
  attempt := s.attempt.value
  retries := s.retriesUsed
  cancelPending := s.cancelPending

/-- The explanation of a request, read from its first line on, says where it stands. -/
def Explained (s : Rs) : Prop :=
  ∃ attempt lines, s.trace = lines.map Line.text ∧ Progress.replay attempt lines = some s.progress

/-- The explanation, and where the request stands going by it. -/
def told (s : Rs) : List String × Progress := (s.trace, s.progress)

theorem Explained.congr (h : s.Explained) (htrace : s'.trace = s.trace)
    (hprogress : s'.progress = s.progress) : s'.Explained := by
  rw [Explained, htrace, hprogress]
  exact h

/-- A line that is written says what has become of the request. -/
theorem Explained.note (h : s.Explained) (line : Line) (htrace : s'.trace = s.trace ++ [line.text])
    (hread : s.progress.read line = some s'.progress) : s'.Explained := by
  obtain ⟨attempt, lines, hlines, hreplay⟩ := h
  refine ⟨attempt, lines ++ [line], ?_, Progress.replay_concat hreplay hread⟩
  rw [htrace, hlines, List.map_append]
  rfl

/-- Where a request stands, but for whether it is over. -/
def progressWith (s : Rs) (ended : Option Lifecycle) : Progress :=
  ⟨ended, s.nextChunkIndex, s.attempt.value, s.retriesUsed, s.cancelPending⟩

theorem progress_of_live (h : s.lifecycle.isTerminal = false) :
    s.progress = s.progressWith none := by
  rw [progress, h]
  rfl

theorem progress_of_over (h : s.lifecycle.isTerminal = true) :
    s.progress = s.progressWith (some s.lifecycle) := by
  rw [progress, h]
  rfl

/-- A line after which the request goes on. -/
theorem Explained.note_live (h : s.Explained) (hlive : s.lifecycle.isTerminal = false) (line : Line)
    (htrace : s'.trace = s.trace ++ [line.text]) (hlive' : s'.lifecycle.isTerminal = false)
    (hread : (s.progressWith none).read line = some (s'.progressWith none)) : s'.Explained :=
  h.note line htrace (by rwa [progress_of_live hlive, progress_of_live hlive'])

/-- A line after which the request is over. -/
theorem Explained.note_over (h : s.Explained) (hlive : s.lifecycle.isTerminal = false) (line : Line)
    (htrace : s'.trace = s.trace ++ [line.text]) (hover : s'.lifecycle.isTerminal = true)
    (hread : (s.progressWith none).read line = some (s'.progressWith (some s'.lifecycle))) :
    s'.Explained :=
  h.note line htrace (by rwa [progress_of_live hlive, progress_of_over hover])

/-- Lines that say nothing new. -/
theorem Explained.aside (h : s.Explained) (hlive : s.lifecycle.isTerminal = false) (line : Line)
    (hline : line ∈ [.packed, .noWorker, .noMemory]) : (s.note line.text).Explained := by
  simp only [List.mem_cons, List.not_mem_nil, or_false] at hline
  rcases hline with rfl | rfl | rfl <;> exact h.note_live hlive _ rfl hlive rfl

theorem Explained.dropReservation (h : s.Explained) : s.dropReservation.Explained := by
  rw [dropReservation_eq]
  exact h.congr rfl rfl

end Rs

namespace Impl

variable {env : Env} {now : Nanoseconds} {σ τ : Impl} {r : RequestId} {s : Rs}

/-- Every request is explained. -/
def Explained (σ : Impl) : Prop := ∀ r s, σ.requests.lookup r = some s → s.Explained

theorem Explained.of_requests_eq (h : σ.Explained) (heq : τ.requests = σ.requests) :
    τ.Explained := by
  intro r s hs
  rw [heq] at hs
  exact h r s hs

theorem Explained.insert (h : σ.Explained) (heq : τ.requests = σ.requests.insert r s)
    (hs : s.Explained) : τ.Explained := by
  intro r' s' hs'
  rw [heq, AList.lookup_insert_eq_ite] at hs'
  split_ifs at hs' with hr
  · obtain rfl := Option.some.inj hs'
    exact hs
  · exact h r' s' hs'

theorem Explained.modify {f : Rs → Rs} (h : σ.Explained)
    (heq : τ.requests = AList.modify r f σ.requests)
    (hf : ∀ s, σ.requests.lookup r = some s → (f s).Explained) : τ.Explained := by
  intro r' s' hs'
  rw [heq, AList.lookup_modify] at hs'
  split_ifs at hs' with hr
  · subst hr
    obtain ⟨s, hs, rfl⟩ := Option.map_eq_some_iff.mp hs'
    exact hf s hs
  · exact h r' s' hs'

/-! ### Submission and control -/

theorem Explained.submitWithTokens (h : σ.Explained) (env : Env) (now : Nanoseconds)
    (req : PrefillRequest) (tokens : List UInt32) :
    (σ.submitWithTokens env now req tokens).1.Explained := by
  rcases submitWithTokens_cases env now req tokens σ with ⟨-, -, hsame⟩ | ⟨-, -, heq⟩
  · exact h.of_requests_eq hsame.requests
  · have hadmitted : (admittedRecord env now req ⟨σ.nextAttemptValue⟩).Explained :=
      ⟨_, [.admitted req.remainingPrefillTokens], rfl, rfl⟩
    rw [heq, admitRequest]
    dsimp only
    split_ifs
    · exact h.insert rfl (hadmitted.note .fullyCached rfl rfl)
    · exact h.insert rfl hadmitted

theorem Explained.cancel (h : σ.Explained) (now : Nanoseconds) (r : RequestId) :
    (σ.cancel now r).1.Explained := by
  rw [Impl.cancel]
  cases hs : σ.requests.lookup r with
  | none => exact h
  | some s =>
    dsimp only
    split_ifs with hover hflight hgroup
    · exact h
    · have hlive := Bool.eq_false_iff.mpr hover
      exact h.insert rfl ((h r s hs).note_live hlive .cancelAsked rfl hlive rfl)
    all_goals
      have hlive := Bool.eq_false_iff.mpr hover
      have hbooks := books_releaseReservation σ s
      rw [Rs.dropReservation_eq]
      generalize σ.releaseReservation s = σ₁ at hbooks
      have hreq := (Prod.mk.inj hbooks).1
      have hcancelled : Rs.Explained { s with
          reservation := .nil
          reservedBytes := if s.reservation.isNil then s.reservedBytes else 0
          lifecycle := .cancelled
          currentGroup := .nil
          trace := s.trace ++ [Line.cancelledWaiting.text] } :=
        (h r s hs).note_over hlive .cancelledWaiting rfl rfl rfl
    · exact h.insert (congrArg (AList.insert r _) hreq) hcancelled
    · refine h.insert (congrArg (AList.insert r _) ?_) hcancelled
      exact ((Prod.mk.inj (books_detachMember _ s.currentGroup r)).1).trans hreq

theorem Explained.cancelGeneration (h : σ.Explained) (r : RequestId) (g : Generation) :
    (σ.cancelGeneration r g).1.Explained := by
  rw [Impl.cancelGeneration]
  cases hs : σ.requests.lookup r with
  | none => exact h
  | some s =>
    dsimp only
    split_ifs with hover
    · exact h
    · have hlive := Bool.eq_false_iff.mpr hover
      exact h.insert rfl ((h r s hs).note_live hlive .generationCancelAsked rfl hlive rfl)
    · exact h

theorem Explained.retryWithinBudget (h : σ.Explained) (hs : s.Explained)
    (hlive : s.lifecycle.isTerminal = false) (env : Env) (now : Nanoseconds) (r : RequestId) :
    (σ.retryWithinBudget env now r s).1.Explained := by
  rw [Impl.retryWithinBudget]
  split_ifs
  · exact h
  · exact h.insert rfl (hs.note_live hlive (.forced σ.nextAttemptValue) rfl rfl rfl)

theorem Explained.forceRetry (h : σ.Explained) (env : Env) (now : Nanoseconds) (r : RequestId) :
    (σ.forceRetry env now r).1.Explained := by
  rw [Impl.forceRetry]
  cases hs : σ.requests.lookup r with
  | none => exact h
  | some s =>
    dsimp only
    split_ifs with hover hflight
    · exact h
    · have hlive := Bool.eq_false_iff.mpr hover
      have hwithdrawn : s.withdrawn.Explained := by
        rw [Rs.withdrawn]
        exact (h r s hs).dropReservation.congr rfl rfl
      have hreq : (σ.withdraw r s).requests = σ.requests.insert r s.withdrawn := by
        have hbooks := books_releaseReservation σ s
        rw [withdraw]
        generalize σ.releaseReservation s = σ₁ at hbooks
        rw [← (Prod.mk.inj hbooks).1]
        cases σ₁.groups.lookup s.currentGroup with
        | none => rfl
        | some gs =>
          dsimp only
          split_ifs <;> rfl
      refine (h.insert hreq hwithdrawn).retryWithinBudget hwithdrawn ?_ env now r
      rw [Rs.withdrawn, Rs.dropReservation_eq]
      exact hlive
    · exact h.retryWithinBudget (h r s hs) (Bool.eq_false_iff.mpr hover) env now r

/-! ### Losing a worker -/

theorem Explained.recoverMember (h : σ.Explained) (now : Nanoseconds) (r : RequestId) :
    (σ.recoverMember now r).Explained := by
  rw [Impl.recoverMember]
  cases hs : σ.requests.lookup r with
  | none => exact h
  | some s =>
    dsimp only
    split_ifs with hflight
    · have hlive : s.lifecycle.isTerminal = false := by
        rw [hflight.2]
        rfl
      have hreq := (Prod.mk.inj (books_releaseReservation σ s)).1
      rw [Rs.dropReservation_eq]
      exact h.insert (congrArg (AList.insert r _) hreq)
        ((h r s hs).note_live hlive .recovered rfl rfl rfl)
    · exact h

theorem Explained.loseGroup (h : σ.Explained) (now : Nanoseconds) (w : WorkerId) (gid : GroupId) :
    (σ.loseGroup now w gid).Explained := by
  rw [Impl.loseGroup]
  cases σ.groups.lookup gid with
  | none => exact h
  | some gs =>
    dsimp only
    split_ifs
    · exact Explained.of_requests_eq
        (List.foldlRecOn gs.outstanding _ h fun _ hσ r _ => hσ.recoverMember now r) rfl
    · exact h

theorem Explained.workerLost (h : σ.Explained) (now : Nanoseconds) (w : WorkerId) :
    (σ.workerLost now w).Explained :=
  Explained.of_requests_eq
    (List.foldlRecOn σ.groups.keys _ h fun _ hσ gid _ => hσ.loseGroup now w gid) rfl

/-! ### Completions -/

theorem Explained.settleSuccess (hs : s.Explained) (hlive : s.lifecycle.isTerminal = false)
    (now : Nanoseconds) (σ : Impl) : (Impl.settleSuccess now s σ).2.Explained := by
  rw [Impl.settleSuccess]
  split_ifs with hcancel
  · refine hs.note_over hlive .cancelledAtBoundary rfl rfl ?_
    rw [Progress.read]
    exact if_pos hcancel
  · refine hs.note_live hlive .advanced rfl rfl ?_
    rw [Progress.read]
    exact if_neg hcancel
  · refine hs.note_over hlive .completed rfl rfl ?_
    rw [Progress.read]
    exact if_neg hcancel

theorem Explained.settleOutcome (hs : s.Explained) (hlive : s.lifecycle.isTerminal = false)
    (env : Env) (now : Nanoseconds) (result : MemberResult) (σ : Impl) :
    (Impl.settleOutcome env now result s σ).2.Explained := by
  rw [Impl.settleOutcome]
  cases result.outcome with
  | staleRejected => exact hs
  | success | needsNextChunk => exact settleSuccess hs hlive now σ
  | nonRetryableFailure => exact hs.note_over hlive (.failed result.message) rfl rfl rfl
  | cancelled => exact hs.note_over hlive .cancelled rfl rfl rfl
  | expired => exact hs.note_over hlive .expiredRunning rfl rfl rfl
  | retryableFailure =>
    dsimp only
    split_ifs
    · exact hs.note_live hlive (.retried σ.nextAttemptValue) rfl rfl rfl
    · exact hs.note_over hlive .exhausted rfl rfl rfl

theorem Explained.reportCompletion (h : σ.Explained) (env : Env) (now : Nanoseconds)
    (result : MemberResult) : (σ.reportCompletion env now result).1.Explained := by
  rw [Impl.reportCompletion]
  cases hcheck : σ.checkAuthority result with
  | error why =>
    refine h.of_requests_eq ?_
    cases why <;> rfl
  | ok s =>
    obtain ⟨hs, haccepts⟩ := accepts_of_checkAuthority hcheck
    have hlive : s.lifecycle.isTerminal = false := haccepts.lifecycle
    dsimp only
    rw [applyCompletion_eq]
    have hlanded : (s.landed env).Explained := (h _ s hs).congr rfl rfl
    have hsettled := Explained.settleOutcome hlanded hlive env now result (σ.accounted now s)
    have hreq := (settles_settleOutcome env now result (s := s.landed env) hlive
      (σ.accounted now s)).requests
    generalize Impl.settleOutcome env now result (s.landed env) (σ.accounted now s) = out
      at hsettled hreq
    have hput := (putAway_spec result.requestId out).1
    rw [hreq] at hput
    exact h.insert hput (hsettled.dropReservation.congr rfl rfl)

/-! ### The cycle -/

theorem Explained.expireRequest (h : σ.Explained) (hs : σ.requests.lookup r = some s)
    (hlive : s.lifecycle.isTerminal = false) (now : Nanoseconds) :
    (σ.expireRequest now r s).Explained := by
  have hbooks := (books_releaseReservation _ s).trans
    (books_ite (p := s.inFlight = true)
      (books_detachMember σ s.currentGroup s.request.requestId) rfl)
  rw [Impl.expireRequest, Rs.dropReservation_eq]
  dsimp only
  generalize (if s.inFlight = true then σ.detachMember s.currentGroup s.request.requestId
    else σ).releaseReservation s = σ₁ at hbooks
  exact h.insert (congrArg (AList.insert r _) (Prod.mk.inj hbooks).1)
    ((h r s hs).note_over hlive (.expired (s.request.deadline.getD 0)) rfl rfl rfl)

theorem Explained.sweepRequest (h : σ.Explained) (now : Nanoseconds) (r : RequestId) :
    (σ.sweepRequest now r).Explained := by
  by_cases hover : σ.Overdue now r
  · obtain ⟨s, k, hs, hlive, heq⟩ := exists_sweepRequest_eq hover
    rw [heq]
    exact (h.of_requests_eq (τ := σ.count _) rfl).expireRequest hs hlive now
  · rw [sweepRequest_of_not_overdue hover]
    exact h

theorem Explained.formGroups (h : σ.Explained) (env : Env) (cands : List RequestId) :
    (Impl.formGroups env cands σ).1.Explained := by
  refine List.foldlRecOn (motive := fun acc : Impl × List ExecutionGroup => acc.1.Explained) cands
    (placeCandidate env) h fun acc hacc rid _ => ?_
  rw [placeCandidate]
  cases hs : acc.1.requests.lookup rid with
  | none => exact hacc
  | some s =>
    dsimp only
    split_ifs with hwait
    · exact hacc
    · cases packInto env rid s acc.2 with
      | none => exact hacc.of_requests_eq rfl
      | some groups =>
        refine hacc.modify rfl fun s' hs' => ?_
        obtain rfl := Option.some.inj (hs.symm.trans hs')
        have hlive : s.lifecycle.isTerminal = false := by
          rw [Bool.not_eq_true, Bool.not_eq_false'] at hwait
          rw [(Rs.isWaiting_iff.mp hwait).1]
          rfl
        exact (hacc rid s hs).aside hlive .packed (by simp)

/-- Requests that wait are told why they are put off. -/
theorem Explained.noteAll {rids : List RequestId} (h : σ.Explained)
    (hlive : ∀ r ∈ rids, ∀ s, σ.requests.lookup r = some s → s.lifecycle.isTerminal = false)
    (line : Line) (hline : line ∈ [.packed, .noWorker, .noMemory]) :
    (σ.noteAll rids line.text).Explained := by
  induction rids generalizing σ with
  | nil => exact h
  | cons r rids ih =>
    refine ih
      (h.modify rfl fun s hs => (h r s hs).aside (hlive r List.mem_cons_self s hs) line hline)
      fun r' hr' s hs => ?_
    rw [show (σ.noteRequest r line.text).requests = AList.modify r (·.note line.text) σ.requests
      from rfl, AList.lookup_modify] at hs
    split_ifs at hs with hrr
    · obtain ⟨t, ht, rfl⟩ := Option.map_eq_some_iff.mp hs
      exact hlive r List.mem_cons_self t ht
    · exact hlive r' (List.mem_cons_of_mem r hr') s hs

/-- The explanations, and where the requests stand going by them, are the same. -/
def TellsAs (σ τ : Impl) : Prop :=
  ∀ r, (τ.requests.lookup r).map Rs.told = (σ.requests.lookup r).map Rs.told

namespace TellsAs

variable {ρ : Impl}

theorem trans (h : σ.TellsAs τ) (h' : τ.TellsAs ρ) : σ.TellsAs ρ := fun r => (h' r).trans (h r)

theorem explained (h : σ.TellsAs τ) (hσ : σ.Explained) : τ.Explained := by
  intro r s hs
  have htold := h r
  rw [hs] at htold
  obtain ⟨t, ht, heq⟩ := Option.map_eq_some_iff.mp htold.symm
  obtain ⟨htrace, hprogress⟩ := Prod.mk.inj heq
  exact (hσ r t ht).congr htrace.symm hprogress.symm

theorem live (h : σ.TellsAs τ)
    (hs : ∃ s, σ.requests.lookup r = some s ∧ s.lifecycle.isTerminal = false) :
    ∃ s, τ.requests.lookup r = some s ∧ s.lifecycle.isTerminal = false := by
  obtain ⟨s, hs, hlive⟩ := hs
  have htold := h r
  rw [hs] at htold
  obtain ⟨t, ht, heq⟩ := Option.map_eq_some_iff.mp htold
  refine ⟨t, ht, ?_⟩
  have hended := congrArg Progress.ended (Prod.mk.inj heq).2
  rw [Rs.progress_of_live hlive] at hended
  by_contra hover
  rw [Bool.not_eq_false] at hover
  rw [Rs.progress_of_over hover] at hended
  cases hended

theorem setRequest {s' : Rs} (hs : σ.requests.lookup r = some s) (h : s'.told = s.told) :
    σ.TellsAs (σ.setRequest r s') := by
  intro r'
  rw [Impl.setRequest, AList.lookup_insert_eq_ite]
  split_ifs with hr
  · rw [hr, hs, Option.map_some, Option.map_some, h]
  · rfl

theorem reserveMembers (rids : List RequestId) (σ : Impl)
    (hlive : ∀ r ∈ rids, ∃ s, σ.requests.lookup r = some s ∧ s.lifecycle.isTerminal = false) :
    σ.TellsAs (Impl.reserveMembers rids σ).1 := by
  induction rids generalizing σ with
  | nil => exact fun _ => rfl
  | cons r rids ih =>
    obtain ⟨s, hs, -⟩ := hlive r List.mem_cons_self
    rw [Impl.reserveMembers, hs]
    dsimp only
    split_ifs
    · have hset : σ.TellsAs (Impl.setRequest _ r { s with
          reservation := ⟨σ.nextReservationValue⟩
          reservedBytes := s.nextChunk.memoryEstimateBytes.toNat }) := setRequest hs rfl
      exact hset.trans (ih _ fun x hx => hset.live (hlive x (List.mem_cons_of_mem r hx)))
    · exact fun _ => rfl

theorem undoReservations (ps : List (ReservationId × RequestId)) (σ : Impl) :
    σ.TellsAs (ps.foldl undoReservation σ) := by
  induction ps generalizing σ with
  | nil => exact fun _ => rfl
  | cons p ps ih =>
    have hundo : σ.TellsAs (σ.undoReservation p) := fun r =>
      AList.map_lookup_modify σ.requests p.2 r
        (f := fun s => { s with reservation := .nil, reservedBytes := 0 }) (g := Rs.told)
        fun _ => rfl
    exact hundo.trans (ih _)

theorem commitMembers (now : Nanoseconds) (gid : GroupId) (w : WorkerId)
    (ms : List ExecutableMember) (σ : Impl) (hlive : ∀ m ∈ ms, ∃ s,
      σ.requests.lookup m.requestId = some s ∧ s.lifecycle.isTerminal = false) :
    σ.TellsAs (Impl.commitMembers now gid w ms σ).1 := by
  induction ms generalizing σ with
  | nil => exact fun _ => rfl
  | cons m ms ih =>
    obtain ⟨s, hs, hs'⟩ := hlive m List.mem_cons_self
    have hlaunched : (s.launched now gid w ⟨σ.nextGenerationValue⟩).told = s.told := by
      rw [Rs.told, Rs.told, Rs.progress_of_live hs']
      rfl
    have hcommit : σ.TellsAs (σ.commitMember now gid w m) := by
      rw [commitMember, hs]
      exact setRequest hs hlaunched
    exact hcommit.trans (ih _ fun x hx => hcommit.live (hlive x (List.mem_cons_of_mem m hx)))

theorem ageWaiting (σ : Impl) : σ.TellsAs σ.ageWaiting := by
  have hfold : ∀ (rs : List RequestId) (σ : Impl), σ.TellsAs (rs.foldl ageRequest σ) := by
    intro rs
    induction rs with
    | nil => exact fun _ _ => rfl
    | cons r rs ih =>
      refine fun σ => trans (fun r' => AList.map_lookup_modify σ.requests r r' fun s => ?_) (ih _)
      split_ifs <;> rfl
  exact hfold _ σ

end TellsAs

theorem live_of_formed {g : ExecutionGroup} {gs : List ExecutionGroup}
    (hformed : σ.view.Formed (g :: gs)) :
    ∀ r ∈ g.rids, ∃ s, σ.requests.lookup r = some s ∧ s.lifecycle.isTerminal = false := by
  intro r hr
  obtain ⟨s, hs, hwait⟩ := exists_isWaiting_of_formed hformed List.mem_cons_self r hr
  refine ⟨s, hs, ?_⟩
  rw [(Rs.isWaiting_iff.mp hwait).1]
  rfl

theorem Explained.noteAll_of_live {rids : List RequestId} (h : σ.Explained)
    (hlive : ∀ r ∈ rids, ∃ s, σ.requests.lookup r = some s ∧ s.lifecycle.isTerminal = false)
    (line : Line) (hline : line ∈ [.packed, .noWorker, .noMemory]) :
    (σ.noteAll rids line.text).Explained := by
  refine h.noteAll (fun r hr s hs => ?_) line hline
  obtain ⟨t, ht, hlive⟩ := hlive r hr
  obtain rfl := Option.some.inj (hs.symm.trans ht)
  exact hlive

theorem Explained.dispatchGroup {acc : Impl × DispatchBatch} {g : ExecutionGroup}
    (h : acc.1.Explained) (now : Nanoseconds) (hlive : ∀ r ∈ g.rids, ∃ s,
      acc.1.requests.lookup r = some s ∧ s.lifecycle.isTerminal = false) :
    (Impl.dispatchGroup now acc g).1.Explained := by
  obtain ⟨σ, batch⟩ := acc
  have hreserve := TellsAs.reserveMembers g.rids σ hlive
  rw [Impl.dispatchGroup]
  split_ifs
  · exact h
  cases chooseWorker g.backend σ with
  | none => exact h.noteAll_of_live hlive .noWorker (by simp)
  | some w =>
    dsimp only
    generalize Impl.reserveMembers g.rids σ = reserved at hreserve
    split_ifs
    · have hcommit := TellsAs.commitMembers now g.groupId w g.members reserved.1 fun m hm =>
        hreserve.live (hlive m.requestId (List.mem_map_of_mem hm))
      exact Explained.of_requests_eq ((hreserve.trans hcommit).explained h) rfl
    · have hundo := hreserve.trans (TellsAs.undoReservations reserved.2.1 reserved.1)
      exact (hundo.explained h).noteAll_of_live (fun r hr => hundo.live (hlive r hr))
        .noMemory (by simp)

theorem Explained.foldl_dispatchGroup (env : Env) (now : Nanoseconds) (gs : List ExecutionGroup)
    {acc : Impl × DispatchBatch} (h : acc.1.Explained) (hwf : acc.1.view.Wf)
    (hformed : acc.1.view.Formed gs) : (gs.foldl (Impl.dispatchGroup now) acc).1.Explained := by
  induction gs generalizing acc with
  | nil => exact h
  | cons g gs ih =>
    obtain ⟨ms, heffects, -, hrest⟩ := dispatchGroup_spec env now hwf hformed
    exact ih (h.dispatchGroup now (live_of_formed hformed)) (heffects.wf hwf) hrest

theorem Explained.runCycle (h : σ.Explained) (hwf : σ.view.Wf) (env : Env) (now : Nanoseconds) :
    (σ.runCycle env now).1.Explained := by
  have hsweep : (σ.expirySweep now).Explained :=
    List.foldlRecOn σ.requests.keys _ h fun _ hσ r _ => hσ.sweepRequest now r
  have hwf' := (effects_expirySweep env now σ hwf).wf hwf
  obtain ⟨hidle, hformed⟩ := formGroups_spec env hwf'
    (nodup_sortedCandidates env now (σ.expirySweep now))
  have hform := hsweep.formGroups env ((σ.expirySweep now).sortedCandidates env now)
  have hidle' : Effect env _ .idle _ := Effect.idle hidle
  have hdispatch : (σ.tried env now (σ.formed env now)).1.Explained :=
    hform.foldl_dispatchGroup env now (σ.formed env now) (hidle'.wf hwf') hformed
  rw [runCycle_eq_tried]
  generalize σ.tried env now (σ.formed env now) = done at hdispatch
  exact Explained.of_requests_eq ((TellsAs.ageWaiting done.1).explained hdispatch) rfl

theorem Explained.step (h : σ.Explained) (hwf : σ.view.Wf) (env : Env) (c : Call) :
    (σ.step env c).1.Explained := by
  obtain ⟨now, op⟩ := c
  cases op with
  | submitWithTokens req tokens => exact h.submitWithTokens env now req tokens
  | runCycle =>
    rw [step_runCycle]
    exact h.runCycle hwf env now
  | reportCompletion result => exact h.reportCompletion env now result
  | cancel r => exact h.cancel now r
  | cancelGeneration r g => exact h.cancelGeneration r g
  | forceRetry r => exact h.forceRetry env now r
  | registerWorker w =>
    refine h.of_requests_eq ?_
    show ((σ.registerWorker now w).1).requests = σ.requests
    rw [registerWorker]
    split <;> rfl
  | unregisterWorker w =>
    refine h.of_requests_eq ?_
    show ((σ.unregisterWorker now w).1).requests = σ.requests
    rw [unregisterWorker]
    cases σ.workers.lookup w <;> rfl
  | workerLost w => exact h.workerLost now w
  | rollEpoch => exact h.of_requests_eq rfl
  | attachExecutor ex backend =>
    refine h.of_requests_eq ?_
    show (σ.attachExecutor ex backend).requests = σ.requests
    rw [attachExecutor]
    cases σ.workers.lookup .nil <;> rfl

end Impl

/-- Why a cycle puts a group off. -/
inductive Deferral
  | noWorker
  | noMemory

/-- What the requests of the group are told. -/
def Deferral.line : Deferral → Line
  | noWorker => .noWorker
  | noMemory => .noMemory

/-- What the cycle notes. -/
def Deferral.note : Deferral → String
  | noWorker => "no compatible worker available; deferred"
  | noMemory => "memory reservation failed; group deferred"

namespace Impl

variable {env : Env} {now : Nanoseconds} {σ : Impl} {r : RequestId} {rids : List RequestId}

theorem lookup_noteAll_of_not_mem (line : String) (hr : r ∉ rids) (σ : Impl) :
    (σ.noteAll rids line).requests.lookup r = σ.requests.lookup r := by
  induction rids generalizing σ with
  | nil => rfl
  | cons x rids ih =>
    obtain ⟨hx, hr⟩ := List.ne_and_not_mem_of_not_mem_cons hr
    refine (ih hr (σ.noteRequest x line)).trans ?_
    exact (AList.lookup_modify σ.requests x r _).trans (if_neg hx)

theorem lookup_noteAll_of_mem (line : String) (hnodup : rids.Nodup) (hr : r ∈ rids) {σ : Impl}
    {s : Rs} (hs : σ.requests.lookup r = some s) :
    (σ.noteAll rids line).requests.lookup r = some (s.note line) := by
  induction rids generalizing σ with
  | nil => exact absurd hr List.not_mem_nil
  | cons x rids ih =>
    obtain ⟨hx, hnodup⟩ := List.nodup_cons.mp hnodup
    have hlookup := AList.lookup_modify σ.requests x r (·.note line)
    rcases List.mem_cons.mp hr with rfl | hr
    · rw [if_pos rfl, hs] at hlookup
      exact (lookup_noteAll_of_not_mem line hx (σ.noteRequest r line)).trans hlookup
    · rw [if_neg (ne_of_mem_of_not_mem hr hx), hs] at hlookup
      exact ih hnodup hr hlookup

theorem lookup_reserveMembers_of_not_mem (hr : r ∉ rids) (σ : Impl) :
    (reserveMembers rids σ).1.requests.lookup r = σ.requests.lookup r ∧
      ∀ p ∈ (reserveMembers rids σ).2.1, p.2 ≠ r := by
  induction rids generalizing σ with
  | nil => exact ⟨rfl, List.forall_mem_nil _⟩
  | cons x rids ih =>
    obtain ⟨hx, hr⟩ := List.ne_and_not_mem_of_not_mem_cons hr
    rw [reserveMembers]
    dsimp only
    split_ifs
    · obtain ⟨hlookup, hps⟩ := ih hr (Impl.setRequest _ x _)
      exact ⟨hlookup.trans (AList.lookup_insert_ne hx), List.forall_mem_cons.mpr ⟨Ne.symm hx, hps⟩⟩
    · exact ⟨rfl, List.forall_mem_nil _⟩

theorem lookup_undoReservations_of_ne {ps : List (ReservationId × RequestId)}
    (hps : ∀ p ∈ ps, p.2 ≠ r) (σ : Impl) :
    (ps.foldl undoReservation σ).requests.lookup r = σ.requests.lookup r := by
  induction ps generalizing σ with
  | nil => rfl
  | cons p ps ih =>
    obtain ⟨hp, hps⟩ := List.forall_mem_cons.mp hps
    refine (ih hps (σ.undoReservation p)).trans ?_
    exact (AList.lookup_modify σ.requests p.2 r _).trans (if_neg (Ne.symm hp))

theorem lookup_commitMembers_of_ne {ms : List ExecutableMember} (hms : ∀ m ∈ ms, m.requestId ≠ r)
    (now : Nanoseconds) (gid : GroupId) (w : WorkerId) (σ : Impl) :
    (commitMembers now gid w ms σ).1.requests.lookup r = σ.requests.lookup r := by
  induction ms generalizing σ with
  | nil => rfl
  | cons m ms ih =>
    obtain ⟨hm, hms⟩ := List.forall_mem_cons.mp hms
    exact (ih hms (σ.commitMember now gid w m)).trans (AList.lookup_insert_ne (Ne.symm hm))

/-- Whoever is not in a group is not concerned when it is tried. -/
theorem lookup_dispatchGroup_of_not_mem {g : ExecutionGroup} (hr : r ∉ g.rids)
    (acc : Impl × DispatchBatch) :
    (dispatchGroup now acc g).1.requests.lookup r = acc.1.requests.lookup r := by
  obtain ⟨σ, batch⟩ := acc
  obtain ⟨hreserve, hps⟩ := lookup_reserveMembers_of_not_mem hr σ
  rw [dispatchGroup]
  split_ifs
  · rfl
  cases chooseWorker g.backend σ with
  | none => exact lookup_noteAll_of_not_mem _ hr σ
  | some w =>
    dsimp only
    generalize reserveMembers g.rids σ = reserved at hreserve hps
    split_ifs
    · refine (lookup_commitMembers_of_ne (fun m hm hmr => hr ?_) now g.groupId w reserved.1).trans
        hreserve
      exact List.mem_map.mpr ⟨m, hm, hmr⟩
    · refine (lookup_noteAll_of_not_mem _ hr _).trans ?_
      exact (lookup_undoReservations_of_ne hps reserved.1).trans hreserve

/-- What is noted stays noted. -/
theorem notes_dispatchGroup (now : Nanoseconds) (acc : Impl × DispatchBatch) (g : ExecutionGroup) :
    acc.2.notes <+: (dispatchGroup now acc g).2.notes := by
  obtain ⟨σ, batch⟩ := acc
  rw [dispatchGroup]
  split_ifs
  · exact List.prefix_refl _
  cases chooseWorker g.backend σ with
  | none => exact List.prefix_append _ _
  | some w =>
    dsimp only
    split_ifs
    · exact List.prefix_refl _
    · exact List.prefix_append _ _

/-- **Trying a group** hands it out with all its requests, or puts it off: its requests are told
why, and so is the caller. -/
theorem dispatchGroup_or_deferred {g : ExecutionGroup} (hne : g.members ≠ [])
    (hnodup : g.rids.Nodup) {acc : Impl × DispatchBatch} (hlive : ∀ r ∈ g.rids, ∃ s,
      acc.1.requests.lookup r = some s ∧ s.lifecycle.isTerminal = false) (now : Nanoseconds) :
    (∃ d ∈ (dispatchGroup now acc g).2.groups, d.group.rids = g.rids) ∨
    ∃ why : Deferral, why.note ∈ (dispatchGroup now acc g).2.notes ∧
      ∀ r ∈ g.rids, ∃ s, (dispatchGroup now acc g).1.requests.lookup r = some s ∧
        s.trace.getLast? = some why.line.text := by
  obtain ⟨σ, batch⟩ := acc
  have hnote : ∀ (τ : Impl) (line : Line), (∀ r ∈ g.rids, ∃ s, τ.requests.lookup r = some s ∧
      s.lifecycle.isTerminal = false) → ∀ r ∈ g.rids, ∃ s,
        (τ.noteAll g.rids line.text).requests.lookup r = some s ∧
          s.trace.getLast? = some line.text := by
    intro τ line hτ r hr
    obtain ⟨s, hs, -⟩ := hτ r hr
    exact ⟨_, lookup_noteAll_of_mem line.text hnodup hr hs, List.getLast?_concat⟩
  have hreserve := TellsAs.reserveMembers g.rids σ hlive
  rw [dispatchGroup, if_neg (by rwa [List.isEmpty_iff])]
  cases chooseWorker g.backend σ with
  | none =>
    exact Or.inr ⟨.noWorker, List.mem_append_right _ (List.mem_singleton_self _),
      hnote σ .noWorker hlive⟩
  | some w =>
    dsimp only
    generalize reserveMembers g.rids σ = reserved at hreserve
    split_ifs
    · obtain ⟨d, hgroups, hplain, -⟩ := groups_commitGroup now w g batch reserved.1
      refine Or.inl ⟨d, ?_, ExecutionGroup.rids_eq hplain⟩
      rw [hgroups]
      exact List.mem_append_right _ (List.mem_singleton_self d)
    · have hundo := hreserve.trans (TellsAs.undoReservations reserved.2.1 reserved.1)
      exact Or.inr ⟨.noMemory, List.mem_append_right _ (List.mem_singleton_self _),
        hnote _ .noMemory fun r hr => hundo.live (hlive r hr)⟩

/-- Each group that is tried is one more in the batch, or one more note. -/
theorem length_foldl_dispatchGroup (now : Nanoseconds) {gs : List ExecutionGroup}
    (hne : ∀ g ∈ gs, g.members ≠ []) (acc : Impl × DispatchBatch) :
    (gs.foldl (dispatchGroup now) acc).2.groups.length +
        (gs.foldl (dispatchGroup now) acc).2.notes.length =
      acc.2.groups.length + acc.2.notes.length + gs.length := by
  induction gs generalizing acc with
  | nil => rfl
  | cons g gs ih =>
    obtain ⟨hg, hgs⟩ := List.forall_mem_cons.mp hne
    have hone : (dispatchGroup now acc g).2.groups.length +
        (dispatchGroup now acc g).2.notes.length =
          acc.2.groups.length + acc.2.notes.length + 1 := by
      obtain ⟨σ, batch⟩ := acc
      rw [dispatchGroup, if_neg (by rwa [List.isEmpty_iff])]
      cases chooseWorker g.backend σ with
      | none =>
        show batch.groups.length + (batch.notes ++ [_]).length = _
        rw [List.length_append, List.length_singleton, Nat.add_assoc]
      | some w =>
        dsimp only
        split_ifs
        · show (batch.groups ++ [_]).length + batch.notes.length = _
          rw [List.length_append, List.length_singleton, Nat.add_right_comm]
        · show batch.groups.length + (batch.notes ++ [_]).length = _
          rw [List.length_append, List.length_singleton, Nat.add_assoc]
    rw [List.foldl_cons, ih hgs, hone, List.length_cons]
    omega

theorem notes_foldl_dispatchGroup (now : Nanoseconds) (gs : List ExecutionGroup)
    (acc : Impl × DispatchBatch) : acc.2.notes <+: (gs.foldl (dispatchGroup now) acc).2.notes := by
  induction gs generalizing acc with
  | nil => exact List.prefix_refl _
  | cons g gs ih => exact (notes_dispatchGroup now acc g).trans (ih _)

theorem lookup_foldl_dispatchGroup_of_not_mem {gs : List ExecutionGroup}
    (hr : ∀ g ∈ gs, r ∉ g.rids) (acc : Impl × DispatchBatch) :
    (gs.foldl (dispatchGroup now) acc).1.requests.lookup r = acc.1.requests.lookup r := by
  induction gs generalizing acc with
  | nil => rfl
  | cons g gs ih =>
    obtain ⟨hg, hgs⟩ := List.forall_mem_cons.mp hr
    exact (ih hgs _).trans (lookup_dispatchGroup_of_not_mem hg acc)

/-- **A cycle leaves no request without an answer.** Whoever waits once the overdue are expired is
in one of the groups of the batch; or the last line of its explanation is the reason why it is put
off, and the reason is among the notes of the batch. -/
theorem dispatched_or_deferred (hwf : σ.view.Wf)
    (hr : r ∈ (σ.expirySweep now).sortedCandidates env now) :
    (∃ d ∈ (σ.runCycle env now).2.groups, r ∈ d.group.rids) ∨
    ∃ why : Deferral, why.note ∈ (σ.runCycle env now).2.notes ∧
      ∃ s, (σ.runCycle env now).1.requests.lookup r = some s ∧
        s.trace.getLast? = some why.line.text := by
  obtain ⟨g, hg, hrg⟩ := List.mem_flatMap.mp ((packed_formed env now σ).perm.mem_iff.mpr hr)
  obtain ⟨before, after, hsplit⟩ := List.append_of_mem hg
  obtain ⟨hwf', hformed, -⟩ := tried_spec hwf hsplit
  have hformed₀ : (σ.tried env now before).1.view.Formed ([] ++ g :: after) := hformed
  have hafter := (not_mem_rids_of_split hformed₀ hrg).2
  have hnodup : g.rids.Nodup := by
    have hall := hformed.nodup
    rw [List.flatMap_cons] at hall
    exact (List.nodup_append.mp hall).1
  rw [runCycle_eq_tried, hsplit, tried_append, List.foldl_cons]
  rcases dispatchGroup_or_deferred (hformed.ne_nil g List.mem_cons_self) hnodup
    (live_of_formed hformed) now with ⟨d, hd, hrids⟩ | ⟨why, hnote, hwhy⟩
  · refine Or.inl ⟨d, mem_groups_foldl after hd, ?_⟩
    rw [hrids]
    exact hrg
  · obtain ⟨s, hs, hlast⟩ := hwhy r hrg
    refine Or.inr ⟨why, (notes_foldl_dispatchGroup now after _).subset hnote, ?_⟩
    have hlookup : (after.foldl (dispatchGroup now) (dispatchGroup now (σ.tried env now before)
        g)).1.requests.lookup r = some s :=
      (lookup_foldl_dispatchGroup_of_not_mem hafter _).trans hs
    generalize after.foldl (dispatchGroup now) _ = done at hlookup
    have hage := TellsAs.ageWaiting done.1 r
    rw [hlookup] at hage
    obtain ⟨s', hs', htold⟩ := Option.map_eq_some_iff.mp hage
    refine ⟨s', hs', ?_⟩
    rw [(Prod.mk.inj htold).1]
    exact hlast

theorem members_ne_nil_of_mem_formed (hwf : σ.view.Wf) :
    ∀ g ∈ σ.formed env now, g.members ≠ [] :=
  (formGroups_spec env ((effects_expirySweep env now σ hwf).wf hwf)
    (nodup_sortedCandidates env now (σ.expirySweep now))).2.ne_nil

end Impl

/-- **A cycle accounts for every request that waits.** In every state a scheduler can be in, once
the overdue are expired: the groups that are formed are a partition of the requests that wait, in
the order of service; each of them is in the batch or has a note there; and a request that is not
in a group of the batch is told why, by the last line of its explanation, and the reason is noted
in the batch. -/
theorem Life.cycle_accounts (ℓ : Life) (n : ℕ) (now : Nanoseconds) :
    Packed (((ℓ.stateAt n).expirySweep now).sortedCandidates ℓ.env now)
        ((ℓ.stateAt n).formed ℓ.env now) ∧
      ((ℓ.stateAt n).runCycle ℓ.env now).2.groups.length +
          ((ℓ.stateAt n).runCycle ℓ.env now).2.notes.length =
        ((ℓ.stateAt n).formed ℓ.env now).length ∧
      ∀ r ∈ ((ℓ.stateAt n).expirySweep now).sortedCandidates ℓ.env now,
        (∃ d ∈ ((ℓ.stateAt n).runCycle ℓ.env now).2.groups, r ∈ d.group.rids) ∨
        ∃ why : Deferral, why.note ∈ ((ℓ.stateAt n).runCycle ℓ.env now).2.notes ∧
          ∃ s, ((ℓ.stateAt n).runCycle ℓ.env now).1.requests.lookup r = some s ∧
            s.trace.getLast? = some why.line.text := by
  refine ⟨Impl.packed_formed .., ?_, fun r hr => Impl.dispatched_or_deferred (ℓ.wf n) hr⟩
  rw [Impl.runCycle_eq_tried]
  refine (Impl.length_foldl_dispatchGroup now (Impl.members_ne_nil_of_mem_formed (ℓ.wf n)) _).trans
    ?_
  exact Nat.zero_add _

end PrefillFabric
