import PrefillFabric.Scheduler.Ledger

/-!
# The journal of a scheduler

Beside its tables a scheduler keeps a journal: the statistics, the event stream and the
tokens of the prompts. The operations write to all three, and never read the first two.
What they write is cut here into entries (`Entry`); an entry says which counters move,
which event is recorded and which tokens are registered, so that what an operation does
to the journal is the list of the entries it makes (`Impl.Enters`).

For each operation that list is given outright: a cycle makes entries for what it
expires, then for each group it hands out one entry a member and one for the group, and
brings the queue depth up to date; an accepted completion makes one entry for the chunk
that landed, at most one for what became of its request, and brings the remaining tokens
up to date. Whatever the journal says about a run is then a sum, or a filter, over its
entries.
-/

namespace PrefillFabric

/-- What a scheduler writes down beside its tables. -/
@[ext] structure Journal where
  stats : Stats
  events : EventLog
  tokens : InMemoryTokenResolver

/-- One entry in the journal. -/
inductive Entry
  /-- The tokens of a prompt are registered. -/
  | registered (r : RequestId) (tokens : List UInt32)
  /-- A submission is turned down for lack of capacity. -/
  | rejected
  /-- A request is admitted under its first attempt. -/
  | admitted (now : Nanoseconds) (req : PrefillRequest) (a : AttemptId)
  /-- The sweep expires a request, for its deadline or for the time it has waited. -/
  | expired (now : Nanoseconds) (r : RequestId) (a : AttemptId) (delayed : Bool)
  /-- A member is handed out; the time its request has waited, if it is the first. -/
  | launched (tokens : ℕ) (wait : Option Nanoseconds)
  /-- A group is handed out. -/
  | formed (size : ℕ)
  /-- The figures of the queue are brought up to date. -/
  | refreshed (depth waiting : ℕ) (left : UInt64)
  /-- A completion is refused. -/
  | refused (now : Nanoseconds) (result : MemberResult) (why : Refusal)
  /-- A completion is accepted. -/
  | landed (tokens : ℕ) (latency : Nanoseconds)
  /-- An accepted completion says that the worker would not execute the member. -/
  | declined
  /-- An accepted completion says that the request has expired. -/
  | lapsed
  /-- A request starts over under another attempt. -/
  | retried (now : Nanoseconds) (r : RequestId) (a : AttemptId) (detail : String)
  /-- A request has failed for good. -/
  | failed (now : Nanoseconds) (r : RequestId) (a : AttemptId) (detail : String)
  /-- A request is cancelled. -/
  | cancelled (now : Nanoseconds) (r : RequestId) (a : AttemptId) (detail : String)
  /-- A request is complete. -/
  | completed (now : Nanoseconds) (r : RequestId) (a : AttemptId)
  /-- The tokens that are left to prefill are brought up to date. -/
  | remaining (left : UInt64)
  /-- An event that moves no counter. -/
  | noted (e : Event)

namespace Entry

/-- The counters an entry moves. -/
def counted (st : Stats) : Entry → Stats
  | registered _ _ | noted _ => st
  | rejected =>
    { st with
      rejected := st.rejected + 1
      rejectionByReason := countUnder st.rejectionByReason .capacityExceeded }
  | admitted _ req _ =>
    { st with
      submitted := st.submitted + 1
      admitted := st.admitted + 1
      completed := if req.remainingPrefillTokens = 0 then st.completed + 1 else st.completed }
  | expired _ _ _ delayed =>
    { st with
      queueDelayExceeded :=
        if delayed then st.queueDelayExceeded + 1 else st.queueDelayExceeded
      expired := st.expired + 1
      deadlineMissed := st.deadlineMissed + 1 }
  | launched tokens wait =>
    { st with
      queueLatencyTotalNs := st.queueLatencyTotalNs + wait.getD 0
      queueLatencySamples := st.queueLatencySamples + wait.toList.length
      scheduledTokens := st.scheduledTokens + tokens }
  | formed size =>
    { st with
      groupsFormed := st.groupsFormed + 1
      groupSizeDistribution := countUnder st.groupSizeDistribution size }
  | refreshed depth waiting left =>
    { st with queueDepth := depth, waitingTokens := waiting, remainingPrefillTokens := left }
  | refused _ _ why => why.counted st
  | landed tokens latency =>
    { st with
      completedTokens := st.completedTokens + tokens
      executionLatencyTotalNs := st.executionLatencyTotalNs + latency
      executionLatencySamples := st.executionLatencySamples + 1 }
  | declined => { st with staleAuthorityRejected := st.staleAuthorityRejected + 1 }
  | lapsed => { st with expired := st.expired + 1, deadlineMissed := st.deadlineMissed + 1 }
  | retried _ _ _ _ => { st with retried := st.retried + 1 }
  | failed _ _ _ _ => { st with failedNonRetryable := st.failedNonRetryable + 1 }
  | cancelled _ _ _ _ => { st with cancelled := st.cancelled + 1 }
  | completed _ _ _ => { st with completed := st.completed + 1 }
  | remaining left => { st with remainingPrefillTokens := left }

/-- The event an entry records. -/
def event? : Entry → Option Event
  | admitted now req a =>
    some ⟨now, "submit", req.requestId, a,
      if req.remainingPrefillTokens = 0 then "complete-immediate" else "queued"⟩
  | expired now r a _ => some ⟨now, "expire", r, a, "deadline"⟩
  | refused now result why =>
    why.detail.map fun detail => ⟨now, "stale", result.requestId, result.attemptId, detail⟩
  | retried now r a detail => some ⟨now, "retry", r, a, detail⟩
  | failed now r a detail => some ⟨now, "fail", r, a, detail⟩
  | cancelled now r a detail => some ⟨now, "cancel", r, a, detail⟩
  | completed now r a => some ⟨now, "complete", r, a, "ok"⟩
  | noted e => some e
  | registered _ _ | rejected | launched _ _ | formed _ | refreshed _ _ _ | landed _ _ | declined
  | lapsed | remaining _ => none

/-- The tokens an entry registers. -/
def tokens? : Entry → Option (RequestId × List UInt32)
  | registered r tokens => some (r, tokens)
  | _ => none

/-- The member of a group that is handed out. -/
def Launches (e : Entry) (m : ExecutableMember) : Prop := ∃ wait, e = .launched m.tokenCount wait

/-- The entries of a group that is handed out: one for each member, in order, and one for
the group. -/
def Forms (es : List Entry) (d : DispatchedGroup) : Prop :=
  ∃ ls, List.Forall₂ Launches ls d.group.members ∧
    es = ls ++ [.formed (d.group.members.length % 2 ^ 32)]

end Entry

/-- Make an entry. -/
def Journal.enter (j : Journal) (e : Entry) : Journal where
  stats := e.counted j.stats
  events := e.event?.toList.foldl EventLog.record j.events
  tokens := e.tokens?.toList.foldl (fun t p => t.insert p.1 p.2) j.tokens

namespace Impl

variable {env : Env} {now : Nanoseconds} {σ τ ρ : Impl} {es es' : List Entry}

/-- The journal of a state. -/
def journal (σ : Impl) : Journal := ⟨σ.stats, σ.events, σ.tokenResolver⟩

/-- Between two states, these entries are made, in this order, and no others. -/
def Enters (σ : Impl) (es : List Entry) (τ : Impl) : Prop :=
  τ.journal = es.foldl Journal.enter σ.journal

theorem Enters.of_eq (h : τ.journal = σ.journal) : σ.Enters [] τ := h

theorem Enters.trans (h : σ.Enters es τ) (h' : τ.Enters es' ρ) : σ.Enters (es ++ es') ρ := by
  show ρ.journal = (es ++ es').foldl Journal.enter σ.journal
  rw [List.foldl_append, ← show τ.journal = _ from h]
  exact h'

theorem Enters.trans_eq (h : σ.Enters es τ) (h' : ρ.journal = τ.journal) : σ.Enters es ρ :=
  h'.trans h

theorem Enters.of_journal_eq (h : σ.Enters es ρ) (h' : τ.journal = σ.journal) : τ.Enters es ρ := by
  show ρ.journal = es.foldl Journal.enter τ.journal
  rw [h']
  exact h

/-- What every entry adds to a figure of the statistics, the entries between two states add
together. -/
theorem Enters.stats_eq {f : Stats → ℕ} {w : Entry → ℕ}
    (hf : ∀ (e : Entry) (st : Stats), f (e.counted st) = f st + w e) (h : σ.Enters es τ) :
    f τ.stats = f σ.stats + (es.map w).sum := by
  have hfold : ∀ j : Journal, f (es.foldl Journal.enter j).stats = f j.stats + (es.map w).sum := by
    clear h
    induction es with
    | nil => exact fun _ => rfl
    | cons e es ih =>
      intro j
      rw [List.foldl_cons, ih, List.map_cons, List.sum_cons, ← Nat.add_assoc, ← hf]
      rfl
  rw [show τ.stats = τ.journal.stats from rfl, show τ.journal = _ from h, hfold]
  rfl

/-- Between two states, entries of a kind are made, and no others. -/
def Makes (σ : Impl) (K : Entry → Prop) (τ : Impl) : Prop := ∃ es, σ.Enters es τ ∧ ∀ e ∈ es, K e

section

variable {K K' : Entry → Prop}

theorem Makes.of_eq (h : τ.journal = σ.journal) : σ.Makes K τ := ⟨[], h, List.forall_mem_nil K⟩

theorem Makes.of_enters {e : Entry} (h : σ.Enters [e] τ) (he : K e) : σ.Makes K τ :=
  ⟨[e], h, List.forall_mem_singleton.mpr he⟩

theorem Makes.trans (h : σ.Makes K τ) (h' : τ.Makes K ρ) : σ.Makes K ρ := by
  obtain ⟨es, hes, hK⟩ := h
  obtain ⟨es', hes', hK'⟩ := h'
  exact ⟨es ++ es', hes.trans hes', List.forall_mem_append.mpr ⟨hK, hK'⟩⟩

theorem Makes.imp (hK : ∀ e, K e → K' e) (h : σ.Makes K τ) : σ.Makes K' τ := by
  obtain ⟨es, hes, hall⟩ := h
  exact ⟨es, hes, fun e he => hK e (hall e he)⟩

/-- The entries of a loop are those of its steps. -/
theorem makes_foldl {ι : Type} {f : Impl → ι → Impl} (hf : ∀ (σ : Impl) i, σ.Makes K (f σ i))
    (l : List ι) (σ : Impl) : σ.Makes K (l.foldl f σ) := by
  induction l generalizing σ with
  | nil => exact .of_eq rfl
  | cons i l ih => exact (hf σ i).trans (ih (f σ i))

end

/-! ### Blocks that make no entry -/

theorem journal_releaseReservation (σ : Impl) (s : Rs) :
    (σ.releaseReservation s).journal = σ.journal := by
  rw [releaseReservation]
  split <;> rfl

theorem journal_detachMember (σ : Impl) (gid : GroupId) (r : RequestId) :
    (σ.detachMember gid r).journal = σ.journal := by
  rw [detachMember]
  cases σ.groups.lookup gid with
  | none => rfl
  | some gs =>
    dsimp only
    split_ifs <;> rfl

theorem journal_ite {p : Prop} [Decidable p] (h : τ.journal = σ.journal)
    (h' : ρ.journal = σ.journal) : (if p then τ else ρ).journal = σ.journal := by
  split_ifs
  · exact h
  · exact h'

theorem journal_noteAll (rids : List RequestId) (line : String) (σ : Impl) :
    (σ.noteAll rids line).journal = σ.journal :=
  foldl_frame (f := fun σ rid => σ.noteRequest rid line) (fun _ _ => rfl) rids σ

theorem journal_formGroups (env : Env) (cands : List RequestId) (σ : Impl) :
    (formGroups env cands σ).1.journal = σ.journal := by
  refine foldl_frame (q := fun acc => acc.1.journal) (f := placeCandidate env)
    (fun acc rid => ?_) cands (σ, [])
  rw [placeCandidate]
  cases acc.1.requests.lookup rid with
  | none => rfl
  | some s =>
    dsimp only
    split_ifs
    · rfl
    · cases packInto env rid s acc.2 <;> rfl

theorem journal_reserveMembers (rids : List RequestId) (σ : Impl) :
    (reserveMembers rids σ).1.journal = σ.journal := by
  induction rids generalizing σ with
  | nil => rfl
  | cons rid rids ih =>
    rw [reserveMembers]
    dsimp only
    split_ifs
    · exact ih _
    · rfl

theorem journal_record {type detail : String} {r : RequestId} {a : AttemptId}
    (h : τ.journal = σ.journal) :
    (τ.record now type r a detail).journal = (σ.record now type r a detail).journal := by
  obtain ⟨hstats, hevents, htokens⟩ := Journal.mk.inj h
  show Journal.mk τ.stats (τ.events.record _) τ.tokenResolver = _
  rw [hstats, hevents, htokens]
  rfl

/-! ### Submission -/

theorem enters_admitRequest (env : Env) (now : Nanoseconds) (req : PrefillRequest) (σ : Impl) :
    σ.Enters [.admitted now req ⟨σ.nextAttemptValue⟩] (σ.admitRequest env now req) := by
  rw [admitRequest]
  dsimp only
  split_ifs with hrem
  · simp only [Enters, List.foldl_cons, List.foldl_nil, Journal.enter, Entry.counted, Entry.event?,
      Entry.tokens?, if_pos hrem]
    rfl
  · simp only [Enters, List.foldl_cons, List.foldl_nil, Journal.enter, Entry.counted, Entry.event?,
      Entry.tokens?, if_neg hrem]
    rfl

/-- **A submission** leaves the journal alone, or registers its tokens and is rejected or
admitted; its tokens are then as many as it says, and its request was not known. -/
theorem enters_submitWithTokens (env : Env) (now : Nanoseconds) (req : PrefillRequest)
    (tokens : List UInt32) (σ : Impl) :
    (σ.Enters [] (σ.submitWithTokens env now req tokens).1 ∧
      ∃ e, (σ.submitWithTokens env now req tokens).2 = .error e ∧ e.code ≠ .capacityExceeded) ∨
    (tokens.length = req.promptTokenCount.toNat ∧ σ.requests.lookup req.requestId = none) ∧
      ((σ.Enters [.registered req.requestId tokens, .rejected]
          (σ.submitWithTokens env now req tokens).1 ∧
        ∃ e, (σ.submitWithTokens env now req tokens).2 = .error e ∧ e.code = .capacityExceeded) ∨
      (σ.Enters [.registered req.requestId tokens, .admitted now req ⟨σ.nextAttemptValue⟩]
          (σ.submitWithTokens env now req tokens).1 ∧
        (σ.submitWithTokens env now req tokens).2 = .ok ())) := by
  have hregister : σ.Enters [.registered req.requestId tokens]
      ((σ.withTokens req tokens).withAccount req) := rfl
  have hsubmission := σ.submission env now req tokens
  generalize σ.submitWithTokens env now req tokens = out at hsubmission
  cases hsubmission with
  | refused _ hcode => exact Or.inl ⟨rfl, _, rfl, hcode⟩
  | full hchecked _ =>
    exact Or.inr ⟨⟨hchecked.length_eq, hchecked.new⟩, Or.inl ⟨rfl, _, rfl, rfl⟩⟩
  | limited hchecked _ _ message =>
    have hreject : ((σ.withTokens req tokens).withAccount req).Enters [.rejected]
        (((σ.withTokens req tokens).withAccount req).reject message).1 := rfl
    exact Or.inr ⟨⟨hchecked.length_eq, hchecked.new⟩,
      Or.inl ⟨hregister.trans hreject, _, rfl, rfl⟩⟩
  | admitted hadmits hlen =>
    exact Or.inr ⟨⟨hlen, hadmits.new⟩,
      Or.inr ⟨hregister.trans (enters_admitRequest env now req _), rfl⟩⟩

/-! ### The cycle -/

theorem journal_expireRequest (now : Nanoseconds) (r : RequestId) (s : Rs) (σ : Impl) :
    (σ.expireRequest now r s).journal =
      σ.journal.enter (.expired now s.request.requestId s.attempt false) := by
  have hjournal : ((if s.inFlight then σ.detachMember s.currentGroup s.request.requestId
      else σ).releaseReservation s).journal = σ.journal :=
    (journal_releaseReservation _ s).trans (journal_ite (journal_detachMember σ _ _) rfl)
  rw [expireRequest, Rs.dropReservation_eq]
  dsimp only
  generalize ((if s.inFlight then _ else σ).releaseReservation s : Impl) = σ₁ at hjournal
  rw [← hjournal]
  rfl

theorem enters_sweepRequest (now : Nanoseconds) (σ : Impl) (r : RequestId) :
    σ.Makes (fun e => ∃ r' a delayed, e = .expired now r' a delayed) (σ.sweepRequest now r) := by
  rw [sweepRequest]
  cases σ.requests.lookup r with
  | none => exact .of_eq rfl
  | some s =>
    dsimp only
    split_ifs
    · exact .of_eq rfl
    · exact .of_enters (journal_expireRequest now r s σ) ⟨_, _, _, rfl⟩
    · refine .of_enters (e := .expired now s.request.requestId s.attempt true)
        ((journal_expireRequest now r s _).trans ?_) ⟨_, _, _, rfl⟩
      rfl
    · exact .of_eq rfl

theorem enters_commitMember (now : Nanoseconds) (gid : GroupId) (w : WorkerId)
    (m : ExecutableMember) (σ : Impl) :
    ∃ wait, σ.Enters [.launched m.tokenCount wait] (σ.commitMember now gid w m) := by
  let s := (σ.requests.lookup m.requestId).getD {}
  by_cases hfirst : s.firstDispatchTime = 0
  · refine ⟨some (now - s.admitTime), ?_⟩
    simp only [commitMember, count, setRequest, s, if_pos hfirst]
    rfl
  · refine ⟨none, ?_⟩
    simp only [commitMember, count, setRequest, s, if_neg hfirst]
    simp [Enters, journal, Journal.enter, Entry.counted, Entry.event?, Entry.tokens?]

theorem enters_commitMembers (now : Nanoseconds) (gid : GroupId) (w : WorkerId)
    (ms : List ExecutableMember) (σ : Impl) :
    ∃ ls, σ.Enters ls (commitMembers now gid w ms σ).1 ∧
      List.Forall₂ Entry.Launches ls (commitMembers now gid w ms σ).2 := by
  induction ms generalizing σ with
  | nil => exact ⟨[], rfl, .nil⟩
  | cons m ms ih =>
    obtain ⟨wait, hfirst⟩ := enters_commitMember now gid w m σ
    obtain ⟨ls, hrest, hls⟩ := ih (σ.commitMember now gid w m)
    exact ⟨_ :: ls, hfirst.trans hrest, .cons ⟨wait, rfl⟩ hls⟩

theorem length_commitMembers (now : Nanoseconds) (gid : GroupId) (w : WorkerId)
    (ms : List ExecutableMember) (σ : Impl) :
    (commitMembers now gid w ms σ).2.length = ms.length := by
  induction ms generalizing σ with
  | nil => rfl
  | cons m ms ih => exact congrArg Nat.succ (ih _)

/-- A formed group that is put off makes no entry; one that is handed out makes its own. -/
theorem enters_dispatchGroup (now : Nanoseconds) (acc : Impl × DispatchBatch) (g : ExecutionGroup) :
    (acc.1.Enters [] (dispatchGroup now acc g).1 ∧
      (dispatchGroup now acc g).2.groups = acc.2.groups) ∨
    ∃ es d, acc.1.Enters es (dispatchGroup now acc g).1 ∧ Entry.Forms es d ∧
      (dispatchGroup now acc g).2.groups = acc.2.groups ++ [d] := by
  obtain ⟨σ, batch⟩ := acc
  rw [dispatchGroup]
  split_ifs
  · exact Or.inl ⟨rfl, rfl⟩
  cases chooseWorker g.backend σ with
  | none => exact Or.inl ⟨journal_noteAll _ _ σ, rfl⟩
  | some w =>
    have hreserve := journal_reserveMembers g.rids σ
    dsimp only
    split_ifs
    · refine Or.inr ?_
      obtain ⟨ls, hls, hlaunch⟩ :=
        enters_commitMembers now g.groupId w g.members (reserveMembers g.rids σ).1
      have hsize : g.rids.length = (commitMembers now g.groupId w g.members
          (reserveMembers g.rids σ).1).2.length := by
        rw [length_commitMembers, ExecutionGroup.rids, List.length_map]
      have hform : (commitMembers now g.groupId w g.members (reserveMembers g.rids σ).1).1.Enters
          [.formed (g.rids.length % 2 ^ 32)]
          (commitGroup now w g batch (reserveMembers g.rids σ).1).1 := rfl
      rw [hsize] at hform
      exact ⟨_, _, (hls.of_journal_eq hreserve.symm).trans hform, ⟨ls, hlaunch, rfl⟩, rfl⟩
    · refine Or.inl ⟨(journal_noteAll _ _ _).trans ?_, rfl⟩
      exact (foldl_frame (q := journal) (f := undoReservation) (fun _ _ => rfl) _ _).trans hreserve

theorem enters_foldl_dispatchGroup (now : Nanoseconds) (groups : List ExecutionGroup)
    (acc : Impl × DispatchBatch) :
    ∃ ess ds, acc.1.Enters ess.flatten (groups.foldl (dispatchGroup now) acc).1 ∧
      List.Forall₂ Entry.Forms ess ds ∧
      (groups.foldl (dispatchGroup now) acc).2.groups = acc.2.groups ++ ds := by
  induction groups generalizing acc with
  | nil => exact ⟨[], [], rfl, .nil, (List.append_nil _).symm⟩
  | cons g groups ih =>
    obtain ⟨ess, ds, hess, hforms, hgroups⟩ := ih (dispatchGroup now acc g)
    rw [List.foldl_cons]
    rcases enters_dispatchGroup now acc g with ⟨hnone, heq⟩ | ⟨es, d, hes, hform, heq⟩
    · exact ⟨ess, ds, hnone.trans hess, hforms, hgroups.trans (by rw [heq])⟩
    · refine ⟨es :: ess, d :: ds, hes.trans hess, .cons hform hforms, hgroups.trans ?_⟩
      rw [heq, List.append_assoc, List.singleton_append]

theorem enters_dispatchPhase (env : Env) (now : Nanoseconds) (σ : Impl) :
    ∃ ess depth waiting left,
      σ.Enters (ess.flatten ++ [.refreshed depth waiting left]) (σ.dispatchPhase env now).1 ∧
      List.Forall₂ Entry.Forms ess (σ.dispatchPhase env now).2.groups := by
  have hform := journal_formGroups env (σ.sortedCandidates env now) σ
  rw [dispatchPhase]
  dsimp only
  generalize formGroups env (σ.sortedCandidates env now) σ = formed at hform
  obtain ⟨ess, ds, hess, hforms, hgroups⟩ :=
    enters_foldl_dispatchGroup now formed.2 (formed.1, {})
  rw [List.nil_append] at hgroups
  generalize formed.2.foldl (dispatchGroup now) (formed.1, {}) = dispatched at hess hgroups
  have hage : dispatched.1.ageWaiting.journal = dispatched.1.journal :=
    foldl_frame (q := journal) (f := ageRequest) (fun _ _ => rfl) _ dispatched.1
  have hrefresh : dispatched.1.ageWaiting.Enters
      [.refreshed _ _ _] dispatched.1.ageWaiting.refreshStats := rfl
  exact ⟨ess, _, _, _,
    (hess.of_journal_eq hform.symm).trans (hrefresh.of_journal_eq hage.symm), hgroups ▸ hforms⟩

/-- **A cycle** expires, hands out its groups, and brings the figures of the queue up to
date. -/
theorem enters_runCycle (env : Env) (now : Nanoseconds) (σ : Impl) :
    ∃ swept ess depth waiting left,
      σ.Enters (swept ++ (ess.flatten ++ [.refreshed depth waiting left]))
        (σ.runCycle env now).1 ∧
      (∀ e ∈ swept, ∃ r a delayed, e = .expired now r a delayed) ∧
      List.Forall₂ Entry.Forms ess (σ.runCycle env now).2.groups := by
  obtain ⟨swept, hswept, hexpired⟩ :=
    makes_foldl (enters_sweepRequest now) σ.requests.keys σ
  obtain ⟨ess, depth, waiting, left, hess, hforms⟩ :=
    enters_dispatchPhase env now (σ.expirySweep now)
  exact ⟨swept, ess, depth, waiting, left, Enters.trans hswept hess, hexpired, hforms⟩

/-! ### Completions -/

/-- The entry for what becomes of a request whose chunk has landed. -/
def settlement (now : Nanoseconds) (result : MemberResult) (s : Rs) (σ : Impl) : List Entry :=
  match result.outcome with
  | .staleRejected => [.declined]
  | .retryableFailure =>
    if s.retriesUsed < s.request.maxRetries then
      [.retried now s.request.requestId ⟨σ.nextAttemptValue⟩
        ("attempt " ++ toString σ.nextAttemptValue)]
    else [.failed now s.request.requestId s.attempt "non-retryable"]
  | .nonRetryableFailure => [.failed now s.request.requestId s.attempt result.message]
  | .cancelled => [.cancelled now s.request.requestId s.attempt "completion"]
  | .expired => [.lapsed]
  | .success | .needsNextChunk =>
    if s.cancelPending then [.cancelled now s.request.requestId s.attempt "chunk-boundary"]
    else if (s.nextChunkIndex + 1) % 2 ^ 32 < s.plan.chunks.length then []
    else [.completed now s.request.requestId s.attempt]

theorem enters_settleSuccess (now : Nanoseconds) (s : Rs) (σ : Impl) :
    σ.Enters
      (if s.cancelPending then [.cancelled now s.request.requestId s.attempt "chunk-boundary"]
        else if (s.nextChunkIndex + 1) % 2 ^ 32 < s.plan.chunks.length then []
        else [.completed now s.request.requestId s.attempt])
      (settleSuccess now s σ).1 := by
  rw [settleSuccess]
  split_ifs <;> rfl

theorem enters_settleOutcome (env : Env) (now : Nanoseconds) (result : MemberResult) (s : Rs)
    (σ : Impl) :
    σ.Enters (settlement now result s σ) (settleOutcome env now result s σ).1 := by
  rw [settlement, settleOutcome]
  cases result.outcome with
  | retryableFailure =>
    dsimp only
    split_ifs <;> rfl
  | success => exact enters_settleSuccess now s σ
  | needsNextChunk => exact enters_settleSuccess now s σ
  | _ => rfl

theorem enters_putAway (r : RequestId) (out : Impl × Rs) :
    ∃ left, out.1.Enters [.remaining left] (putAway r out) := by
  have hjournal : (if out.2.currentGroup.isNil = true then out.1.releaseReservation out.2
      else (out.1.releaseReservation out.2).detachMember out.2.currentGroup
        out.2.request.requestId).journal = out.1.journal :=
    journal_ite (journal_releaseReservation _ _)
      ((journal_detachMember _ _ _).trans (journal_releaseReservation _ _))
  rw [putAway]
  dsimp only
  generalize (if out.2.currentGroup.isNil = true then _ else _ : Impl) = τ at hjournal
  exact ⟨_, Enters.of_journal_eq (σ := τ) rfl hjournal.symm⟩

/-- A completion that is accepted: the chunk lands, its request is settled, and the remaining
tokens are brought up to date. -/
theorem enters_applyCompletion (env : Env) (now : Nanoseconds) (result : MemberResult) (s : Rs)
    (σ : Impl) :
    ∃ left, σ.Enters (.landed s.nextChunk.tokenCount (now - s.dispatchTime) ::
      settlement now result (s.landed env) σ ++ [.remaining left])
      (σ.applyCompletion env now result s) := by
  rw [applyCompletion_eq]
  have hland : σ.Enters [.landed s.nextChunk.tokenCount (now - s.dispatchTime)]
      (σ.accounted now s) := rfl
  obtain ⟨left, hleft⟩ := enters_putAway result.requestId
    (settleOutcome env now result (s.landed env) (σ.accounted now s))
  exact ⟨left, (hland.trans (enters_settleOutcome env now result (s.landed env) _)).trans hleft⟩

/-- **A completion** is refused, or accepted. -/
theorem enters_reportCompletion (env : Env) (now : Nanoseconds) (result : MemberResult)
    (σ : Impl) :
    (∃ why, σ.Enters [.refused now result why] (σ.reportCompletion env now result).1 ∧
      (σ.reportCompletion env now result).2 = .error why.error) ∨
    ∃ s left, σ.requests.lookup result.requestId = some s ∧
      σ.Enters (.landed s.nextChunk.tokenCount (now - s.dispatchTime) ::
        settlement now result (s.landed env) σ ++ [.remaining left])
        (σ.reportCompletion env now result).1 ∧
      (σ.reportCompletion env now result).2 = .ok () := by
  rw [reportCompletion]
  cases hcheck : σ.checkAuthority result with
  | error why =>
    refine Or.inl ⟨why, ?_⟩
    cases why <;> exact ⟨rfl, rfl⟩
  | ok s =>
    obtain ⟨left, henters⟩ := enters_applyCompletion env now result s σ
    exact Or.inr ⟨s, left, (accepts_of_checkAuthority hcheck).1, henters, rfl⟩

/-! ### Control -/

theorem enters_cancel (now : Nanoseconds) (r : RequestId) (σ : Impl) :
    σ.Enters [] (σ.cancel now r).1 ∨
    (∃ a, σ.Enters [.noted ⟨now, "cancel", r, a, "pending chunk boundary"⟩] (σ.cancel now r).1) ∨
    ∃ a, σ.Enters [.cancelled now r a "waiting"] (σ.cancel now r).1 := by
  rw [cancel]
  cases σ.requests.lookup r with
  | none => exact Or.inl rfl
  | some s =>
    dsimp only
    split_ifs
    · exact Or.inl rfl
    · exact Or.inr (Or.inl ⟨_, rfl⟩)
    all_goals
      refine Or.inr (Or.inr ⟨s.dropReservation.attempt, ?_⟩)
      have hrelease := (journal_releaseReservation σ s).symm
      generalize σ.releaseReservation s = σ₁ at hrelease
    · exact Enters.of_journal_eq (σ := σ₁) rfl hrelease
    · exact Enters.of_journal_eq (σ := σ₁)
        (journal_record (journal_detachMember _ s.currentGroup r)) hrelease

theorem enters_cancelGeneration (r : RequestId) (g : Generation) (σ : Impl) :
    σ.Enters [] (σ.cancelGeneration r g).1 := by
  rw [cancelGeneration]
  cases σ.requests.lookup r with
  | none => rfl
  | some s =>
    dsimp only
    split_ifs <;> rfl

theorem enters_retryWithinBudget (env : Env) (now : Nanoseconds) (r : RequestId) (s : Rs)
    (σ : Impl) :
    σ.Enters [] (σ.retryWithinBudget env now r s).1 ∨
      ∃ a, σ.Enters [.retried now r a "forced"] (σ.retryWithinBudget env now r s).1 := by
  rw [retryWithinBudget]
  split_ifs
  · exact Or.inl rfl
  · exact Or.inr ⟨_, rfl⟩

theorem journal_withdraw (r : RequestId) (s : Rs) (σ : Impl) :
    (σ.withdraw r s).journal = σ.journal := by
  have hrelease := journal_releaseReservation σ s
  rw [withdraw]
  generalize σ.releaseReservation s = σ₁ at hrelease
  rw [← hrelease]
  cases σ₁.groups.lookup s.currentGroup with
  | none => rfl
  | some gs =>
    dsimp only
    split_ifs <;> rfl

theorem enters_forceRetry (env : Env) (now : Nanoseconds) (r : RequestId) (σ : Impl) :
    σ.Enters [] (σ.forceRetry env now r).1 ∨
      ∃ a, σ.Enters [.retried now r a "forced"] (σ.forceRetry env now r).1 := by
  rw [forceRetry]
  cases σ.requests.lookup r with
  | none => exact Or.inl rfl
  | some s =>
    dsimp only
    split_ifs
    · exact Or.inl rfl
    · have hjournal := (journal_withdraw r s σ).symm
      exact (enters_retryWithinBudget env now r s.withdrawn (σ.withdraw r s)).imp
        (·.of_journal_eq hjournal) fun ⟨a, h⟩ => ⟨a, h.of_journal_eq hjournal⟩
    · exact enters_retryWithinBudget env now r s σ

/-- An event that a worker registers, retires or is lost, that the epoch is rolled, or that a
cancellation is put off to the end of a chunk. -/
def Aside (e : Entry) : Prop :=
  ∃ ev, e = .noted ev ∧
    (ev.type ∈ ["worker-register", "worker-retire", "worker-lost", "epoch-roll"] ∨
      ev.type = "cancel" ∧ ev.detail = "pending chunk boundary")

theorem enters_recoverMember (now : Nanoseconds) (σ : Impl) (r : RequestId) :
    σ.Makes Aside (σ.recoverMember now r) := by
  rw [recoverMember]
  cases σ.requests.lookup r with
  | none => exact .of_eq rfl
  | some s =>
    dsimp only
    split_ifs
    · have hrelease := (journal_releaseReservation σ s).symm
      generalize σ.releaseReservation s = σ₁ at hrelease
      exact .of_enters (e := .noted _) (Enters.of_journal_eq (σ := σ₁) rfl hrelease)
        ⟨_, rfl, Or.inl (by simp)⟩
    · exact .of_eq rfl

theorem enters_loseGroup (now : Nanoseconds) (w : WorkerId) (σ : Impl) (gid : GroupId) :
    σ.Makes Aside (σ.loseGroup now w gid) := by
  rw [loseGroup]
  cases σ.groups.lookup gid with
  | none => exact .of_eq rfl
  | some gs =>
    dsimp only
    split_ifs
    · exact makes_foldl (enters_recoverMember now) gs.outstanding σ
    · exact .of_eq rfl

theorem enters_workerLost (now : Nanoseconds) (w : WorkerId) (σ : Impl) :
    σ.Makes Aside (σ.workerLost now w) := by
  have hlost : (σ.groups.keys.foldl (loseGroup now w) σ).Enters
      [.noted ⟨now, "worker-lost", .nil, .nil, "id=" ++ toString w.value⟩] (σ.workerLost now w) :=
    rfl
  exact (makes_foldl (enters_loseGroup now w) σ.groups.keys σ).trans
    (.of_enters hlost ⟨_, rfl, Or.inl (by simp)⟩)

theorem enters_registerWorker (now : Nanoseconds) (w : WorkerDescriptor) (σ : Impl) :
    σ.Makes Aside (σ.registerWorker now w).1 := by
  rw [registerWorker]
  split
  · exact .of_eq rfl
  · exact ⟨[.noted _], rfl, List.forall_mem_singleton.mpr ⟨_, rfl, Or.inl (by simp)⟩⟩

theorem enters_unregisterWorker (now : Nanoseconds) (w : WorkerId) (σ : Impl) :
    σ.Makes Aside (σ.unregisterWorker now w).1 := by
  rw [unregisterWorker]
  cases σ.workers.lookup w with
  | none => exact .of_eq rfl
  | some ws => exact ⟨[.noted _], rfl, List.forall_mem_singleton.mpr ⟨_, rfl, Or.inl (by simp)⟩⟩

theorem enters_attachExecutor (ex : Option Executor) (backend : String) (σ : Impl) :
    σ.Enters [] (σ.attachExecutor ex backend) := by
  rw [attachExecutor]
  cases σ.workers.lookup .nil <;> rfl

/-! ### Calls that leave tokens and chunks alone -/

/-- An entry that registers no tokens, and is not for a chunk that has landed. -/
def Plain : Entry → Prop
  | .registered _ _ | .landed _ _ => False
  | _ => True

theorem Plain.of_aside {e : Entry} (h : Aside e) : Plain e := by
  obtain ⟨ev, rfl, -⟩ := h
  trivial

theorem plain_of_forms {d : DispatchedGroup} (h : Entry.Forms es d) : ∀ e ∈ es, Plain e := by
  obtain ⟨ls, hls, rfl⟩ := h
  refine List.forall_mem_append.mpr ⟨?_, List.forall_mem_singleton.mpr trivial⟩
  refine ((List.forall₂_and_left _ _).mp (hls.imp fun e m he => ⟨?_, he⟩)).1
  obtain ⟨wait, rfl⟩ := he
  trivial

theorem plain_settlement {result : MemberResult} {s : Rs} :
    ∀ e ∈ settlement now result s σ, Plain e := by
  rw [settlement]
  cases result.outcome with
  | success | needsNextChunk | retryableFailure =>
    dsimp only
    split_ifs <;> simp [Plain]
  | _ => exact List.forall_mem_singleton.mpr trivial

theorem plain_runCycle (env : Env) (now : Nanoseconds) (σ : Impl) :
    σ.Makes Plain (σ.runCycle env now).1 := by
  obtain ⟨swept, ess, depth, waiting, left, henters, hswept, hforms⟩ := enters_runCycle env now σ
  refine ⟨_, henters, List.forall_mem_append.mpr ⟨fun e he => ?_, List.forall_mem_append.mpr
    ⟨List.forall_mem_flatten.mpr ?_, List.forall_mem_singleton.mpr trivial⟩⟩⟩
  · obtain ⟨r, a, delayed, rfl⟩ := hswept e he
    trivial
  · exact ((List.forall₂_and_left _ _).mp (hforms.imp fun es d h => ⟨plain_of_forms h, h⟩)).1

/-- An operation that is neither a submission nor a completion. -/
def PlainOp : Op → Prop
  | .submitWithTokens _ _ | .reportCompletion _ => False
  | _ => True

/-- **Only submissions and completions** register tokens or let chunks land. -/
theorem plain_step (env : Env) (σ : Impl) {c : Call} (hc : PlainOp c.op) :
    σ.Makes Plain (σ.step env c).1 := by
  obtain ⟨now, op⟩ := c
  cases op with
  | submitWithTokens req tokens => exact hc.elim
  | runCycle =>
    rw [step_runCycle]
    exact plain_runCycle env now σ
  | reportCompletion result => exact hc.elim
  | cancel r =>
    rcases enters_cancel now r σ with h | ⟨a, h⟩ | ⟨a, h⟩
    · exact .of_eq h
    · exact .of_enters h trivial
    · exact .of_enters h trivial
  | cancelGeneration r g => exact .of_eq (enters_cancelGeneration r g σ)
  | forceRetry r =>
    rcases enters_forceRetry env now r σ with h | ⟨a, h⟩
    · exact .of_eq h
    · exact .of_enters h trivial
  | registerWorker w => exact .imp (fun _ => .of_aside) (enters_registerWorker now w σ)
  | unregisterWorker w => exact .imp (fun _ => .of_aside) (enters_unregisterWorker now w σ)
  | workerLost w => exact .imp (fun _ => .of_aside) (enters_workerLost now w σ)
  | rollEpoch => exact ⟨[.noted _], rfl, List.forall_mem_singleton.mpr trivial⟩
  | attachExecutor ex backend => exact .of_eq (enters_attachExecutor ex backend σ)

end Impl

end PrefillFabric
