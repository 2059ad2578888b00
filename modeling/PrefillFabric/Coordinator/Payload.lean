import PrefillFabric.Coordinator.Steps
import PrefillFabric.Scheduler.Admission

/-!
# Payloads

The tokens that are sent to a worker come from a map the handlers write to. A handler
stores the tokens of a submission *before* the scheduler decides about it, whatever is
stored already under the identity of the request. So the tokens stored for an admitted
request need not be those of the message that was accepted: a later message under the same
identity, which the scheduler rejects, has replaced them, or an earlier one that was
overtaken.

`Session.AcceptedWith` says which tokens a request was accepted with, and
`Session.PayloadsGenuine` that these are the ones it is executed with. This is so
throughout a session exactly if no step of it replaces tokens that count
(`Session.forall_payloadsGenuine_iff`).
-/

namespace PrefillFabric

/-! ### Admission -/

namespace Impl

variable {env : Env} {now : Nanoseconds} {σ : Impl}

theorem length_makeTokens (n : ℕ) (seed : UInt64) : (makeTokens n seed).length = n := by
  induction n generalizing seed with
  | zero => rfl
  | succ n ih => exact congrArg Nat.succ (ih _)

/-- Made-up tokens are as many as announced, so that nothing but the request decides. -/
theorem isOk_submit_iff {req : PrefillRequest} :
    isOk (σ.submit env now req).2 = true ↔ σ.Admits env req := by
  rw [submit, isOk_submitWithTokens_iff, and_iff_left (length_makeTokens _ _)]

end Impl

/-! ### Genuine payloads -/

/-- The member whose tokens the loop copies next. -/
def ScheduleLoop.nextSlice : ScheduleLoop → Option ExecutableMember
  | slicing _ _ _ (m :: _) _ => some m
  | _ => none

theorem ScheduleLoop.mem_members_of_nextSlice {l : ScheduleLoop} {m : ExecutableMember}
    (h : l.nextSlice = some m) : m ∈ l.members := by
  rcases l with _ | _ | _ | _ | ⟨dg, sock, d, (_ | ⟨m', left⟩), rest⟩ | _
  case slicing.cons =>
    obtain rfl := Option.some.inj h
    exact List.mem_cons_self
  all_goals exact absurd h (Option.some_ne_none m).symm

/-- **A step replaces no tokens that count**: tokens that come in for a request the
scheduler knows are those stored, and the tokens stored for a request that is about to be
admitted are those it came with. -/
def Coordinator.KeepsPayloads (env : Env) (c : Coordinator) : NetEvent → Prop
  | .receive conn _ (.submit req tokens) =>
    c.handlers.lookup conn = some (.serving .client) →
      (c.scheduler.requests.lookup req.requestId).isSome →
      c.tokens.lookup req.requestId = some tokens
  | .proceed conn _ => ∀ req tokens, c.handlers.lookup conn = some (.submitting req tokens) →
      c.scheduler.Admits env req → c.tokens.lookup req.requestId = some tokens
  | _ => True

namespace Session

variable {S : Session} {n : ℕ} {r : RequestId} {tokens : List UInt32}

/-- Event number `i` is the admission of a request that came with the given tokens. -/
def AdmittedAt (S : Session) (i : ℕ) (r : RequestId) (tokens : List UInt32) : Prop :=
  ∃ conn now req, S.events[i]? = some (.proceed conn now) ∧
    (S.stateAt i).handlers.lookup conn = some (.submitting req tokens) ∧ req.requestId = r ∧
    isOk ((S.stateAt i).scheduler.submit S.env now req).2 = true

/-- Before event number `n`, a submission of the request with the given tokens has been
accepted. -/
def AcceptedWith (S : Session) (n : ℕ) (r : RequestId) (tokens : List UInt32) : Prop :=
  ∃ i < n, S.AdmittedAt i r tokens

/-- **Payloads are genuine**: the tokens stored for a request are those of the message that
was accepted, and the tokens the loop is about to copy for a member are taken from them. -/
structure PayloadsGenuine (S : Session) (n : ℕ) : Prop where
  kept : ∀ r tokens, S.AcceptedWith n r tokens → (S.stateAt n).tokens.lookup r = some tokens
  sliced : ∀ m, (S.stateAt n).loop.nextSlice = some m → ∃ tokens,
    S.AcceptedWith n m.requestId tokens ∧
      (S.stateAt n).slice m = readTokens tokens m.tokenStart m.tokenCount

theorem acceptedWith_succ_iff :
    S.AcceptedWith (n + 1) r tokens ↔ S.AcceptedWith n r tokens ∨ S.AdmittedAt n r tokens := by
  constructor
  · rintro ⟨i, hi, h⟩
    rcases Nat.lt_succ_iff_lt_or_eq.mp hi with hlt | rfl
    · exact Or.inl ⟨i, hlt, h⟩
    · exact Or.inr h
  · rintro (⟨i, hi, h⟩ | h)
    · exact ⟨i, Nat.lt_succ_of_lt hi, h⟩
    · exact ⟨n, Nat.lt_succ_self n, h⟩

/-- Nothing is stored in the step that admits a request. -/
theorem AdmittedAt.tokens_eq (h : S.AdmittedAt n r tokens) :
    (S.stateAt (n + 1)).tokens = (S.stateAt n).tokens := by
  obtain ⟨conn, now, req, he, -⟩ := h
  rw [stateAt_succ he]
  exact Coordinator.tokens_step_of_none rfl

/-- The step that admits a request makes it known. -/
theorem AdmittedAt.exists_req (h : S.AdmittedAt n r tokens) :
    ∃ s, (S.stateAt (n + 1)).scheduler.view.req r = some s := by
  obtain ⟨conn, now, req, he, hconn, rfl, hok⟩ := h
  have hcall : (S.stateAt n).call (.proceed conn now) = some ⟨now, .submit req⟩ := by
    rw [Coordinator.call, hconn]
  rw [stateAt_succ he, Coordinator.scheduler_step_of_some hcall]
  exact ⟨_, Impl.req_submitWithTokens hok⟩

/-- What has been accepted is known. -/
theorem AcceptedWith.exists_req (h : S.AcceptedWith n r tokens) :
    ∃ s, (S.stateAt n).scheduler.view.req r = some s := by
  induction n with
  | zero =>
    obtain ⟨i, hi, -⟩ := h
    exact absurd hi (Nat.not_lt_zero i)
  | succ n ih =>
    rcases acceptedWith_succ_iff.mp h with hold | hnew
    · obtain ⟨s, hs⟩ := ih hold
      obtain ⟨s', hs', -⟩ := exists_request_succ hs
      exact ⟨s', hs'⟩
    · exact hnew.exists_req

/-- **What is known has been accepted**, with some tokens. -/
theorem exists_acceptedWith {s : Rs} (hs : (S.stateAt n).scheduler.view.req r = some s) :
    ∃ tokens, S.AcceptedWith n r tokens := by
  induction n generalizing s with
  | zero =>
    -- retiring the local worker makes no request known
    have hview : (S.stateAt 0).scheduler.view.req r = none := rfl
    exact absurd (hs.symm.trans hview) (Option.some_ne_none s)
  | succ n ih =>
    have hold : ∀ t, (S.stateAt n).scheduler.view.req r = some t →
        ∃ tokens, S.AcceptedWith (n + 1) r tokens := fun t ht =>
      (ih ht).imp fun _ h => acceptedWith_succ_iff.mpr (Or.inl h)
    cases he : S.events[n]? with
    | none =>
      rw [stateAt_succ_of_none he] at hs
      exact hold s hs
    | some e =>
      cases hr : (S.stateAt n).scheduler.view.req r with
      | some t => exact hold t hr
      | none =>
        rw [stateAt_succ he] at hs
        cases hk : (S.stateAt n).call e with
        | none =>
          rw [Coordinator.scheduler_step_of_none hk] at hs
          exact hold s hs
        | some call =>
          rw [Coordinator.scheduler_step_of_some hk] at hs
          rcases Impl.req_eq_none_or_submit S.env (S.wf n) call hr with hnone |
            ⟨req, toks, hop, hid, hok⟩
          · exact absurd (hs.symm.trans hnone) (Option.some_ne_none s)
          · cases Coordinator.calls_of_call hk with
            | @submit conn now _ tokens hconn =>
              obtain ⟨rfl, rfl⟩ := Op.submitWithTokens.inj hop
              exact ⟨tokens, acceptedWith_succ_iff.mpr
                (Or.inr ⟨conn, now, _, he, hconn, hid, hok⟩)⟩
            | _ => exact Op.noConfusion hop

/-- The tokens of the accepted messages are stored. -/
def Kept (S : Session) (n : ℕ) : Prop :=
  ∀ r tokens, S.AcceptedWith n r tokens → (S.stateAt n).tokens.lookup r = some tokens

/-- Then they are also the ones that are sent. -/
theorem payloadsGenuine_of_kept (h : S.Kept n) : S.PayloadsGenuine n where
  kept := h
  sliced m hm := by
    obtain ⟨s, hs, -⟩ := S.covers_members n m (ScheduleLoop.mem_members_of_nextSlice hm)
    obtain ⟨tokens, htokens⟩ := exists_acceptedWith hs
    exact ⟨tokens, htokens, by rw [Coordinator.slice, h _ _ htokens, Option.bind_some]⟩

theorem kept_succ {e : NetEvent} (he : S.events[n]? = some e)
    (hkeep : (S.stateAt n).KeepsPayloads S.env e) (h : S.Kept n) : S.Kept (n + 1) := by
  intro r tokens haccepted
  rcases acceptedWith_succ_iff.mp haccepted with hold | hnew
  · rw [stateAt_succ he]
    cases hstored : (S.stateAt n).stored e with
    | none =>
      rw [Coordinator.tokens_step_of_none hstored]
      exact h r tokens hold
    | some p =>
      obtain ⟨x, toks⟩ := p
      rw [Coordinator.tokens_step_of_some hstored, AList.lookup_insert_eq_ite]
      split_ifs with hr
      · -- what is stored anew is what is stored
        obtain ⟨conn, now, req, rfl, hconn, rfl⟩ := Coordinator.exists_of_stored hstored
        obtain ⟨s, hs⟩ := hold.exists_req
        obtain ⟨t, ht, -⟩ := Impl.exists_of_view_req hs
        have hsame := hkeep hconn (by rw [← hr, ht]; rfl)
        rw [← hsame, ← hr]
        exact h r tokens hold
      · exact h r tokens hold
  · obtain ⟨conn, now, req, he', hconn, rfl, hok⟩ := id hnew
    obtain rfl := Option.some.inj (he.symm.trans he')
    rw [hnew.tokens_eq]
    exact hkeep req tokens hconn (Impl.isOk_submit_iff.mp hok)

/-- A step that replaces tokens that count breaks the payload of a request. -/
theorem not_payloadsGenuine_succ {e : NetEvent} (he : S.events[n]? = some e)
    (hbreak : ¬(S.stateAt n).KeepsPayloads S.env e) (h : S.Kept n) :
    ¬S.PayloadsGenuine (n + 1) := by
  intro hgenuine
  refine hbreak ?_
  cases e with
  | receive conn now msg =>
    cases msg with
    | submit req tokens =>
      intro hconn hknown
      obtain ⟨s, hs⟩ := Option.isSome_iff_exists.mp hknown
      obtain ⟨toks, htoks⟩ := exists_acceptedWith (Impl.view_req hs)
      have hafter := hgenuine.kept _ _ (acceptedWith_succ_iff.mpr (Or.inl htoks))
      have hstored : (S.stateAt n).stored (.receive conn now (.submit req tokens)) =
          some (req.requestId, tokens) := by
        rw [Coordinator.stored, hconn]
      rw [stateAt_succ he, Coordinator.tokens_step_of_some hstored, AList.lookup_insert] at hafter
      obtain rfl := Option.some.inj hafter
      exact h _ _ htoks
    | _ => exact trivial
  | proceed conn now =>
    intro req tokens hconn hadmits
    have hnew : S.AdmittedAt n req.requestId tokens :=
      ⟨conn, now, req, he, hconn, rfl, Impl.isOk_submit_iff.mpr hadmits⟩
    rw [← hnew.tokens_eq]
    exact hgenuine.kept _ _ (acceptedWith_succ_iff.mpr (Or.inr hnew))
  | hangUp conn now => exact trivial
  | schedule now written => exact trivial

/-- **Payloads are genuine throughout exactly if no step replaces tokens that count.** In
every session, whatever the interleaving: the tokens of each admitted request, and every
slice that is sent of them, are those of the message that was accepted, at every moment,
exactly if every message that comes in for an admitted request carries the tokens that are
stored for it, and no request is admitted while the tokens of another message are stored
under its identity. -/
theorem forall_payloadsGenuine_iff (S : Session) :
    (∀ n, n ≤ S.events.length → S.PayloadsGenuine n) ↔
      ∀ n e, S.events[n]? = some e → (S.stateAt n).KeepsPayloads S.env e :=
  Machine.forall_iff_forall_allowed (P := S.PayloadsGenuine) (Q := S.Kept)
    (A := fun n e => (S.stateAt n).KeepsPayloads S.env e) (fun _ h => payloadsGenuine_of_kept h)
    (fun _ _ ⟨i, hi, _⟩ => absurd hi (Nat.not_lt_zero i))
    (fun _ _ he h hkeep => kept_succ he hkeep h)
    (fun _ _ he h hbreak => not_payloadsGenuine_succ he hbreak h)

/-- A worker and two clients. The second client submits other tokens under the identity of
the first one's request, and is turned away; then the request is dispatched. -/
def overwritten : Session where
  env := .standard
  startedAt := 0
  events :=
    [.receive 0 0 (.workerRegister { workerId := ⟨1⟩, bootId := ⟨7⟩, state := .ready }),
      .proceed 0 0, .receive 1 0 .hello, .receive 2 0 .hello,
      .receive 1 0 (.submit (Run.plainRequest 1 2) [5, 6]), .proceed 1 0,
      .receive 2 0 (.submit (Run.plainRequest 1 2) [7, 8]), .proceed 2 0,
      .schedule 0 true, .schedule 0 true, .schedule 0 true, .schedule 0 true, .schedule 0 true,
      .schedule 0 true]

/-- The second message is refused, and its tokens are sent. -/
theorem not_payloadsGenuine_overwritten :
    (overwritten.stateAt 8).tokens.lookup ⟨1⟩ = some [7, 8] ∧
      ¬overwritten.PayloadsGenuine 8 ∧
      ((overwritten.stateAt 13).step .standard (.schedule 0 true)).2.map (fun sent =>
        match sent.2 with
        | .dispatch d => (sent.1, d.group.rids, d.memberTokens)
        | _ => (sent.1, [], [])) = some (0, [⟨1⟩], [7, 8]) := by
  have haccepted : overwritten.AcceptedWith 8 ⟨1⟩ [5, 6] :=
    ⟨5, by decide, 1, 0, Run.plainRequest 1 2, rfl, by rfl, rfl, by decide +kernel⟩
  have hstored : (overwritten.stateAt 8).tokens.lookup ⟨1⟩ = some [7, 8] := by decide +kernel
  refine ⟨hstored, fun h => ?_, by decide +kernel⟩
  have hkept := h.kept _ _ haccepted
  rw [hstored] at hkept
  revert hkept
  decide

end Session

end PrefillFabric
