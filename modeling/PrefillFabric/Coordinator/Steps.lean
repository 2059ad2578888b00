import PrefillFabric.Coordinator.State
import PrefillFabric.Scheduler.History

/-!
# What a step of the coordinator does

Each of the things the threads share is changed by few of the steps, and this file says by
which. `Coordinator.call` is the call a step makes to the scheduler, and
`Coordinator.stored` the tokens it stores; the scheduler and the tokens after a step are
determined by these (`shared_step`). Sockets only go when their connection breaks off; the loop
is moved by no other thread (`step_aside`), and what it still has to dispatch comes from the
cycle before.

A `Session` is a coordinator together with the events that happen to it.
-/

namespace PrefillFabric

variable {env : Env}

/-- A submission without tokens, which the scheduler makes up. -/
def Op.submit (req : PrefillRequest) : Op :=
  .submitWithTokens req
    (Impl.makeTokens req.promptTokenCount.toNat (0x9E3779B97F4A7C15 ^^^ .ofNat req.requestId.value))

/-- The dispatch among what is sent. -/
def Sent.dispatch? : ConnectionId × Sent → Option (ConnectionId × Dispatch)
  | (conn, .dispatch d) => some (conn, d)
  | _ => none

/-- An event that is not the loop's own. -/
def NetEvent.Aside : NetEvent → Prop
  | .schedule _ _ => False
  | _ => True

namespace Coordinator

variable {c : Coordinator} {e : NetEvent}

/-! ### The scheduler -/

/-- The call to the scheduler that a step makes. -/
def call (c : Coordinator) : NetEvent → Option Call
  | .receive conn now msg =>
    match c.handlers.lookup conn with
    | some (.serving .client) =>
      match msg with
      | .cancel r => some ⟨now, .cancel r⟩
      | .rollEpoch => some ⟨now, .rollEpoch⟩
      | _ => none
    | _ => none
  | .proceed conn now =>
    match c.handlers.lookup conn with
    | some (.registering wd) => some ⟨now, .registerWorker wd⟩
    | some (.submitting req _) => some ⟨now, .submit req⟩
    | some (.completing _ (result :: _)) => some ⟨now, .reportCompletion result⟩
    | _ => none
  | .hangUp conn now =>
    match c.handlers.lookup conn with
    | some (.serving (.worker wd)) => some ⟨now, .workerLost wd.workerId⟩
    | _ => none
  | .schedule now _ =>
    match c.loop with
    | .resting => some ⟨now, .runCycle⟩
    | .blaming w _ => some ⟨now, .workerLost w⟩
    | _ => none

/-- **The calls that are made**, and what makes them. -/
inductive Calls (c : Coordinator) : NetEvent → Call → Prop
  | cancel {conn : ConnectionId} {now : Nanoseconds} {r : RequestId}
      (h : c.handlers.lookup conn = some (.serving .client)) :
      Calls c (.receive conn now (.cancel r)) ⟨now, .cancel r⟩
  | rollEpoch {conn : ConnectionId} {now : Nanoseconds}
      (h : c.handlers.lookup conn = some (.serving .client)) :
      Calls c (.receive conn now .rollEpoch) ⟨now, .rollEpoch⟩
  | register {conn : ConnectionId} {now : Nanoseconds} {wd : WorkerDescriptor}
      (h : c.handlers.lookup conn = some (.registering wd)) :
      Calls c (.proceed conn now) ⟨now, .registerWorker wd⟩
  | submit {conn : ConnectionId} {now : Nanoseconds} {req : PrefillRequest} {tokens : List UInt32}
      (h : c.handlers.lookup conn = some (.submitting req tokens)) :
      Calls c (.proceed conn now) ⟨now, .submit req⟩
  | report {conn : ConnectionId} {now : Nanoseconds} {peer : Peer} {result : MemberResult}
      {rest : List MemberResult}
      (h : c.handlers.lookup conn = some (.completing peer (result :: rest))) :
      Calls c (.proceed conn now) ⟨now, .reportCompletion result⟩
  | hangUp {conn : ConnectionId} {now : Nanoseconds} {wd : WorkerDescriptor}
      (h : c.handlers.lookup conn = some (.serving (.worker wd))) :
      Calls c (.hangUp conn now) ⟨now, .workerLost wd.workerId⟩
  | cycle {now : Nanoseconds} {written : Bool} (h : c.loop = .resting) :
      Calls c (.schedule now written) ⟨now, .runCycle⟩
  | blame {now : Nanoseconds} {written : Bool} {w : WorkerId} {rest : List DispatchedGroup}
      (h : c.loop = .blaming w rest) :
      Calls c (.schedule now written) ⟨now, .workerLost w⟩

theorem calls_of_call {k : Call} (h : c.call e = some k) : c.Calls e k := by
  have hnone : ∀ {P : Prop}, none = some k → P := fun h => absurd h (Option.some_ne_none k).symm
  cases e with
  | receive conn now msg =>
    unfold call at h
    dsimp only at h
    rcases hconn : c.handlers.lookup conn with _ | (_ | _) | _ | _ | _ | _ <;> rw [hconn] at h
    case some.serving.client =>
      cases msg with
      | cancel r => exact Option.some.inj h ▸ .cancel hconn
      | rollEpoch => exact Option.some.inj h ▸ .rollEpoch hconn
      | _ => exact hnone h
    all_goals exact hnone h
  | proceed conn now =>
    unfold call at h
    dsimp only at h
    rcases hconn : c.handlers.lookup conn with _ | _ | _ | _ | ⟨peer, _ | ⟨result, rest⟩⟩ | _ <;>
      rw [hconn] at h
    case some.registering => exact Option.some.inj h ▸ .register hconn
    case some.submitting => exact Option.some.inj h ▸ .submit hconn
    case some.completing.cons => exact Option.some.inj h ▸ .report hconn
    all_goals exact hnone h
  | hangUp conn now =>
    unfold call at h
    dsimp only at h
    rcases hconn : c.handlers.lookup conn with _ | (_ | _) | _ | _ | _ | _ <;> rw [hconn] at h
    case some.serving.worker => exact Option.some.inj h ▸ .hangUp hconn
    all_goals exact hnone h
  | schedule now written =>
    unfold call at h
    dsimp only at h
    rcases hloop : c.loop with _ | _ | _ | _ | _ | _ <;> rw [hloop] at h
    case resting => exact Option.some.inj h ▸ .cycle hloop
    case blaming => exact Option.some.inj h ▸ .blame hloop
    all_goals exact hnone h

/-- The tokens that a step stores, and the request they are stored for. -/
def stored (c : Coordinator) : NetEvent → Option (RequestId × List UInt32)
  | .receive conn _ msg =>
    match c.handlers.lookup conn with
    | some (.serving .client) =>
      match msg with
      | .submit req tokens => some (req.requestId, tokens)
      | _ => none
    | _ => none
  | _ => none

theorem exists_of_stored {r : RequestId} {tokens : List UInt32}
    (h : c.stored e = some (r, tokens)) :
    ∃ conn now req, e = .receive conn now (.submit req tokens) ∧
      c.handlers.lookup conn = some (.serving .client) ∧ req.requestId = r := by
  have hnone : ∀ {P : Prop}, none = some (r, tokens) → P :=
    fun h => absurd h (Option.some_ne_none _).symm
  cases e with
  | receive conn now msg =>
    unfold stored at h
    dsimp only at h
    rcases hconn : c.handlers.lookup conn with _ | (_ | _) | _ | _ | _ | _ <;> rw [hconn] at h
    case some.serving.client =>
      cases msg with
      | submit req toks =>
        obtain ⟨rfl, rfl⟩ := Prod.mk.inj (Option.some.inj h)
        exact ⟨conn, now, req, rfl, hconn, rfl⟩
      | _ => exact hnone h
    all_goals exact hnone h
  | _ => exact hnone h

/-- **What a step does to the scheduler and the tokens.** -/
theorem shared_step (env : Env) (c : Coordinator) (e : NetEvent) :
    (c.step env e).1.scheduler =
        (match c.call e with
          | none => c.scheduler
          | some call => (c.scheduler.step env call).1) ∧
      (c.step env e).1.tokens =
        match c.stored e with
          | none => c.tokens
          | some (r, tokens) => c.tokens.insert r tokens := by
  cases e with
  | receive conn now msg =>
    unfold step receive call stored
    dsimp only
    rcases c.handlers.lookup conn with _ | (_ | _) | _ | _ | _ | _
    case none =>
      cases msg with
      | workerRegister wd =>
        dsimp only [greet]
        split_ifs <;> exact ⟨rfl, rfl⟩
      | _ => exact ⟨rfl, rfl⟩
    all_goals cases msg <;> exact ⟨rfl, rfl⟩
  | proceed conn now =>
    unfold step proceed call stored
    dsimp only
    rcases c.handlers.lookup conn with _ | _ | _ | _ | ⟨peer, _ | ⟨result, rest⟩⟩ | _
    case some.completing.cons =>
      dsimp only
      cases hr : (c.scheduler.reportCompletion env now result).2 <;> exact ⟨rfl, rfl⟩
    all_goals exact ⟨rfl, rfl⟩
  | hangUp conn now =>
    unfold step hangUp call stored
    dsimp only
    rcases c.handlers.lookup conn with _ | (_ | _) | _ | _ | _ | _
    case some.serving.worker wd =>
      dsimp only
      split_ifs <;> exact ⟨rfl, rfl⟩
    all_goals exact ⟨rfl, rfl⟩
  | schedule now written =>
    unfold step scheduleLoop call stored
    dsimp only
    rcases c.loop with _ | (_ | ⟨dg, rest⟩) | _ | _ | ⟨dg, sock, d, (_ | ⟨m, left⟩), rest⟩ | _
    case resting =>
      dsimp only
      rw [Impl.step_runCycle]
      exact ⟨rfl, rfl⟩
    case dispatching.cons =>
      dsimp only
      cases c.workerSocks.lookup dg.assignedWorker <;> exact ⟨rfl, rfl⟩
    case slicing.nil =>
      dsimp only
      split_ifs <;> exact ⟨rfl, rfl⟩
    case slicing.cons =>
      dsimp only
      cases c.slice m <;> exact ⟨rfl, rfl⟩
    all_goals exact ⟨rfl, rfl⟩

theorem scheduler_step_of_none (h : c.call e = none) :
    (c.step env e).1.scheduler = c.scheduler := by
  rw [(shared_step env c e).1, h]

theorem scheduler_step_of_some {call : Call} (h : c.call e = some call) :
    (c.step env e).1.scheduler = (c.scheduler.step env call).1 := by
  rw [(shared_step env c e).1, h]

theorem tokens_step_of_none (h : c.stored e = none) : (c.step env e).1.tokens = c.tokens := by
  rw [(shared_step env c e).2, h]

theorem tokens_step_of_some {r : RequestId} {tokens : List UInt32}
    (h : c.stored e = some (r, tokens)) :
    (c.step env e).1.tokens = c.tokens.insert r tokens := by
  rw [(shared_step env c e).2, h]

/-! ### Sockets and handlers -/

/-- **What a step does to the sockets and the handlers.** -/
inductive Seats (c : Coordinator) : NetEvent → Coordinator → Prop
  /-- The sockets stay, and no handler comes to register anybody. -/
  | keep {e : NetEvent} {c' : Coordinator} (hsocks : c'.workerSocks = c.workerSocks)
      (hhandlers : c'.handlers = c.handlers ∨
        ∃ x h, (∀ wd, h ≠ .registering wd) ∧ c'.handlers = c.handlers.insert x h) : Seats c e c'
  /-- A worker announces itself. -/
  | enter {x : ConnectionId} {now : Nanoseconds} {wd : WorkerDescriptor} {c' : Coordinator}
      (hid : wd.workerId.isNil = false)
      (hsocks : c'.workerSocks = c.workerSocks.insert wd.workerId x)
      (hhandlers : c'.handlers = c.handlers.insert x (.registering wd)) :
      Seats c (.receive x now (.workerRegister wd)) c'
  /-- The connection of a worker breaks off. -/
  | leave {x : ConnectionId} {now : Nanoseconds} {wd : WorkerDescriptor} {c' : Coordinator}
      (h : c.handlers.lookup x = some (.serving (.worker wd)))
      (hsocks : c'.workerSocks = c.workerSocks.erase wd.workerId)
      (hhandlers : c'.handlers = c.handlers.insert x .finished) : Seats c (.hangUp x now) c'

theorem Seats.stay {c' : Coordinator} (hsocks : c'.workerSocks = c.workerSocks)
    (hhandlers : c'.handlers = c.handlers) : c.Seats e c' :=
  .keep hsocks (Or.inl hhandlers)

theorem Seats.move {c' : Coordinator} (x : ConnectionId) {h : Handler}
    (hne : ∀ wd, h ≠ .registering wd) (hsocks : c'.workerSocks = c.workerSocks)
    (hhandlers : c'.handlers = c.handlers.insert x h) : c.Seats e c' :=
  .keep hsocks (Or.inr ⟨x, h, hne, hhandlers⟩)

theorem seats_step (env : Env) (c : Coordinator) (e : NetEvent) : c.Seats e (c.step env e).1 := by
  cases e with
  | receive conn now msg =>
    unfold step receive
    dsimp only
    rcases c.handlers.lookup conn with _ | (_ | _) | _ | _ | _ | _
    case none =>
      cases msg with
      | workerRegister wd =>
        dsimp only [greet]
        split_ifs with hid
        · exact .move conn (fun _ => Handler.noConfusion) rfl rfl
        · exact .enter (Bool.eq_false_iff.mpr hid) rfl rfl
      | _ => exact .move conn (fun _ => Handler.noConfusion) rfl rfl
    all_goals cases msg <;>
      first
      | exact .stay rfl rfl
      | exact .move conn (fun _ => Handler.noConfusion) rfl rfl
  | proceed conn now =>
    unfold step proceed
    dsimp only
    rcases c.handlers.lookup conn with _ | _ | _ | _ | ⟨peer, _ | ⟨result, rest⟩⟩ | _
    case some.completing.cons =>
      dsimp only
      cases (c.scheduler.reportCompletion env now result).2 <;>
        exact .move conn (fun _ => Handler.noConfusion) rfl rfl
    all_goals
      first
      | exact .stay rfl rfl
      | exact .move conn (fun _ => Handler.noConfusion) rfl rfl
  | hangUp conn now =>
    unfold step hangUp
    dsimp only
    rcases hconn : c.handlers.lookup conn with _ | (_ | _) | _ | _ | _ | _
    case some.serving.worker wd =>
      dsimp only
      split_ifs
      · exact .leave hconn rfl rfl
      · exact .move conn (fun _ => Handler.noConfusion) rfl rfl
    all_goals
      first
      | exact .stay rfl rfl
      | exact .move conn (fun _ => Handler.noConfusion) rfl rfl
  | schedule now written =>
    unfold step scheduleLoop
    dsimp only
    rcases c.loop with _ | (_ | ⟨dg, rest⟩) | _ | _ | ⟨dg, sock, d, (_ | ⟨m, left⟩), rest⟩ | _
    case dispatching.cons =>
      dsimp only
      cases c.workerSocks.lookup dg.assignedWorker <;> exact .stay rfl rfl
    case slicing.nil =>
      dsimp only
      split_ifs <;> exact .stay rfl rfl
    case slicing.cons =>
      dsimp only
      cases c.slice m <;> exact .stay rfl rfl
    all_goals exact .stay rfl rfl

/-! ### The loop -/

/-- **Only the loop itself moves the loop**, and nobody else sends a dispatch. -/
theorem step_aside (env : Env) (c : Coordinator) (h : e.Aside) :
    (c.step env e).1.loop = c.loop ∧ (c.step env e).2.bind Sent.dispatch? = none := by
  cases e with
  | receive conn now msg =>
    unfold step receive
    dsimp only
    rcases c.handlers.lookup conn with _ | (_ | _) | _ | _ | _ | _
    case none =>
      cases msg with
      | workerRegister wd =>
        dsimp only [greet]
        split_ifs <;> exact ⟨rfl, rfl⟩
      | _ => exact ⟨rfl, rfl⟩
    all_goals cases msg <;> exact ⟨rfl, rfl⟩
  | proceed conn now =>
    unfold step proceed
    dsimp only
    rcases c.handlers.lookup conn with _ | _ | _ | _ | ⟨peer, _ | ⟨result, rest⟩⟩ | _
    case some.completing.cons =>
      dsimp only
      cases (c.scheduler.reportCompletion env now result).2 <;> exact ⟨rfl, rfl⟩
    all_goals exact ⟨rfl, rfl⟩
  | hangUp conn now =>
    unfold step hangUp
    dsimp only
    rcases c.handlers.lookup conn with _ | (_ | _) | _ | _ | _ | _
    case some.serving.worker wd =>
      dsimp only
      split_ifs <;> exact ⟨rfl, rfl⟩
    all_goals exact ⟨rfl, rfl⟩
  | schedule now written => exact False.elim h

theorem loop_step (env : Env) (c : Coordinator) (h : e.Aside) :
    (c.step env e).1.loop = c.loop :=
  (step_aside env c h).1

end Coordinator

namespace ScheduleLoop

/-- The groups whose dispatch is not finished. -/
def groups : ScheduleLoop → List DispatchedGroup
  | resting => []
  | dispatching gs => gs
  | addressed dg _ rest | stamped dg _ _ rest | slicing dg _ _ _ rest => dg :: rest
  | blaming _ rest => rest

/-- The members whose tokens are still to be copied. -/
def members : ScheduleLoop → List ExecutableMember
  | resting => []
  | dispatching gs => gs.flatMap (·.group.members)
  | addressed dg _ rest | stamped dg _ _ rest => dg.group.members ++ rest.flatMap (·.group.members)
  | slicing _ _ _ left rest => left ++ rest.flatMap (·.group.members)
  | blaming _ rest => rest.flatMap (·.group.members)

end ScheduleLoop

namespace Coordinator

variable {c : Coordinator}

/-- **What the loop has to dispatch comes from the cycle.** -/
theorem loop_scheduleLoop (env : Env) (now : Nanoseconds) (written : Bool) (c : Coordinator) :
    ((c.scheduleLoop env now written).1.loop.groups ⊆ c.loop.groups ∧
      (c.scheduleLoop env now written).1.loop.members ⊆ c.loop.members) ∨
    (c.loop = .resting ∧
      (c.scheduleLoop env now written).1.loop =
        .dispatching (c.scheduler.runCycle env now).2.groups) := by
  unfold scheduleLoop
  rcases c.loop with _ | (_ | ⟨dg, rest⟩) | _ | _ | ⟨dg, sock, d, (_ | ⟨m, left⟩), rest⟩ | _
  case resting => exact Or.inr ⟨rfl, rfl⟩
  all_goals refine Or.inl ?_
  case dispatching.cons =>
    dsimp only
    cases c.workerSocks.lookup dg.assignedWorker with
    | none => exact ⟨List.subset_cons_self .., List.subset_append_right ..⟩
    | some sock => exact ⟨List.Subset.refl _, List.Subset.refl _⟩
  case slicing.nil =>
    dsimp only
    split_ifs
    · exact ⟨List.subset_cons_self .., List.Subset.refl _⟩
    · exact ⟨List.subset_cons_self .., List.Subset.refl _⟩
  case slicing.cons =>
    dsimp only
    cases c.slice m with
    | none => exact ⟨List.subset_cons_self .., List.subset_append_right ..⟩
    | some tokens => exact ⟨List.Subset.refl _, List.subset_cons_self ..⟩
  all_goals exact ⟨List.Subset.refl _, List.Subset.refl _⟩

end Coordinator

/-! ### What the scheduler knows -/

section Known

variable {v v' : View} {l : Label} {L : Label → Prop} {ms : List ExecutableMember}
  {r : RequestId} {s : Rs}

/-- A member is of a request that is known, and ends within its remaining tokens. -/
def View.Covers (v : View) (m : ExecutableMember) : Prop :=
  ∃ s, v.req m.requestId = some s ∧
    m.tokenStart + m.tokenCount ≤ s.request.remainingPrefillTokens

theorem Effects.req_eq_none_or_enter (h : Effects env L v ms v') (hr : v.req r = none) :
    v'.req r = none ∨ L (.enter r) := by
  induction h with
  | refl => exact Or.inl hr
  | tail _ hl hL ih =>
    rcases ih with hnone | henter
    · rcases hl.req_eq_none_or_enter hnone with hnone' | ⟨-, -, -, rfl, -⟩
      · exact Or.inl hnone'
      · exact Or.inr hL
    · exact Or.inr henter

/-- The chunk a waiting request is at ends within its remaining tokens. -/
theorem Rs.Sane.nextChunk_le (h : s.Sane env) (hwait : s.isWaiting = true) :
    s.nextChunk.tokenStart + s.nextChunk.tokenCount ≤ s.request.remainingPrefillTokens := by
  have hlt : s.nextChunkIndex < s.plan.chunks.length := (Rs.isWaiting_iff.mp hwait).2.2
  have hmem : s.nextChunk ∈ s.plan.chunks :=
    List.mem_of_getElem? (Rs.getElem?_nextChunkIndex hlt)
  rw [h.plan_eq] at hmem
  exact ChunkPlanner.end_le_of_mem_plan env _ _ _ hmem

/-- **What is handed out is a chunk of a plan**: the one that a request was at while it waited,
and the request is known from then on. -/
theorem Effects.exists_carries (h : Effects env L v ms v') (hsane : v.Each fun _ s => s.Sane env) :
    ∀ m ∈ ms, ∃ s s', s.Sane env ∧ s.isWaiting = true ∧ m.Carries s ∧
      v'.req m.requestId = some s' ∧ s'.request = s.request := by
  have hkeep : (v'.Each fun _ s => s.Sane env) ∧ ∀ m ∈ ms, ∃ s s', s.Sane env ∧
      s.isWaiting = true ∧ m.Carries s ∧ v'.req m.requestId = some s' ∧
        s'.request = s.request := by
    induction h with
    | refl => exact ⟨hsane, fun m hm => absurd hm List.not_mem_nil⟩
    | tail _ hl _ ih =>
      obtain ⟨hsane', hcarried⟩ := ih
      refine ⟨hl.each (fun now req _ _ => Rs.sane_admitted now req _)
        (fun _ _ _ _ hfate hs => hfate.sane hs) hsane', fun m hm => ?_⟩
      rcases List.mem_append.mp hm with hold | hnew
      · obtain ⟨s, t, hs, hwait, hcarries, ht, heq⟩ := hcarried m hold
        obtain ⟨t', ht', hreq⟩ := hl.exists_request ht
        exact ⟨s, t', hs, hwait, hcarries, ht', hreq.trans heq⟩
      · cases hl with
        | launch hlaunch =>
          obtain ⟨t, res, ht, hwait, hcarries, hreq⟩ := hlaunch.exists_of_mem hnew
          exact ⟨t, _, hsane' _ t ht, hwait, hcarries, hreq, rfl⟩
        | _ => exact absurd hnew List.not_mem_nil
  exact hkeep.2

/-- What is handed out is covered. -/
theorem Effects.covers (h : Effects env L v ms v') (hsane : v.Each fun _ s => s.Sane env) :
    ∀ m ∈ ms, v'.Covers m := by
  intro m hm
  obtain ⟨s, s', hs, hwait, hcarries, hreq, heq⟩ := h.exists_carries hsane m hm
  refine ⟨s', hreq, ?_⟩
  rw [heq, hcarries.start, hcarries.count]
  exact hs.nextChunk_le hwait

end Known

namespace Impl

variable {σ : Impl} {r : RequestId} {s : Rs}

theorem exists_request_step (env : Env) (hwf : σ.view.Wf) (call : Call)
    (hs : σ.view.req r = some s) :
    ∃ s', (σ.step env call).1.view.req r = some s' ∧ s'.request = s.request :=
  (effects_step env hwf call).exists_request hs

/-- An accepted submission makes its request known. -/
theorem req_submitWithTokens {now : Nanoseconds} {req : PrefillRequest} {tokens : List UInt32}
    (hok : isOk (σ.submitWithTokens env now req tokens).2 = true) :
    (σ.submitWithTokens env now req tokens).1.view.req req.requestId =
      some (.admitted env now req ⟨σ.nextAttemptValue⟩) := by
  have hsubmission := σ.submission env now req tokens
  generalize σ.submitWithTokens env now req tokens = out at hok hsubmission
  cases hsubmission with
  | admitted =>
    rw [view_admitRequest]
    exact Function.update_self ..
  | _ => exact Bool.noConfusion hok

/-- **A request becomes known by an accepted submission**, and in no other way. -/
theorem req_eq_none_or_submit (env : Env) (hwf : σ.view.Wf) (call : Call)
    (hr : σ.view.req r = none) :
    (σ.step env call).1.view.req r = none ∨ ∃ req tokens,
      call.op = .submitWithTokens req tokens ∧ req.requestId = r ∧
        isOk (σ.submitWithTokens env call.now req tokens).2 = true := by
  rcases (effects_step env hwf call).req_eq_none_or_enter hr with hnone | henter
  · exact Or.inl hnone
  · obtain ⟨now, op⟩ := call
    cases op with
    | submitWithTokens req tokens =>
      rcases σ.effect_submitWithTokens env now req tokens with ⟨-, hview⟩ | ⟨hok, -⟩
      · refine Or.inl ?_
        change (σ.submitWithTokens env now req tokens).1.view.req r = none
        rw [hview]
        exact hr
      · exact Or.inr ⟨req, tokens, rfl, Eq.symm henter, hok⟩
    | _ => exact (show False from henter).elim

end Impl

/-! ### Sessions -/

/-- A coordinator, when it was started, and what happens to it. -/
structure Session where
  env : Env
  startedAt : Nanoseconds
  events : List NetEvent

namespace Session

variable {S : Session} {n : ℕ}

/-- The coordinator before event number `n`. -/
def stateAt (S : Session) (n : ℕ) : Coordinator :=
  (coordinator S.env S.startedAt).stateAt S.events n

theorem stateAt_succ {e : NetEvent} (h : S.events[n]? = some e) :
    S.stateAt (n + 1) = ((S.stateAt n).step S.env e).1 :=
  Machine.stateAt_succ h

theorem stateAt_succ_of_none (h : S.events[n]? = none) : S.stateAt (n + 1) = S.stateAt n :=
  Machine.stateAt_succ_of_none h

/-- **The rule for invariants of the scheduler**: what is true of a fresh scheduler and kept
by every effect is true of the scheduler of a coordinator at all times. -/
theorem view_invariant {P : View → Prop} (hP₀ : P (Impl.fresh S.env).view)
    (hP : ∀ v l v', v.Wf → Effect S.env v l v' → P v → P v') (n : ℕ) :
    (S.stateAt n).scheduler.view.Wf ∧ P (S.stateAt n).scheduler.view := by
  have hcall : ∀ {σ : Impl} (call : Call), σ.view.Wf ∧ P σ.view →
      (σ.step S.env call).1.view.Wf ∧ P (σ.step S.env call).1.view := by
    intro σ call h
    exact (Impl.effects_step S.env h.1 call).invariant (P := fun v => v.Wf ∧ P v)
      (fun v l v' hl _ hv => ⟨hl.wf hv.1, hP v l v' hv.1 hl hv.2⟩) h
  refine Machine.invariant (M := coordinator S.env S.startedAt)
    (P := fun c => c.scheduler.view.Wf ∧ P c.scheduler.view) ?_ (fun c e h => ?_) n
  · exact hcall ⟨S.startedAt, .unregisterWorker .nil⟩ ⟨Impl.wf_fresh S.env, hP₀⟩
  · change (c.step S.env e).1.scheduler.view.Wf ∧ P (c.step S.env e).1.scheduler.view
    cases hk : c.call e with
    | none => rwa [Coordinator.scheduler_step_of_none hk]
    | some call =>
      rw [Coordinator.scheduler_step_of_some hk]
      exact hcall call h

theorem sane (S : Session) (n : ℕ) :
    (S.stateAt n).scheduler.view.Wf ∧
      (S.stateAt n).scheduler.view.Each fun _ s => s.Sane S.env :=
  view_invariant (P := View.Each fun _ s => s.Sane S.env)
    (fun _ s h => absurd h (Option.some_ne_none s).symm)
    (fun _ _ _ _ h hv => h.each (fun now req _ _ => Rs.sane_admitted now req _)
      (fun _ _ _ _ hfate hs => hfate.sane hs) hv) n

theorem wf (S : Session) (n : ℕ) : (S.stateAt n).scheduler.view.Wf := (S.sane n).1

/-- What is known stays known, as the same request. -/
theorem exists_request_succ {r : RequestId} {s : Rs}
    (hs : (S.stateAt n).scheduler.view.req r = some s) :
    ∃ s', (S.stateAt (n + 1)).scheduler.view.req r = some s' ∧ s'.request = s.request := by
  cases he : S.events[n]? with
  | none => exact ⟨s, by rw [stateAt_succ_of_none he]; exact hs, rfl⟩
  | some e =>
    rw [stateAt_succ he]
    cases hk : (S.stateAt n).call e with
    | none => exact ⟨s, by rw [Coordinator.scheduler_step_of_none hk]; exact hs, rfl⟩
    | some call =>
      rw [Coordinator.scheduler_step_of_some hk]
      exact Impl.exists_request_step S.env (S.wf n) call hs

/-- **Whatever is still to be dispatched is covered** by what the scheduler knows. -/
theorem covers_members (S : Session) (n : ℕ) :
    ∀ m ∈ (S.stateAt n).loop.members, (S.stateAt n).scheduler.view.Covers m := by
  induction n with
  | zero => exact fun m hm => absurd hm List.not_mem_nil
  | succ n ih =>
    have hkeep : ∀ m, m ∈ (S.stateAt n).loop.members →
        (S.stateAt (n + 1)).scheduler.view.Covers m := by
      intro m hm
      obtain ⟨s, hs, hle⟩ := ih m hm
      obtain ⟨s', hs', hreq⟩ := exists_request_succ hs
      exact ⟨s', hs', by rwa [hreq]⟩
    cases he : S.events[n]? with
    | none =>
      intro m hm
      rw [stateAt_succ_of_none he] at hm
      exact hkeep m hm
    | some e =>
      intro m hm
      have hnext := stateAt_succ he
      rw [hnext] at hm
      have haside := (S.stateAt n).loop_step S.env (e := e)
      cases e with
      | schedule now written =>
        rcases (S.stateAt n).loop_scheduleLoop S.env now written with ⟨-, hsub⟩ | ⟨hrest, hloop⟩
        · exact hkeep m (hsub hm)
        · have hcall : (S.stateAt n).call (.schedule now written) = some ⟨now, .runCycle⟩ := by
            rw [Coordinator.call, hrest]
          change m ∈ ((S.stateAt n).scheduleLoop S.env now written).1.loop.members at hm
          rw [hloop] at hm
          rw [hnext, Coordinator.scheduler_step_of_some hcall, Impl.step_runCycle]
          exact (Impl.effects_runCycle S.env now (S.wf n)).covers (S.sane n).2 m hm
      | _ => exact hkeep m (haside trivial ▸ hm)

end Session

end PrefillFabric
