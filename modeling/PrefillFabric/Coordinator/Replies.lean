import PrefillFabric.Coordinator.Sending

/-!
# Questions and answers

Every connection has a handler of its own, which takes up one message after the other, and other
threads may come in between: the handler of another connection, while this one has stored the
tokens of a submission and not yet asked the scheduler; the loop, which writes its dispatches to
the same sockets. What does a peer see of this?

Nothing but a conversation. The messages that a handler has taken up are, in their order, those
that it is done with and at most one in whose middle it is; and what it has sent are the answers
to the former, in the same order, at most one each (`Session.exists_exchanges`). A handler is done
with a submission, or a cancellation, in the step in which it calls the scheduler, and answers
what the scheduler says in this step. So the scheduler that a client talks to might as well be
its own: each of its calls takes effect at one moment between the message and the answer, and
these moments come in the order of the messages.

To the results it reports a worker has an answer only if one of them is refused; no answer means
that they have all been accepted. Dispatches go only to connections that have introduced
themselves as those of a worker.

The answers to queries and pings are not part of the model of the coordinator, and nothing is said
of them here.
-/

namespace PrefillFabric

/-- What handlers send. Dispatches are sent by the loop. -/
def Sent.reply? : Sent → Option Sent
  | .dispatch _ => none
  | s => some s

namespace Handler

/-- A handler in the middle of a message. -/
def isBusy : Handler → Bool
  | registering _ | submitting _ _ | completing _ _ => true
  | serving _ | finished => false

/-- **A handler is in the middle of this message**, which came from this peer, and has reported
these results of it. -/
inductive Handles : Handler → Option Peer → Message → List MemberResult → Prop
  | registering {wd : WorkerDescriptor} (hid : wd.workerId.isNil = false) :
      Handles (.registering wd) none (.workerRegister wd) []
  | submitting (req : PrefillRequest) (tokens : List UInt32) :
      Handles (.submitting req tokens) (some .client) (.submit req tokens) []
  | completing (peer : Peer) (reported rest : List MemberResult) :
      Handles (.completing peer rest) (some peer) (.completion (reported ++ rest)) reported

theorem Handles.isBusy {h : Handler} {peer : Option Peer} {msg : Message}
    {reported : List MemberResult} (hh : h.Handles peer msg reported) : h.isBusy = true := by
  cases hh <;> rfl

end Handler

/-- The socket that a dispatch is for. -/
def ScheduleLoop.sock? : ScheduleLoop → Option ConnectionId
  | addressed _ sock _ | stamped _ sock _ _ | slicing _ sock _ _ _ => some sock
  | _ => none

/-! ### Steps -/

namespace Coordinator

variable {env : Env} {c : Coordinator} {conn : ConnectionId} {e : NetEvent}

/-- No message is being handled. -/
def Idle (c : Coordinator) (conn : ConnectionId) : Prop :=
  ∀ h, c.handlers.lookup conn = some h → h.isBusy = false

/-- Whom a handler waits for: anybody, at first, and then its peer. -/
def awaits (c : Coordinator) (conn : ConnectionId) : Option (Option Peer) :=
  match c.handlers.lookup conn with
  | none => some none
  | some (.serving peer) => some (some peer)
  | some _ => none

/-- The message that a step takes up on a connection, and whom it comes from. -/
def takes (c : Coordinator) (conn : ConnectionId) : NetEvent → Option (Option Peer × Message)
  | .receive x _ msg => if x = conn then (c.awaits conn).map (·, msg) else none
  | _ => none

/-- What a step answers on a connection. -/
def replies (env : Env) (c : Coordinator) (conn : ConnectionId) (e : NetEvent) : Option Sent :=
  (c.step env e).2.bind fun p => if p.1 = conn then p.2.reply? else none

/-- **The answer that is due** when a handler is done with a message. To a submission and to a
cancellation it is what the scheduler says, which is called in this step. -/
def Due (env : Env) (c : Coordinator) (e : NetEvent) : Option Peer → Message → Option Sent → Prop
  | none, .hello, reply => reply = none
  | none, .malformed, reply => reply = none
  | none, .workerRegister wd, reply =>
    if wd.workerId.isNil then reply = none
    else ∃ epoch, reply = some (.workerRegisterAck epoch wd)
  | none, _, reply =>
    reply = some (.error .nil ⟨.protocolViolation, "expected hello or worker_register"⟩)
  | some .client, .submit req _, reply => ∃ now, c.call e = some ⟨now, .submit req⟩ ∧
      reply = some (.submitAck req.requestId (c.scheduler.submit env now req).2)
  | some .client, .cancel r, reply => ∃ now, c.call e = some ⟨now, .cancel r⟩ ∧
      reply = some (.cancelAck r (c.scheduler.cancel now r).2)
  | some .client, .rollEpoch, reply => ∃ epoch, reply = some (.state epoch)
  | some _, .shutdown, reply => reply = some .shutdownAck
  | some _, .completion results, reply => reply = none ∨
      ∃ result ∈ results, ∃ now err, c.call e = some ⟨now, .reportCompletion result⟩ ∧
        (c.scheduler.reportCompletion env now result).2 = .error err ∧
        reply = some (.error result.requestId err)
  -- queries and pings are not told apart
  | some _, .other, _ => True
  | some _, _, reply => reply = none

theorem due_completion {peer : Peer} {results : List MemberResult} {reply : Option Sent} :
    c.Due env e (some peer) (.completion results) reply ↔ reply = none ∨
      ∃ result ∈ results, ∃ now err, c.call e = some ⟨now, .reportCompletion result⟩ ∧
        (c.scheduler.reportCompletion env now result).2 = .error err ∧
        reply = some (.error result.requestId err) := by
  cases peer <;> rfl

/-- **What a step means for a connection.** -/
inductive Turn (env : Env) (c : Coordinator) (conn : ConnectionId) (e : NetEvent) : Prop
  /-- Nothing, unless it breaks off. -/
  | aside (htakes : c.takes conn e = none) (hreplies : c.replies env conn e = none)
      (hkeeps : (c.step env e).1.handlers.lookup conn = c.handlers.lookup conn ∨
        c.Idle conn ∧ (c.step env e).1.handlers.lookup conn = some .finished)
  /-- A message is taken up, and done with at once. -/
  | atOnce {peer : Option Peer} {msg : Message} (htakes : c.takes conn e = some (peer, msg))
      (hidle : c.Idle conn) (hdue : c.Due env e peer msg (c.replies env conn e))
      (hmsg : ∀ results, msg = .completion results → peer = none)
      (hidle' : (c.step env e).1.Idle conn)
  /-- A message is taken up. -/
  | begins {peer : Option Peer} {msg : Message} {h : Handler}
      (htakes : c.takes conn e = some (peer, msg)) (hidle : c.Idle conn)
      (hreplies : c.replies env conn e = none)
      (hafter : (c.step env e).1.handlers.lookup conn = some h) (hh : h.Handles peer msg [])
  /-- A result is reported, and accepted. -/
  | onward {peer : Peer} {now : Nanoseconds} {result : MemberResult} {rest : List MemberResult}
      (he : e = .proceed conn now) (hreplies : c.replies env conn e = none)
      (hbefore : c.handlers.lookup conn = some (.completing peer (result :: rest)))
      (hok : isOk (c.scheduler.reportCompletion env now result).2 = true)
      (hafter : (c.step env e).1.handlers.lookup conn = some (.completing peer rest))
  /-- A handler is done with a message. -/
  | ends {h : Handler} {now : Nanoseconds} (he : e = .proceed conn now)
      (hbefore : c.handlers.lookup conn = some h) (hbusy : h.isBusy = true)
      (hdue : ∀ peer msg reported, h.Handles peer msg reported →
        c.Due env e peer msg (c.replies env conn e))
      (hsilent : ∀ peer rest, h = .completing peer rest → c.replies env conn e = none → rest = [])
      (hidle' : (c.step env e).1.Idle conn)

theorem idle_of_lookup {h : Handler} (hlookup : c.handlers.lookup conn = some h)
    (hbusy : h.isBusy = false) : c.Idle conn := by
  intro h' hlookup'
  obtain rfl := Option.some.inj (hlookup.symm.trans hlookup')
  exact hbusy

theorem idle_of_none (hlookup : c.handlers.lookup conn = none) : c.Idle conn :=
  fun h hh => absurd (hlookup.symm.trans hh).symm (Option.some_ne_none h)

theorem idle_insert {c' : Coordinator} {h : Handler} (hbusy : h.isBusy = false)
    (hhandlers : c'.handlers = c.handlers.insert conn h) : c'.Idle conn := by
  refine idle_of_lookup (h := h) ?_ hbusy
  rw [hhandlers, AList.lookup_insert]

/-- **A step of a handler** concerns its own connection only. -/
theorem elsewhere {x : ConnectionId} {now : Nanoseconds}
    (he : (∃ msg, e = .receive x now msg) ∨ e = .proceed x now ∨ e = .hangUp x now)
    (hne : x ≠ conn) : c.replies env conn e = none ∧
      (c.step env e).1.handlers.lookup conn = c.handlers.lookup conn := by
  have hsent : ∀ s : Sent,
      ((some (x, s)).bind fun p : ConnectionId × Sent =>
        if p.1 = conn then p.2.reply? else none) = none := fun s => if_neg hne
  have hmoved : ∀ h : Handler, (c.handlers.insert x h).lookup conn = c.handlers.lookup conn :=
    fun h => AList.lookup_insert_ne hne.symm
  unfold replies
  rcases he with ⟨msg, rfl⟩ | rfl | rfl
  · unfold step receive
    dsimp only
    rcases c.handlers.lookup x with _ | (_ | _) | _ | _ | _ | _
    case none =>
      cases msg with
      | workerRegister wd =>
        dsimp only [greet]
        split_ifs <;> exact ⟨rfl, hmoved _⟩
      | _ => first
        | exact ⟨rfl, hmoved _⟩
        | exact ⟨hsent _, hmoved _⟩
    all_goals cases msg <;> first
      | exact ⟨rfl, rfl⟩
      | exact ⟨rfl, hmoved _⟩
      | exact ⟨hsent _, rfl⟩
      | exact ⟨hsent _, hmoved _⟩
  · unfold step proceed
    dsimp only
    rcases c.handlers.lookup x with _ | _ | _ | _ | ⟨peer, _ | ⟨result, rest⟩⟩ | _
    case some.completing.cons =>
      dsimp only
      cases (c.scheduler.reportCompletion env now result).2 with
      | ok u => exact ⟨rfl, hmoved _⟩
      | error err => exact ⟨hsent _, hmoved _⟩
    all_goals first
      | exact ⟨rfl, rfl⟩
      | exact ⟨rfl, hmoved _⟩
      | exact ⟨hsent _, hmoved _⟩
  · refine ⟨rfl, ?_⟩
    unfold step hangUp
    dsimp only
    rcases c.handlers.lookup x with _ | (_ | _) | _ | _ | _ | _
    case some.serving.worker wd =>
      dsimp only
      split_ifs <;> exact hmoved _
    all_goals first
      | rfl
      | exact hmoved _

/-- The loop sends no answers and moves no handler. -/
theorem turn_schedule (env : Env) (c : Coordinator) (conn : ConnectionId) (now : Nanoseconds)
    (written : Bool) : c.Turn env conn (.schedule now written) := by
  suffices h : c.replies env conn (.schedule now written) = none ∧
      (c.step env (.schedule now written)).1.handlers = c.handlers from
    .aside rfl h.1 (Or.inl (congrArg (AList.lookup conn) h.2))
  unfold replies step scheduleLoop
  dsimp only
  rcases c.loop with _ | (_ | ⟨dg, rest⟩) | _ | _ | ⟨dg, sock, d, (_ | ⟨m, left⟩), rest⟩ | _
  case dispatching.cons =>
    dsimp only
    cases c.workerSocks.lookup dg.assignedWorker <;> exact ⟨rfl, rfl⟩
  case slicing.nil =>
    dsimp only
    split_ifs
    · exact ⟨ite_self none, rfl⟩
    · exact ⟨rfl, rfl⟩
  case slicing.cons =>
    dsimp only
    cases c.slice m <;> exact ⟨rfl, rfl⟩
  all_goals exact ⟨rfl, rfl⟩

theorem replies_eq_of_step {c' : Coordinator} {s : Sent} (hs : s.reply? = some s)
    (h : c.step env e = (c', some (conn, s))) : c.replies env conn e = some s := by
  rw [replies, h, Option.bind_some, if_pos rfl, hs]

theorem replies_eq_none_of_step {c' : Coordinator} (h : c.step env e = (c', none)) :
    c.replies env conn e = none := by
  rw [replies, h, Option.bind_none]

theorem takes_receive {now : Nanoseconds} {msg : Message} {peer : Option Peer}
    (h : c.awaits conn = some peer) : c.takes conn (.receive conn now msg) = some (peer, msg) := by
  rw [takes, if_pos rfl, h, Option.map_some]

theorem exists_of_takes {peer : Option Peer} {msg : Message}
    (h : c.takes conn e = some (peer, msg)) : ∃ now, e = .receive conn now msg := by
  cases e with
  | receive x now m =>
    rw [takes] at h
    split_ifs at h with hx
    obtain ⟨_, -, hpair⟩ := Option.map_eq_some_iff.mp h
    obtain ⟨-, rfl⟩ := Prod.mk.inj hpair
    exact ⟨now, by rw [hx]⟩
  | _ => exact absurd h.symm (Option.some_ne_none _)

/-- A message that is done with at once, and answered. -/
theorem Turn.answered {now : Nanoseconds} {msg : Message} {peer : Option Peer} {c' : Coordinator}
    {s : Sent} (hawaits : c.awaits conn = some peer) (hidle : c.Idle conn)
    (hs : s.reply? = some s) (hmsg : ∀ results, msg = .completion results → peer = none)
    (hstep : c.step env (.receive conn now msg) = (c', some (conn, s)))
    (hidle' : c'.Idle conn) (hdue : c.Due env (.receive conn now msg) peer msg (some s)) :
    c.Turn env conn (.receive conn now msg) :=
  .atOnce (takes_receive hawaits) hidle (by rwa [replies_eq_of_step hs hstep]) hmsg (by rwa [hstep])

/-- A message that is done with at once, without an answer. -/
theorem Turn.unanswered {now : Nanoseconds} {msg : Message} {peer : Option Peer}
    {c' : Coordinator} (hawaits : c.awaits conn = some peer) (hidle : c.Idle conn)
    (hmsg : ∀ results, msg = .completion results → peer = none)
    (hstep : c.step env (.receive conn now msg) = (c', none))
    (hidle' : c'.Idle conn) (hdue : c.Due env (.receive conn now msg) peer msg none) :
    c.Turn env conn (.receive conn now msg) :=
  .atOnce (takes_receive hawaits) hidle (by rwa [replies_eq_none_of_step hstep]) hmsg
    (by rwa [hstep])

/-- A message that is taken up. -/
theorem Turn.started {now : Nanoseconds} {msg : Message} {peer : Option Peer} {h : Handler}
    {c' : Coordinator} (hawaits : c.awaits conn = some peer) (hidle : c.Idle conn)
    (hstep : c.step env (.receive conn now msg) = (c', none))
    (hafter : c'.handlers = c.handlers.insert conn h) (hh : h.Handles peer msg []) :
    c.Turn env conn (.receive conn now msg) :=
  .begins (takes_receive hawaits) hidle (replies_eq_none_of_step hstep)
    (by rw [hstep, hafter, AList.lookup_insert]) hh

theorem turn_greet (env : Env) (now : Nanoseconds) (msg : Message)
    (hconn : c.handlers.lookup conn = none) : c.Turn env conn (.receive conn now msg) := by
  have hawaits : c.awaits conn = some none := by rw [awaits, hconn]
  have hidle := idle_of_none hconn
  have hstep : c.step env (.receive conn now msg) = c.greet conn msg := by
    rw [step, receive, hconn]
  cases msg with
  | hello => exact .unanswered hawaits hidle (fun _ _ => rfl) hstep (idle_insert rfl rfl) rfl
  | malformed => exact .unanswered hawaits hidle (fun _ _ => rfl) hstep (idle_insert rfl rfl) rfl
  | workerRegister wd =>
    rw [greet] at hstep
    split_ifs at hstep with hid
    · exact .unanswered hawaits hidle (fun _ _ => rfl) hstep (idle_insert rfl rfl)
        (show if _ then _ else _ by rw [if_pos hid])
    · exact .started hawaits hidle hstep rfl (.registering (Bool.eq_false_iff.mpr hid))
  | _ => exact .answered hawaits hidle rfl (fun _ _ => rfl) hstep (idle_insert rfl rfl) rfl

theorem turn_serveWorker (env : Env) (now : Nanoseconds) (msg : Message) {wd : WorkerDescriptor}
    (hconn : c.handlers.lookup conn = some (.serving (.worker wd))) :
    c.Turn env conn (.receive conn now msg) := by
  have hawaits : c.awaits conn = some (some (.worker wd)) := by rw [awaits, hconn]
  have hidle : c.Idle conn := idle_of_lookup hconn rfl
  have hstep : c.step env (.receive conn now msg) = c.serveWorker conn wd msg := by
    rw [step, receive, hconn]
  cases msg with
  | completion results => exact .started hawaits hidle hstep rfl (.completing _ [] results)
  | shutdown =>
    exact .answered hawaits hidle rfl (fun _ => Message.noConfusion) hstep (idle_insert rfl rfl) rfl
  | other => exact .unanswered hawaits hidle (fun _ => Message.noConfusion) hstep hidle trivial
  | _ => exact .unanswered hawaits hidle (fun _ => Message.noConfusion) hstep hidle rfl

theorem turn_serveClient (env : Env) (now : Nanoseconds) (msg : Message)
    (hconn : c.handlers.lookup conn = some (.serving .client)) :
    c.Turn env conn (.receive conn now msg) := by
  have hawaits : c.awaits conn = some (some .client) := by rw [awaits, hconn]
  have hidle : c.Idle conn := idle_of_lookup hconn rfl
  have hstep : c.step env (.receive conn now msg) = c.serveClient conn now msg := by
    rw [step, receive, hconn]
  cases msg with
  | submit req tokens => exact .started hawaits hidle hstep rfl (.submitting req tokens)
  | cancel r =>
    refine .answered hawaits hidle rfl (fun _ => Message.noConfusion) hstep hidle ⟨now, ?_, rfl⟩
    rw [call, hconn]
  | completion results => exact .started hawaits hidle hstep rfl (.completing _ [] results)
  | rollEpoch =>
    exact .answered hawaits hidle rfl (fun _ => Message.noConfusion) hstep hidle ⟨_, rfl⟩
  | shutdown =>
    exact .answered hawaits hidle rfl (fun _ => Message.noConfusion) hstep (idle_insert rfl rfl) rfl
  | other => exact .unanswered hawaits hidle (fun _ => Message.noConfusion) hstep hidle trivial
  | _ => exact .unanswered hawaits hidle (fun _ => Message.noConfusion) hstep hidle rfl

/-- A handler that cannot take a message does not. -/
theorem turn_deaf (env : Env) (now : Nanoseconds) (msg : Message)
    (hawaits : c.awaits conn = none) : c.Turn env conn (.receive conn now msg) := by
  have hstep : c.step env (.receive conn now msg) = (c, none) := by
    rw [step, receive]
    rw [awaits] at hawaits
    rcases hconn : c.handlers.lookup conn with _ | (_ | _) | _ | _ | _ | _ <;>
      rw [hconn] at hawaits <;> exact absurd hawaits (Option.some_ne_none _)
  refine .aside ?_ (replies_eq_none_of_step hstep) (Or.inl (by rw [hstep]))
  rw [takes, if_pos rfl, hawaits, Option.map_none]

theorem turn_proceed (env : Env) (c : Coordinator) (conn : ConnectionId) (now : Nanoseconds) :
    c.Turn env conn (.proceed conn now) := by
  have hstep : c.step env (.proceed conn now) = c.proceed env conn now := rfl
  unfold proceed at hstep
  rcases hconn : c.handlers.lookup conn with _ | _ | wd | ⟨req, tokens⟩ |
    ⟨peer, _ | ⟨result, rest⟩⟩ | _ <;> rw [hconn] at hstep
  case some.registering =>
    refine .ends rfl hconn rfl (fun peer msg reported hh => ?_) (fun _ _ => Handler.noConfusion) ?_
    · cases hh with
      | registering hid =>
        rw [replies_eq_of_step rfl hstep, Due, if_neg (Bool.eq_false_iff.mp hid)]
        exact ⟨_, rfl⟩
    · rw [hstep]
      exact idle_insert rfl rfl
  case some.submitting =>
    refine .ends rfl hconn rfl (fun peer msg reported hh => ?_) (fun _ _ => Handler.noConfusion) ?_
    · cases hh
      rw [replies_eq_of_step rfl hstep]
      exact ⟨now, by rw [call, hconn], rfl⟩
    · rw [hstep]
      exact idle_insert rfl rfl
  case some.completing.nil =>
    refine .ends rfl hconn rfl (fun peer msg reported hh => ?_) (fun _ _ heq _ => ?_) ?_
    · cases hh
      exact due_completion.mpr (Or.inl (replies_eq_none_of_step hstep))
    · exact (Handler.completing.inj heq).2.symm
    · rw [hstep]
      exact idle_insert rfl rfl
  case some.completing.cons =>
    dsimp only at hstep
    cases hreport : (c.scheduler.reportCompletion env now result).2 with
    | ok u =>
      rw [hreport] at hstep
      refine .onward rfl (replies_eq_none_of_step hstep) hconn (by rw [hreport]; rfl) ?_
      rw [hstep]
      exact AList.lookup_insert _
    | error err =>
      rw [hreport] at hstep
      have hreply : c.replies env conn _ = some (.error result.requestId err) :=
        replies_eq_of_step rfl hstep
      refine .ends rfl hconn rfl (fun peer msg reported hh => ?_) (fun _ _ _ hnone => ?_) ?_
      · cases hh
        exact due_completion.mpr (Or.inr ⟨result, List.mem_append_right _ List.mem_cons_self, now,
          err, by rw [call, hconn], hreport, hreply⟩)
      · exact absurd (hreply.symm.trans hnone) (Option.some_ne_none _)
      · rw [hstep]
        exact idle_insert rfl rfl
  all_goals exact .aside rfl (replies_eq_none_of_step hstep) (Or.inl (by rw [hstep, hconn]))

theorem turn_hangUp (env : Env) (c : Coordinator) (conn : ConnectionId) (now : Nanoseconds) :
    c.Turn env conn (.hangUp conn now) := by
  refine .aside rfl rfl ?_
  unfold step hangUp
  dsimp only
  rcases hconn : c.handlers.lookup conn with _ | (_ | _) | _ | _ | _ | _
  case none => exact Or.inr ⟨idle_of_none hconn, AList.lookup_insert _⟩
  case some.serving.worker wd =>
    dsimp only
    split_ifs <;> exact Or.inr ⟨idle_of_lookup hconn rfl, AList.lookup_insert _⟩
  case some.serving.client => exact Or.inr ⟨idle_of_lookup hconn rfl, AList.lookup_insert _⟩
  all_goals exact Or.inl hconn

/-- **Every step is a turn of the conversation**, on every connection. -/
theorem turn_step (env : Env) (c : Coordinator) (conn : ConnectionId) (e : NetEvent) :
    c.Turn env conn e := by
  have hother : ∀ {x : ConnectionId} {now : Nanoseconds},
      ((∃ msg, e = .receive x now msg) ∨ e = .proceed x now ∨ e = .hangUp x now) → x ≠ conn →
      c.takes conn e = none → c.Turn env conn e := fun he hne htakes =>
    .aside htakes (elsewhere he hne).1 (Or.inl (elsewhere he hne).2)
  cases e with
  | receive x now msg =>
    rcases eq_or_ne x conn with rfl | hne
    · cases hawaits : c.awaits x with
      | none => exact turn_deaf env now msg hawaits
      | some peer =>
        rw [awaits] at hawaits
        rcases hconn : c.handlers.lookup x with _ | (_ | _) | _ | _ | _ | _ <;>
          rw [hconn] at hawaits
        case none => exact turn_greet env now msg hconn
        case some.serving.worker => exact turn_serveWorker env now msg hconn
        case some.serving.client => exact turn_serveClient env now msg hconn
        all_goals exact absurd hawaits.symm (Option.some_ne_none _)
    · exact hother (Or.inl ⟨msg, rfl⟩) hne (if_neg hne)
  | proceed x now =>
    rcases eq_or_ne x conn with rfl | hne
    · exact turn_proceed env c x now
    · exact hother (Or.inr (Or.inl rfl)) hne rfl
  | hangUp x now =>
    rcases eq_or_ne x conn with rfl | hne
    · exact turn_hangUp env c x now
    · exact hother (Or.inr (Or.inr rfl)) hne rfl
  | schedule now written => exact turn_schedule env c conn now written

/-! ### Sockets -/

/-- A socket is entered when a worker introduces itself. -/
theorem workerSocks_step {w : WorkerId} {x : ConnectionId}
    (h : (c.step env e).1.workerSocks.lookup w = some x) :
    c.workerSocks.lookup w = some x ∨ ∃ wd, c.takes x e = some (none, .workerRegister wd) := by
  have hseats := seats_step env c e
  cases e with
  | receive conn now msg =>
    unfold step receive at h
    dsimp only at h
    rcases hconn : c.handlers.lookup conn with _ | (_ | _) | _ | _ | _ | _ <;> rw [hconn] at h
    case none =>
      cases msg with
      | workerRegister wd =>
        dsimp only [greet] at h
        split_ifs at h
        · exact Or.inl h
        · change (c.workerSocks.insert wd.workerId conn).lookup w = some x at h
          rw [AList.lookup_insert_eq_ite] at h
          split_ifs at h
          · obtain rfl := Option.some.inj h
            exact Or.inr ⟨wd, takes_receive (by rw [awaits, hconn])⟩
          · exact Or.inl h
      | _ => exact Or.inl h
    all_goals cases msg <;> exact Or.inl h
  | hangUp conn now =>
    cases hseats with
    | keep hsocks _ => exact Or.inl (hsocks ▸ h)
    | leave _ hsocks _ =>
      rw [hsocks, AList.lookup_erase_eq_ite] at h
      split_ifs at h
      exact Or.inl h
  | proceed conn now =>
    cases hseats with
    | keep hsocks _ => exact Or.inl (hsocks ▸ h)
  | schedule now written =>
    cases hseats with
    | keep hsocks _ => exact Or.inl (hsocks ▸ h)

/-- The loop finds its socket among those that are entered. -/
theorem sock_step {x : ConnectionId} (h : (c.step env e).1.loop.sock? = some x) :
    c.loop.sock? = some x ∨ ∃ w, c.workerSocks.lookup w = some x := by
  have haside := loop_step env c (e := e)
  cases e with
  | schedule now written =>
    unfold step scheduleLoop at h
    rcases hloop : c.loop with _ | (_ | ⟨dg, rest⟩) | _ | _ |
      ⟨dg, sock, d, (_ | ⟨m, left⟩), rest⟩ | _ <;> simp only [hloop] at h
    case dispatching.cons =>
      cases hsock : c.workerSocks.lookup dg.assignedWorker with
      | none =>
        rw [hsock] at h
        exact absurd h.symm (Option.some_ne_none x)
      | some sock =>
        rw [hsock] at h
        exact Or.inr ⟨dg.assignedWorker, hsock.trans h⟩
    case slicing.nil =>
      split_ifs at h <;> exact absurd h.symm (Option.some_ne_none x)
    case slicing.cons =>
      cases hslice : c.slice m <;> rw [hslice] at h
      · exact absurd h.symm (Option.some_ne_none x)
      · exact Or.inl h
    case addressed => exact Or.inl h
    case stamped => exact Or.inl h
    all_goals exact absurd h.symm (Option.some_ne_none x)
  | _ => exact Or.inl (haside trivial ▸ h)

end Coordinator

/-! ### Conversations -/

/-- A message that has been taken up: in which step, and whom it came from. -/
structure Question where
  asked : ℕ
  peer : Option Peer
  msg : Message

/-- **A message that a handler is done with**: since which step, and with which answer. -/
structure Exchange extends Question where
  done : ℕ
  reply : Option Sent

namespace Session

variable {S : Session} {conn : ConnectionId} {n : ℕ} {result : MemberResult}

/-- The message that event number `i` brings, if it is taken up. -/
def asks (S : Session) (conn : ConnectionId) (i : ℕ) : Option Question :=
  (S.events[i]?).bind fun e => ((S.stateAt i).takes conn e).map fun p => ⟨i, p.1, p.2⟩

/-- What is answered by event number `i`. -/
def answers (S : Session) (conn : ConnectionId) (i : ℕ) : Option Sent :=
  (S.events[i]?).bind ((S.stateAt i).replies S.env conn)

/-- The messages taken up on a connection before event number `n`. -/
def questions (S : Session) (conn : ConnectionId) (n : ℕ) : List Question :=
  (List.range n).filterMap (S.asks conn)

/-- The answers sent on a connection before event number `n`. -/
def replies (S : Session) (conn : ConnectionId) (n : ℕ) : List Sent :=
  (List.range n).filterMap (S.answers conn)

/-- Event number `n` reports a result, and the scheduler accepts it. -/
def Accepted (S : Session) (n : ℕ) (result : MemberResult) : Prop :=
  ∃ conn now peer rest, S.events[n]? = some (.proceed conn now) ∧
    (S.stateAt n).handlers.lookup conn = some (.completing peer (result :: rest)) ∧
    isOk ((S.stateAt n).scheduler.reportCompletion S.env now result).2 = true

theorem filterMap_range_succ {α : Type} (f : ℕ → Option α) (n : ℕ) :
    (List.range (n + 1)).filterMap f = (List.range n).filterMap f ++ (f n).toList := by
  rw [List.range_succ, List.filterMap_append]
  cases hf : f n with
  | none => rw [List.filterMap_cons_none hf]; rfl
  | some a => rw [List.filterMap_cons_some hf]; rfl

theorem questions_succ (S : Session) (conn : ConnectionId) (n : ℕ) :
    S.questions conn (n + 1) = S.questions conn n ++ (S.asks conn n).toList :=
  filterMap_range_succ ..

theorem replies_succ (S : Session) (conn : ConnectionId) (n : ℕ) :
    S.replies conn (n + 1) = S.replies conn n ++ (S.answers conn n).toList :=
  filterMap_range_succ ..

end Session

/-- **A message has been dealt with**: it has the answer that was due in the step in which the
handler was done with it, and results that have no answer have been accepted. -/
structure Exchange.Settled (S : Session) (x : Exchange) : Prop where
  le : x.asked ≤ x.done
  due : ∃ e, S.events[x.done]? = some e ∧
    (S.stateAt x.done).Due S.env e x.peer x.msg x.reply
  accepted : ∀ peer results, x.peer = some peer → x.msg = .completion results → x.reply = none →
    ∀ result ∈ results, ∃ j, x.asked < j ∧ j < x.done ∧ S.Accepted j result

namespace Session

variable {S : Session} {conn : ConnectionId} {n : ℕ}

/-- **A message is being dealt with.** -/
structure Pending (S : Session) (conn : ConnectionId) (n : ℕ) (q : Question) : Prop where
  lt : q.asked < n
  handles : ∃ h reported, (S.stateAt n).handlers.lookup conn = some h ∧
    h.Handles q.peer q.msg reported ∧
    ∀ result ∈ reported, ∃ j, q.asked < j ∧ j < n ∧ S.Accepted j result

/-- **The conversation on a connection**: the exchanges, and the message in whose middle the
handler is. -/
structure Conversation (S : Session) (conn : ConnectionId) (n : ℕ) (xs : List Exchange)
    (p : Option Question) : Prop where
  questions : S.questions conn n = xs.map (·.toQuestion) ++ p.toList
  replies : S.replies conn n = xs.filterMap (·.reply)
  settled : ∀ x ∈ xs, x.done < n ∧ x.Settled S
  order : xs.Pairwise fun x y => x.done < y.asked
  idle : p = none → (S.stateAt n).Idle conn
  pending : ∀ q, p = some q → S.Pending conn n q ∧ ∀ x ∈ xs, x.done < q.asked

namespace Conversation

variable {xs : List Exchange} {p : Option Question} {q : Question} {e : NetEvent}

/-- A step that is no turn. -/
theorem aside (h : S.Conversation conn n xs p) (hasks : S.asks conn n = none)
    (hanswers : S.answers conn n = none)
    (hkeeps : (S.stateAt (n + 1)).handlers.lookup conn = (S.stateAt n).handlers.lookup conn ∨
      (S.stateAt n).Idle conn ∧ (S.stateAt (n + 1)).handlers.lookup conn = some .finished) :
    S.Conversation conn (n + 1) xs p where
  questions := by rw [questions_succ, hasks, Option.toList_none, List.append_nil, h.questions]
  replies := by rw [replies_succ, hanswers, Option.toList_none, List.append_nil, h.replies]
  settled x hx := ⟨Nat.lt_succ_of_lt (h.settled x hx).1, (h.settled x hx).2⟩
  order := h.order
  idle hp := by
    rcases hkeeps with hsame | ⟨-, hfinished⟩
    · intro k hk
      exact h.idle hp k (hsame.symm.trans hk)
    · exact Coordinator.idle_of_lookup hfinished rfl
  pending q hq := by
    obtain ⟨⟨hlt, k, reported, hk, hhandles, haccepted⟩, hlast⟩ := h.pending q hq
    refine ⟨⟨Nat.lt_succ_of_lt hlt, k, reported, ?_, hhandles, fun result hresult => ?_⟩, hlast⟩
    · rcases hkeeps with hsame | ⟨hidle, -⟩
      · exact hsame.trans hk
      · exact absurd (hhandles.isBusy.symm.trans (hidle k hk)) Bool.noConfusion
    · obtain ⟨j, hqj, hjn, hj⟩ := haccepted result hresult
      exact ⟨j, hqj, Nat.lt_succ_of_lt hjn, hj⟩

/-- A handler that has nothing in hand is in the middle of nothing. -/
theorem eq_none (h : S.Conversation conn n xs p) (hidle : (S.stateAt n).Idle conn) : p = none := by
  rw [Option.eq_none_iff_forall_ne_some]
  intro q hq
  obtain ⟨⟨-, k, reported, hk, hhandles, -⟩, -⟩ := h.pending q hq
  exact absurd (hhandles.isBusy.symm.trans (hidle k hk)) Bool.noConfusion

/-- Whoever is in the middle of something has it in hand. -/
theorem exists_pending (h : S.Conversation conn n xs p) {k : Handler}
    (hk : (S.stateAt n).handlers.lookup conn = some k) (hbusy : k.isBusy = true) :
    ∃ q, p = some q ∧ (∀ x ∈ xs, x.done < q.asked) ∧ q.asked < n ∧
      ∃ reported, k.Handles q.peer q.msg reported ∧
        ∀ result ∈ reported, ∃ j, q.asked < j ∧ j < n ∧ S.Accepted j result := by
  cases p with
  | none => exact absurd (hbusy.symm.trans (h.idle rfl k hk)) Bool.noConfusion
  | some q =>
    obtain ⟨⟨hlt, k', reported, hk', hhandles, haccepted⟩, hlast⟩ := h.pending q rfl
    obtain rfl := Option.some.inj (hk.symm.trans hk')
    exact ⟨q, rfl, hlast, hlt, reported, hhandles, haccepted⟩

/-- An exchange is added. -/
theorem concat {x : Exchange} (h : S.Conversation conn n xs p)
    (hquestions : p.toList ++ (S.asks conn n).toList = [x.toQuestion])
    (hanswers : S.answers conn n = x.reply) (hdone : x.done = n) (hx : x.Settled S)
    (hlast : ∀ y ∈ xs, y.done < x.asked) (hidle : (S.stateAt (n + 1)).Idle conn) :
    S.Conversation conn (n + 1) (xs ++ [x]) none where
  questions := by
    rw [questions_succ, h.questions, List.append_assoc, hquestions, List.map_append,
      Option.toList_none, List.append_nil, List.map_singleton]
  replies := by
    rw [replies_succ, h.replies, hanswers, List.filterMap_append]
    cases hr : x.reply with
    | none => rw [List.filterMap_cons_none hr]; rfl
    | some s => rw [List.filterMap_cons_some hr]; rfl
  settled := by
    refine List.forall_mem_append.mpr ⟨fun y hy => ?_, List.forall_mem_singleton.mpr ⟨?_, hx⟩⟩
    · exact ⟨Nat.lt_succ_of_lt (h.settled y hy).1, (h.settled y hy).2⟩
    · exact hdone ▸ Nat.lt_succ_self n
  order := List.pairwise_append.mpr ⟨h.order, List.pairwise_singleton .., fun y hy z hz => by
    rw [List.mem_singleton.mp hz]
    exact hlast y hy⟩
  idle _ := hidle
  pending _ hq := absurd hq.symm (Option.some_ne_none _)

/-- A message is in hand. -/
theorem hold (h : S.Conversation conn n xs p)
    (hquestions : p.toList ++ (S.asks conn n).toList = [q]) (hanswers : S.answers conn n = none)
    (hlast : ∀ y ∈ xs, y.done < q.asked) (hq : S.Pending conn (n + 1) q) :
    S.Conversation conn (n + 1) xs (some q) where
  questions := by rw [questions_succ, h.questions, List.append_assoc, hquestions]; rfl
  replies := by rw [replies_succ, hanswers, Option.toList_none, List.append_nil, h.replies]
  settled x hx := ⟨Nat.lt_succ_of_lt (h.settled x hx).1, (h.settled x hx).2⟩
  order := h.order
  idle hnone := absurd hnone (Option.some_ne_none _)
  pending q' hq' := by
    obtain rfl := Option.some.inj hq'
    exact ⟨hq, hlast⟩

/-- One result more has been reported. -/
theorem went_on (h : S.Conversation conn n xs p) {peer : Peer} {result : MemberResult}
    {rest : List MemberResult} (hasks : S.asks conn n = none) (hanswers : S.answers conn n = none)
    (hbefore : (S.stateAt n).handlers.lookup conn = some (.completing peer (result :: rest)))
    (hafter : (S.stateAt (n + 1)).handlers.lookup conn = some (.completing peer rest))
    (haccepted : S.Accepted n result) : S.Conversation conn (n + 1) xs p := by
  obtain ⟨q, rfl, hlast, hlt, reported, hhandles, hreported⟩ := h.exists_pending hbefore rfl
  refine h.hold (by rw [hasks]; rfl) hanswers hlast
    ⟨Nat.lt_succ_of_lt hlt, .completing peer rest, reported ++ [result], hafter, ?_, ?_⟩
  · obtain ⟨asked, qpeer, qmsg⟩ := q
    dsimp only at hhandles ⊢
    cases hhandles
    rw [← List.singleton_append, ← List.append_assoc]
    exact .completing peer _ rest
  · refine List.forall_mem_append.mpr ⟨fun x hx => ?_, List.forall_mem_singleton.mpr
      ⟨n, hlt, Nat.lt_succ_self n, haccepted⟩⟩
    obtain ⟨j, hqj, hjn, hj⟩ := hreported x hx
    exact ⟨j, hqj, Nat.lt_succ_of_lt hjn, hj⟩

/-- The message in hand is done with. -/
theorem ended (h : S.Conversation conn n xs p) (he : S.events[n]? = some e) {k : Handler}
    (hasks : S.asks conn n = none)
    (hbefore : (S.stateAt n).handlers.lookup conn = some k) (hbusy : k.isBusy = true)
    (hdue : ∀ peer msg reported, k.Handles peer msg reported →
      (S.stateAt n).Due S.env e peer msg (S.answers conn n))
    (hsilent : ∀ peer rest, k = .completing peer rest → S.answers conn n = none → rest = [])
    (hidle : (S.stateAt (n + 1)).Idle conn) :
    ∃ x, S.Conversation conn (n + 1) (xs ++ [x]) none := by
  obtain ⟨q, rfl, hlast, hlt, reported, hhandles, hreported⟩ := h.exists_pending hbefore hbusy
  refine ⟨⟨q, n, S.answers conn n⟩, h.concat (by rw [hasks]; rfl) rfl rfl
    ⟨hlt.le, ⟨e, he, hdue _ _ _ hhandles⟩, fun peer results hpeer hmsg hnone => ?_⟩ hlast hidle⟩
  obtain ⟨asked, qpeer, qmsg⟩ := q
  dsimp only at hpeer hmsg hhandles
  subst hpeer hmsg
  -- a handler falls silent once it has reported everything
  cases hhandles with
  | completing _ _ rest =>
    rw [hsilent _ _ rfl hnone, List.append_nil]
    exact hreported

end Conversation

/-- **There is a conversation on every connection**, in every session and at every moment. -/
theorem exists_conversation (S : Session) (conn : ConnectionId) (n : ℕ) :
    ∃ xs p, S.Conversation conn n xs p := by
  induction n with
  | zero =>
    exact ⟨[], none, rfl, rfl, List.forall_mem_nil _, .nil,
      fun _ => Coordinator.idle_of_none rfl, fun _ hq => absurd hq.symm (Option.some_ne_none _)⟩
  | succ n ih =>
    obtain ⟨xs, p, h⟩ := ih
    cases he : S.events[n]? with
    | none =>
      exact ⟨xs, p, h.aside (by rw [asks, he]; rfl) (by rw [answers, he]; rfl)
        (Or.inl (by rw [stateAt_succ_of_none he]))⟩
    | some e =>
      have hasks : S.asks conn n = ((S.stateAt n).takes conn e).map fun p => ⟨n, p.1, p.2⟩ := by
        rw [asks, he, Option.bind_some]
      have hanswers : (S.stateAt n).replies S.env conn e = S.answers conn n := by
        rw [answers, he, Option.bind_some]
      have hturn := (S.stateAt n).turn_step S.env conn e
      cases hturn with
      | aside htakes hreplies hkeeps =>
        rw [htakes, Option.map_none] at hasks
        rw [← stateAt_succ he] at hkeeps
        exact ⟨xs, p, h.aside hasks (hanswers.symm.trans hreplies) hkeeps⟩
      | @atOnce peer msg htakes hidle hdue hmsg hidle' =>
        obtain rfl := h.eq_none hidle
        rw [htakes, Option.map_some] at hasks
        rw [← stateAt_succ he] at hidle'
        rw [hanswers] at hdue
        refine ⟨xs ++ [⟨⟨n, peer, msg⟩, n, S.answers conn n⟩], none,
          h.concat (by rw [hasks]; rfl) rfl rfl ⟨le_rfl, ⟨e, he, hdue⟩, ?_⟩
            (fun x hx => (h.settled x hx).1) hidle'⟩
        intro peer' results hpeer hresults
        exact absurd (hpeer.symm.trans (hmsg results hresults)) (Option.some_ne_none _)
      | @begins peer msg k htakes hidle hreplies hafter hhandles =>
        obtain rfl := h.eq_none hidle
        rw [htakes, Option.map_some] at hasks
        rw [← stateAt_succ he] at hafter
        exact ⟨xs, some ⟨n, peer, msg⟩, h.hold (by rw [hasks]; rfl) (hanswers.symm.trans hreplies)
          (fun x hx => (h.settled x hx).1)
          ⟨Nat.lt_succ_self n, k, [], hafter, hhandles, List.forall_mem_nil _⟩⟩
      | @onward peer now result rest hproceed hreplies hbefore hok hafter =>
        subst hproceed
        rw [← stateAt_succ he] at hafter
        exact ⟨xs, p, h.went_on hasks (hanswers.symm.trans hreplies) hbefore hafter
          ⟨conn, now, peer, rest, he, hbefore, hok⟩⟩
      | @ends k now hproceed hbefore hbusy hdue hsilent hidle' =>
        subst hproceed
        rw [← stateAt_succ he] at hidle'
        rw [hanswers] at hdue hsilent
        obtain ⟨x, hx⟩ := h.ended he hasks hbefore hbusy hdue hsilent hidle'
        exact ⟨xs ++ [x], none, hx⟩

/-- The connection has been introduced as that of a worker. -/
def Introduced (S : Session) (conn : ConnectionId) (n : ℕ) : Prop :=
  ∃ i < n, ∃ wd, S.asks conn i = some ⟨i, none, .workerRegister wd⟩

theorem Introduced.succ (h : S.Introduced conn n) : S.Introduced conn (n + 1) := by
  obtain ⟨i, hi, hwd⟩ := h
  exact ⟨i, Nat.lt_succ_of_lt hi, hwd⟩

/-- Sockets are those of workers. -/
theorem introduced (S : Session) (n : ℕ) (conn : ConnectionId) :
    (∀ w, (S.stateAt n).workerSocks.lookup w = some conn → S.Introduced conn n) ∧
      ((S.stateAt n).loop.sock? = some conn → S.Introduced conn n) := by
  induction n with
  | zero =>
    exact ⟨fun w h => absurd h.symm (Option.some_ne_none _),
      fun h => absurd h.symm (Option.some_ne_none _)⟩
  | succ n ih =>
    cases he : S.events[n]? with
    | none =>
      rw [stateAt_succ_of_none he]
      exact ⟨fun w h => (ih.1 w h).succ, fun h => (ih.2 h).succ⟩
    | some e =>
      rw [stateAt_succ he]
      constructor
      · intro w h
        rcases Coordinator.workerSocks_step h with hbefore | ⟨wd, htakes⟩
        · exact (ih.1 w hbefore).succ
        · refine ⟨n, Nat.lt_succ_self n, wd, ?_⟩
          rw [asks, he, Option.bind_some, htakes, Option.map_some]
      · intro h
        rcases Coordinator.sock_step h with hbefore | ⟨w, hw⟩
        · exact (ih.2 hbefore).succ
        · exact (ih.1 w hw).succ

/-- Dispatches go to connections of workers. -/
theorem introduced_of_mem_dispatches {d : Dispatch} (h : (conn, d) ∈ S.dispatches n) :
    S.Introduced conn n := by
  obtain ⟨i, hi, hd⟩ := List.mem_flatMap.mp h
  rw [sends] at hd
  cases he : S.events[i]? with
  | none =>
    rw [he] at hd
    exact absurd hd List.not_mem_nil
  | some e =>
    rw [he] at hd
    obtain ⟨-, dg, rest, hloop⟩ := Coordinator.exists_of_mem_dispatches hd
    obtain ⟨j, hj, hwd⟩ := (S.introduced i conn).2 (by rw [hloop]; rfl)
    exact ⟨j, hj.trans (List.mem_range.mp hi), hwd⟩

/-- **Calls and answers.** In every session, whatever the interleaving, and on every connection:
the messages taken up are, in their order, those that have been dealt with and at most one that is
being dealt with; the answers that were sent are those of the former, in the same order, each of
them the one that was due; and each message is dealt with before the next one is taken up. What
is sent otherwise are dispatches, to those who have introduced themselves as workers. -/
theorem exists_exchanges (S : Session) (conn : ConnectionId) (n : ℕ) :
    ∃ (xs : List Exchange) (p : Option Question),
      S.questions conn n = xs.map (·.toQuestion) ++ p.toList ∧
      S.replies conn n = xs.filterMap (·.reply) ∧
      (∀ x ∈ xs, x.done < n ∧ x.Settled S) ∧ (xs.Pairwise fun x y => x.done < y.asked) ∧
      (p = none ↔ (S.stateAt n).Idle conn) ∧
      ∀ d, (conn, d) ∈ S.dispatches n → S.Introduced conn n := by
  obtain ⟨xs, p, h⟩ := S.exists_conversation conn n
  exact ⟨xs, p, h.questions, h.replies, h.settled, h.order, ⟨h.idle, h.eq_none⟩,
    fun d hd => introduced_of_mem_dispatches hd⟩

end Session

end PrefillFabric
