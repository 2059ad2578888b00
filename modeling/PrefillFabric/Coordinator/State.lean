import PrefillFabric.Scheduler.Machine

/-!
# The coordinator

A coordinator puts a scheduler behind a listener. Each connection has a handler of its
own, a further thread runs the scheduling loop, and they share three maps beside the
scheduler: the sockets and the descriptors of the workers, and the tokens of the prompts.
The maps are guarded by one lock and the scheduler by another, and a thread takes them one
after the other; what can come between two of its steps is the step of another thread.

So a `Coordinator` holds where every thread stands: each `Handler`, and the
`ScheduleLoop`. A `NetEvent` says which thread goes on, and `Coordinator.step` is the one
section it executes. Every section makes at most one call to the scheduler.

An event for a thread that cannot go on in this way – a frame for a handler that is busy,
say – changes nothing. Queries and pings only read, and are all `Message.other`.
-/

namespace PrefillFabric

/-- Connections are numbered as they are accepted; the number also stands for the socket. -/
abbrev ConnectionId := ℕ

/-- The longest body a frame may have. -/
def kFrameMaxBytes : ℕ := 64 * 1024 * 1024

/-- A message that a connection brings. -/
inductive Message
  | hello
  | workerRegister (worker : WorkerDescriptor)
  | submit (request : PrefillRequest) (tokens : List UInt32)
  | cancel (requestId : RequestId)
  | completion (memberResults : List MemberResult)
  | rollEpoch
  | shutdown
  | other
  /-- A frame that cannot be decoded. -/
  | malformed

/-- A dispatch as it is sent to a worker: the group, the tokens of its members one after
the other, and where each begins and ends. -/
structure Dispatch where
  group : ExecutionGroup
  epoch : Epoch
  bootId : WorkerBootId
  memberTokens : List UInt32 := []
  memberTokenOffsets : List ℕ := [0]

namespace Dispatch

/-- Append the tokens of a member. The total is a 64-bit sum of the counts. -/
def push (d : Dispatch) (m : ExecutableMember) (slice : List UInt32) : Dispatch :=
  { d with
    memberTokens := d.memberTokens ++ slice
    memberTokenOffsets := d.memberTokenOffsets ++
      [(d.memberTokenOffsets.getLastD 0 + m.tokenCount) % 2 ^ 64] }

/-- The length of the encoded group: its identity, backend, device, hash and size, the
members at 77 bytes each, and three totals. -/
def groupBytes (g : ExecutionGroup) : ℕ :=
  8 + (8 + g.backend.utf8ByteSize) + 8 + 8 + 4 + 77 * g.members.length + 24

/-- The length of the body of the frame: version and kind, the group, the counted lists of
tokens and offsets, the epoch and the boot number. -/
def bodyBytes (d : Dispatch) : ℕ :=
  2 + groupBytes d.group + (8 + 4 * d.memberTokens.length) +
    (8 + 8 * d.memberTokenOffsets.length) + 8 + 8

end Dispatch

/-- What the coordinator sends. -/
inductive Sent
  | workerRegisterAck (epoch : Epoch) (worker : WorkerDescriptor)
  | submitAck (requestId : RequestId) (result : Result Unit)
  | cancelAck (requestId : RequestId) (result : CancelResult)
  | state (epoch : Epoch)
  | shutdownAck
  | error (requestId : RequestId) (error : ErrorInfo)
  | dispatch (dispatch : Dispatch)

/-! ### Threads -/

/-- Whom a connection belongs to. -/
inductive Peer
  | worker (descriptor : WorkerDescriptor)
  | client

/-- Where the handler of a connection stands. -/
inductive Handler
  /-- It waits for a frame. -/
  | serving (peer : Peer)
  /-- The worker's socket is entered; the scheduler is to be told. -/
  | registering (worker : WorkerDescriptor)
  /-- The tokens are stored; the scheduler is to decide. -/
  | submitting (request : PrefillRequest) (tokens : List UInt32)
  /-- These results are still to be reported. -/
  | completing (peer : Peer) (memberResults : List MemberResult)
  | finished

/-- Where the scheduling loop stands. -/
inductive ScheduleLoop
  | resting
  /-- These groups are still to be dispatched. -/
  | dispatching (groups : List DispatchedGroup)
  /-- The socket is found. -/
  | addressed (dg : DispatchedGroup) (sock : ConnectionId) (rest : List DispatchedGroup)
  /-- The epoch is read. -/
  | stamped (dg : DispatchedGroup) (sock : ConnectionId) (epoch : Epoch)
      (rest : List DispatchedGroup)
  /-- The tokens of these members are still to be copied. -/
  | slicing (dg : DispatchedGroup) (sock : ConnectionId) (d : Dispatch)
      (left : List ExecutableMember) (rest : List DispatchedGroup)
  /-- The dispatch has failed. -/
  | blaming (worker : WorkerId) (rest : List DispatchedGroup)

/-- A coordinator: what its threads share, and where each of them stands. A connection
without a handler has not brought its first frame. -/
structure Coordinator where
  scheduler : Impl
  workerSocks : Table WorkerId ConnectionId := ∅
  workers : Table WorkerId WorkerDescriptor := ∅
  tokens : Table RequestId (List UInt32) := ∅
  handlers : Table ConnectionId Handler := ∅
  loop : ScheduleLoop := .resting

/-- Which thread goes on. Each event carries what the thread meets: the frame it receives,
the time it reads, whether the socket takes what is written. -/
inductive NetEvent
  | receive (conn : ConnectionId) (now : Nanoseconds) (msg : Message)
  | proceed (conn : ConnectionId) (now : Nanoseconds)
  | hangUp (conn : ConnectionId) (now : Nanoseconds)
  | schedule (now : Nanoseconds) (written : Bool)

namespace Coordinator

/-- A coordinator that has been started: the local worker of its scheduler is retired. -/
def start (env : Env) (now : Nanoseconds) : Coordinator where
  scheduler := ((Impl.fresh env).unregisterWorker now .nil).1

/-- Set where a handler stands. -/
def setHandler (c : Coordinator) (conn : ConnectionId) (h : Handler) : Coordinator :=
  { c with handlers := c.handlers.insert conn h }

/-! ### Handlers -/

/-- The first frame of a connection. -/
def greet (conn : ConnectionId) (msg : Message) (c : Coordinator) :
    Coordinator × Option (ConnectionId × Sent) :=
  match msg with
  | .hello => (c.setHandler conn (.serving .client), none)
  | .workerRegister wd =>
    if wd.workerId.isNil then (c.setHandler conn .finished, none)
    else
      let c := { c with
        workers := c.workers.insert wd.workerId wd
        workerSocks := c.workerSocks.insert wd.workerId conn }
      (c.setHandler conn (.registering wd), none)
  | .malformed => (c.setHandler conn .finished, none)
  | _ =>
    (c.setHandler conn .finished,
      some (conn, .error .nil ⟨.protocolViolation, "expected hello or worker_register"⟩))

/-- A frame from a worker. -/
def serveWorker (conn : ConnectionId) (wd : WorkerDescriptor) (msg : Message) (c : Coordinator) :
    Coordinator × Option (ConnectionId × Sent) :=
  match msg with
  | .completion results => (c.setHandler conn (.completing (.worker wd) results), none)
  | .shutdown => (c.setHandler conn .finished, some (conn, .shutdownAck))
  | _ => (c, none)

/-- A frame from a client. The tokens of a submission are stored before the scheduler has
seen the request. -/
def serveClient (conn : ConnectionId) (now : Nanoseconds) (msg : Message) (c : Coordinator) :
    Coordinator × Option (ConnectionId × Sent) :=
  match msg with
  | .submit req tokens =>
    ({ c with tokens := c.tokens.insert req.requestId tokens }.setHandler conn
      (.submitting req tokens), none)
  | .cancel r =>
    let cancelled := c.scheduler.cancel now r
    ({ c with scheduler := cancelled.1 }, some (conn, .cancelAck r cancelled.2))
  | .completion results => (c.setHandler conn (.completing .client results), none)
  | .rollEpoch =>
    let scheduler := c.scheduler.rollEpoch now
    ({ c with scheduler := scheduler }, some (conn, .state scheduler.epoch))
  | .shutdown => (c.setHandler conn .finished, some (conn, .shutdownAck))
  | _ => (c, none)

/-- A handler that waits takes a frame. -/
def receive (conn : ConnectionId) (now : Nanoseconds) (msg : Message) (c : Coordinator) :
    Coordinator × Option (ConnectionId × Sent) :=
  match c.handlers.lookup conn with
  | none => c.greet conn msg
  | some (.serving (.worker wd)) => c.serveWorker conn wd msg
  | some (.serving .client) => c.serveClient conn now msg
  | some _ => (c, none)

/-- A handler in the middle of a message goes on. Reporting ends at the first result that
is refused. -/
def proceed (env : Env) (conn : ConnectionId) (now : Nanoseconds) (c : Coordinator) :
    Coordinator × Option (ConnectionId × Sent) :=
  match c.handlers.lookup conn with
  | some (.registering wd) =>
    let scheduler := (c.scheduler.registerWorker now wd).1
    ({ c with scheduler := scheduler }.setHandler conn (.serving (.worker wd)),
      some (conn, .workerRegisterAck scheduler.epoch wd))
  | some (.submitting req _) =>
    let submitted := c.scheduler.submit env now req
    ({ c with scheduler := submitted.1 }.setHandler conn (.serving .client),
      some (conn, .submitAck req.requestId submitted.2))
  | some (.completing peer []) => (c.setHandler conn (.serving peer), none)
  | some (.completing peer (result :: rest)) =>
    let reported := c.scheduler.reportCompletion env now result
    let c := { c with scheduler := reported.1 }
    match reported.2 with
    | .ok _ => (c.setHandler conn (.completing peer rest), none)
    | .error e =>
      (c.setHandler conn (.serving peer), some (conn, .error result.requestId e))
  | _ => (c, none)

/-- A connection breaks off. That of a worker takes its socket along, unless the worker
has another by now, and the worker is lost. -/
def hangUp (conn : ConnectionId) (now : Nanoseconds) (c : Coordinator) : Coordinator :=
  match c.handlers.lookup conn with
  | some (.serving (.worker wd)) =>
    let c := if c.workerSocks.lookup wd.workerId = some conn then
        { c with workerSocks := c.workerSocks.erase wd.workerId }
      else c
    -- this is not made to depend on whose socket was entered
    { c with scheduler := c.scheduler.workerLost now wd.workerId }.setHandler conn .finished
  | none | some (.serving .client) => c.setHandler conn .finished
  | some _ => c

/-! ### The scheduling loop -/

/-- The tokens of a member, if enough of them are stored. -/
def slice (c : Coordinator) (m : ExecutableMember) : Option (List UInt32) :=
  (c.tokens.lookup m.requestId).bind fun tvec => readTokens tvec m.tokenStart m.tokenCount

/-- The descriptor a worker has last registered with. -/
def workerFor (c : Coordinator) (w : WorkerId) : WorkerDescriptor := (c.workers.lookup w).getD {}

/-- The scheduling loop goes on. A dispatch can fail because there is no socket, because
tokens are missing, because the frame is too long, or because it is not written; the
worker is lost whatever the reason. -/
def scheduleLoop (env : Env) (now : Nanoseconds) (written : Bool) (c : Coordinator) :
    Coordinator × Option (ConnectionId × Sent) :=
  match c.loop with
  | .resting =>
    let cycle := c.scheduler.runCycle env now
    ({ c with scheduler := cycle.1, loop := .dispatching cycle.2.groups }, none)
  | .dispatching [] => ({ c with loop := .resting }, none)
  | .dispatching (dg :: rest) =>
    match c.workerSocks.lookup dg.assignedWorker with
    | none => ({ c with loop := .blaming dg.assignedWorker rest }, none)
    | some sock => ({ c with loop := .addressed dg sock rest }, none)
  | .addressed dg sock rest =>
    ({ c with loop := .stamped dg sock c.scheduler.epoch rest }, none)
  | .stamped dg sock epoch rest =>
    let d : Dispatch := ⟨dg.group, epoch, (c.workerFor dg.assignedWorker).bootId, [], [0]⟩
    ({ c with loop := .slicing dg sock d dg.group.members rest }, none)
  | .slicing dg sock d (m :: left) rest =>
    match c.slice m with
    | none => ({ c with loop := .blaming dg.assignedWorker rest }, none)
    | some tokens => ({ c with loop := .slicing dg sock (d.push m tokens) left rest }, none)
  | .slicing dg sock d [] rest =>
    if d.bodyBytes ≤ kFrameMaxBytes ∧ written then
      ({ c with loop := .dispatching rest }, some (sock, .dispatch d))
    else ({ c with loop := .blaming dg.assignedWorker rest }, none)
  | .blaming w rest =>
    ({ c with scheduler := c.scheduler.workerLost now w, loop := .dispatching rest }, none)

/-! ### The machine -/

/-- One section of one thread. -/
def step (env : Env) (c : Coordinator) : NetEvent → Coordinator × Option (ConnectionId × Sent)
  | .receive conn now msg => c.receive conn now msg
  | .proceed conn now => c.proceed env conn now
  | .hangUp conn now => (c.hangUp conn now, none)
  | .schedule now written => c.scheduleLoop env now written

end Coordinator

/-- The coordinator as a machine, from its start on. -/
def coordinator (env : Env) (now : Nanoseconds) :
    Machine Coordinator NetEvent (Option (ConnectionId × Sent)) where
  init := .start env now
  step := Coordinator.step env

end PrefillFabric
