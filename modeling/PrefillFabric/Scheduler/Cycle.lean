import PrefillFabric.Scheduler.State

/-!
# The scheduling cycle

`runCycle` expires what is overdue, orders the waiting requests, packs their next
chunks into groups, and then takes the groups one by one: a worker is chosen, the
memory of every member is reserved, and the group is dispatched, each member under
a generation of its own. A group for which there is no worker or not enough memory
is put off, with everything it had reserved given back.

An open group is kept as the execution group it will become; the totals the source
keeps beside it are those of the group itself.
-/

namespace PrefillFabric

/-! ### Batches -/

/-- A group that is ready to be sent to its worker. -/
structure DispatchedGroup where
  groupId : GroupId := .nil
  group : ExecutionGroup := {}
  assignedWorker : WorkerId := .nil
  reservationId : ReservationId := .nil
  reservedBytes : ℕ := 0

/-- What a cycle hands out. -/
structure DispatchBatch where
  groups : List DispatchedGroup := []
  notes : List String := []
  cycleScheduledTokens : ℕ := 0

/-- All members of a batch, in order. -/
def DispatchBatch.members (b : DispatchBatch) : List ExecutableMember :=
  b.groups.flatMap (·.group.members)

namespace Rs

/-- Past its deadline. -/
def deadlinePassed (now : Nanoseconds) (s : Rs) : Bool :=
  s.request.deadline.any fun d => decide (d < now)

/-- Not in flight, and longer in the scheduler than it may wait. -/
def queueDelayPassed (now : Nanoseconds) (s : Rs) : Bool :=
  !s.inFlight && s.request.maxQueueDelay.any fun d => decide (d < now - s.admitTime)

/-- Waiting to be dispatched: queued, not in flight, with a chunk left. -/
def isWaiting (s : Rs) : Bool := s.lifecycle == .queued && !s.inFlight && s.hasPendingChunk

/-- About to miss its deadline. -/
def isUrgent (env : Env) (now : Nanoseconds) (s : Rs) : Bool :=
  s.request.deadline.any fun d => decide (d ≤ now + env.cfg.deadlineSlackNs)

/-- The deadline, or the largest 64-bit number. -/
def deadlineOrMax (s : Rs) : ℤ := s.request.deadline.getD (2 ^ 63 - 1)

/-- The member of a group that executes the next chunk; its generation is assigned
at dispatch. -/
def nextMember (s : Rs) (rid : RequestId) (index : ℕ) : ExecutableMember where
  requestId := rid
  attemptId := s.attempt
  tokenStart := s.nextChunk.tokenStart
  tokenCount := s.nextChunk.tokenCount
  workKind := if s.recoveredWork then .workerRecovered else s.nextChunk.workKind
  memoryEstimateBytes := s.nextChunk.memoryEstimateBytes
  computeEstimate := s.nextChunk.computeEstimate
  memberIndex := index

/-- In flight, in a group on a worker, under a generation. -/
def launched (now : Nanoseconds) (gid : GroupId) (w : WorkerId) (gen : Generation) (s : Rs) : Rs :=
  { s with
    currentGeneration := gen
    inFlight := true
    lifecycle := .dispatched
    currentGroup := gid
    dispatchedWorker := w
    dispatchTime := now
    firstDispatchTime := if s.firstDispatchTime = 0 then now else s.firstDispatchTime }

end Rs

/-- The packing key of a request. -/
def makeCompatKey (env : Env) (req : PrefillRequest) : CompatibilityKey :=
  let backend := if req.backend = "" then kBackendAny else req.backend
  { model := req.model
    baseModel := req.model.name
    relation := req.adapterRelation
    backend := backend
    device := req.device
    layout := req.inputLayout
    numericMode := req.numericMode
    vocab := req.vocab
    executorFamily := if backend = kBackendAny then "default" else backend
    policyFingerprint := toString env.cfg.maxRequestsPerGroup.toNat ++ "|" ++
      toString env.cfg.maxTokensPerGroup.toNat ++ "|" ++ toString env.cfg.maxMemoryPerChunk.toNat }

namespace Impl

/-! ### Expiry -/

/-- Expire a request: it leaves its group and gives back its reservation. A request that was
in flight stays marked as such. -/
def expireRequest (now : Nanoseconds) (r : RequestId) (s : Rs) (σ : Impl) : Impl :=
  let σ := if s.inFlight then σ.detachMember s.currentGroup s.request.requestId else σ
  let σ := σ.releaseReservation s
  let σ := σ.count fun st =>
    { st with expired := st.expired + 1, deadlineMissed := st.deadlineMissed + 1 }
  -- the tenant has one request less, but gets no tokens back
  let σ := σ.charge s.request.tenantId (·.leave)
  let s := { s.dropReservation with lifecycle := .expired }.note
    ("expired; deadline=" ++ toString (s.request.deadline.getD 0))
  (σ.setRequest r s).record now "expire" s.request.requestId s.attempt "deadline"

/-- Expire one request if it is overdue. -/
def sweepRequest (now : Nanoseconds) (σ : Impl) (r : RequestId) : Impl :=
  match σ.requests.lookup r with
  | none => σ
  | some s =>
    if s.lifecycle.isTerminal then σ
    else if s.deadlinePassed now then σ.expireRequest now r s
    else if s.queueDelayPassed now then
      (σ.count fun st =>
        { st with queueDelayExceeded := st.queueDelayExceeded + 1 }).expireRequest now r s
    else σ

/-- Expire every overdue request. -/
def expirySweep (now : Nanoseconds) (σ : Impl) : Impl :=
  σ.requests.keys.foldl (sweepRequest now) σ

/-! ### Candidates -/

/-- The requests that wait. -/
def candidates (σ : Impl) : List RequestId :=
  (σ.requests.entries.filter fun e => e.2.isWaiting).map (·.1)

/-- The service a tenant has had, in proportion to its weight. -/
def serviceRatio (env : Env) (σ : Impl) (s : Rs) : Double :=
  let ts := (σ.tenants.lookup s.request.tenantId).getD {}
  env.fpu.div ts.normalizedService (if Double.zero.lt ts.weight then ts.weight else .one)

/-- Whether one candidate comes before another. -/
def precedes (env : Env) (now : Nanoseconds) (σ : Impl) (a b : RequestId) : Bool :=
  let sa := (σ.requests.lookup a).getD {}
  let sb := (σ.requests.lookup b).getD {}
  if sa.isUrgent env now ≠ sb.isUrgent env now then sa.isUrgent env now
  else if sa.deadlineOrMax ≠ sb.deadlineOrMax then decide (sa.deadlineOrMax < sb.deadlineOrMax)
  else if sa.request.priority ≠ sb.request.priority then
    decide (sb.request.priority < sa.request.priority)
  else if sa.request.latencyClass ≠ sb.request.latencyClass then
    decide (sb.request.latencyClass.rank < sa.request.latencyClass.rank)
  else if !(serviceRatio env σ sa).eq (serviceRatio env σ sb) then
    (serviceRatio env σ sa).lt (serviceRatio env σ sb)
  else if sa.agingCycles ≠ sb.agingCycles then decide (sb.agingCycles < sa.agingCycles)
  else if sa.admitTime ≠ sb.admitTime then decide (sa.admitTime < sb.admitTime)
  else decide (a.value < b.value)

/-- The candidates in the order in which they are served. -/
def sortedCandidates (env : Env) (now : Nanoseconds) (σ : Impl) : List RequestId :=
  σ.candidates.insertionSort fun a b => (!precedes env now σ b a) = true

end Impl

/-! ### Formation -/

namespace ExecutionGroup

/-- Whether the next chunk of a request may join an open group. The token and the
compute sums are 64-bit sums. -/
def admits (env : Env) (g : ExecutionGroup) (s : Rs) : Bool :=
  decide (g.key = makeCompatKey env s.request) &&
  decide (g.members.length % 2 ^ 32 < env.cfg.maxRequestsPerGroup.toNat) &&
  decide ((g.totalTokenCount + s.nextChunk.tokenCount) % 2 ^ 64 ≤
    env.cfg.maxTokensPerGroup.toNat) &&
  decide (g.sumComputeEstimate + s.nextChunk.computeEstimate ≤ env.cfg.maxComputePerGroup) &&
  decide (max g.maxMemoryEstimateBytes s.nextChunk.memoryEstimateBytes ≤
    env.cfg.maxMemoryPerGroup)

/-- Add the next chunk of a request to a group. -/
def add (g : ExecutionGroup) (rid : RequestId) (s : Rs) : ExecutionGroup :=
  { g with
    members := g.members ++ [s.nextMember rid (g.members.length % 2 ^ 32)]
    totalTokenCount := (g.totalTokenCount + s.nextChunk.tokenCount) % 2 ^ 64
    sumComputeEstimate := g.sumComputeEstimate + s.nextChunk.computeEstimate
    maxMemoryEstimateBytes := max g.maxMemoryEstimateBytes s.nextChunk.memoryEstimateBytes }

/-- A group opened for the next chunk of a request. -/
def opened (env : Env) (gid : GroupId) (rid : RequestId) (s : Rs) : ExecutionGroup :=
  let key := makeCompatKey env s.request
  ExecutionGroup.add { groupId := gid, key := key, backend := key.backend, device := key.device }
    rid s

/-- The requests of a group. -/
def rids (g : ExecutionGroup) : List RequestId := g.members.map (·.requestId)

end ExecutionGroup

/-- Put the next chunk of a request into the first open group that admits it. -/
def packInto (env : Env) (rid : RequestId) (s : Rs) :
    List ExecutionGroup → Option (List ExecutionGroup)
  | [] => none
  | g :: gs =>
    if g.admits env s then some (g.add rid s :: gs) else (packInto env rid s gs).map (g :: ·)

namespace Impl

/-- Place one candidate: in an open group, or in a new one. -/
def placeCandidate (env : Env) (acc : Impl × List ExecutionGroup) (rid : RequestId) :
    Impl × List ExecutionGroup :=
  match acc.1.requests.lookup rid with
  | none => acc
  | some s =>
    if !s.isWaiting then acc
    else
      match packInto env rid s acc.2 with
      | some groups => (acc.1.noteRequest rid "packed into group (compatible)", groups)
      | none =>
        ({ acc.1 with nextGroupValue := acc.1.nextGroupValue + 1 },
          acc.2 ++ [.opened env ⟨acc.1.nextGroupValue⟩ rid s])

/-- Pack the candidates, in their order, into groups. -/
def formGroups (env : Env) (cands : List RequestId) (σ : Impl) : Impl × List ExecutionGroup :=
  cands.foldl (placeCandidate env) (σ, [])

/-! ### Reservation -/

/-- Whether a worker can take a group for a backend. -/
def eligible (backend : String) (ws : Ws) : Bool :=
  (ws.desc.state == .ready || ws.desc.state == .registered) &&
  decide (ws.busyUnits < ws.desc.capacityUnits.toNat) &&
  (backend == kBackendAny || ws.desc.backend == kBackendAny || ws.desc.backend == backend)

/-- The eligible worker with the lowest identity. -/
def chooseWorker (backend : String) (σ : Impl) : Option WorkerId :=
  ((σ.workers.entries.filter fun e => eligible backend e.2).map (·.1)).foldl
    (fun chosen w =>
      match chosen with
      | none => some w
      | some c => if w.value < c.value then some w else some c)
    none

/-- Reserve the memory of each request's next chunk, up to the first failure. The
reservations made are returned with their holders. -/
def reserveMembers : List RequestId → Impl → Impl × List (ReservationId × RequestId) × Bool
  | [], σ => (σ, [], true)
  | rid :: rids, σ =>
    let s := (σ.requests.lookup rid).getD {}
    let mb := s.nextChunk.memoryEstimateBytes.toNat
    let rv : ReservationId := ⟨σ.nextReservationValue⟩
    let reserved := σ.mem.reserve rv rid mb .reserved
    let σ := { σ with nextReservationValue := σ.nextReservationValue + 1, mem := reserved.1 }
    if isOk reserved.2 then
      let rest := reserveMembers rids
        (σ.setRequest rid { s with reservation := rv, reservedBytes := mb })
      (rest.1, (rv, rid) :: rest.2.1, rest.2.2)
    else (σ, [], false)

/-- Undo one reservation. -/
def undoReservation (σ : Impl) (p : ReservationId × RequestId) : Impl :=
  { σ with
    mem := σ.mem.release p.1
    requests := AList.modify p.2
      (fun s => { s with reservation := .nil, reservedBytes := 0 }) σ.requests }

/-- Put off a group: the same line for each of its requests. -/
def noteAll (rids : List RequestId) (line : String) (σ : Impl) : Impl :=
  rids.foldl (fun σ rid => σ.noteRequest rid line) σ

/-! ### Dispatch -/

/-- Dispatch one member under the next generation. -/
def commitMember (now : Nanoseconds) (gid : GroupId) (w : WorkerId) (m : ExecutableMember)
    (σ : Impl) : Impl :=
  let gen : Generation := ⟨σ.nextGenerationValue⟩
  let s := (σ.requests.lookup m.requestId).getD {}
  let σ := { σ with nextGenerationValue := σ.nextGenerationValue + 1 }
  let σ := σ.count fun st =>
    if s.firstDispatchTime = 0 then
      { st with
        queueLatencyTotalNs := st.queueLatencyTotalNs + (now - s.admitTime)
        queueLatencySamples := st.queueLatencySamples + 1 }
    else st
  let σ := σ.setRequest m.requestId (s.launched now gid w gen)
  σ.count fun st => { st with scheduledTokens := st.scheduledTokens + m.tokenCount }

/-- Dispatch the members of a group, in order; they are returned as dispatched. -/
def commitMembers (now : Nanoseconds) (gid : GroupId) (w : WorkerId) :
    List ExecutableMember → Impl → Impl × List ExecutableMember
  | [], σ => (σ, [])
  | m :: ms, σ =>
    let gen : Generation := ⟨σ.nextGenerationValue⟩
    let rest := commitMembers now gid w ms (σ.commitMember now gid w m)
    (rest.1, { m with generation := gen, assignedWorker := w } :: rest.2)

/-- Dispatch a group whose memory is reserved. -/
def commitGroup (now : Nanoseconds) (w : WorkerId) (g : ExecutionGroup) (batch : DispatchBatch)
    (σ : Impl) : Impl × DispatchBatch :=
  let committed := commitMembers now g.groupId w g.members σ
  let group := { g with members := committed.2 }
  let outstanding := g.rids.foldl (fun l rid => insertOutstanding rid l) []
  let σ := committed.1
  let σ := { σ with
    workers := AList.modify w (fun ws => { ws with busyUnits := ws.busyUnits + 1 }) σ.workers
    groups := σ.groups.insert g.groupId
      { group := group, worker := w, outstanding := outstanding } }
  let σ := σ.count fun st =>
    { st with
      groupsFormed := st.groupsFormed + 1
      groupSizeDistribution := countUnder st.groupSizeDistribution (g.rids.length % 2 ^ 32) }
  let first := g.rids.headD .nil
  (σ, { batch with
    groups := batch.groups ++
      [{ groupId := g.groupId
         group := group
         assignedWorker := w
         reservationId := ((σ.requests.lookup first).getD {}).reservation
         reservedBytes := (g.members.map (·.memoryEstimateBytes.toNat)).sum }]
    cycleScheduledTokens := batch.cycleScheduledTokens + g.totalTokenCount })

/-- Take one formed group: dispatch it, or put it off for want of a worker or of
memory. -/
def dispatchGroup (now : Nanoseconds) (acc : Impl × DispatchBatch) (g : ExecutionGroup) :
    Impl × DispatchBatch :=
  if g.members.isEmpty then acc
  else
    match chooseWorker g.backend acc.1 with
    | none =>
      (acc.1.noteAll g.rids "deferred: no compatible worker",
        { acc.2 with notes := acc.2.notes ++ ["no compatible worker available; deferred"] })
    | some w =>
      let reserved := reserveMembers g.rids acc.1
      if reserved.2.2 then commitGroup now w g acc.2 reserved.1
      else
        ((reserved.2.1.foldl undoReservation reserved.1).noteAll g.rids
            "deferred: memory unavailable",
          { acc.2 with notes := acc.2.notes ++ ["memory reservation failed; group deferred"] })

/-- A request that still waits grows older. -/
def ageRequest (σ : Impl) (r : RequestId) : Impl :=
  { σ with
    requests := AList.modify r
      (fun s => if s.lifecycle = .queued ∧ s.inFlight = false then
          { s with agingCycles := s.agingCycles + 1 }
        else s) σ.requests }

/-- Every request that still waits grows older. -/
def ageWaiting (σ : Impl) : Impl := σ.requests.keys.foldl ageRequest σ

/-- Bring the point-in-time statistics up to date. -/
def refreshStats (σ : Impl) : Impl :=
  σ.count fun st =>
    { st with
      queueDepth := σ.queuedCount
      waitingTokens := σ.waitingTokens
      remainingPrefillTokens := σ.remainingTokens }

/-- Run one scheduling cycle. -/
def runCycle (env : Env) (now : Nanoseconds) (σ : Impl) : Impl × DispatchBatch :=
  let σ := σ.expirySweep now
  let formed := formGroups env (σ.sortedCandidates env now) σ
  let dispatched := formed.2.foldl (dispatchGroup now) (formed.1, {})
  (dispatched.1.ageWaiting.refreshStats, dispatched.2)

end Impl

end PrefillFabric
