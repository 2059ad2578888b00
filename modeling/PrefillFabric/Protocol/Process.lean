import PrefillFabric.Protocol.CudaExecutor
import PrefillFabric.Protocol.Slices
import PrefillFabric.Scheduler.Reads

/-!
# The process of a worker

A worker connects, registers, takes the first frame that comes for the answer, and then serves
one frame after the other: a dispatch is executed and answered by a completion, a shutdown is
acknowledged and ends the process, and whatever else comes, or cannot be decoded, is passed over.
`Worker.run` is all of this as a function of the frames that arrive, which gives the frames that
are sent. Neither the kind of the first frame nor the epoch it brings is looked at, and a dispatch
that comes first is taken for the answer and lost.

A completion can only be the answer to a dispatch (`Worker.answers_of_mem_run`), and what
is read of it is what the executor has returned, but for the failure codes, of which one byte
survives (`Wire.decodeFrame_completionOf`).

Both executors are `Honest`: what they report as a success of a member is what the executor on the
CPU computes for it.
-/

namespace PrefillFabric

open Codec

/-! ### Frames -/

namespace Wire

/-- The body that is written of a message. One that is too long is not written. -/
def Message.frame? (m : Message) : Option (List UInt8) :=
  match encodeFrame m with
  | .error _ => none
  | .ok body => if kFrameMaxBytes < body.length then none else some body

theorem Message.eq_of_mem_frame? {m : Message} {body : List UInt8} (h : m.frame? = some body) :
    body = kProtocolVersion :: m.kind.toByte :: bytesOf (encPayload m) ∧
      body.length ≤ kFrameMaxBytes := by
  rw [frame?, encodeFrame_eq] at h
  dsimp only at h
  split_ifs at h with hlen
  obtain rfl := Option.some.inj h
  exact ⟨rfl, Nat.not_lt.mp hlen⟩

/-- A message that is read is of the kind that was announced. -/
theorem yields_kind (kind : MsgKind) : Yields (decPayload kind) fun m => m.kind = kind := by
  cases kind
  all_goals
    repeat refine .bind fun _ => ?_
    exact .pure rfl

theorem kind_of_decodeFrame {m m' : Message} {body : List UInt8} (h : m.frame? = some body)
    (hdec : decodeFrame body = .ok m') : m'.kind = m.kind := by
  obtain ⟨rfl, -⟩ := Message.eq_of_mem_frame? h
  obtain ⟨rest, hread⟩ := decodeFrame_eq_ok.mp hdec
  exact yields_kind _ _ _ _ hread

/-! ### Completions -/

/-- What is carried of a result: of its failure code there is a byte. -/
def MemberResult.carried (r : MemberResult) : MemberResult :=
  { r with failureCode := .ofByte r.failureCode.toByte }

theorem encMres_carried (r : MemberResult) : encMres r.carried = encMres r := by
  simp only [encMres, MemberResult.carried, ByteWriter.enum, Coded.toByte_ofByte]

theorem length_encMres (r : MemberResult) :
    (bytesOf (encMres r)).length = 83 + r.message.length := by
  simp only [encMres, bytesOf_cons, bytesOf_nil, List.length_append, List.length_nil,
    ByteWriter.length_u64, ByteWriter.length_str, ByteWriter.length_enum, ByteWriter.length_bool]
  omega

/-- Neither the number of results nor any text is longer than their bytes. -/
theorem length_le_of_results (rs : List MemberResult) :
    83 * rs.length ≤ (bytesOf (rs.flatMap encMres)).length ∧
      ∀ r ∈ rs, r.message.length ≤ (bytesOf (rs.flatMap encMres)).length := by
  induction rs with
  | nil => exact ⟨Nat.zero_le _, fun r hr => absurd hr List.not_mem_nil⟩
  | cons x rs ih =>
    obtain ⟨hlen, hall⟩ := ih
    have hx := length_encMres x
    rw [List.flatMap_cons, bytesOf_append, List.length_append, List.length_cons]
    refine ⟨by omega, fun r hr => ?_⟩
    rcases List.mem_cons.mp hr with rfl | hr
    · omega
    · have := hall r hr
      omega

/-- What is carried of results within the limit of a frame fits. -/
theorem fits_carried {rs : List MemberResult} (houtcome : ∀ r ∈ rs, r.outcome.Fits)
    (hlimit : (bytesOf (rs.flatMap encMres)).length ≤ 2 ^ 26) :
    (completionOf (rs.map (·.carried))).Fits := by
  obtain ⟨hlen, htexts⟩ := length_le_of_results rs
  have hcount : (rs.map (·.carried)).length ≤ 2 ^ 22 := by
    rw [List.length_map]
    omega
  refine ⟨fun r hr => ?_, hcount⟩
  obtain ⟨x, hx, rfl⟩ := List.mem_map.mp hr
  have htext := htexts x hx
  exact ⟨houtcome x hx, Coded.fits_ofByte _, show x.message.length ≤ 2 ^ 32 by omega⟩

/-- **What is read of a completion**: the results, with a byte of every failure code. -/
theorem decodeFrame_completionOf {rs : List MemberResult} {body : List UInt8}
    (h : (completionOf rs).frame? = some body) (houtcome : ∀ r ∈ rs, r.outcome.Fits) :
    decodeFrame body = .ok (completionOf (rs.map (·.carried))) := by
  obtain ⟨hbody, hsize⟩ := Message.eq_of_mem_frame? h
  have hpayload : encPayload (completionOf (rs.map (·.carried))) =
      encPayload (completionOf rs) := by
    change encCounted encMres (rs.map (·.carried)) = encCounted encMres rs
    rw [encCounted, encCounted, List.length_map, List.flatMap_map]
    exact congrArg _ (List.flatMap_congr fun r _ => encMres_carried r)
  have hlimit : (bytesOf (rs.flatMap encMres)).length ≤ 2 ^ 26 := by
    have hmax : kFrameMaxBytes = 2 ^ 26 := by decide
    have hcounted : bytesOf (encPayload (completionOf rs)) =
        (ByteWriter.count rs.length).bytes ++ bytesOf (rs.flatMap encMres) := rfl
    rw [hbody, List.length_cons, List.length_cons, hcounted, List.length_append, hmax] at hsize
    omega
  have hkind : (completionOf rs).kind = (completionOf (rs.map (·.carried))).kind := rfl
  rw [hbody, ← hpayload, hkind, decodeFrame_eq_carried (fits_carried houtcome hlimit)]
  rfl

end Wire

/-! ### The process -/

/-- A result as it is sent. -/
def MemberResult.toWire (r : MemberResult) : Wire.MemberResult where
  requestId := .ofNat r.requestId.value
  attemptId := .ofNat r.attemptId.value
  generation := .ofNat r.generation.value
  outcome := .of r.outcome
  tokensCompleted := .ofNat r.tokensCompleted
  digest := r.digest
  failureCode := r.failureCode.coded
  message := bytesOfString r.message
  nextTokenStart := .ofNat r.nextTokenStart
  requiresNextChunk := r.requiresNextChunk
  epoch := .ofNat r.epoch.value
  worker := .ofNat r.worker.value
  boot := .ofNat r.boot.value

/-- A worker: who it is, and its executor, which is given members and a resolver. The boot number
is made from the clock when the worker is constructed. -/
structure Worker where
  id : WorkerId
  bootId : WorkerBootId
  host : String
  backend : String
  execute : List ExecutableMember → DispatchResolver → Result (List MemberResult)

namespace Worker

variable {w : Worker} {m : Wire.Message} {body : List UInt8} {inbox : List (List UInt8)}

/-- How a worker registers. -/
def registration (w : Worker) : Wire.Message where
  kind := .workerRegister
  worker :=
    { workerId := .ofNat w.id.value
      bootId := .ofNat w.bootId.value
      host := bytesOfString w.host
      backend := bytesOfString w.backend
      state := .of .ready
      capacityUnits := 1 }

/-- What is reported of a member if the group as a whole fails. -/
def failed (e : ErrorInfo) (m : ExecutableMember) : MemberResult where
  requestId := m.requestId
  attemptId := m.attemptId
  generation := m.generation
  outcome := .retryableFailure
  failureCode := e.code
  message := e.message

/-- The results of a dispatch. No executor looks at the kind of work of a member. -/
def execution (w : Worker) (m : Wire.Message) : List MemberResult :=
  let members := m.group.members.map (·.memberOr .fullPrompt)
  match w.execute members (m.resolver .fullPrompt) with
  | .ok results => results
  | .error e => members.map (failed e)

/-- A result under the authority of a worker. The epoch is that of the dispatch, and not the one
the worker has registered in. -/
def stamp (w : Worker) (epoch : UInt64) (r : MemberResult) : Wire.MemberResult :=
  { r.toWire with epoch, worker := .ofNat w.id.value, boot := .ofNat w.bootId.value }

/-- The answer to a dispatch. -/
def answer (w : Worker) (m : Wire.Message) : Wire.Message :=
  Wire.completionOf ((w.execution m).map (w.stamp m.epoch))

/-- What a worker sends once it has registered, for the frames that arrive. A frame that is too
long to be sent is left out, and nobody is told. -/
def serve (w : Worker) : List (List UInt8) → List (List UInt8)
  | [] => []
  | body :: rest =>
    match Wire.decodeFrame body with
    | .error _ => w.serve rest
    | .ok m =>
      match m.kind with
      | .dispatch => (w.answer m).frame?.toList ++ w.serve rest
      | .shutdown => (Wire.Message.frame? { kind := .shutdownAck }).toList
      | _ => w.serve rest

/-- **What a worker sends**, for the frames that arrive. The first one is taken for the answer to
its registration, whatever it is, if it can be decoded. -/
def run (w : Worker) (inbox : List (List UInt8)) : List (List UInt8) :=
  match w.registration.frame? with
  | none => []
  | some registration =>
    registration ::
      match inbox with
      | [] => []
      | ack :: rest =>
        match Wire.decodeFrame ack with
        | .error _ => []
        | .ok _ => w.serve rest

/-- A frame answers a dispatch among those that have arrived. -/
def Answers (w : Worker) (inbox : List (List UInt8)) (body : List UInt8) : Prop :=
  ∃ b ∈ inbox, ∃ m, Wire.decodeFrame b = .ok m ∧ m.kind = .dispatch ∧
    (w.answer m).frame? = some body

theorem Answers.cons (h : w.Answers inbox body) (b : List UInt8) : w.Answers (b :: inbox) body := by
  obtain ⟨b', hb', hm⟩ := h
  exact ⟨b', List.mem_cons_of_mem b hb', hm⟩

/-- What is sent while serving answers a dispatch, or a shutdown. -/
theorem mem_serve (h : body ∈ w.serve inbox) :
    w.Answers inbox body ∨ Wire.Message.frame? { kind := .shutdownAck } = some body := by
  induction inbox with
  | nil => exact absurd h List.not_mem_nil
  | cons b rest ih =>
    rw [serve] at h
    cases hdec : Wire.decodeFrame b with
    | error e =>
      rw [hdec] at h
      exact (ih h).imp_left fun hrest => hrest.cons b
    | ok m =>
      rw [hdec] at h
      dsimp only at h
      split at h
      · rename_i hkind
        rcases List.mem_append.mp h with hhere | hrest
        · exact Or.inl ⟨b, List.mem_cons_self, m, hdec, hkind, Option.mem_toList.mp hhere⟩
        · exact (ih hrest).imp_left fun hrest => hrest.cons b
      · exact Or.inr (Option.mem_toList.mp h)
      · exact (ih h).imp_left fun hrest => hrest.cons b

/-- **A completion answers a dispatch** that has arrived. -/
theorem answers_of_mem_run (h : body ∈ w.run inbox) (hdec : Wire.decodeFrame body = .ok m)
    (hkind : m.kind = .completion) : w.Answers inbox body := by
  have hother {x : Wire.Message} (hx : x.frame? = some body) : x.kind = .completion :=
    (Wire.kind_of_decodeFrame hx hdec).symm.trans hkind
  unfold run at h
  cases hreg : w.registration.frame? with
  | none =>
    rw [hreg] at h
    exact absurd h List.not_mem_nil
  | some registration =>
    rw [hreg] at h
    rcases List.mem_cons.mp h with rfl | h
    · exact Wire.MsgKind.noConfusion (hother hreg)
    · rcases inbox with _ | ⟨ack, rest⟩
      · exact absurd h List.not_mem_nil
      · cases hack : Wire.decodeFrame ack with
        | error e =>
          simp only [hack] at h
          exact absurd h List.not_mem_nil
        | ok x =>
          simp only [hack] at h
          rcases mem_serve h with hanswers | hshutdown
          · exact hanswers.cons ack
          · exact Wire.MsgKind.noConfusion (hother hshutdown)

/-- What is read of the answer to a dispatch. -/
theorem decodeFrame_answer {m m' : Wire.Message} (h : (w.answer m).frame? = some body)
    (hdec : Wire.decodeFrame body = .ok m') :
    m'.memberResults = (w.execution m).map fun r => (w.stamp m.epoch r).carried := by
  have houtcome : ∀ r ∈ (w.execution m).map (w.stamp m.epoch), r.outcome.Fits := by
    intro r hr
    obtain ⟨x, -, rfl⟩ := List.mem_map.mp hr
    exact Coded.fits_of x.outcome
  have hread := hdec.symm.trans (Wire.decodeFrame_completionOf h houtcome)
  rw [Except.ok.inj hread]
  exact List.map_map

end Worker

/-! ### Honest executors -/

/-- **A member that can be executed**: it is not empty, its tokens are resolved, and there are not
more of them than a frame has room for. -/
structure ExecutableMember.Feasible (resolve : RequestId → ℕ → ℕ → Result (List UInt32))
    (m : ExecutableMember) : Prop where
  pos : 0 < m.tokenCount
  le : m.tokenCount ≤ 2 ^ 24
  resolved : ∃ tok, resolve m.requestId m.tokenStart m.tokenCount = .ok tok ∧
    m.tokenCount ≤ tok.length

theorem CpuExecutor.generation_executeWith
    (resolve : RequestId → ℕ → ℕ → Result (List UInt32)) (m : ExecutableMember) :
    (executeWith resolve m).generation = m.generation := by
  rw [executeWith]
  dsimp only
  split_ifs
  · rfl
  · cases resolve m.requestId m.tokenStart m.tokenCount <;> rfl

/-- On the device, too, a result is about its member; and a success is of a member for which no
call has failed. -/
theorem CudaExecutor.executeMember_cases (calls : DeviceCalls)
    (resolve : RequestId → ℕ → ℕ → Result (List UInt32)) (m : ExecutableMember) :
    (executeMember calls resolve m).generation = m.generation ∧
      ((executeMember calls resolve m).outcome = .nonRetryableFailure ∨ calls.error = none) := by
  rw [executeMember]
  dsimp only
  split_ifs
  · exact ⟨rfl, Or.inl rfl⟩
  · cases resolve m.requestId m.tokenStart m.tokenCount with
    | error e => exact ⟨rfl, Or.inl rfl⟩
    | ok tok =>
      cases calls.error with
      | none => exact ⟨rfl, Or.inr rfl⟩
      | some why => exact ⟨rfl, Or.inl rfl⟩

namespace Worker

/-- **An honest worker**: what its executor returns for members that can be executed is about
them, and a success is what the executor on the CPU computes. -/
def Honest (w : Worker) : Prop :=
  ∀ (members : List ExecutableMember) (t : DispatchResolver) (results : List MemberResult),
    w.execute members t = .ok results → (∀ m ∈ members, m.Feasible t.resolveTokens) →
    ∀ r ∈ results, ∃ m ∈ members, r.generation = m.generation ∧
      (r.outcome.advances = true → r = CpuExecutor.executeWith t.resolveTokens m)

/-- **A reliable worker**: it executes whatever can be executed. -/
def Reliable (w : Worker) : Prop :=
  ∀ (members : List ExecutableMember) (t : DispatchResolver),
    (∀ m ∈ members, m.Feasible t.resolveTokens) →
    ∃ results, w.execute members t = .ok results ∧ ∀ r ∈ results, r.outcome = .success

/-- A worker with the executor on the CPU. -/
def cpu (id : WorkerId) (bootId : WorkerBootId) (host : String) : Worker where
  id := id
  bootId := bootId
  host := host
  backend := kBackendCpu
  execute members t := .ok (members.map (CpuExecutor.executeWith t.resolveTokens))

/-- A worker with the executor on a device. -/
def cuda (rt : CudaExecutor.CudaRuntime) (id : WorkerId) (bootId : WorkerBootId) (host : String) :
    Worker where
  id := id
  bootId := bootId
  host := host
  backend := "cuda"
  execute members t := (CudaExecutor.execute rt t.resolveTokens { members }).map (·.1.members)

theorem honest_cpu (id : WorkerId) (bootId : WorkerBootId) (host : String) :
    (cpu id bootId host).Honest := by
  rintro members t results h - r hr
  obtain rfl := Except.ok.inj h
  obtain ⟨m, hm, rfl⟩ := List.mem_map.mp hr
  exact ⟨m, hm, CpuExecutor.generation_executeWith _ m, fun _ => rfl⟩

theorem reliable_cpu (id : WorkerId) (bootId : WorkerBootId) (host : String) :
    (cpu id bootId host).Reliable := by
  intro members t hfeasible
  refine ⟨_, rfl, fun r hr => ?_⟩
  obtain ⟨m, hm, rfl⟩ := List.mem_map.mp hr
  obtain ⟨hpos, -, tok, htok, -⟩ := hfeasible m hm
  rw [CpuExecutor.executeWith, if_neg hpos.ne', htok]

/-- A device on which every launch runs each of its threads once. -/
theorem honest_cuda {rt : CudaExecutor.CudaRuntime}
    (hrt : ∀ m, (rt.calls m).order.Perm (CudaExecutor.launch m.tokenCount)) (id : WorkerId)
    (bootId : WorkerBootId) (host : String) : (cuda rt id bootId host).Honest := by
  rintro members t results h hfeasible r hr
  change (CudaExecutor.execute rt t.resolveTokens { members }).map (·.1.members) = _ at h
  rw [CudaExecutor.execute] at h
  split_ifs at h
  · cases h
  · cases h
  · obtain rfl := Except.ok.inj h
    obtain ⟨m, hm, rfl⟩ := List.mem_map.mp hr
    obtain ⟨hgen, hcases⟩ := CudaExecutor.executeMember_cases (rt.calls m) t.resolveTokens m
    refine ⟨m, hm, hgen, fun hadv => ?_⟩
    rcases hcases with hfailed | hnone
    · rw [hfailed] at hadv
      exact Bool.noConfusion hadv
    · obtain ⟨hpos, hle, tok, htok, hlen⟩ := hfeasible m hm
      exact CudaExecutor.executeMember_eq_executeWith htok hlen hpos (by omega) hnone (hrt m)

/-- **What an honest worker answers.** -/
theorem Honest.execution {w : Worker} (h : w.Honest) {m : Wire.Message}
    (hfeasible : ∀ x ∈ m.group.members.map (·.memberOr .fullPrompt),
      x.Feasible (m.resolver .fullPrompt).resolveTokens) {r : MemberResult}
    (hr : r ∈ w.execution m) :
    ∃ x ∈ m.group.members.map (·.memberOr .fullPrompt), r.generation = x.generation ∧
      (r.outcome.advances = true →
        r = CpuExecutor.executeWith (m.resolver .fullPrompt).resolveTokens x) := by
  rw [Worker.execution] at hr
  split at hr
  · rename_i results hexec
    exact h _ _ _ hexec hfeasible r hr
  · rename_i e hexec
    obtain ⟨x, hx, rfl⟩ := List.mem_map.mp hr
    exact ⟨x, hx, rfl, Bool.noConfusion⟩

/-- **What a reliable worker answers.** -/
theorem Reliable.execution {w : Worker} (h : w.Reliable) {m : Wire.Message}
    (hfeasible : ∀ x ∈ m.group.members.map (·.memberOr .fullPrompt),
      x.Feasible (m.resolver .fullPrompt).resolveTokens) {r : MemberResult}
    (hr : r ∈ w.execution m) : r.outcome = .success := by
  obtain ⟨results, hexec, hall⟩ := h _ _ hfeasible
  rw [Worker.execution, hexec] at hr
  exact hall r hr

end Worker

end PrefillFabric
