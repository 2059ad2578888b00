import PrefillFabric.Protocol.Frame

/-!
# What a frame carries

A message that fits is read back from its frame, up to what its kind does not carry. What is
carried is a message of its own (`Message.carried`): the fields of the kind, the others at their
defaults. Three things in it are not what was sent. Of the devices of a worker there is the
first, and only if it is not nil; of the key of a group there is the hash; and of the result of
a cancellation there is one field.

To fit is to have texts and lists within the limits of the reader, and numbers that survive the
byte they are written as. Error codes are written in full but for the failure code of a result,
which is written as a byte. Most error codes do not fit in one.
-/

namespace PrefillFabric

open Codec

namespace Wire

open ByteReader

/-! ### Messages that fit -/

/-- The first device of a worker, as it is sent: a nil one if there is none. -/
def WorkerDescriptor.sentDevice (wd : WorkerDescriptor) : UInt64 × Str :=
  ((wd.devices.head?.map (·.id)).getD 0, (wd.devices.head?.map (·.name)).getD [])

/-- **A worker that fits.** -/
structure WorkerDescriptor.Fits (wd : WorkerDescriptor) : Prop where
  host : wd.host.length ≤ 2 ^ 32
  backend : wd.backend.length ≤ 2 ^ 32
  state : wd.state.Fits
  device : wd.sentDevice.2.length ≤ 2 ^ 32

/-- **A request that fits.** -/
structure PrefillRequest.Fits (r : PrefillRequest) : Prop where
  name : r.model.name.length ≤ 2 ^ 32
  revision : r.model.revision.length ≤ 2 ^ 32
  tokenizer : r.vocab.tokenizer.length ≤ 2 ^ 32
  fingerprint : r.reusablePrefix.fingerprint.length ≤ 2 ^ 32
  backend : r.backend.length ≤ 2 ^ 32
  deviceMatch : r.deviceMatch.length ≤ 2 ^ 32
  requester : r.requester.length ≤ 2 ^ 32
  adapterRelation : r.adapterRelation.Fits
  inputLayout : r.inputLayout.Fits
  numericMode : r.numericMode.Fits
  latencyClass : r.latencyClass.Fits

/-- **A result that fits.** -/
structure MemberResult.Fits (r : MemberResult) : Prop where
  outcome : r.outcome.Fits
  failureCode : r.failureCode.Fits
  message : r.message.length ≤ 2 ^ 32

/-- **A group that fits.** -/
structure ExecutionGroup.Fits (g : ExecutionGroup) : Prop where
  backend : g.backend.length ≤ 2 ^ 32
  workKind : ∀ m ∈ g.members, m.workKind.Fits
  size : g.members.length < 2 ^ 32

/-- **A message that fits**, in what its kind carries. -/
def Message.Fits (m : Message) : Prop :=
  match m.kind with
  | .workerRegister | .workerRegisterAck => m.worker.Fits
  | .submit => m.request.Fits ∧ m.tokens.length ≤ 2 ^ 26
  | .submitAck | .cancelAck | .error => m.error.message.length ≤ 2 ^ 32
  | .state => (∀ wd ∈ m.workers, wd.Fits) ∧ m.workers.length ≤ 2 ^ 20
  | .explainResp =>
    m.lifecycle.Fits ∧ (∀ line ∈ m.explain.trace, line.length ≤ 2 ^ 32) ∧
      m.explain.trace.length ≤ 2 ^ 22
  | .dispatch =>
    m.group.Fits ∧ m.memberTokens.length ≤ 2 ^ 28 ∧ m.memberTokenOffsets.length ≤ 2 ^ 20
  | .completion => (∀ r ∈ m.memberResults, r.Fits) ∧ m.memberResults.length ≤ 2 ^ 22
  | _ => True

/-! ### What is carried -/

/-- What is carried of a worker. -/
def WorkerDescriptor.carried (wd : WorkerDescriptor) : WorkerDescriptor :=
  { wd with
    devices :=
      if wd.sentDevice.1 = 0 then []
      else [{ id := wd.sentDevice.1, name := wd.sentDevice.2, backend := wd.backend
              available := true }] }

/-- What is carried of a group. -/
def ExecutionGroup.carried (g : ExecutionGroup) : ExecutionGroup :=
  { g with key := { policyFingerprint := (toString g.key.hash.toNat).toUTF8.data.toList } }

/-- What is carried of a message. -/
def Message.carried (m : Message) : Message :=
  match m.kind with
  | .workerRegister => { kind := m.kind, worker := m.worker.carried }
  | .workerRegisterAck => { kind := m.kind, epoch := m.epoch, worker := m.worker.carried }
  | .submit => { kind := m.kind, request := m.request, tokens := m.tokens }
  | .submitAck =>
    { kind := m.kind, requestId := m.requestId, accepted := m.accepted, error := m.error
      attemptId := m.attemptId }
  | .cancel | .queryExplain => { kind := m.kind, requestId := m.requestId }
  | .cancelAck =>
    { kind := m.kind, requestId := m.requestId, applied := m.applied
      cancelResult := { wasTerminal := m.cancelResult.wasTerminal }, error := m.error }
  | .state => { kind := m.kind, epoch := m.epoch, workers := m.workers.map (·.carried) }
  | .explainResp =>
    { kind := m.kind, requestId := m.requestId, attemptId := m.attemptId, lifecycle := m.lifecycle
      generation := m.generation, explain := { trace := m.explain.trace } }
  | .statsResp => { kind := m.kind, stats := m.stats }
  | .dispatch =>
    { kind := m.kind, group := m.group.carried, memberTokens := m.memberTokens
      memberTokenOffsets := m.memberTokenOffsets, epoch := m.epoch
      worker := { bootId := m.worker.bootId } }
  | .completion => { kind := m.kind, memberResults := m.memberResults }
  | .error => { kind := m.kind, error := m.error }
  | .hello | .queryState | .queryStats | .shutdown | .shutdownAck | .ping | .pong | .rollEpoch =>
    { kind := m.kind }

/-! ### Records are read back -/

theorem reads_decWorker {wd : WorkerDescriptor} (h : wd.Fits) :
    Reads decWorker (bytesOf (encWorker wd)) wd.carried :=
  (reads_u64 _).bind <| (reads_u64 _).bind <| (reads_str h.host).bind <| (reads_u32 _).bind <|
    (reads_str h.backend).bind <| (reads_enum h.state).bind <| (reads_u64 _).bind <|
    (reads_u64 wd.sentDevice.1).bind <| (reads_str h.device).bind <| .pure _

theorem reads_decOptional (t : Option Int64) : Reads decOptional (bytesOf (encOptional t)) t := by
  have hreads : Reads decOptional _ (if t.isSome then some (t.getD 0) else none) :=
    (reads_bool t.isSome).bind <| (reads_i64 (t.getD 0)).bind <| .pure _
  cases t <;> exact hreads

theorem reads_decReq {r : PrefillRequest} (h : r.Fits) :
    Reads decReq (bytesOf (encReq r)) r := by
  have hpriority : r.priority.toUInt32.toInt32 = r.priority := Int32.toInt32_toUInt32 _
  have hretries : r.maxRetries.toUInt32.toInt32 = r.maxRetries := Int32.toInt32_toUInt32 _
  have hreads : Reads decReq _
      { r with priority := r.priority.toUInt32.toInt32
               maxRetries := r.maxRetries.toUInt32.toInt32 } :=
    (reads_u64 _).bind <| (reads_u64 _).bind <| (reads_str h.name).bind <|
    (reads_str h.revision).bind <| (reads_u64 _).bind <| (reads_enum h.adapterRelation).bind <|
    (reads_str h.tokenizer).bind <| (reads_u64 _).bind <| (reads_u64 _).bind <|
    (reads_u64 _).bind <| (reads_bool _).bind <| (reads_str h.fingerprint).bind <|
    (reads_u64 _).bind <| (reads_u64 _).bind <| (reads_u64 _).bind <| (reads_u64 _).bind <|
    (reads_enum h.inputLayout).bind <| (reads_enum h.numericMode).bind <|
    (reads_str h.backend).bind <| (reads_u64 _).bind <| (reads_str h.deviceMatch).bind <|
    (reads_enum h.latencyClass).bind <| (reads_decOptional r.deadline).bind <|
    (reads_u32 _).bind <| (reads_f64 _).bind <| (reads_i64 _).bind <|
    (reads_decOptional r.maxQueueDelay).bind <| (reads_u64 _).bind <| (reads_u64 _).bind <|
    (reads_u32 _).bind <| (reads_str h.requester).bind <| .pure _
  rw [hpriority, hretries] at hreads
  simpa only [encReq, bytesOf_append, bytesOf_cons, bytesOf_nil, List.append_nil,
    List.append_assoc] using hreads

theorem reads_decMember {m : ExecutableMember} (h : m.workKind.Fits) :
    Reads decMember (bytesOf (encMember m)) m :=
  (reads_u64 _).bind <| (reads_u64 _).bind <| (reads_u64 _).bind <| (reads_u64 _).bind <|
    (reads_u64 _).bind <| (reads_u64 _).bind <| (reads_enum h).bind <| (reads_u64 _).bind <|
    (reads_u64 _).bind <| (reads_u64 _).bind <| (reads_u32 _).bind <| .pure _

theorem reads_decMres {r : MemberResult} (h : r.Fits) :
    Reads decMres (bytesOf (encMres r)) r :=
  (reads_u64 _).bind <| (reads_u64 _).bind <| (reads_u64 _).bind <| (reads_enum h.outcome).bind <|
    (reads_u64 _).bind <| (reads_u64 _).bind <| (reads_enum h.failureCode).bind <|
    (reads_str h.message).bind <| (reads_u64 _).bind <| (reads_bool _).bind <|
    (reads_u64 _).bind <| (reads_u64 _).bind <| (reads_u64 _).bind <| .pure _

theorem reads_decGroup {g : ExecutionGroup} (h : g.Fits) :
    Reads decGroup (bytesOf (encGroup g)) g.carried := by
  have hsize : (UInt32.ofNat g.members.length).toNat = g.members.length :=
    UInt32.toNat_ofNat_of_lt' h.size
  have hmembers := Reads.many fun m hm => reads_decMember (h.workKind m hm)
  rw [← hsize] at hmembers
  have hreads : Reads decGroup _ g.carried :=
    (reads_u64 _).bind <| (reads_str h.backend).bind <| (reads_u64 _).bind <|
    (reads_u64 g.key.hash).bind <| (reads_u32 _).bind <| hmembers.bind <| (reads_u64 _).bind <|
    (reads_u64 _).bind <| (reads_u64 _).bind <| .pure _
  simpa only [encGroup, bytesOf_append, bytesOf_cons, bytesOf_nil, List.append_nil,
    List.append_assoc] using hreads

theorem reads_decStats (st : Stats) : Reads decStats (bytesOf (encStats st)) st :=
  have u64 (v : UInt64) := (reads_u64 v).orDefault 0
  have i64 (v : Int64) := (reads_i64 v).orDefault 0
  (u64 _).bind <| (u64 _).bind <| (u64 _).bind <| (u64 _).bind <| (u64 _).bind <| (u64 _).bind <|
    (u64 _).bind <| (u64 _).bind <| (u64 _).bind <| (u64 _).bind <| (u64 _).bind <|
    (u64 _).bind <| (u64 _).bind <| (u64 _).bind <| (u64 _).bind <| (u64 _).bind <|
    (u64 _).bind <| (u64 _).bind <| (u64 _).bind <| (i64 _).bind <| (i64 _).bind <|
    (u64 _).bind <| (u64 _).bind <| .pure _

/-- A list of which each entry is one item. -/
theorem reads_decCounted {α : Type} {limit : ℕ} (hlimit : limit < 2 ^ 64) (what : String)
    {r : ByteReader α} {w : α → Item} {as : List α} (h : ∀ a ∈ as, Reads r (w a).bytes a)
    (hlen : as.length ≤ limit) :
    Reads (decCounted limit what r) (bytesOf (encCounted (fun a => [w a]) as)) as := by
  refine reads_counted hlimit _ (fun a ha => ?_) hlen
  simpa only [bytesOf_cons, bytesOf_nil, List.append_nil] using h a ha

/-! ### Messages are read back -/

/-- **The payload of a message that fits is read back.** -/
theorem reads_decPayload {m : Message} (h : m.Fits) :
    Reads (decPayload m.kind) (bytesOf (encPayload m)) m.carried := by
  unfold Message.Fits at h
  unfold encPayload Message.carried
  cases hkind : m.kind <;> simp only [hkind] at h ⊢
  case workerRegister => exact (reads_decWorker h).bind_pure _
  case workerRegisterAck => exact (reads_u64 _).bind <| (reads_decWorker h).bind_pure _
  case submit =>
    obtain ⟨hrequest, hlen⟩ := h
    have htokens := reads_decCounted (by decide) "token count unreasonable"
      (fun t _ => reads_u32 t) hlen
    rw [bytesOf_append]
    exact (reads_decReq hrequest).bind <| htokens.bind_pure _
  case submitAck =>
    exact (reads_u64 _).bind <| (reads_bool _).bind <| (reads_code _).bind <|
      (reads_str h).bind <| (reads_u64 _).bind <| .pure _
  case cancel => exact (reads_u64 _).bind <| .pure _
  case cancelAck =>
    exact (reads_u64 _).bind <| (reads_bool _).bind <| (reads_bool _).bind <|
      (reads_code _).bind <| (reads_str h).bind <| .pure _
  case state =>
    obtain ⟨hworkers, hlen⟩ := h
    have hreads := reads_counted_map (by decide) ⟨.protocolViolation, "worker count unreasonable"⟩
      (fun wd hwd => reads_decWorker (hworkers wd hwd)) hlen
    exact (reads_u64 _).bind <| hreads.bind_pure _
  case queryExplain => exact (reads_u64 _).bind <| .pure _
  case explainResp =>
    obtain ⟨hlifecycle, hlines, hlen⟩ := h
    have htrace := reads_decCounted (by decide) "trace length unreasonable"
      (fun line hline => reads_str (hlines line hline)) hlen
    exact (reads_u64 _).bind <| (reads_u64 _).bind <| (reads_enum hlifecycle).bind <|
      (reads_u64 _).bind <| htrace.bind_pure _
  case statsResp => exact (reads_decStats _).bind_pure _
  case dispatch =>
    obtain ⟨hgroup, htokens, hoffsets⟩ := h
    have htokens := reads_decCounted (by decide) "member_tokens too large"
      (fun t _ => reads_u32 t) htokens
    have hoffsets := reads_decCounted (by decide) "member offsets too large"
      (fun o _ => reads_u64 o) hoffsets
    simp only [bytesOf_append, List.append_assoc]
    exact (reads_decGroup hgroup).bind <| htokens.bind <| hoffsets.bind <| (reads_u64 _).bind <|
      (reads_u64 _).bind <| .pure _
  case completion =>
    obtain ⟨hresults, hlen⟩ := h
    have hreads := reads_counted (by decide) ⟨.protocolViolation, "completion count unreasonable"⟩
      (fun r hr => reads_decMres (hresults r hr)) hlen
    exact hreads.bind_pure _
  case error => exact (reads_code _).bind <| (reads_str h).bind <| .pure _
  all_goals exact .pure _

/-- The frame of a message. -/
theorem encodeFrame_eq (m : Message) :
    encodeFrame m = .ok (kProtocolVersion :: m.kind.toByte :: bytesOf (encPayload m)) := rfl

/-- A frame of the right version and of a kind is accepted if its payload is, whatever is left
of it. -/
theorem decodeFrame_eq_ok {kind : MsgKind} {payload : List UInt8} {m : Message} :
    decodeFrame (kProtocolVersion :: kind.toByte :: payload) = .ok m ↔
      ∃ rest, decPayload kind payload = .ok (m, rest) := by
  have hbody : decodeFrame (kProtocolVersion :: kind.toByte :: payload) =
      (decPayload kind payload).map (·.1) := by
    rw [decodeFrame, MsgKind.ofByte?_toByte]
    exact if_neg (not_not_intro rfl)
  rw [hbody]
  cases decPayload kind payload with
  | error e => simp [Except.map]
  | ok p => simp [Except.map, Prod.ext_iff]

/-- **The frame of a message that fits is decoded** to what is carried of the message. -/
theorem decodeFrame_eq_carried {m : Message} (h : m.Fits) :
    decodeFrame (kProtocolVersion :: m.kind.toByte :: bytesOf (encPayload m)) =
      .ok m.carried := by
  have hread := reads_decPayload h []
  rw [List.append_nil] at hread
  exact decodeFrame_eq_ok.mpr ⟨[], hread⟩

/-! ### Agreement -/

/-- Two workers agree, their devices apart. -/
structure WorkerDescriptor.Agrees (wd wd' : WorkerDescriptor) : Prop where
  workerId : wd'.workerId = wd.workerId
  bootId : wd'.bootId = wd.bootId
  host : wd'.host = wd.host
  port : wd'.port = wd.port
  backend : wd'.backend = wd.backend
  state : wd'.state = wd.state
  capacityUnits : wd'.capacityUnits = wd.capacityUnits

/-- Two groups agree, their keys apart. -/
structure ExecutionGroup.Agrees (g g' : ExecutionGroup) : Prop where
  groupId : g'.groupId = g.groupId
  backend : g'.backend = g.backend
  device : g'.device = g.device
  members : g'.members = g.members
  totalTokenCount : g'.totalTokenCount = g.totalTokenCount
  maxMemoryEstimateBytes : g'.maxMemoryEstimateBytes = g.maxMemoryEstimateBytes
  sumComputeEstimate : g'.sumComputeEstimate = g.sumComputeEstimate

/-- **Two messages of one kind agree** on the fields that are written for the kind. -/
def Message.Agrees (m m' : Message) : Prop :=
  m'.kind = m.kind ∧
  match m.kind with
  | .workerRegister => m.worker.Agrees m'.worker
  | .workerRegisterAck => m'.epoch = m.epoch ∧ m.worker.Agrees m'.worker
  | .submit => m'.request = m.request ∧ m'.tokens = m.tokens
  | .submitAck =>
    m'.requestId = m.requestId ∧ m'.accepted = m.accepted ∧ m'.error = m.error ∧
      m'.attemptId = m.attemptId
  | .cancel | .queryExplain => m'.requestId = m.requestId
  | .cancelAck =>
    m'.requestId = m.requestId ∧ m'.applied = m.applied ∧
      m'.cancelResult.wasTerminal = m.cancelResult.wasTerminal ∧ m'.error = m.error
  | .state => m'.epoch = m.epoch ∧ List.Forall₂ WorkerDescriptor.Agrees m.workers m'.workers
  | .explainResp =>
    m'.requestId = m.requestId ∧ m'.attemptId = m.attemptId ∧ m'.lifecycle = m.lifecycle ∧
      m'.generation = m.generation ∧ m'.explain.trace = m.explain.trace
  | .statsResp => m'.stats = m.stats
  | .dispatch =>
    m.group.Agrees m'.group ∧ m'.memberTokens = m.memberTokens ∧
      m'.memberTokenOffsets = m.memberTokenOffsets ∧ m'.epoch = m.epoch ∧
      m'.worker.bootId = m.worker.bootId
  | .completion => m'.memberResults = m.memberResults
  | .error => m'.error = m.error
  | _ => True

theorem WorkerDescriptor.agrees_carried (wd : WorkerDescriptor) : wd.Agrees wd.carried :=
  ⟨rfl, rfl, rfl, rfl, rfl, rfl, rfl⟩

theorem ExecutionGroup.agrees_carried (g : ExecutionGroup) : g.Agrees g.carried :=
  ⟨rfl, rfl, rfl, rfl, rfl, rfl, rfl⟩

theorem Message.agrees_carried (m : Message) : m.Agrees m.carried := by
  have hworkers : List.Forall₂ WorkerDescriptor.Agrees m.workers (m.workers.map (·.carried)) := by
    rw [List.forall₂_map_right_iff, List.forall₂_same]
    exact fun wd _ => wd.agrees_carried
  unfold Agrees carried
  cases hkind : m.kind <;>
    simp only [WorkerDescriptor.agrees_carried, ExecutionGroup.agrees_carried, hworkers, and_self]

/-- **What is sent is what is received.** The frame of a message that fits is accepted, and what
it is decoded to agrees with the message on every field its kind carries. -/
theorem decodeFrame_encodeFrame {m : Message} (h : m.Fits) :
    ∃ body m', encodeFrame m = .ok body ∧ decodeFrame body = .ok m' ∧ m.Agrees m' :=
  ⟨_, m.carried, encodeFrame_eq m, decodeFrame_eq_carried h, m.agrees_carried⟩

/-- A submission with a deadline, a negative priority and two tokens. -/
def plainSubmit : Message where
  kind := .submit
  request := { requestId := 7, promptTokenCount := 2, deadline := some (-5), priority := -3 }
  tokens := [11, 12]

theorem decodeFrame_encodeFrame_plainSubmit :
    ∃ body m', encodeFrame plainSubmit = .ok body ∧ decodeFrame body = .ok m' ∧
      plainSubmit.Agrees m' :=
  decodeFrame_encodeFrame
    ⟨⟨by decide, by decide, by decide, by decide, by decide, by decide, by decide, by decide,
      by decide, by decide, by decide⟩, by decide⟩

/-! ### Results -/

/-- Both enumerations of a result are declared values. -/
structure MemberResult.Declared (r : MemberResult) : Prop where
  outcome : ∃ o, r.outcome = .of o
  failureCode : ∃ c : ErrorCode, r.failureCode = c.coded

/-- The message with the results of a group. -/
def completionOf (rs : List MemberResult) : Message := { kind := .completion, memberResults := rs }

/-- Every result that is read fits. -/
theorem yields_decMres : Yields decMres MemberResult.Fits :=
  .bind fun _ => .bind fun _ => .bind fun _ => yields_enum.bind_of fun _ houtcome =>
    .bind fun _ => .bind fun _ => yields_enum.bind_of fun _ hcode =>
    yields_str.bind_of fun _ hmessage => .bind fun _ => .bind fun _ => .bind fun _ =>
    .bind fun _ => .bind fun _ => .pure ⟨houtcome, hcode, hmessage⟩

theorem yields_completion :
    Yields (decPayload .completion) fun m => ∀ r ∈ m.memberResults, r.Fits :=
  (yields_counted _ _ yields_decMres).bind_of fun _ hall => .pure hall

/-- **Results come back** exactly if every failure code is one of the few that fit in a byte
and no message is too long. -/
theorem decodeFrame_completion_iff {rs : List MemberResult} (hdeclared : ∀ r ∈ rs, r.Declared)
    (hlen : rs.length ≤ 2 ^ 22) :
    (∃ body m', encodeFrame (completionOf rs) = .ok body ∧ decodeFrame body = .ok m' ∧
        m'.memberResults = rs) ↔
      ∀ r ∈ rs, r.failureCode.code < 256 ∧ r.message.length ≤ 2 ^ 32 := by
  constructor
  · rintro ⟨body, m', henc, hdec, hresults⟩ r hr
    obtain rfl := Except.ok.inj henc
    obtain ⟨rest, hread⟩ := decodeFrame_eq_ok.mp hdec
    -- whatever is read from a byte fits in one
    have hfits := yields_completion _ m' rest hread r (by rwa [hresults])
    exact ⟨hfits.failureCode.2, hfits.message⟩
  · intro hfits
    have hfits : (completionOf rs).Fits := by
      refine ⟨fun r hr => ⟨?_, ?_, (hfits r hr).2⟩, hlen⟩
      · obtain ⟨o, ho⟩ := (hdeclared r hr).outcome
        rw [ho]
        exact Coded.fits_of o
      · obtain ⟨c, hc⟩ := (hdeclared r hr).failureCode
        refine ⟨?_, (hfits r hr).1⟩
        rw [hc]
        exact c.coded_nonneg
    exact ⟨_, _, encodeFrame_eq _, decodeFrame_eq_carried hfits, rfl⟩

/-- A failure that says that a request is not known. -/
def unknownResult : MemberResult where
  requestId := 1
  outcome := .of .nonRetryableFailure
  failureCode := ErrorCode.unknownRequest.coded

/-- The code 300 is read back as 44, which is not declared. -/
theorem decodeFrame_completion_unknownResult :
    unknownResult.failureCode = ⟨300⟩ ∧
      ∃ body, encodeFrame (completionOf [unknownResult]) = .ok body ∧
        decodeFrame body = .ok (completionOf [{ unknownResult with failureCode := ⟨44⟩ }]) := by
  refine ⟨by decide, _, rfl, ?_⟩
  rfl

/-- A failure whose code is one of the few that survive. -/
theorem decodeFrame_completion_invalidArgument :
    ∃ body m', encodeFrame (completionOf [{ failureCode := ErrorCode.invalidArgument.coded }]) =
        .ok body ∧ decodeFrame body = .ok m' ∧
      m'.memberResults = [{ failureCode := ErrorCode.invalidArgument.coded }] :=
  (decodeFrame_completion_iff
    (fun r hr => ⟨⟨.success, by rw [List.mem_singleton.mp hr]; rfl⟩,
      ⟨.invalidArgument, by rw [List.mem_singleton.mp hr]⟩⟩) (by decide)).mpr (by decide)

end Wire

end PrefillFabric
