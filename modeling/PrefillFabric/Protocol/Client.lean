import Mathlib.Algebra.Order.BigOperators.Group.List
import PrefillFabric.Coordinator.State
import PrefillFabric.Protocol.Roundtrip
import PrefillFabric.Scheduler.Queries

/-!
# Clients

What a client asks goes to the coordinator in a frame and the answer comes back in one. Between
the call of the scheduler and what the caller of the client gets there are four steps: the
handler fills in a message, the message is encoded, it is decoded, and the client takes out of
it what it returns. Frames are taken to arrive as they were sent.

Is what the client returns what the scheduler said? For an explanation it is, if the request is
known and the answer can be sent and read; that a request is not known is filled in by the
handler, but not encoded. For a cancellation it never is: what is encoded is not what the
client takes out.
-/

namespace PrefillFabric

open Codec

/-- An error as it is sent. -/
def ErrorInfo.toWire (e : ErrorInfo) : Wire.ErrorInfo := ⟨e.code.coded, bytesOfString e.message⟩

/-- The result of a cancellation as it is sent. -/
def CancelResult.toWire (cr : CancelResult) : Wire.CancelResult where
  applied := cr.applied
  wasTerminal := cr.wasTerminal
  code := cr.code.coded
  message := bytesOfString cr.message

/-! ### Answers -/

/-- The answer to a cancellation. -/
def cancelAck (req : UInt64) (cr : CancelResult) : Wire.Message where
  kind := .cancelAck
  requestId := req
  applied := cr.applied
  cancelResult := cr.toWire
  error := ErrorInfo.toWire ⟨cr.code, cr.message⟩

/-- The answer to the question why a request is where it is. -/
def explainResp (σ : Impl) (req : UInt64) : Wire.Message :=
  match σ.explain ⟨req.toNat⟩ with
  | .ok ex =>
    { kind := .explainResp
      requestId := req
      explain :=
        { requestId := .ofNat ex.requestId.value
          attemptId := .ofNat ex.attemptId.value
          lifecycle := bytesOfString ex.lifecycle
          trace := ex.trace.map bytesOfString }
      attemptId := .ofNat ex.attemptId.value
      lifecycle := .of ((σ.lifecycle ⟨req.toNat⟩).getD .submitted)
      generation := .ofNat (σ.currentGeneration ⟨req.toNat⟩).value }
  | .error e => { kind := .explainResp, requestId := req, error := e.toWire }

/-- What the handler of a client answers to a message: to a cancellation, what `serveClient`
sends; to a question, what the scheduler says. Other messages are not considered here. -/
def Coordinator.answer (conn : ConnectionId) (now : Nanoseconds) (c : Coordinator)
    (m : Wire.Message) : Option Wire.Message :=
  match m.kind with
  | .cancel =>
    match (c.serveClient conn now (.cancel ⟨m.requestId.toNat⟩)).2 with
    | some (_, .cancelAck _ cr) => some (cancelAck m.requestId cr)
    | _ => none
  | .queryExplain => some (explainResp c.scheduler m.requestId)
  | _ => none

/-! ### The client -/

/-- What becomes of a message: it is not sent, or it arrives and is decoded or not. -/
def received (m : Wire.Message) : Result (Result Wire.Message) :=
  match Wire.encodeFrame m with
  | .error e => .error e
  | .ok body =>
    if kFrameMaxBytes < body.length then .error ⟨.oversizedFrame, "frame too large"⟩
    else .ok (Wire.decodeFrame body)

namespace Client

/-- What a client returns, if it returns. -/
abbrev Reply (α : Type) := Option (Except Wire.ErrorInfo α)

/-- Send a message and wait for an answer of a kind. A message that the other side cannot
decode, or an answer that it cannot send, leaves the client waiting. -/
def roundtrip (serve : Wire.Message → Option Wire.Message) (msg : Wire.Message)
    (expect : Wire.MsgKind) : Reply Wire.Message :=
  match received msg with
  | .error e => some (.error e.toWire)
  | .ok (.error _) => none
  | .ok (.ok m) =>
    match (serve m).map received with
    | none => none
    | some (.error _) => none
    | some (.ok (.error e)) => some (.error e.toWire)
    | some (.ok (.ok dm)) =>
      if dm.kind = .error then some (.error dm.error)
      else if dm.kind ≠ expect then
        some (.error (ErrorInfo.toWire ⟨.protocolViolation, "unexpected reply kind"⟩))
      else some (.ok dm)

/-- Cancel a request. -/
def cancel (serve : Wire.Message → Option Wire.Message) (req : UInt64) :
    Reply Wire.CancelResult :=
  (roundtrip serve { kind := .cancel, requestId := req } .cancelAck).map
    (Except.map (·.cancelResult))

/-- Ask why a request is where it is. -/
def queryExplain (serve : Wire.Message → Option Wire.Message) (req : UInt64) :
    Reply Wire.Message :=
  roundtrip serve { kind := .queryExplain, requestId := req } .explainResp

end Client

/-! ### What arrives -/

/-- The length of the body of a message. -/
def bodyLength (m : Wire.Message) : ℕ := 2 + (bytesOf (Wire.encPayload m)).length

theorem received_of_le {m : Wire.Message} (h : bodyLength m ≤ kFrameMaxBytes) :
    received m = .ok (Wire.decodeFrame
      (Wire.kProtocolVersion :: m.kind.toByte :: bytesOf (Wire.encPayload m))) := by
  rw [received, Wire.encodeFrame_eq]
  refine if_neg (Nat.not_lt.mpr ?_)
  rw [List.length_cons, List.length_cons, ← Nat.add_comm 2]
  exact h

theorem received_of_lt {m : Wire.Message} (h : kFrameMaxBytes < bodyLength m) :
    received m = .error ⟨.oversizedFrame, "frame too large"⟩ := by
  rw [received, Wire.encodeFrame_eq]
  refine if_pos ?_
  rw [List.length_cons, List.length_cons, ← Nat.add_comm 2]
  exact h

/-- A message that fits and is not too long arrives. -/
theorem received_of_fits {m : Wire.Message} (hfits : m.Fits) (h : bodyLength m ≤ kFrameMaxBytes) :
    received m = .ok (.ok m.carried) := by
  rw [received_of_le h, Wire.decodeFrame_eq_carried hfits]

/-- A message that arrives as it was sent is answered, and the client gets the answer if it is
of the kind that is expected. -/
theorem roundtrip_eq {serve : Wire.Message → Option Wire.Message} {msg reply : Wire.Message}
    (hmsg : received msg = .ok (.ok msg)) (hserve : serve msg = some reply) :
    Client.roundtrip serve msg reply.kind =
      match received reply with
      | .error _ => none
      | .ok (.error e) => some (.error e.toWire)
      | .ok (.ok dm) =>
        if dm.kind = .error then some (.error dm.error)
        else if dm.kind ≠ reply.kind then
          some (.error (ErrorInfo.toWire ⟨.protocolViolation, "unexpected reply kind"⟩))
        else some (.ok dm) := by
  rw [Client.roundtrip, hmsg]
  dsimp only
  rw [hserve, Option.map_some]
  rcases received reply with _ | _ | _ <;> rfl

/-! ### Cancellations -/

namespace Impl

/-- What a cancellation says is one of four things. -/
theorem cancel_message (now : Nanoseconds) (req : RequestId) (σ : Impl) :
    (σ.cancel now req).2.message ∈ ["unknown request", "request already terminal",
      "cancellation pending at chunk boundary", "cancelled"] := by
  unfold cancel
  cases σ.requests.lookup req with
  | none => simp
  | some s =>
    dsimp only
    split_ifs <;> simp

end Impl

/-- **What a client learns from a cancellation** is whether the request was over, and nothing
else. -/
theorem client_cancel_eq (conn : ConnectionId) (now : Nanoseconds) (c : Coordinator)
    (req : UInt64) :
    Client.cancel (c.answer conn now) req =
      some (.ok { wasTerminal := (c.scheduler.cancel now ⟨req.toNat⟩).2.wasTerminal }) := by
  have hmsg : received { kind := .cancel, requestId := req } =
      .ok (.ok { kind := .cancel, requestId := req }) :=
    received_of_fits trivial (by simp [bodyLength, Wire.encPayload, kFrameMaxBytes])
  have hshort : ∀ message ∈ ["unknown request", "request already terminal",
      "cancellation pending at chunk boundary", "cancelled"],
      (bytesOfString message).length ≤ 64 := by decide
  generalize hcr : (c.scheduler.cancel now ⟨req.toNat⟩).2 = cr
  have hlen : (bytesOfString cr.message).length ≤ 64 := by
    rw [← hcr]
    exact hshort _ (Impl.cancel_message ..)
  have hserve : c.answer conn now { kind := .cancel, requestId := req } =
      some (cancelAck req cr) := by
    rw [← hcr]
    rfl
  have hreply : received (cancelAck req cr) = .ok (.ok (cancelAck req cr).carried) := by
    refine received_of_fits ?_ ?_
    · change (bytesOfString cr.message).length ≤ 2 ^ 32
      omega
    · simp only [bodyLength, cancelAck, Wire.encPayload, ErrorInfo.toWire]
      simp [kFrameMaxBytes]
      omega
  have hround := roundtrip_eq hmsg hserve
  rw [hreply] at hround
  rw [Client.cancel]
  change Option.map _ (Client.roundtrip _ _ (cancelAck req cr).kind) = _
  rw [hround]
  rfl

/-! ### Explanations -/

/-- The length of the body of the answer to a question about a request. -/
def explainBytes (s : Rs) : ℕ := 35 + (s.trace.map fun line => 8 + (bytesOfString line).length).sum

theorem length_bytesOf_lines (lines : List String) :
    (bytesOf ((lines.map bytesOfString).flatMap fun line => [ByteWriter.str line])).length =
      (lines.map fun line => 8 + (bytesOfString line).length).sum := by
  induction lines with
  | nil => rfl
  | cons line lines ih => simp [ih]

theorem yields_explainResp :
    Yields (Wire.decPayload .explainResp) fun m => m.explain.trace.length ≤ 2 ^ 22 :=
  .bind fun _ => .bind fun _ => .bind fun _ => .bind fun _ =>
    (ByteReader.length_counted_le _ _ _).bind_of fun _ hlen => .pure hlen

section

variable {σ : Impl} {req : UInt64} {s : Rs}

/-- The answer for a request that is known. -/
theorem explainResp_of_some (hs : σ.requests.lookup ⟨req.toNat⟩ = some s) :
    explainResp σ req =
      { kind := .explainResp
        requestId := req
        explain :=
          { requestId := .ofNat req.toNat
            attemptId := .ofNat s.attempt.value
            lifecycle := bytesOfString s.lifecycle.name
            trace := s.trace.map bytesOfString }
        attemptId := .ofNat s.attempt.value
        lifecycle := .of s.lifecycle
        generation := .ofNat s.currentGeneration.value } := by
  simp only [explainResp, Impl.explain, Impl.lifecycle, Impl.currentGeneration, hs,
    Option.map_some, Option.getD_some]

/-- **That a request is not known is not encoded**: what arrives looks like an explanation. -/
theorem received_explainResp_of_none (hs : σ.requests.lookup ⟨req.toNat⟩ = none) :
    received (explainResp σ req) = .ok (.ok { kind := .explainResp, requestId := req }) := by
  have hresp : explainResp σ req =
      { kind := .explainResp, requestId := req
        error := ErrorInfo.toWire ⟨.notFound, "unknown request"⟩ } := by
    simp only [explainResp, Impl.explain, hs]
  have hlifecycle : ({} : Coded Lifecycle).Fits := by decide
  rw [hresp]
  refine received_of_fits ⟨hlifecycle, List.forall_mem_nil _, Nat.zero_le _⟩ ?_
  simp [bodyLength, Wire.encPayload, Wire.encCounted, kFrameMaxBytes]

theorem bodyLength_explainResp (hs : σ.requests.lookup ⟨req.toNat⟩ = some s) :
    bodyLength (explainResp σ req) = explainBytes s := by
  have hlines := length_bytesOf_lines s.trace
  rw [explainResp_of_some hs]
  simp only [bodyLength, Wire.encPayload, Wire.encCounted, bytesOf_append, bytesOf_cons,
    bytesOf_nil, List.length_append, List.length_nil, ByteWriter.length_u64,
    ByteWriter.length_enum, ByteWriter.length_count, hlines, explainBytes]
  omega

theorem fits_explainResp (hs : σ.requests.lookup ⟨req.toNat⟩ = some s)
    (hlen : s.trace.length ≤ 2 ^ 22) (hbytes : explainBytes s ≤ kFrameMaxBytes) :
    (explainResp σ req).Fits := by
  rw [explainResp_of_some hs]
  refine ⟨Coded.fits_of s.lifecycle, ?_, by simpa using hlen⟩
  simp only [List.mem_map]
  rintro _ ⟨line, hline, rfl⟩
  have hle := List.single_le_sum (fun _ _ => Nat.zero_le _) _
    (List.mem_map_of_mem (f := fun line => 8 + (bytesOfString line).length) hline)
  simp only [explainBytes, kFrameMaxBytes] at hbytes
  omega

/-- **The client says what the scheduler says**: the result of a cancellation, field by field. -/
def CancelAgrees (conn : ConnectionId) (now : Nanoseconds) (c : Coordinator) (req : UInt64) :
    Prop :=
  Client.cancel (c.answer conn now) req =
    some (.ok (c.scheduler.cancel now ⟨req.toNat⟩).2.toWire)

/-- **The client says what the scheduler says**: an error, or the attempt and the trace of a
request. -/
def ExplainAgrees (conn : ConnectionId) (now : Nanoseconds) (c : Coordinator) (req : UInt64) :
    Prop :=
  match c.scheduler.explain ⟨req.toNat⟩ with
  | .error _ => ∃ e, Client.queryExplain (c.answer conn now) req = some (.error e)
  | .ok ex => ∃ m, Client.queryExplain (c.answer conn now) req = some (.ok m) ∧
      m.attemptId = .ofNat ex.attemptId.value ∧ m.explain.trace = ex.trace.map bytesOfString

/-- What a client is told about a request, once the answer has arrived or not. -/
theorem client_queryExplain_eq (conn : ConnectionId) (now : Nanoseconds) (c : Coordinator)
    (req : UInt64) :
    Client.queryExplain (c.answer conn now) req =
      match received (explainResp c.scheduler req) with
      | .error _ => none
      | .ok (.error e) => some (.error e.toWire)
      | .ok (.ok dm) =>
        if dm.kind = .error then some (.error dm.error)
        else if dm.kind ≠ .explainResp then
          some (.error (ErrorInfo.toWire ⟨.protocolViolation, "unexpected reply kind"⟩))
        else some (.ok dm) := by
  have hmsg : received { kind := .queryExplain, requestId := req } =
      .ok (.ok { kind := .queryExplain, requestId := req }) :=
    received_of_fits trivial (by simp [bodyLength, Wire.encPayload, kFrameMaxBytes])
  have hkind : (explainResp c.scheduler req).kind = .explainResp := by
    rw [explainResp]
    split <;> rfl
  have hround := roundtrip_eq hmsg (show c.answer conn now _ = _ from rfl)
  rw [hkind] at hround
  exact hround

/-- **An explanation arrives** exactly if the request is known and the answer is neither too
long to be sent nor has too many lines to be read. -/
theorem explainAgrees_iff (conn : ConnectionId) (now : Nanoseconds) (c : Coordinator)
    (req : UInt64) :
    ExplainAgrees conn now c req ↔ ∃ s, c.scheduler.requests.lookup ⟨req.toNat⟩ = some s ∧
      s.trace.length ≤ 2 ^ 22 ∧ explainBytes s ≤ kFrameMaxBytes := by
  unfold ExplainAgrees
  rw [client_queryExplain_eq]
  cases hs : c.scheduler.requests.lookup ⟨req.toNat⟩ with
  | none =>
    rw [received_explainResp_of_none hs]
    simp [Impl.explain, hs]
  | some s =>
    have hresp := explainResp_of_some hs
    have hbytes := bodyLength_explainResp hs
    simp only [Impl.explain, hs, Option.some.injEq, exists_eq_left']
    constructor
    · rintro ⟨m, hm, -, htrace⟩
      have hle : explainBytes s ≤ kFrameMaxBytes := by
        by_contra hlarge
        rw [received_of_lt (by rw [hbytes]; exact Nat.not_le.mp hlarge)] at hm
        cases hm
      rw [received_of_le (hbytes.trans_le hle), hresp] at hm
      -- what has been decoded is within the limits
      generalize hdec : Wire.decodeFrame _ = dm at hm
      rcases dm with e | dm
      · cases hm
      · dsimp only at hm
        obtain rfl : dm = m := by
          split_ifs at hm
          · cases hm
          · cases hm
          · exact Except.ok.inj (Option.some.inj hm)
        obtain ⟨rest, hread⟩ := Wire.decodeFrame_eq_ok.mp hdec
        have hlen : dm.explain.trace.length ≤ 2 ^ 22 := yields_explainResp _ dm rest hread
        rw [htrace, List.length_map] at hlen
        exact ⟨hlen, hle⟩
    · rintro ⟨hlen, hle⟩
      rw [received_of_fits (fits_explainResp hs hlen hle) (hbytes.trans_le hle), hresp]
      exact ⟨_, rfl, rfl, rfl⟩

/-- **A client is not told what the scheduler says.** Of a cancellation it never is; of an
explanation it is exactly if there is one and it gets through. -/
theorem client_disagrees (conn : ConnectionId) (now : Nanoseconds) (c : Coordinator)
    (req : UInt64) :
    ¬(CancelAgrees conn now c req ∧ ExplainAgrees conn now c req) ∧
      ¬CancelAgrees conn now c req ∧
      (ExplainAgrees conn now c req ↔ ∃ s, c.scheduler.requests.lookup ⟨req.toNat⟩ = some s ∧
        s.trace.length ≤ 2 ^ 22 ∧ explainBytes s ≤ kFrameMaxBytes) := by
  have hcancel : ¬CancelAgrees conn now c req := by
    intro hagrees
    rw [CancelAgrees, client_cancel_eq] at hagrees
    -- the scheduler always says something
    have hsays : ∀ message ∈ ["unknown request", "request already terminal",
        "cancellation pending at chunk boundary", "cancelled"],
        bytesOfString message ≠ [] := by decide
    have hmessage := congrArg Wire.CancelResult.message
      (Except.ok.inj (Option.some.inj hagrees))
    exact hsays _ (Impl.cancel_message ..) hmessage.symm
  exact ⟨fun h => hcancel h.1, hcancel, explainAgrees_iff conn now c req⟩

end

/-- On a coordinator that has just been started: a request that is not known is cancelled, which
the scheduler reports as an error and the client as no error; and the client has an explanation
for it, which the scheduler has not. -/
theorem client_unknown_request :
    (Client.cancel ((Coordinator.start Env.standard 0).answer 0 0) 7 = some (.ok {}) ∧
      ((Coordinator.start Env.standard 0).scheduler.cancel 0 ⟨7⟩).2 =
        ⟨false, false, .notFound, "unknown request"⟩) ∧
    (Client.queryExplain ((Coordinator.start Env.standard 0).answer 0 0) 7 =
        some (.ok { kind := .explainResp, requestId := 7 }) ∧
      (Coordinator.start Env.standard 0).scheduler.explain ⟨7⟩ =
        .error ⟨.notFound, "unknown request"⟩) := by
  refine ⟨⟨?_, rfl⟩, ?_, rfl⟩
  · rw [client_cancel_eq]
    rfl
  · rw [client_queryExplain_eq, received_explainResp_of_none rfl]
    rfl

end PrefillFabric
