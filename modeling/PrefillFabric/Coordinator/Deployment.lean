import PrefillFabric.Coordinator.Replies
import PrefillFabric.Protocol.Client
import PrefillFabric.Protocol.Process

/-!
# Deployments

A coordinator and its workers, with the frames that go between them. The workers are processes
(`Worker.run`): what arrives on a connection as a completion has been sent by the process at its
other end, in answer to what the coordinator has sent there. Frames may come late, in another
order, more than once or not at all; workers may be lost and registered anew, epochs may be rolled,
and clients do what they like but for reporting completions themselves. This is `Session.Deployed`,
which also says that no step replaces tokens that count and that numbers do not overflow.

Whatever happens, a success that the scheduler accepts is genuine (`Session.Deployed.genuine`): it
is of the chunk that is in flight, and its digest is that of the tokens of this chunk, in the
message that the request was accepted with. A chunk computed for another attempt, or before a
worker was lost, or from the tokens of another request, is never taken for it. The argument goes
around the whole loop. A completion answers a dispatch that has been sent on its connection; the
dispatch was put together from the accepted tokens and is read as it was written; an honest
executor computes the digests of its members; what is accepted has the generation of one of them;
and a generation is handed out once, with the chunk that is in flight under it.
-/

namespace PrefillFabric

open Codec

/-! ### What is written -/

/-- A worker as it is sent. -/
def WorkerDescriptor.toWire (wd : WorkerDescriptor) : Wire.WorkerDescriptor where
  workerId := .ofNat wd.workerId.value
  bootId := .ofNat wd.bootId.value
  host := bytesOfString wd.host
  port := wd.port
  backend := bytesOfString wd.backend
  state := .of wd.state
  capacityUnits := wd.capacityUnits

/-- The message that is sent. -/
def Sent.toWire : Sent → Wire.Message
  | workerRegisterAck epoch wd =>
    { kind := .workerRegisterAck, epoch := .ofNat epoch.value, worker := wd.toWire }
  | submitAck r (.ok _) =>
    { kind := .submitAck, requestId := .ofNat r.value, accepted := true }
  | submitAck r (.error e) =>
    { kind := .submitAck, requestId := .ofNat r.value, error := e.toWire }
  | cancelAck r result => PrefillFabric.cancelAck (.ofNat r.value) result
  | state epoch => { kind := .state, epoch := .ofNat epoch.value }
  | shutdownAck => { kind := .shutdownAck }
  | error r e => { kind := .error, error := e.toWire, requestId := .ofNat r.value }
  | dispatch d => d.toWire

/-- Only a dispatch is sent as one. -/
theorem Sent.eq_dispatch_of_kind {sent : Sent} (h : sent.toWire.kind = .dispatch) :
    ∃ d, sent = .dispatch d := by
  rcases sent with _ | ⟨r, _ | _⟩ | _ | _ | _ | _ | d
  case dispatch => exact ⟨d, rfl⟩
  all_goals exact Wire.MsgKind.noConfusion h

namespace Session

variable {S : Session} {n : ℕ} {conn : ConnectionId}

/-- The frame that event number `i` writes to a connection. -/
def writes (S : Session) (conn : ConnectionId) (i : ℕ) : List (List UInt8) :=
  match (S.events[i]?).bind fun e => ((S.stateAt i).step S.env e).2 with
  | some (x, sent) => if x = conn then sent.toWire.frame?.toList else []
  | none => []

/-- The frames written to a connection before event number `n`, in their order. -/
def outbox (S : Session) (conn : ConnectionId) (n : ℕ) : List (List UInt8) :=
  (List.range n).flatMap (S.writes conn)

/-- **A dispatch that arrives has been sent.** -/
theorem exists_of_mem_outbox {b : List UInt8} (h : b ∈ S.outbox conn n) {m : Wire.Message}
    (hdec : Wire.decodeFrame b = .ok m) (hkind : m.kind = .dispatch) :
    ∃ i < n, ∃ d, (conn, d) ∈ S.sends i ∧ d.toWire.frame? = some b := by
  obtain ⟨i, hi, hb⟩ := List.mem_flatMap.mp h
  refine ⟨i, List.mem_range.mp hi, ?_⟩
  rw [writes] at hb
  cases he : S.events[i]? with
  | none =>
    rw [he] at hb
    exact absurd hb List.not_mem_nil
  | some e =>
    rw [he, Option.bind_some] at hb
    cases hout : ((S.stateAt i).step S.env e).2 with
    | none =>
      rw [hout] at hb
      exact absurd hb List.not_mem_nil
    | some p =>
      obtain ⟨x, sent⟩ := p
      rw [hout] at hb
      dsimp only at hb
      split_ifs at hb with hx
      · have hframe := Option.mem_toList.mp hb
        obtain ⟨d, rfl⟩ := Sent.eq_dispatch_of_kind
          ((Wire.kind_of_decodeFrame hframe hdec).symm.trans hkind)
        subst hx
        refine ⟨d, ?_, hframe⟩
        rw [sends, he]
        change _ ∈ (((S.stateAt i).step S.env e).2.bind Sent.dispatch?).toList
        rw [hout]
        exact List.mem_singleton_self _
      · exact absurd hb List.not_mem_nil

end Session

/-! ### Completions that are received -/

/-- A handler reports what is left of a message that it has received. -/
theorem Session.exists_received {S : Session} {n : ℕ} {conn : ConnectionId} {peer : Peer}
    {rest : List MemberResult}
    (h : (S.stateAt n).handlers.lookup conn = some (.completing peer rest)) :
    ∃ i < n, ∃ now results, S.events[i]? = some (.receive conn now (.completion results)) ∧
      rest ⊆ results := by
  obtain ⟨xs, p, hconversation⟩ := S.exists_conversation conn n
  obtain ⟨q, rfl, -, hlt, reported, hhandles, -⟩ := hconversation.exists_pending h rfl
  have hasked : q ∈ S.questions conn n := by
    rw [hconversation.questions]
    exact List.mem_append_right _ (Option.mem_toList.mpr rfl)
  obtain ⟨i, hi, hq⟩ := List.mem_filterMap.mp hasked
  obtain ⟨e, he, hq⟩ := Option.bind_eq_some_iff.mp hq
  obtain ⟨⟨qpeer, qmsg⟩, htakes, rfl⟩ := Option.map_eq_some_iff.mp hq
  obtain ⟨now, rfl⟩ := Coordinator.exists_of_takes htakes
  dsimp only at hhandles
  cases hhandles
  exact ⟨i, hlt, now, _, he, List.subset_append_right _ _⟩

/-! ### Deployments -/

/-- **A result as it has been read.** What becomes of the failure code and the text is left
open. -/
structure MemberResult.CarriedBy (r : MemberResult) (x : Wire.MemberResult) : Prop where
  requestId : r.requestId.value = x.requestId.toNat
  attemptId : r.attemptId.value = x.attemptId.toNat
  generation : r.generation.value = x.generation.toNat
  outcome : .of r.outcome = x.outcome
  tokensCompleted : r.tokensCompleted = x.tokensCompleted.toNat
  digest : r.digest = x.digest
  nextTokenStart : r.nextTokenStart = x.nextTokenStart.toNat
  requiresNextChunk : r.requiresNextChunk = x.requiresNextChunk
  epoch : r.epoch.value = x.epoch.toNat
  worker : r.worker.value = x.worker.toNat
  boot : r.boot.value = x.boot.toNat

/-- **A coordinator with its workers.** At the other end of a connection there may be a worker. -/
structure Session.Deployed (S : Session) (crew : ConnectionId → Option Worker) : Prop where
  honest : ∀ conn w, crew conn = some w → w.Honest
  /-- A completion comes from a worker, which has been sent what is written to its connection. -/
  completions : ∀ (n : ℕ) (conn : ConnectionId) (now : Nanoseconds) (results : List MemberResult),
    S.events[n]? = some (.receive conn now (.completion results)) →
    ∃ w body m, crew conn = some w ∧ body ∈ w.run (S.outbox conn n) ∧
      Wire.decodeFrame body = .ok m ∧ m.kind = .completion ∧
      List.Forall₂ MemberResult.CarriedBy results m.memberResults
  payloads : S.KeepsPayloads
  /-- Prompts have a length, and the numbers of members are those of the source. -/
  prompts : ∀ (n : ℕ) (conn : ConnectionId) (now : Nanoseconds) (req : PrefillRequest)
      (tokens : List UInt32),
    S.events[n]? = some (.receive conn now (.submit req tokens)) → IsWord tokens.length
  inRange : ∀ n, ∀ m ∈ S.membersOut n, m.InRange

namespace Session

variable {S : Session} {n : ℕ} {crew : ConnectionId → Option Worker} {d : Dispatch}

/-- The tokens that are stored can be counted. -/
theorem Deployed.countable (h : S.Deployed crew) (n : ℕ) :
    InMemoryTokenResolver.Countable (S.stateAt n).tokens := by
  induction n with
  | zero => exact fun r tokens hlookup => absurd hlookup.symm (Option.some_ne_none _)
  | succ n ih =>
    cases he : S.events[n]? with
    | none => rwa [stateAt_succ_of_none he]
    | some e =>
      rw [stateAt_succ he]
      cases hstored : (S.stateAt n).stored e with
      | none => rwa [Coordinator.tokens_step_of_none hstored]
      | some p =>
        obtain ⟨x, toks⟩ := p
        obtain ⟨conn, now, req, rfl, -, rfl⟩ := Coordinator.exists_of_stored hstored
        intro r tokens hlookup
        rw [Coordinator.tokens_step_of_some hstored, AList.lookup_insert_eq_ite] at hlookup
        split_ifs at hlookup
        · obtain rfl := Option.some.inj hlookup
          exact h.prompts n conn now req _ he
        · exact ih r tokens hlookup

/-- The tokens of what is sent are stored. -/
theorem Deployed.stored (h : S.Deployed crew) (hd : S.SentAs n d) :
    ∀ m ∈ d.group.members, m.Stored (S.stateAt n).tokens := by
  intro m hm
  obtain ⟨dg, hdg, hgroup⟩ := hd.group
  have hslice := Dispatch.isSome_slice_of_assemble hd.assembled m hm
  obtain ⟨s, -, hle⟩ := S.covers_membersOut n m (mem_membersOut hdg (hgroup ▸ hm))
  have hend : m.tokenStart + m.tokenCount < 2 ^ 64 :=
    hle.trans_lt s.request.remainingPrefillTokens_lt
  cases hlookup : (S.stateAt n).tokens.lookup m.requestId with
  | none =>
    rw [hlookup] at hslice
    exact Bool.noConfusion hslice
  | some tvec =>
    rw [hlookup, Option.bind_some, readTokens, Option.isSome_map, pointInto,
      Nat.mod_eq_of_lt hend] at hslice
    refine ⟨tvec, hlookup, ?_, h.countable n _ _ hlookup⟩
    by_contra hlt
    rw [if_pos (Nat.not_le.mp hlt)] at hslice
    exact Bool.noConfusion hslice

end Session

/-- The tokens of a dispatch are those of its members. -/
theorem Dispatch.length_memberTokens {store : Table RequestId (List UInt32)} {d d' : Dispatch}
    {ms : List ExecutableMember} (hstored : ∀ m ∈ ms, m.Stored store)
    (h : d.assemble store ms = some d') :
    d'.memberTokens.length = d.memberTokens.length + (ms.map (·.tokenCount)).sum := by
  induction ms generalizing d with
  | nil =>
    obtain rfl := Option.some.inj h
    rfl
  | cons m ms ih =>
    obtain ⟨hm, hms⟩ := List.forall_mem_cons.mp hstored
    rw [assemble, hm.slice_eq] at h
    rw [ih hms h, push, List.length_append, hm.length_tokens, List.map_cons, List.sum_cons,
      Nat.add_assoc]

namespace Session

variable {S : Session} {n : ℕ} {crew : ConnectionId → Option Worker} {d : Dispatch}

/-- **What is sent is within the limits of a frame.** -/
theorem Deployed.groupInRange (h : S.Deployed crew) (hd : S.SentAs n d) :
    d.group.InRange ∧ (d.group.members.map (·.tokenCount)).sum ≤ 2 ^ 24 := by
  have hlength := Dispatch.length_memberTokens (h.stored hd) hd.assembled
  have hsize := hd.size
  have hmax : kFrameMaxBytes = 2 ^ 26 := by decide
  rw [List.length_nil, Nat.zero_add] at hlength
  rw [Dispatch.bodyBytes, Dispatch.groupBytes, hlength, hmax] at hsize
  obtain ⟨dg, hdg, hgroup⟩ := hd.group
  refine ⟨⟨fun m hm => h.inRange n m (mem_membersOut hdg (hgroup ▸ hm)), ?_, ?_, ?_⟩, ?_⟩
  · change d.group.backend.utf8ByteSize ≤ 2 ^ 32
    omega
  · omega
  · omega
  · omega

/-- **A dispatch arrives as it was put together**: the worker has the members, and for each of
them the tokens that are stored. -/
theorem Deployed.decodeFrame_sent (h : S.Deployed crew) (hd : S.SentAs n d) {b : List UInt8}
    (hb : d.toWire.frame? = some b) {m : Wire.Message} (hdec : Wire.decodeFrame b = .ok m) :
    m.group.members.map (·.memberOr .fullPrompt) = d.group.members ∧
      ∀ x ∈ d.group.members, (m.resolver .fullPrompt).resolveTokens x.requestId x.tokenStart
        x.tokenCount = .ok (x.tokens (S.stateAt n).tokens) := by
  obtain ⟨hrange, -⟩ := h.groupInRange hd
  have hstored := h.stored hd
  obtain ⟨d', body, m', hassemble, henc, hdec', hmembers, htokens, hoffsets⟩ :=
    Dispatch.decodeFrame_assemble hrange hstored d.epoch d.bootId
  obtain rfl := Option.some.inj (hassemble.symm.trans hd.assembled)
  obtain ⟨hbody, -⟩ := Wire.Message.eq_of_mem_frame? hb
  rw [Wire.encodeFrame_eq, ← hbody] at henc
  obtain rfl := Except.ok.inj henc
  obtain rfl := Except.ok.inj (hdec.symm.trans hdec')
  have hmap := map_eq_of_mapM
    (fun _ _ hw => Wire.ExecutableMember.memberOr_eq hw .fullPrompt) hmembers
  refine ⟨hmap, fun x hx => ?_⟩
  obtain ⟨dg, hdg, hgroup⟩ := hd.group
  rw [Wire.Message.resolver, hmap, htokens, hoffsets]
  exact DispatchResolver.resolveTokens_rebuild hstored (hgroup ▸ nodup_of_mem_groupsOut hdg) hx

/-- Every member of what is sent can be executed. -/
theorem Deployed.feasible (h : S.Deployed crew) (hd : S.SentAs n d)
    {resolve : RequestId → ℕ → ℕ → Result (List UInt32)}
    (hresolve : ∀ x ∈ d.group.members, resolve x.requestId x.tokenStart x.tokenCount =
      .ok (x.tokens (S.stateAt n).tokens)) :
    ∀ x ∈ d.group.members, x.Feasible resolve := by
  intro x hx
  obtain ⟨dg, hdg, hgroup⟩ := hd.group
  obtain ⟨-, hsum⟩ := h.groupInRange hd
  refine ⟨S.tokenCount_pos_membersOut n x (mem_membersOut hdg (hgroup ▸ hx)), ?_,
    _, hresolve x hx, (h.stored hd x hx).length_tokens.ge⟩
  exact (List.single_le_sum (fun _ _ => Nat.zero_le _) _ (List.mem_map_of_mem hx)).trans hsum

end Session

/-! ### Genuine results -/

theorem CpuExecutor.digest_executeWith {resolve : RequestId → ℕ → ℕ → Result (List UInt32)}
    {m : ExecutableMember} {tok : List UInt32} (hpos : 0 < m.tokenCount)
    (h : resolve m.requestId m.tokenStart m.tokenCount = .ok tok) :
    (executeWith resolve m).digest =
      ffMemberDigest m.requestId m.attemptId m.generation (tok.take m.tokenCount) m.tokenStart := by
  rw [executeWith, if_neg hpos.ne', h]

/-- A declared value is known by its number. -/
theorem Coded.of_injective {κ : Type} [Enumeration κ] [DecidableEq κ] {a b : κ}
    (h : Coded.of a = Coded.of b) : a = b := by
  have hvalue := congrArg Coded.value? h
  rw [Coded.value?_of, Coded.value?_of] at hvalue
  exact Option.some.inj hvalue

namespace Session

variable {S : Session} {n : ℕ} {crew : ConnectionId → Option Worker} {result : MemberResult}

theorem AcceptedWith.mono {i : ℕ} {r : RequestId} {tokens : List UInt32}
    (h : S.AcceptedWith i r tokens) (hi : i ≤ n) : S.AcceptedWith n r tokens := by
  obtain ⟨j, hj, hadmitted⟩ := h
  exact ⟨j, hj.trans_le hi, hadmitted⟩

/-- **Where a result comes from**: it is one of those that a worker has computed for a dispatch
that was sent on its connection. -/
theorem Deployed.exists_execution (h : S.Deployed crew) {conn : ConnectionId} {now : Nanoseconds}
    {results : List MemberResult}
    (he : S.events[n]? = some (.receive conn now (.completion results)))
    (hresult : result ∈ results) :
    ∃ w i d m r, crew conn = some w ∧ i < n ∧ S.SentAs i d ∧
      m.group.members.map (·.memberOr .fullPrompt) = d.group.members ∧
      (∀ x ∈ d.group.members, (m.resolver .fullPrompt).resolveTokens x.requestId x.tokenStart
        x.tokenCount = .ok (x.tokens (S.stateAt i).tokens)) ∧
      r ∈ w.execution m ∧ result.CarriedBy (w.stamp m.epoch r).carried := by
  obtain ⟨w, body, m, hcrew, hbody, hdec, hkind, hcarried⟩ := h.completions n conn now results he
  -- the completion answers a dispatch, which has been sent on this connection
  obtain ⟨b, hb, m', hdec', hkind', hanswer⟩ := Worker.answers_of_mem_run hbody hdec hkind
  obtain ⟨i, hi, d, hsent, hframe⟩ := exists_of_mem_outbox hb hdec' hkind'
  have hd : S.SentAs i d := h.payloads.sentAs hsent
  obtain ⟨hmembers, hresolve⟩ := h.decodeFrame_sent hd hframe hdec'
  rw [Worker.decodeFrame_answer hanswer hdec] at hcarried
  obtain ⟨hlen, hget⟩ := List.forall₂_iff_get.mp (List.forall₂_map_right_iff.mp hcarried)
  obtain ⟨k, hk, rfl⟩ := List.getElem_of_mem hresult
  exact ⟨w, i, d, m', _, hcrew, hi, hd, hmembers, hresolve, List.getElem_mem (hlen ▸ hk),
    hget k hk (hlen ▸ hk)⟩

/-- **What is received of a worker is about a member that has been handed out**, and a success has
the digest of its tokens. -/
theorem Deployed.exists_member (h : S.Deployed crew) {conn : ConnectionId} {now : Nanoseconds}
    {results : List MemberResult}
    (he : S.events[n]? = some (.receive conn now (.completion results)))
    (hresult : result ∈ results) :
    ∃ x ∈ S.membersOut n, result.generation = x.generation ∧
      (result.outcome.advances = true → ∃ tokens, S.AcceptedWith n x.requestId tokens ∧
        x.tokenStart + x.tokenCount ≤ tokens.length ∧
        result.digest = ffMemberDigest x.requestId x.attemptId x.generation
          ((tokens.drop x.tokenStart).take x.tokenCount) x.tokenStart) := by
  obtain ⟨w, i, d, m, r, hcrew, hi, hd, hmembers, hresolve, hr, hcarried⟩ :=
    h.exists_execution he hresult
  have hfeasible := h.feasible hd hresolve
  rw [← hmembers] at hfeasible
  obtain ⟨x, hx, hgen, hgenuine⟩ := (h.honest conn w hcrew).execution hfeasible hr
  rw [hmembers] at hx
  obtain ⟨dg, hdg, hgroup⟩ := hd.group
  have hout : x ∈ S.membersOut i := mem_membersOut hdg (hgroup ▸ hx)
  refine ⟨x, membersOut_subset hi.le hout, ?_, fun hadv => ?_⟩
  · have hvalue : result.generation.value = (UInt64.ofNat r.generation.value).toNat :=
      hcarried.generation
    rw [hgen, (h.inRange i x hout).generation.toNat_ofNat] at hvalue
    exact congrArg StrongId.mk hvalue
  · have houtcome : r.outcome = result.outcome := (Coded.of_injective hcarried.outcome).symm
    obtain ⟨tokens, haccepted, hlookup⟩ := h.payloads.exists_tokens hout
    obtain ⟨tvec, htvec, hle, -⟩ := h.stored hd x hx
    obtain rfl := Option.some.inj (hlookup.symm.trans htvec)
    have htokens : x.tokens (S.stateAt i).tokens =
        (tokens.drop x.tokenStart).take x.tokenCount := by
      rw [ExecutableMember.tokens, hlookup, Option.getD_some]
    have hdigest : result.digest = r.digest := hcarried.digest
    refine ⟨tokens, haccepted.mono hi.le, hle, ?_⟩
    rw [hdigest, hgenuine (houtcome ▸ hadv), CpuExecutor.digest_executeWith
      (S.tokenCount_pos_membersOut i x hout) (hresolve x hx), htokens, List.take_take, min_self]

/-- **A result is genuine** for a record and the tokens of its request: its digest is that of the
tokens of the chunk in flight. -/
structure Genuine (result : MemberResult) (tokens : List UInt32) (a : AttemptId)
    (chunk : PrefillChunk) : Prop where
  attempt : result.attemptId = a
  le : chunk.tokenStart + chunk.tokenCount ≤ tokens.length
  digest : result.digest = ffMemberDigest result.requestId a result.generation
    ((tokens.drop chunk.tokenStart).take chunk.tokenCount) chunk.tokenStart

/-- **An accepted success is genuine**, for the chunk that is in flight when it is accepted. -/
theorem Deployed.genuine (h : S.Deployed crew) (haccepted : S.Accepted n result)
    (hadv : result.outcome.advances = true) :
    ∃ s tokens, (S.stateAt n).scheduler.requests.lookup result.requestId = some s ∧
      S.AcceptedWith n result.requestId tokens ∧ Genuine result tokens s.attempt s.nextChunk := by
  obtain ⟨conn, now, peer, rest, -, hconn, hok⟩ := haccepted
  obtain ⟨i, hi, now', results, he, hsub⟩ := exists_received hconn
  obtain ⟨x, hx, hgen, hgenuine⟩ := h.exists_member he (hsub List.mem_cons_self)
  obtain ⟨t, hs⟩ := Impl.isOk_reportCompletion_iff.mp hok
  obtain ⟨s, hlookup, rfl⟩ := Impl.exists_of_view_req hs.req
  -- what is in flight is in flight as a member, and there is one member of a generation
  obtain ⟨m, hm, hid, hawaits, hcarries⟩ := S.carriedBy n _ s.core hs.req
    (Rs.isLive_iff.mpr ⟨hs.inFlight, hs.lifecycle⟩)
  obtain rfl : m = x := membersOut_unique hm (membersOut_subset hi.le hx)
    (hawaits.generation.symm.trans (hs.generation.symm.trans hgen))
  obtain ⟨tokens, htokens, hle, hdigest⟩ := hgenuine hadv
  rw [hcarries.start, hcarries.count] at hle hdigest
  refine ⟨s, tokens, hlookup, hid ▸ htokens.mono hi.le, hs.attempt, hle, ?_⟩
  rw [hdigest, hid, hcarries.attempt, hgen]
  rfl

end Session

end PrefillFabric
