import PrefillFabric.Protocol.Roundtrip

/-!
# Damaged frames

A body may arrive cut off, or with something after it. Two questions, and two answers.

* *Is a body that is cut off rejected?* The readers of all kinds but one are decisive: they fail
  when a byte they need is missing. The one is that of the statistics, which goes on without.
  So a cut is noticed for every kind of message but `statsResp` (`rejectsCut_iff`), where even
  a body without any payload is accepted.
* *Is a body with something after it rejected?* Never: nothing looks at what is left once the
  payload has been read (`decodeFrame_append`).
-/

namespace PrefillFabric

open Codec

namespace Wire

open ByteReader

/-! ### Readers that fail when a byte is missing -/

theorem decisive_decWorker : Decisive decWorker :=
  decisive_u64.bind fun _ => decisive_u64.bind fun _ => decisive_str.bind fun _ =>
    decisive_u32.bind fun _ => decisive_str.bind fun _ => decisive_enum.bind fun _ =>
    decisive_u64.bind fun _ => decisive_u64.bind fun _ => decisive_str.bind fun _ => .pure _

theorem decisive_decOptional : Decisive decOptional :=
  decisive_bool.bind fun _ => decisive_i64.bind fun _ => .pure _

theorem decisive_decReq : Decisive decReq :=
  decisive_u64.bind fun _ => decisive_u64.bind fun _ => decisive_str.bind fun _ =>
    decisive_str.bind fun _ => decisive_u64.bind fun _ => decisive_enum.bind fun _ =>
    decisive_str.bind fun _ => decisive_u64.bind fun _ => decisive_u64.bind fun _ =>
    decisive_u64.bind fun _ => decisive_bool.bind fun _ => decisive_str.bind fun _ =>
    decisive_u64.bind fun _ => decisive_u64.bind fun _ => decisive_u64.bind fun _ =>
    decisive_u64.bind fun _ => decisive_enum.bind fun _ => decisive_enum.bind fun _ =>
    decisive_str.bind fun _ => decisive_u64.bind fun _ => decisive_str.bind fun _ =>
    decisive_enum.bind fun _ => decisive_decOptional.bind fun _ => decisive_u32.bind fun _ =>
    decisive_f64.bind fun _ => decisive_i64.bind fun _ => decisive_decOptional.bind fun _ =>
    decisive_u64.bind fun _ => decisive_u64.bind fun _ => decisive_u32.bind fun _ =>
    decisive_str.bind fun _ => .pure _

theorem decisive_decMember : Decisive decMember :=
  decisive_u64.bind fun _ => decisive_u64.bind fun _ => decisive_u64.bind fun _ =>
    decisive_u64.bind fun _ => decisive_u64.bind fun _ => decisive_u64.bind fun _ =>
    decisive_enum.bind fun _ => decisive_u64.bind fun _ => decisive_u64.bind fun _ =>
    decisive_u64.bind fun _ => decisive_u32.bind fun _ => .pure _

theorem decisive_decMres : Decisive decMres :=
  decisive_u64.bind fun _ => decisive_u64.bind fun _ => decisive_u64.bind fun _ =>
    decisive_enum.bind fun _ => decisive_u64.bind fun _ => decisive_u64.bind fun _ =>
    decisive_enum.bind fun _ => decisive_str.bind fun _ => decisive_u64.bind fun _ =>
    decisive_bool.bind fun _ => decisive_u64.bind fun _ => decisive_u64.bind fun _ =>
    decisive_u64.bind fun _ => .pure _

theorem decisive_decGroup : Decisive decGroup :=
  decisive_u64.bind fun _ => decisive_str.bind fun _ => decisive_u64.bind fun _ =>
    decisive_u64.bind fun _ => decisive_u32.bind fun _ => (decisive_decMember.many _).bind fun _ =>
    decisive_u64.bind fun _ => decisive_u64.bind fun _ => decisive_u64.bind fun _ => .pure _

/-- **Every payload but that of the statistics is settled by the bytes that are read.** -/
theorem decisive_decPayload {kind : MsgKind} (h : kind ≠ .statsResp) :
    Decisive (decPayload kind) := by
  cases kind
  case workerRegister => exact decisive_decWorker.bind fun _ => .pure _
  case workerRegisterAck =>
    exact decisive_u64.bind fun _ => decisive_decWorker.bind fun _ => .pure _
  case submit =>
    exact decisive_decReq.bind fun _ => (decisive_counted _ _ decisive_u32).bind fun _ => .pure _
  case submitAck =>
    exact decisive_u64.bind fun _ => decisive_bool.bind fun _ => decisive_code.bind fun _ =>
      decisive_str.bind fun _ => decisive_u64.bind fun _ => .pure _
  case cancel => exact decisive_u64.bind fun _ => .pure _
  case cancelAck =>
    exact decisive_u64.bind fun _ => decisive_bool.bind fun _ => decisive_bool.bind fun _ =>
      decisive_code.bind fun _ => decisive_str.bind fun _ => .pure _
  case state =>
    exact decisive_u64.bind fun _ => (decisive_counted _ _ decisive_decWorker).bind fun _ => .pure _
  case queryExplain => exact decisive_u64.bind fun _ => .pure _
  case explainResp =>
    exact decisive_u64.bind fun _ => decisive_u64.bind fun _ => decisive_enum.bind fun _ =>
      decisive_u64.bind fun _ => (decisive_counted _ _ decisive_str).bind fun _ => .pure _
  case statsResp => exact absurd rfl h
  case dispatch =>
    exact decisive_decGroup.bind fun _ => (decisive_counted _ _ decisive_u32).bind fun _ =>
      (decisive_counted _ _ decisive_u64).bind fun _ => decisive_u64.bind fun _ =>
      decisive_u64.bind fun _ => .pure _
  case completion => exact (decisive_counted _ _ decisive_decMres).bind fun _ => .pure _
  case error => exact decisive_code.bind fun _ => decisive_str.bind fun _ => .pure _
  all_goals exact .pure _

/-! ### What is noticed -/

/-- A body that is decoded. -/
def Accepted (body : List UInt8) : Prop := ∃ m, decodeFrame body = .ok m

/-- No body that is cut off is decoded. -/
def RejectsCut (body : List UInt8) : Prop := ∀ cut, cut <+: body → cut ≠ body → ¬Accepted cut

/-- No body with something after it is decoded. -/
def RejectsTail (body : List UInt8) : Prop := ∀ tail, tail ≠ [] → ¬Accepted (body ++ tail)

/-- **What comes after a body is not noticed.** -/
theorem decodeFrame_append {m m' : Message} {body : List UInt8} (henc : encodeFrame m = .ok body)
    (hdec : decodeFrame body = .ok m') (tail : List UInt8) :
    decodeFrame (body ++ tail) = .ok m' := by
  obtain rfl := Except.ok.inj ((encodeFrame_eq m).symm.trans henc)
  obtain ⟨rest, hread⟩ := decodeFrame_eq_ok.mp hdec
  rw [List.cons_append, List.cons_append]
  refine decodeFrame_eq_ok.mpr ?_
  rcases eq_or_ne m.kind .statsResp with hstats | hkind
  · -- the statistics are read back, with anything after them
    have hfits : m.Fits := by simp only [Message.Fits, hstats]
    have hreads := reads_decPayload hfits
    have hread' := hreads []
    rw [List.append_nil] at hread'
    obtain ⟨rfl, -⟩ := Prod.mk.inj (Except.ok.inj (hread.symm.trans hread'))
    exact ⟨tail, hreads tail⟩
  · obtain ⟨cs, hcs, hreads, -⟩ := decisive_decPayload hkind _ _ _ hread
    refine ⟨rest ++ tail, ?_⟩
    rw [hcs, List.append_assoc]
    exact hreads (rest ++ tail)

/-- A proper prefix of a frame lacks the version, the kind or some of the payload. -/
theorem cut_cases {v k : UInt8} {payload cut : List UInt8} (h : cut <+: v :: k :: payload)
    (hne : cut ≠ v :: k :: payload) :
    cut = [] ∨ cut = [v] ∨ ∃ ds, cut = v :: k :: ds ∧ ds <+: payload ∧ ds ≠ payload := by
  rcases cut with _ | ⟨x, _ | ⟨y, ds⟩⟩
  · exact .inl rfl
  · obtain ⟨rfl, -⟩ := List.cons_prefix_cons.mp h
    exact .inr (.inl rfl)
  · obtain ⟨rfl, htl⟩ := List.cons_prefix_cons.mp h
    obtain ⟨rfl, hds⟩ := List.cons_prefix_cons.mp htl
    exact .inr (.inr ⟨ds, rfl, hds, fun heq => hne (by rw [heq])⟩)

/-- **A cut is noticed** exactly if the message is not about the statistics. -/
theorem rejectsCut_iff {m : Message} {body : List UInt8} (henc : encodeFrame m = .ok body)
    (hfits : m.Fits) : RejectsCut body ↔ m.kind ≠ .statsResp := by
  obtain rfl := Except.ok.inj ((encodeFrame_eq m).symm.trans henc)
  constructor
  · -- nothing at all is enough for the statistics
    intro hrejects hstats
    refine hrejects [kProtocolVersion, m.kind.toByte] ⟨bytesOf (encPayload m), rfl⟩ ?_ ?_
    · intro heq
      have hlen := congrArg List.length heq
      simp [encPayload, hstats, encStats] at hlen
    · rw [hstats]
      exact ⟨_, rfl⟩
  · rintro hkind cut hcut hne ⟨m', hdec⟩
    have hread := reads_decPayload hfits []
    rw [List.append_nil] at hread
    obtain ⟨cs, hcs, -, hshort⟩ := decisive_decPayload hkind _ _ _ hread
    rw [List.append_nil] at hcs
    subst hcs
    rcases cut_cases hcut hne with rfl | rfl | ⟨ds, rfl, hds, hne⟩
    · cases hdec
    · cases hdec
    · obtain ⟨rest, hread'⟩ := decodeFrame_eq_ok.mp hdec
      exact hshort ds hds hne m' rest hread'

/-- **No frame is protected.** Whatever follows the body of a message is not noticed; and
whether a cut is noticed is a matter of the kind. -/
theorem not_rejectsDamage {m : Message} {body : List UInt8} (henc : encodeFrame m = .ok body)
    (hacc : Accepted body) :
    ¬(RejectsCut body ∧ RejectsTail body) ∧ (∀ tail, Accepted (body ++ tail)) ∧
      (m.Fits → (RejectsCut body ↔ m.kind ≠ .statsResp)) := by
  obtain ⟨m', hdec⟩ := hacc
  have htail (tail : List UInt8) : Accepted (body ++ tail) :=
    ⟨m', decodeFrame_append henc hdec tail⟩
  refine ⟨?_, htail, rejectsCut_iff henc⟩
  rintro ⟨-, hrejects⟩
  exact hrejects [0] (List.cons_ne_nil 0 []) (htail [0])

theorem not_rejectsDamage_cancel :
    ∃ body, encodeFrame { kind := .cancel, requestId := 7 } = .ok body ∧
      ¬(RejectsCut body ∧ RejectsTail body) :=
  ⟨_, rfl, (not_rejectsDamage (m := { kind := .cancel, requestId := 7 }) rfl ⟨_, rfl⟩).1⟩

/-- A cancellation with a byte too many, and statistics without a byte. -/
theorem accepted_damaged :
    (∃ body, encodeFrame { kind := .cancel, requestId := 7 } = .ok body ∧
      decodeFrame (body ++ [0]) = .ok { kind := .cancel, requestId := 7 }) ∧
    ∃ body, encodeFrame { kind := .statsResp, stats := { submitted := 3 } } = .ok body ∧
      decodeFrame body = .ok { kind := .statsResp, stats := { submitted := 3 } } ∧
      decodeFrame (body.take 2) = .ok { kind := .statsResp } :=
  ⟨⟨_, rfl, rfl⟩, _, encodeFrame_eq _, decodeFrame_eq_carried trivial, rfl⟩

end Wire

end PrefillFabric
