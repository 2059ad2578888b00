import PrefillFabric.Coordinator.Payload
import PrefillFabric.Scheduler.Authority
import PrefillFabric.Scheduler.Workers

/-!
# Lost workers

A dispatch can fail for reasons that have nothing to do with the worker: tokens of the
prompt are missing, or the frame is too long to be sent. The loop does not tell these from
a broken connection, and declares the worker lost either way. So a client can take down
every worker in turn, with one request that announces more tokens than it brings: it goes
back to the queue each time.

The other way round, as long as every admitted request finds enough tokens stored for it
and no frame is too long (`Coordinator.KeepsStock`), a worker whose connection stays open
and takes what is written to it (`Session.StaysOpen`) is never lost
(`Session.state_ne_lost`). The invariant behind it, `Coordinator.Backs`, runs through
handlers, scheduler and loop: the worker has a socket before the scheduler knows it, the
groups in the loop are for workers the scheduler knows, and enough tokens are stored for
every request.
-/

namespace PrefillFabric

/-- If a frame is about to be sent, it is not too long. -/
def ScheduleLoop.FrameFits : ScheduleLoop → Prop
  | slicing _ _ d [] _ => d.bodyBytes ≤ kFrameMaxBytes
  | _ => True

instance (l : ScheduleLoop) : Decidable l.FrameFits := by
  unfold ScheduleLoop.FrameFits
  split <;> infer_instance

namespace Coordinator

variable {env : Env} {c : Coordinator} {e : NetEvent} {w : WorkerId} {conn : ConnectionId}
  {wd : WorkerDescriptor}

/-! ### Sockets -/

/-- The connection over which a worker is served breaks off. -/
def BreaksOff (c : Coordinator) (w : WorkerId) (e : NetEvent) : Prop :=
  ∃ conn now wd, e = .hangUp conn now ∧ c.handlers.lookup conn = some (.serving (.worker wd)) ∧
    wd.workerId = w

/-- **A worker has its socket until its connection breaks off.** -/
theorem socks_step (env : Env) (hw : (c.workerSocks.lookup w).isSome) (hopen : ¬c.BreaksOff w e) :
    ((c.step env e).1.workerSocks.lookup w).isSome := by
  cases seats_step env c e with
  | keep hsocks => rwa [hsocks]
  | enter _ hsocks =>
    rw [hsocks, AList.lookup_insert_eq_ite]
    split_ifs
    · rfl
    · exact hw
  | @leave x now wd _ hconn hsocks =>
    have hne : w ≠ wd.workerId := fun h => hopen ⟨x, now, wd, rfl, hconn, h.symm⟩
    rwa [hsocks, AList.lookup_erase_ne hne]

/-- **A worker has a name and a socket before it registers.** -/
theorem registering_step (env : Env)
    (h : (c.step env e).1.handlers.lookup conn = some (.registering wd)) :
    c.handlers.lookup conn = some (.registering wd) ∨
      ((∃ now, e = .receive conn now (.workerRegister wd)) ∧ wd.workerId.isNil = false ∧
        ((c.step env e).1.workerSocks.lookup wd.workerId).isSome) := by
  cases seats_step env c e with
  | keep _ hhandlers =>
    rcases hhandlers with heq | ⟨x, h', hne, heq⟩
    · exact Or.inl (heq ▸ h)
    · rw [heq, AList.lookup_insert_eq_ite] at h
      split_ifs at h
      · exact absurd (Option.some.inj h) (hne wd)
      · exact Or.inl h
  | enter hid hsocks hhandlers =>
    rw [hhandlers, AList.lookup_insert_eq_ite] at h
    split_ifs at h with hx
    · obtain rfl := Handler.registering.inj (Option.some.inj h)
      subst hx
      refine Or.inr ⟨⟨_, rfl⟩, hid, ?_⟩
      rw [hsocks, AList.lookup_insert]
      rfl
    · exact Or.inl h
  | leave _ _ hhandlers =>
    rw [hhandlers, AList.lookup_insert_eq_ite] at h
    split_ifs at h
    · exact Handler.noConfusion (Option.some.inj h)
    · exact Or.inl h

/-! ### Descriptors -/

/-- The descriptor of a worker changes when it registers, when its connection breaks off,
and when it is blamed. -/
theorem descs_step (env : Env) (c : Coordinator) (e : NetEvent) (w : WorkerId) :
    (c.step env e).1.scheduler.descs w = c.scheduler.descs w ∨
      (∃ conn now wd, e = .proceed conn now ∧ c.handlers.lookup conn = some (.registering wd) ∧
        wd.workerId = w ∧ (c.step env e).1.scheduler = (c.scheduler.registerWorker now wd).1) ∨
      c.BreaksOff w e ∨ ∃ rest, c.loop = .blaming w rest := by
  cases hk : c.call e with
  | none => exact Or.inl (by rw [scheduler_step_of_none hk])
  | some k =>
    rw [scheduler_step_of_some hk]
    cases calls_of_call hk with
    | cancel => exact Or.inl (congrFun (Impl.descs_cancel ..) w)
    | rollEpoch => exact Or.inl rfl
    | @register conn now wd hconn =>
      by_cases hw : w = wd.workerId
      · exact Or.inr (Or.inl ⟨conn, now, wd, rfl, hconn, hw.symm, rfl⟩)
      · exact Or.inl (Impl.descs_registerWorker_of_ne hw)
    | submit => exact Or.inl (congrFun (Impl.descs_submitWithTokens ..) w)
    | report => exact Or.inl (congrFun (Impl.descs_reportCompletion ..) w)
    | @hangUp conn now wd hconn =>
      by_cases hw : w = wd.workerId
      · exact Or.inr (Or.inr (Or.inl ⟨conn, now, wd, rfl, hconn, hw.symm⟩))
      · exact Or.inl (Impl.descs_workerLost_of_ne hw)
    | cycle =>
      rw [Impl.step_runCycle]
      exact Or.inl (congrFun (Impl.runCycle_descs ..).1 w)
    | @blame now written x rest hloop =>
      by_cases hw : w = x
      · exact Or.inr (Or.inr (Or.inr ⟨rest, hw ▸ hloop⟩))
      · exact Or.inl (Impl.descs_workerLost_of_ne hw)

/-- A worker that is known stays known. -/
theorem isSome_descs_step (env : Env) (hwf : c.scheduler.view.Wf)
    (hw : (c.scheduler.descs w).isSome) : ((c.step env e).1.scheduler.descs w).isSome := by
  have hboot : ∀ σ : Impl, (σ.descs w).isSome = (σ.view.boot w).isSome := by
    intro σ
    change (Option.map _ _).isSome = (Option.map _ _).isSome
    rw [Option.isSome_map, Option.isSome_map]
  cases hk : c.call e with
  | none => rwa [scheduler_step_of_none hk]
  | some k =>
    rw [scheduler_step_of_some hk, hboot]
    rw [hboot] at hw
    exact (Impl.effects_step env hwf k).invariant (P := fun v => (v.boot w).isSome)
      (fun _ _ _ hl _ hv => hl.boot_isSome hv) hw

/-! ### Enough tokens -/

/-- **A step keeps requests supplied**: tokens that come in for a request the scheduler
knows are as many as it has left to prefill, and so are the tokens stored for a request
that is about to be admitted; and a frame that is about to be sent is not too long. -/
def KeepsStock (env : Env) (c : Coordinator) : NetEvent → Prop
  | .receive conn _ (.submit req tokens) =>
    c.handlers.lookup conn = some (.serving .client) →
      ∀ s, c.scheduler.requests.lookup req.requestId = some s →
        s.request.remainingPrefillTokens ≤ tokens.length
  | .proceed conn _ => ∀ req tokens, c.handlers.lookup conn = some (.submitting req tokens) →
      c.scheduler.Admits env req → ∃ tvec, c.tokens.lookup req.requestId = some tvec ∧
        req.remainingPrefillTokens ≤ tvec.length
  | .schedule _ _ => c.loop.FrameFits
  | _ => True

/-- Enough tokens are stored for every request. -/
def Stocked (c : Coordinator) : Prop :=
  ∀ r s, c.scheduler.view.req r = some s → ∃ tvec, c.tokens.lookup r = some tvec ∧
    s.request.remainingPrefillTokens ≤ tvec.length

theorem stocked_step (hwf : c.scheduler.view.Wf) (hkeep : c.KeepsStock env e) (h : c.Stocked) :
    (c.step env e).1.Stocked := by
  intro r s' hs'
  -- a request that was known: tokens that are stored anew for it are enough
  have hold : ∀ s, c.scheduler.view.req r = some s → s'.request = s.request →
      ∃ tvec, (c.step env e).1.tokens.lookup r = some tvec ∧
        s'.request.remainingPrefillTokens ≤ tvec.length := by
    intro s hs hreq
    rw [hreq]
    cases hstored : c.stored e with
    | none =>
      rw [tokens_step_of_none hstored]
      exact h r s hs
    | some p =>
      obtain ⟨x, toks⟩ := p
      rw [tokens_step_of_some hstored, AList.lookup_insert_eq_ite]
      split_ifs with hr
      · obtain ⟨conn, now, req, rfl, hconn, rfl⟩ := exists_of_stored hstored
        obtain ⟨t, ht, rfl⟩ := Impl.exists_of_view_req hs
        exact ⟨toks, rfl, hkeep hconn t (hr ▸ ht)⟩
      · exact h r s hs
  cases hr : c.scheduler.view.req r with
  | some s =>
    refine hold s hr ?_
    cases hk : c.call e with
    | none =>
      rw [scheduler_step_of_none hk] at hs'
      rw [Option.some.inj (hs'.symm.trans hr)]
    | some k =>
      rw [scheduler_step_of_some hk] at hs'
      obtain ⟨t, ht, hreq⟩ := Impl.exists_request_step env hwf k hr
      rw [← hreq, Option.some.inj (ht.symm.trans hs')]
  | none =>
    cases hk : c.call e with
    | none =>
      rw [scheduler_step_of_none hk] at hs'
      exact absurd (hs'.symm.trans hr) (Option.some_ne_none s')
    | some k =>
      rw [scheduler_step_of_some hk] at hs'
      rcases Impl.req_eq_none_or_submit env hwf k hr with hnone | ⟨req, toks, hop, hid, hok⟩
      · exact absurd (hs'.symm.trans hnone) (Option.some_ne_none s')
      · cases calls_of_call hk with
        | @submit conn now req' tokens hconn =>
          obtain ⟨rfl, rfl⟩ := Op.submitWithTokens.inj hop
          subst hid
          rw [tokens_step_of_none rfl]
          have hadmitted : s' = .admitted env now req' ⟨c.scheduler.nextAttemptValue⟩ :=
            Option.some.inj (hs'.symm.trans (Impl.req_submitWithTokens hok))
          rw [hadmitted]
          exact hkeep req' tokens hconn (Impl.isOk_submit_iff.mp hok)
        | _ => exact Op.noConfusion hop

/-- The tokens of a member are found. -/
theorem isSome_slice (h : c.Stocked) {m : ExecutableMember} (hm : c.scheduler.view.Covers m) :
    (c.slice m).isSome := by
  obtain ⟨s, hs, hle⟩ := hm
  obtain ⟨tvec, htvec, henough⟩ := h m.requestId s hs
  have hprompt : s.request.remainingPrefillTokens < 2 ^ 64 := by
    have hlt := s.request.promptTokenCount.toNat_lt
    rw [s.request.remainingPrefillTokens_eq]
    omega
  have hmod : (m.tokenStart + m.tokenCount) % 2 ^ 64 = m.tokenStart + m.tokenCount :=
    Nat.mod_eq_of_lt (by omega)
  rw [slice, htvec, Option.bind_some, readTokens, pointInto, hmod, if_neg (by omega)]
  rfl

/-! ### The worker is not blamed -/

/-- **The coordinator backs a worker.** -/
structure Backs (c : Coordinator) (w : WorkerId) : Prop where
  /-- A worker the scheduler knows has a socket. -/
  known : (c.scheduler.descs w).isSome → (c.workerSocks.lookup w).isSome
  /-- So has one that is about to register, and it does not register as lost. -/
  registering : ∀ conn wd, c.handlers.lookup conn = some (.registering wd) →
    wd.workerId.isNil = false ∧
      (wd.workerId = w → (c.workerSocks.lookup w).isSome ∧ wd.state ≠ .lost)
  /-- Groups are for workers the scheduler knows. -/
  groups : ∀ dg ∈ c.loop.groups, (c.scheduler.descs dg.assignedWorker).isSome
  stocked : c.Stocked
  /-- It is not about to be blamed. -/
  blameless : ∀ rest, c.loop ≠ .blaming w rest
  state : ∀ d, c.scheduler.descs w = some d → d.state ≠ .lost

/-- What the worker contributes at one event: its connection does not break off, the socket
takes what is written to it, and it does not announce itself as lost. -/
structure Endures (c : Coordinator) (w : WorkerId) (e : NetEvent) : Prop where
  connected : ¬c.BreaksOff w e
  written : ∀ now, e = .schedule now false → ∀ dg sock d rest,
    c.loop = .slicing dg sock d [] rest → dg.assignedWorker ≠ w
  ready : ∀ conn now wd, e = .receive conn now (.workerRegister wd) → wd.workerId = w →
    wd.state ≠ .lost

/-- The loop finds a socket and tokens, and can send the frame. -/
theorem scheduleLoop_blameless {now : Nanoseconds} {written : Bool} (h : c.Backs w)
    (hcovers : ∀ m ∈ c.loop.members, c.scheduler.view.Covers m)
    (hfits : c.loop.FrameFits)
    (hwritten : written = false → ∀ dg sock d rest, c.loop = .slicing dg sock d [] rest →
      dg.assignedWorker ≠ w) (rest : List DispatchedGroup) :
    (c.scheduleLoop env now written).1.loop ≠ .blaming w rest := by
  unfold scheduleLoop
  rcases hloop : c.loop with
    _ | (_ | ⟨dg, rest'⟩) | _ | _ | ⟨dg, sock, d, (_ | ⟨m, left⟩), rest'⟩ | _
  case dispatching.cons =>
    dsimp only
    cases hsock : c.workerSocks.lookup dg.assignedWorker with
    | none =>
      intro hblame
      obtain ⟨rfl, -⟩ := ScheduleLoop.blaming.inj hblame
      have hknown := h.known (h.groups dg (by rw [hloop]; exact List.mem_cons_self))
      rw [hsock] at hknown
      exact Bool.noConfusion hknown
    | some sock => exact ScheduleLoop.noConfusion
  case slicing.nil =>
    dsimp only
    split_ifs with hsend
    · exact ScheduleLoop.noConfusion
    · intro hblame
      obtain ⟨rfl, -⟩ := ScheduleLoop.blaming.inj hblame
      rw [hloop] at hfits
      exact hwritten (Bool.eq_false_iff.mpr fun hw => hsend ⟨hfits, hw⟩) dg sock d rest' hloop rfl
  case slicing.cons =>
    dsimp only
    have hfound := isSome_slice h.stocked (hcovers m (by rw [hloop]; exact List.mem_cons_self))
    cases hslice : c.slice m with
    | none =>
      rw [hslice] at hfound
      exact Bool.noConfusion hfound
    | some tokens => exact ScheduleLoop.noConfusion
  all_goals exact ScheduleLoop.noConfusion

theorem groups_step (env : Env) (hwf : c.scheduler.view.Wf)
    (h : ∀ dg ∈ c.loop.groups, (c.scheduler.descs dg.assignedWorker).isSome) :
    ∀ dg ∈ (c.step env e).1.loop.groups,
      ((c.step env e).1.scheduler.descs dg.assignedWorker).isSome := by
  intro dg hdg
  have hold : dg ∈ c.loop.groups → ((c.step env e).1.scheduler.descs dg.assignedWorker).isSome :=
    fun hmem => isSome_descs_step env hwf (h dg hmem)
  have haside := loop_step env c (e := e)
  cases e with
  | schedule now written =>
    rcases c.loop_scheduleLoop env now written with ⟨hsub, -⟩ | ⟨hrest, hloop⟩
    · exact hold (hsub hdg)
    · have hcall : c.call (.schedule now written) = some ⟨now, .runCycle⟩ := by rw [call, hrest]
      change dg ∈ (c.scheduleLoop env now written).1.loop.groups at hdg
      rw [hloop] at hdg
      rw [scheduler_step_of_some hcall, Impl.step_runCycle]
      exact (Impl.runCycle_descs env now c.scheduler).2 dg hdg
  | _ => exact hold (haside trivial ▸ hdg)

/-- **The coordinator goes on backing the worker.** -/
theorem Backs.step (h : c.Backs w) (hwf : c.scheduler.view.Wf)
    (hcovers : ∀ m ∈ c.loop.members, c.scheduler.view.Covers m) (hkeep : c.KeepsStock env e)
    (hendures : c.Endures w e) : (c.step env e).1.Backs w where
  known hw := by
    rcases descs_step env c e w with hsame | ⟨conn, now, wd, rfl, hconn, hid, -⟩ | hbreak |
      ⟨rest, hblame⟩
    · exact socks_step env (h.known (hsame ▸ hw)) hendures.connected
    · exact socks_step env ((h.registering conn wd hconn).2 hid).1 hendures.connected
    · exact absurd hbreak hendures.connected
    · exact absurd hblame (h.blameless rest)
  registering conn wd hconn := by
    rcases registering_step env hconn with hold | ⟨⟨now, rfl⟩, hid, hsock⟩
    · refine ⟨(h.registering conn wd hold).1, fun hw => ?_⟩
      obtain ⟨hsock, hstate⟩ := (h.registering conn wd hold).2 hw
      exact ⟨socks_step env hsock hendures.connected, hstate⟩
    · exact ⟨hid, fun hw => ⟨hw ▸ hsock, hendures.ready conn now wd rfl hw⟩⟩
  groups := groups_step env hwf h.groups
  stocked := stocked_step hwf hkeep h.stocked
  blameless rest := by
    have haside := loop_step env c (e := e)
    cases e with
    | schedule now written =>
      exact scheduleLoop_blameless h hcovers hkeep
        (fun hw => hendures.written now (by rw [hw])) rest
    | _ => exact (haside trivial).symm ▸ h.blameless rest
  state d hd := by
    rcases descs_step env c e w with hsame | ⟨conn, now, wd, rfl, hconn, hid, hstep⟩ | hbreak |
      ⟨rest, hblame⟩
    · exact h.state d (hsame ▸ hd)
    · obtain ⟨hnil, hstate⟩ := h.registering conn wd hconn
      rw [hstep, ← hid] at hd
      rw [Impl.descs_registerWorker_self hnil hd]
      split_ifs
      · exact WorkerState.noConfusion
      · exact (hstate hid).2
    · exact absurd hbreak hendures.connected
    · exact absurd hblame (h.blameless rest)

end Coordinator

/-! ### Sessions -/

namespace Session

variable {S : Session} {w : WorkerId}

/-- **A worker stays connected**: no connection that has served as its own ever breaks off, the
socket takes every frame of a group that goes to it, and it never registers as lost. -/
def StaysOpen (S : Session) (w : WorkerId) : Prop :=
  ∀ n e, S.events[n]? = some e → (S.stateAt n).Endures w e

theorem descs_start (env : Env) (now : Nanoseconds) (hw : w ≠ .nil) :
    (Coordinator.start env now).scheduler.descs w = none := by
  refine (Impl.descs_unregisterWorker_of_ne hw).trans ?_
  change ((AList.insert _ _ (∅ : Table WorkerId Ws)).lookup w).map _ = none
  rw [AList.lookup_insert_ne hw]
  rfl

theorem backs_start (env : Env) (now : Nanoseconds) (hw : w ≠ .nil) :
    (Coordinator.start env now).Backs w where
  known h := by
    rw [descs_start env now hw] at h
    exact Bool.noConfusion h
  registering conn wd h := absurd h (Option.some_ne_none _).symm
  groups dg hdg := absurd hdg List.not_mem_nil
  stocked r s hs := absurd hs (Option.some_ne_none s).symm
  blameless rest := ScheduleLoop.noConfusion
  state d hd := absurd ((descs_start env now hw).symm.trans hd) (Option.some_ne_none d).symm

/-- In a session in which requests are supplied, a worker that stays connected is backed. -/
theorem backs (hw : w ≠ .nil) (hopen : S.StaysOpen w)
    (hkeep : ∀ n e, S.events[n]? = some e → (S.stateAt n).KeepsStock S.env e) (n : ℕ) :
    (S.stateAt n).Backs w := by
  induction n with
  | zero => exact backs_start S.env S.startedAt hw
  | succ n ih =>
    cases he : S.events[n]? with
    | none => rwa [stateAt_succ_of_none he]
    | some e =>
      rw [stateAt_succ he]
      exact ih.step (S.wf n) (S.covers_members n) (hkeep n e he) (hopen n e he)

/-- **A worker that stays connected is not lost** as long as requests are supplied. In every
session, whatever the interleaving of its threads: if tokens that come in for an admitted
request are as many as it has left to prefill, if as many are stored for a request when it
is admitted, and if no frame is longer than a frame may be, then a worker whose connection
does not break off and whose socket takes what is written to it is at no moment marked as
lost. -/
theorem state_ne_lost (S : Session) {w : WorkerId} (hw : w ≠ .nil) (hopen : S.StaysOpen w)
    (hkeep : ∀ n e, S.events[n]? = some e → (S.stateAt n).KeepsStock S.env e) (n : ℕ) :
    ∀ ws, (S.stateAt n).scheduler.workers.lookup w = some ws → ws.desc.state ≠ .lost := by
  intro ws hws
  refine (backs hw hopen hkeep n).state ws.desc ?_
  rw [Impl.descs, hws, Option.map_some]

/-- A worker registers, a client submits a request of two tokens, and the request is
dispatched. The tokens are up to the client. -/
def dispatched (tokens : List UInt32) : Session where
  env := .standard
  startedAt := 0
  events :=
    [.receive 0 0 (.workerRegister { workerId := ⟨1⟩, bootId := ⟨7⟩, state := .ready }),
      .proceed 0 0, .receive 1 0 .hello, .receive 1 0 (.submit (Run.plainRequest 1 2) tokens),
      .proceed 1 0] ++ List.replicate 6 (.schedule 0 true)

theorem staysOpen_dispatched (tokens : List UInt32) : (dispatched tokens).StaysOpen ⟨1⟩ := by
  intro n e he
  have hmem := List.mem_of_getElem? he
  refine ⟨?_, ?_, ?_⟩
  · rintro ⟨conn, now, wd, rfl, -⟩
    simp [dispatched] at hmem
  · rintro now rfl
    simp [dispatched] at hmem
  · rintro conn now wd rfl -
    obtain ⟨-, -, rfl⟩ : conn = 0 ∧ now = 0 ∧
        wd = { workerId := ⟨1⟩, bootId := ⟨7⟩, state := .ready } := by
      simpa [dispatched] using hmem
    exact WorkerState.noConfusion

theorem keepsStock_dispatched (n : ℕ) (e : NetEvent)
    (he : (dispatched [5, 6]).events[n]? = some e) :
    ((dispatched [5, 6]).stateAt n).KeepsStock .standard e := by
  -- the loop sends one frame, and that is short
  have hfits : ∀ k < 11, ((dispatched [5, 6]).stateAt k).loop.FrameFits := by decide +kernel
  match n, he with
  | 0, he =>
    obtain rfl := Option.some.inj he
    exact trivial
  | 1, he =>
    obtain rfl := Option.some.inj he
    intro req tokens hconn
    have hreg : ((dispatched [5, 6]).stateAt 1).handlers.lookup 0 =
        some (.registering { workerId := ⟨1⟩, bootId := ⟨7⟩, state := .ready }) := rfl
    exact Handler.noConfusion (Option.some.inj (hreg.symm.trans hconn))
  | 2, he =>
    obtain rfl := Option.some.inj he
    exact trivial
  | 3, he =>
    obtain rfl := Option.some.inj he
    exact fun _ s hs => absurd hs (Option.some_ne_none s).symm
  | 4, he =>
    obtain rfl := Option.some.inj he
    intro req tokens hconn _
    have hsubmit : ((dispatched [5, 6]).stateAt 4).handlers.lookup 1 =
        some (.submitting (Run.plainRequest 1 2) [5, 6]) := rfl
    obtain ⟨rfl, rfl⟩ := Handler.submitting.inj (Option.some.inj (hsubmit.symm.trans hconn))
    exact ⟨[5, 6], rfl, by decide⟩
  | k + 5, he =>
    have hlt : k + 5 < 11 := (List.getElem?_eq_some_iff.mp he).1
    have hrest : (List.replicate 6 (NetEvent.schedule 0 true))[k]? = some e := he
    obtain rfl := List.eq_of_mem_replicate (List.mem_of_getElem? hrest)
    exact hfits (k + 5) hlt

/-- With both tokens the request is sent, and the worker is ready. -/
theorem state_ne_lost_dispatched :
    (((dispatched [5, 6]).stateAt 10).step .standard (.schedule 0 true)).2.isSome = true ∧
      (((dispatched [5, 6]).stateAt 11).scheduler.workers.lookup ⟨1⟩).isSome = true ∧
      ∀ ws, ((dispatched [5, 6]).stateAt 11).scheduler.workers.lookup ⟨1⟩ = some ws →
        ws.desc.state ≠ .lost :=
  ⟨by decide +kernel, by decide +kernel,
    state_ne_lost (dispatched [5, 6]) (by decide) (staysOpen_dispatched [5, 6])
      keepsStock_dispatched 11⟩

/-- With one of its two tokens the request is admitted all the same, its tokens are found to
be missing when it is dispatched, and the worker is lost, connected as it is. -/
theorem lost_dispatched :
    (dispatched [5]).StaysOpen ⟨1⟩ ∧
      (((dispatched [5]).stateAt 11).scheduler.workers.lookup ⟨1⟩).map (·.desc.state) =
        some .lost :=
  ⟨staysOpen_dispatched [5], by decide +kernel⟩

end Session

end PrefillFabric
