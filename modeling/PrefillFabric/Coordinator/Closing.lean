import PrefillFabric.Coordinator.Blame

/-!
# Connections that close late

A worker that restarts connects anew, and its old connection may close at any time: before
the new one is there, between the entry of the new socket and the registration, or long
afterwards. The table of sockets is prepared for this. A connection that closes takes away
its own entry only, so that the worker goes on being reached over its newest connection.

The scheduler is not. It is told that the worker is lost whichever of its connections
closes, and a worker that is served is one that the scheduler knows
(`Session.isSome_descs`), so that it is marked as lost, and everything in flight on it goes
back to the queue. `Session.leavesAlone_hangUp_iff`: the closing of an older connection
leaves the worker and any work alone only if the worker was lost before, and none of that
work in flight on it.
-/

namespace PrefillFabric

namespace Impl

variable {now : Nanoseconds} {σ : Impl} {w : WorkerId}

theorem descs_workerLost_self :
    (σ.workerLost now w).descs w = (σ.descs w).map fun d => { d with state := .lost } := by
  rw [← descs_foldl_loseGroup now w σ.groups.keys σ]
  change ((AList.modify w _ _).lookup w).map _ = _
  rw [AList.lookup_modify, if_pos rfl, Option.map_map, descs, Option.map_map]
  rfl

theorem isSome_descs_registerWorker {wd : WorkerDescriptor} (hid : wd.workerId.isNil = false) :
    ((σ.registerWorker now wd).1.descs wd.workerId).isSome := by
  unfold registerWorker
  rw [if_neg (Bool.eq_false_iff.mp hid)]
  change (((σ.workers.insert wd.workerId _).lookup wd.workerId).map _).isSome
  rw [AList.lookup_insert]
  rfl

end Impl

/-- The worker that a connection belongs to, once it is registered. -/
def Handler.worker : Handler → Option WorkerDescriptor
  | serving (.worker wd) | completing (.worker wd) _ => some wd
  | _ => none

namespace Coordinator

variable {env : Env} {c : Coordinator} {e : NetEvent} {conn : ConnectionId} {wd : WorkerDescriptor}

/-! ### Whom a handler serves -/

/-- **A step moves one handler at most.** The handler serves whom it served before or nobody,
unless it has just registered a worker. -/
theorem handlers_step (env : Env) (c : Coordinator) (e : NetEvent) :
    (c.step env e).1.handlers = c.handlers ∨
      ∃ x h', (c.step env e).1.handlers = c.handlers.insert x h' ∧
        (h'.worker = none ∨ (∃ h, c.handlers.lookup x = some h ∧ h'.worker = h.worker) ∨
          ∃ now wd, e = .proceed x now ∧ c.handlers.lookup x = some (.registering wd) ∧
            h' = .serving (.worker wd)) := by
  cases e with
  | receive conn now msg =>
    unfold step receive
    dsimp only
    rcases hconn : c.handlers.lookup conn with _ | (_ | _) | _ | _ | _ | _
    case none =>
      cases msg with
      | workerRegister wd =>
        dsimp only [greet]
        split_ifs <;> exact Or.inr ⟨conn, _, rfl, Or.inl rfl⟩
      | _ => exact Or.inr ⟨conn, _, rfl, Or.inl rfl⟩
    all_goals cases msg <;>
      first
      | exact Or.inl rfl
      | exact Or.inr ⟨conn, _, rfl, Or.inl rfl⟩
      | exact Or.inr ⟨conn, _, rfl, Or.inr (Or.inl ⟨_, hconn, rfl⟩)⟩
  | proceed conn now =>
    unfold step proceed
    dsimp only
    rcases hconn : c.handlers.lookup conn with _ | _ | _ | _ | ⟨peer, _ | ⟨result, rest⟩⟩ | _
    case some.registering wd =>
      exact Or.inr ⟨conn, _, rfl, Or.inr (Or.inr ⟨now, wd, rfl, hconn, rfl⟩)⟩
    case some.completing.cons =>
      dsimp only
      cases (c.scheduler.reportCompletion env now result).2 <;>
        exact Or.inr ⟨conn, _, rfl, Or.inr (Or.inl ⟨_, hconn, by cases peer <;> rfl⟩)⟩
    case some.completing.nil =>
      exact Or.inr ⟨conn, _, rfl, Or.inr (Or.inl ⟨_, hconn, by cases peer <;> rfl⟩)⟩
    all_goals
      first
      | exact Or.inl rfl
      | exact Or.inr ⟨conn, _, rfl, Or.inl rfl⟩
  | hangUp conn now =>
    unfold step hangUp
    dsimp only
    rcases c.handlers.lookup conn with _ | (_ | _) | _ | _ | _ | _
    case some.serving.worker wd =>
      dsimp only
      split_ifs <;> exact Or.inr ⟨conn, _, rfl, Or.inl rfl⟩
    all_goals
      first
      | exact Or.inl rfl
      | exact Or.inr ⟨conn, _, rfl, Or.inl rfl⟩
  | schedule now written =>
    unfold step scheduleLoop
    dsimp only
    rcases c.loop with _ | (_ | ⟨dg, rest⟩) | _ | _ | ⟨dg, sock, d, (_ | ⟨m, left⟩), rest⟩ | _
    case dispatching.cons =>
      dsimp only
      cases c.workerSocks.lookup dg.assignedWorker <;> exact Or.inl rfl
    case slicing.nil =>
      dsimp only
      split_ifs <;> exact Or.inl rfl
    case slicing.cons =>
      dsimp only
      cases c.slice m <;> exact Or.inl rfl
    all_goals exact Or.inl rfl

/-- **Who is served is known** to the scheduler, and who is about to register has a name. -/
structure Enlists (c : Coordinator) : Prop where
  served : ∀ conn h wd, c.handlers.lookup conn = some h → h.worker = some wd →
    (c.scheduler.descs wd.workerId).isSome
  registering : ∀ conn wd, c.handlers.lookup conn = some (.registering wd) →
    wd.workerId.isNil = false

theorem Enlists.step (h : c.Enlists) (hwf : c.scheduler.view.Wf) : (c.step env e).1.Enlists where
  registering conn wd hconn := by
    rcases registering_step env hconn with hold | ⟨-, hid, -⟩
    · exact h.registering conn wd hold
    · exact hid
  served conn h' wd hconn hworker := by
    have hold : ∀ h₀, c.handlers.lookup conn = some h₀ → h₀.worker = some wd →
        ((c.step env e).1.scheduler.descs wd.workerId).isSome :=
      fun h₀ hlookup hserves => isSome_descs_step env hwf (h.served conn h₀ wd hlookup hserves)
    rcases handlers_step env c e with hsame | ⟨x, hx, hinsert, hcases⟩
    · exact hold h' (hsame ▸ hconn) hworker
    · rw [hinsert, AList.lookup_insert_eq_ite] at hconn
      split_ifs at hconn with hne
      · obtain rfl := Option.some.inj hconn
        rcases hcases with hnone | ⟨h₀, hlookup, hsame⟩ | ⟨now, wd', rfl, hreg, rfl⟩
        · exact absurd (hworker.symm.trans hnone) (Option.some_ne_none wd)
        · exact hold h₀ (hne ▸ hlookup) (hsame.symm.trans hworker)
        · -- it has just registered
          obtain rfl : wd' = wd := Option.some.inj hworker
          have hcall : c.call (.proceed x now) = some ⟨now, .registerWorker wd'⟩ := by
            rw [call, hreg]
          rw [scheduler_step_of_some hcall]
          exact Impl.isSome_descs_registerWorker (h.registering x wd' hreg)
      · exact hold h' hconn hworker

end Coordinator

/-! ### Sessions -/

/-- **A worker is left alone, and so is some work**: the worker is not lost unless it was lost
before, and none of the work goes back to the queue, or changes its state in another way. -/
structure Impl.LeavesAlone (σ σ' : Impl) (w : WorkerId) (work : RequestId → Prop) : Prop where
  worker : (σ.descs w).map (·.state) ≠ some .lost → (σ'.descs w).map (·.state) ≠ some .lost
  work : ∀ r s, work r → σ.requests.lookup r = some s → ∃ s', σ'.requests.lookup r = some s' ∧
    s'.lifecycle = s.lifecycle ∧ s'.inFlight = s.inFlight

namespace Session

variable {S : Session} {n : ℕ} {conn newest : ConnectionId} {now : Nanoseconds}
  {wd : WorkerDescriptor}

theorem enlists (S : Session) (n : ℕ) : (S.stateAt n).Enlists := by
  induction n with
  | zero =>
    exact ⟨fun _ h _ hconn => absurd hconn (Option.some_ne_none h).symm,
      fun _ _ hconn => absurd hconn (Option.some_ne_none _).symm⟩
  | succ n ih =>
    cases he : S.events[n]? with
    | none => rwa [stateAt_succ_of_none he]
    | some e =>
      rw [stateAt_succ he]
      exact ih.step (S.wf n)

/-- A worker that is served is one that the scheduler knows. -/
theorem isSome_descs
    (hserving : (S.stateAt n).handlers.lookup conn = some (.serving (.worker wd))) :
    ((S.stateAt n).scheduler.descs wd.workerId).isSome :=
  (S.enlists n).served conn _ wd hserving rfl

/-- **A connection that closes marks its worker as lost**, whichever connection of the worker
it is. -/
theorem scheduler_hangUp (he : S.events[n]? = some (.hangUp conn now))
    (hserving : (S.stateAt n).handlers.lookup conn = some (.serving (.worker wd))) :
    (S.stateAt (n + 1)).scheduler = (S.stateAt n).scheduler.workerLost now wd.workerId ∧
      ((S.stateAt (n + 1)).scheduler.descs wd.workerId).map (·.state) = some .lost := by
  have hcall : (S.stateAt n).call (.hangUp conn now) = some ⟨now, .workerLost wd.workerId⟩ := by
    rw [Coordinator.call, hserving]
  have hsched : (S.stateAt (n + 1)).scheduler =
      (S.stateAt n).scheduler.workerLost now wd.workerId := by
    rw [stateAt_succ he, Coordinator.scheduler_step_of_some hcall]
    rfl
  obtain ⟨d, hd⟩ := Option.isSome_iff_exists.mp (isSome_descs hserving)
  refine ⟨hsched, ?_⟩
  rw [hsched, Impl.descs_workerLost_self, hd]
  rfl

/-- What is in flight on a lost worker goes back to the queue, and nothing else is touched. -/
theorem lifecycle_workerLost_iff {σ : Impl} {w : WorkerId} {r : RequestId} {s : Rs}
    (hs : σ.requests.lookup r = some s) :
    (∃ s', (σ.workerLost now w).requests.lookup r = some s' ∧ s'.lifecycle = s.lifecycle ∧
      s'.inFlight = s.inFlight) ↔ ¬σ.view.Lost w r := by
  have hlose := Impl.lose_workerLost now w σ
  constructor
  · rintro ⟨s', hs', -, hflight⟩ hlost
    have hrecovered := hlose.lost r s.core hlost (Impl.view_req hs)
    have hcore := Option.some.inj ((Impl.view_req hs').symm.trans hrecovered)
    have hout : s'.inFlight = false := congrArg Rs.inFlight hcore
    obtain ⟨-, -, t, -, -, ht, htflight, -⟩ := hlost
    obtain rfl := Option.some.inj ((Impl.view_req hs).symm.trans ht)
    exact Bool.noConfusion (hout.symm.trans (hflight.trans htflight))
  · intro hkept
    have hreq := (hlose.kept r hkept).trans (Impl.view_req hs)
    obtain ⟨s', hs', hcore⟩ := Impl.exists_of_view_req hreq
    have hlife : s'.core.lifecycle = s.core.lifecycle := congrArg Rs.lifecycle hcore
    have hflight : s'.core.inFlight = s.core.inFlight := congrArg Rs.inFlight hcore
    exact ⟨s', hs', hlife, hflight⟩

/-- **The closing of an older connection** of a worker, at any point of any session. The newest
connection is as open as it was, and still the one over which the worker is reached. But the
worker and a set of requests are left alone exactly if the worker was lost before, and none of
the requests in flight on it. -/
theorem leavesAlone_hangUp_iff (S : Session) (he : S.events[n]? = some (.hangUp conn now))
    (hserving : (S.stateAt n).handlers.lookup conn = some (.serving (.worker wd)))
    (hnewest : (S.stateAt n).workerSocks.lookup wd.workerId = some newest)
    (holder : newest ≠ conn) (work : RequestId → Prop) :
    (S.stateAt (n + 1)).handlers.lookup newest = (S.stateAt n).handlers.lookup newest ∧
    (S.stateAt (n + 1)).workerSocks.lookup wd.workerId = some newest ∧
    ((S.stateAt n).scheduler.LeavesAlone (S.stateAt (n + 1)).scheduler wd.workerId work ↔
      ((S.stateAt n).scheduler.descs wd.workerId).map (·.state) = some .lost ∧
        ∀ r, work r → ¬(S.stateAt n).scheduler.view.Lost wd.workerId r) := by
  obtain ⟨hsched, hlost⟩ := scheduler_hangUp he hserving
  have hnot : ¬(S.stateAt n).workerSocks.lookup wd.workerId = some conn := fun hc =>
    holder (Option.some.inj (hnewest.symm.trans hc))
  have hnext : S.stateAt (n + 1) = (S.stateAt n).hangUp conn now := stateAt_succ he
  refine ⟨?_, ?_, ⟨fun h => ⟨?_, fun r hr hwork => ?_⟩, fun h => ⟨?_, fun r s hr hs => ?_⟩⟩⟩
  -- what is guarded: the handler and the socket of the newest connection
  · rw [hnext, Coordinator.hangUp, hserving]
    dsimp only
    rw [if_neg hnot]
    exact AList.lookup_insert_ne holder
  · rw [hnext, Coordinator.hangUp, hserving]
    dsimp only
    rw [if_neg hnot]
    exact hnewest
  -- what is not: the worker is lost now, so it can only have been lost before
  · exact not_not.mp fun hc => h.worker hc hlost
  · obtain ⟨-, -, s, -, -, hs, -⟩ := id hwork
    obtain ⟨t, ht, -⟩ := Impl.exists_of_view_req hs
    have hkept := h.work r t hr ht
    rw [hsched] at hkept
    exact (lifecycle_workerLost_iff ht).mp hkept hwork
  · exact fun hc => absurd h.1 hc
  · rw [hsched]
    exact (lifecycle_workerLost_iff hs).mpr (h.2 r hr)

/-- A worker restarts under another boot number and connects anew, a request is dispatched to
it over the new connection, and then the old connection closes. -/
def restarted : Session where
  env := .standard
  startedAt := 0
  events :=
    [.receive 0 0 (.workerRegister { workerId := ⟨7⟩, bootId := ⟨3⟩, state := .ready }),
      .proceed 0 0,
      .receive 1 0 (.workerRegister { workerId := ⟨7⟩, bootId := ⟨4⟩, state := .ready }),
      .proceed 1 0, .receive 2 0 .hello, .receive 2 0 (.submit (Run.plainRequest 1 2) [5, 6]),
      .proceed 2 0] ++ List.replicate 6 (.schedule 0 true) ++ [.hangUp 0 0]

theorem leavesAlone_hangUp_iff_restarted :
    ¬(restarted.stateAt 13).scheduler.LeavesAlone (restarted.stateAt 14).scheduler ⟨7⟩
      (· = ⟨1⟩) := by
  have hserving : (restarted.stateAt 13).handlers.lookup 0 =
      some (.serving (.worker { workerId := ⟨7⟩, bootId := ⟨3⟩, state := .ready })) := rfl
  have hnewest : (restarted.stateAt 13).workerSocks.lookup ⟨7⟩ = some 1 := by decide +kernel
  have hready : ((restarted.stateAt 13).scheduler.descs ⟨7⟩).map (·.state) = some .ready := by
    decide +kernel
  intro h
  obtain ⟨hlost, -⟩ := (leavesAlone_hangUp_iff restarted rfl hserving hnewest (by decide)
    (· = ⟨1⟩)).2.2.mp h
  rw [hready] at hlost
  exact WorkerState.noConfusion (Option.some.inj hlost)

/-- The dispatch is sent over the new connection, and the worker is ready and the request
dispatched; when the old connection has closed the worker is lost and the request queued. -/
theorem lost_restarted :
    (((restarted.stateAt 12).step .standard (.schedule 0 true)).2.map (·.1) = some 1 ∧
      ((restarted.stateAt 13).scheduler.workers.lookup ⟨7⟩).map
          (fun ws => (ws.desc.bootId, ws.desc.state)) = some (⟨4⟩, .ready) ∧
      ((restarted.stateAt 13).scheduler.requests.lookup ⟨1⟩).map (·.lifecycle) =
        some .dispatched) ∧
    ((restarted.stateAt 14).workerSocks.lookup ⟨7⟩ = some 1 ∧
      ((restarted.stateAt 14).scheduler.workers.lookup ⟨7⟩).map
          (fun ws => (ws.desc.bootId, ws.desc.state)) = some (⟨4⟩, .lost) ∧
      ((restarted.stateAt 14).scheduler.requests.lookup ⟨1⟩).map (·.lifecycle) = some .queued) := by
  decide +kernel

end Session

end PrefillFabric
