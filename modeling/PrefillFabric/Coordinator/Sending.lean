import PrefillFabric.Coordinator.Payload
import PrefillFabric.Protocol.Worker
import PrefillFabric.Scheduler.Dispatches
import PrefillFabric.Scheduler.Reads

/-!
# What the coordinator sends

A cycle of the scheduler hands out groups, and the loop of the coordinator takes them one
after the other. For each it looks for the socket of the worker, puts the dispatch together
and writes it, and whatever goes wrong on the way is answered by giving the worker up. Between
any two of these steps the other threads do what they like.

Nothing gets lost on the way and nothing is sent twice. The dispatch of a group has an
`Ending`: something has been sent for it, or nothing. The endings so far, in their order, and
the groups the loop still has are the groups that have been handed out, in theirs; what has
been sent is what the endings say, and the workers that have been given up are those of the
groups for which nothing has been sent (`Session.exists_endings`).

What is sent is also put together from the right tokens. While a dispatch is assembled the
tokens are read once for every member, each time under the lock anew; as long as no step
replaces tokens that count they are all those of the messages that were accepted
(`Session.KeepsPayloads.sentAs`).
-/

namespace PrefillFabric

/-! ### Endings -/

/-- **How the dispatch of a group has ended**: with what has been sent for it, if anything. -/
structure Ending where
  dg : DispatchedGroup
  sent : Option (ConnectionId × Dispatch)

namespace Ending

/-- What has been sent is the group. -/
def Own (o : Ending) : Prop := ∀ conn d, o.sent = some (conn, d) → d.group = o.dg.group

/-- The worker that is given up. -/
def blamed (o : Ending) : Option WorkerId :=
  match o.sent with
  | none => some o.dg.assignedWorker
  | some _ => none

end Ending

namespace ScheduleLoop

/-- The worker that has been given up and that the scheduler has not been told of. -/
def blames : ScheduleLoop → List WorkerId
  | blaming w _ => [w]
  | _ => []

/-- A dispatch that is being put together is of its group. -/
def Own : ScheduleLoop → Prop
  | slicing dg _ d _ _ => d.group = dg.group
  | _ => True

end ScheduleLoop

namespace Coordinator

variable {env : Env} {c : Coordinator} {e : NetEvent}

/-- The groups that a step hands out. -/
def handsOut (env : Env) (c : Coordinator) : NetEvent → List DispatchedGroup
  | .schedule now _ =>
    match c.loop with
    | .resting => (c.scheduler.runCycle env now).2.groups
    | _ => []
  | _ => []

/-- The worker that the loop reports as lost in a step. -/
def blames (c : Coordinator) : NetEvent → List WorkerId
  | .schedule _ _ => c.loop.blames
  | _ => []

/-- The dispatch that a step sends. -/
def dispatches (env : Env) (c : Coordinator) (e : NetEvent) : List (ConnectionId × Dispatch) :=
  ((c.step env e).2.bind Sent.dispatch?).toList

/-- **A step accounts for the groups**: with the endings it brings about, what was left and
what it hands out is what is left afterwards. -/
structure Accounts (env : Env) (c : Coordinator) (e : NetEvent) (os : List Ending) : Prop where
  groups : c.loop.groups ++ c.handsOut env e = os.map (·.dg) ++ (c.step env e).1.loop.groups
  sent : c.dispatches env e = os.filterMap (·.sent)
  blamed : c.blames e ++ (c.step env e).1.loop.blames = c.loop.blames ++ os.filterMap (·.blamed)
  own : (∀ o ∈ os, o.Own) ∧ (c.step env e).1.loop.Own

/-! ### The other threads -/

theorem dispatches_eq_nil (env : Env) (c : Coordinator) (h : e.Aside) :
    c.dispatches env e = [] := by
  rw [dispatches, (step_aside env c h).2]
  rfl

/-- A step of another thread leaves the loop where it is, and accounts for nothing. -/
theorem accounts_aside (h : e.Aside) (hown : c.loop.Own) (hhands : c.handsOut env e = [])
    (hblames : c.blames e = []) : c.Accounts env e [] where
  groups := by rw [hhands, loop_step env c h, List.append_nil, List.map_nil, List.nil_append]
  sent := dispatches_eq_nil env c h
  blamed := by
    rw [hblames, loop_step env c h, List.nil_append, List.filterMap_nil, List.append_nil]
  own := ⟨fun o ho => absurd ho List.not_mem_nil, by rwa [loop_step env c h]⟩

/-! ### The loop -/

/-- Only a loop that rests begins a cycle. -/
theorem groups_append_handsOut {now : Nanoseconds} {written : Bool} {l : ScheduleLoop}
    (hloop : c.loop = l) (hne : l ≠ .resting) :
    c.loop.groups ++ c.handsOut env (.schedule now written) = l.groups := by
  rw [handsOut, hloop]
  cases l with
  | resting => exact absurd rfl hne
  | _ => exact List.append_nil _

/-- The dispatch of the first group ends with something sent. -/
theorem accounts_sent {now : Nanoseconds} {written : Bool} {dg : DispatchedGroup}
    {sock : ConnectionId} {d : Dispatch} {rest : List DispatchedGroup}
    (hloop : c.loop = .slicing dg sock d [] rest) (hown : d.group = dg.group)
    (hstep : c.step env (.schedule now written) =
      ({ c with loop := .dispatching rest }, some (sock, .dispatch d))) :
    c.Accounts env (.schedule now written) [⟨dg, some (sock, d)⟩] where
  groups := by
    rw [groups_append_handsOut hloop ScheduleLoop.noConfusion, hstep]
    rfl
  sent := by
    rw [dispatches, hstep]
    rfl
  blamed := by
    rw [blames, hloop, hstep]
    rfl
  own := by
    rw [hstep]
    refine ⟨fun o ho => ?_, trivial⟩
    obtain rfl := List.mem_singleton.mp ho
    rintro conn d' ⟨⟩
    exact hown

/-- The dispatch of the first group ends with nothing sent. -/
theorem accounts_blaming {now : Nanoseconds} {written : Bool} {dg : DispatchedGroup}
    {rest : List DispatchedGroup} (hgroups : c.loop.groups = dg :: rest)
    (hblames : c.loop.blames = [])
    (hstep : c.step env (.schedule now written) =
      ({ c with loop := .blaming dg.assignedWorker rest }, none)) :
    c.Accounts env (.schedule now written) [⟨dg, none⟩] where
  groups := by
    have hne : c.loop ≠ .resting := fun hrest =>
      absurd (hgroups.symm.trans (congrArg ScheduleLoop.groups hrest)) (List.cons_ne_nil _ _)
    rw [groups_append_handsOut rfl hne, hgroups, hstep]
    rfl
  sent := by
    rw [dispatches, hstep]
    rfl
  blamed := by
    rw [blames, hblames, hstep]
    rfl
  own := by
    rw [hstep]
    refine ⟨fun o ho => ?_, trivial⟩
    obtain rfl := List.mem_singleton.mp ho
    rintro conn d' ⟨⟩

/-- No dispatch ends, and the loop goes on with the groups it has. -/
theorem accounts_onward {now : Nanoseconds} {written : Bool} {l : ScheduleLoop}
    (hgroups : c.loop.groups ++ c.handsOut env (.schedule now written) = l.groups)
    (hblames : l.blames = []) (hown : l.Own)
    (hloop : (c.step env (.schedule now written)).1.loop = l)
    (hsent : c.dispatches env (.schedule now written) = []) :
    c.Accounts env (.schedule now written) [] where
  groups := by rw [hgroups, hloop, List.map_nil, List.nil_append]
  sent := hsent
  blamed := by rw [blames, hloop, hblames, List.filterMap_nil]
  own := ⟨fun o ho => absurd ho List.not_mem_nil, by rwa [hloop]⟩

/-- No dispatch ends, and a loop that does not rest goes on with the groups it has. -/
theorem accounts_of_groups_eq {now : Nanoseconds} {written : Bool} {l l' : ScheduleLoop}
    (hloop : c.loop = l) (hne : l ≠ .resting)
    (hstep : c.step env (.schedule now written) = ({ c with loop := l' }, none))
    (hgroups : l.groups = l'.groups) (hblames : l'.blames = []) (hown : l'.Own) :
    c.Accounts env (.schedule now written) [] :=
  accounts_onward ((groups_append_handsOut hloop hne).trans hgroups) hblames hown (by rw [hstep])
    (by rw [dispatches, hstep]; rfl)

/-- **Every step accounts for the groups.** -/
theorem exists_accounts (env : Env) (hown : c.loop.Own) (e : NetEvent) :
    ∃ os, c.Accounts env e os := by
  cases e with
  | schedule now written =>
    have hstep : c.step env (.schedule now written) = c.scheduleLoop env now written := rfl
    rcases hloop : c.loop with _ | (_ | ⟨dg, rest⟩) | ⟨dg, sock, rest⟩ | ⟨dg, sock, epoch, rest⟩ |
      ⟨dg, sock, d, (_ | ⟨m, left⟩), rest⟩ | ⟨w, rest⟩
    all_goals simp only [scheduleLoop, hloop] at hstep
    case resting =>
      refine ⟨[], accounts_onward (l := .dispatching (c.scheduler.runCycle env now).2.groups) ?_
        rfl trivial (by rw [hstep]) (by rw [dispatches, hstep]; rfl)⟩
      rw [handsOut, hloop]
      rfl
    case dispatching.nil =>
      exact ⟨[], accounts_of_groups_eq hloop ScheduleLoop.noConfusion hstep rfl rfl trivial⟩
    case dispatching.cons =>
      cases hsock : c.workerSocks.lookup dg.assignedWorker with
      | none =>
        rw [hsock] at hstep
        exact ⟨_, accounts_blaming (by rw [hloop]; rfl) (by rw [hloop]; rfl) hstep⟩
      | some sock =>
        rw [hsock] at hstep
        exact ⟨[], accounts_of_groups_eq hloop ScheduleLoop.noConfusion hstep rfl rfl trivial⟩
    case addressed =>
      exact ⟨[], accounts_of_groups_eq hloop ScheduleLoop.noConfusion hstep rfl rfl trivial⟩
    case stamped =>
      exact ⟨[], accounts_of_groups_eq hloop ScheduleLoop.noConfusion hstep rfl rfl rfl⟩
    case slicing.nil =>
      rw [hloop] at hown
      split_ifs at hstep with hsent
      · exact ⟨_, accounts_sent hloop hown hstep⟩
      · exact ⟨_, accounts_blaming (by rw [hloop]; rfl) (by rw [hloop]; rfl) hstep⟩
    case slicing.cons =>
      rw [hloop] at hown
      cases hslice : c.slice m with
      | none =>
        rw [hslice] at hstep
        exact ⟨_, accounts_blaming (by rw [hloop]; rfl) (by rw [hloop]; rfl) hstep⟩
      | some tokens =>
        rw [hslice] at hstep
        exact ⟨[], accounts_of_groups_eq hloop ScheduleLoop.noConfusion hstep rfl rfl hown⟩
    case blaming =>
      refine ⟨[], ⟨?_, by rw [dispatches, hstep]; rfl, ?_, ⟨fun o ho => ?_, ?_⟩⟩⟩
      · rw [groups_append_handsOut hloop ScheduleLoop.noConfusion, hstep]
        rfl
      · rw [blames, hloop, hstep]
        rfl
      · exact absurd ho List.not_mem_nil
      · rw [hstep]
        trivial
  | _ => exact ⟨[], accounts_aside trivial hown rfl rfl⟩

end Coordinator

/-- **What is handed out is not empty**: it is a chunk of a plan. -/
theorem Effects.tokenCount_pos {env : Env} {L : Label → Prop} {v v' : View}
    {ms : List ExecutableMember} (h : Effects env L v ms v')
    (hsane : v.Each fun _ s => s.Sane env) : ∀ m ∈ ms, 0 < m.tokenCount := by
  intro m hm
  obtain ⟨s, -, hs, hwait, hcarries, -⟩ := h.exists_carries hsane m hm
  have hchunk := Rs.nextChunk_mem hwait
  rw [hs.plan_eq] at hchunk
  rw [hcarries.count]
  exact (ChunkPlanner.tokenCount_of_mem_plan env _ _ _ hchunk).1

/-! ### Sessions -/

namespace Session

variable {S : Session} {n : ℕ}

/-- The groups that event number `n` hands out. -/
def handsOut (S : Session) (n : ℕ) : List DispatchedGroup :=
  match S.events[n]? with
  | some e => (S.stateAt n).handsOut S.env e
  | none => []

/-- The dispatch that event number `n` sends. -/
def sends (S : Session) (n : ℕ) : List (ConnectionId × Dispatch) :=
  match S.events[n]? with
  | some e => (S.stateAt n).dispatches S.env e
  | none => []

/-- The worker that the loop reports as lost in event number `n`. -/
def reportsLost (S : Session) (n : ℕ) : List WorkerId :=
  match S.events[n]? with
  | some e => (S.stateAt n).blames e
  | none => []

/-- The groups handed out before event number `n`, in their order. -/
def groupsOut (S : Session) (n : ℕ) : List DispatchedGroup := (List.range n).flatMap S.handsOut

/-- The dispatches sent before event number `n`, in the order of their sending. -/
def dispatches (S : Session) (n : ℕ) : List (ConnectionId × Dispatch) :=
  (List.range n).flatMap S.sends

/-- The workers the loop has reported as lost before event number `n`. -/
def reportedLost (S : Session) (n : ℕ) : List WorkerId := (List.range n).flatMap S.reportsLost

/-- The members handed out before event number `n`, in their order. -/
def membersOut (S : Session) (n : ℕ) : List ExecutableMember :=
  (S.groupsOut n).flatMap (·.group.members)

theorem flatMap_range_succ {α : Type} (f : ℕ → List α) (n : ℕ) :
    (List.range (n + 1)).flatMap f = (List.range n).flatMap f ++ f n := by
  rw [List.range_succ, List.flatMap_append, List.flatMap_cons, List.flatMap_nil, List.append_nil]

theorem membersOut_succ (S : Session) (n : ℕ) :
    S.membersOut (n + 1) = S.membersOut n ++ (S.handsOut n).flatMap (·.group.members) := by
  rw [membersOut, groupsOut, flatMap_range_succ, List.flatMap_append]
  rfl

/-- **The endings account for the groups.** -/
theorem exists_accounts (S : Session) (n : ℕ) :
    (S.stateAt n).loop.Own ∧ ∃ os : List Ending,
      S.groupsOut n = os.map (·.dg) ++ (S.stateAt n).loop.groups ∧
      S.dispatches n = os.filterMap (·.sent) ∧
      S.reportedLost n ++ (S.stateAt n).loop.blames = os.filterMap (·.blamed) ∧
      ∀ o ∈ os, o.Own := by
  induction n with
  | zero => exact ⟨trivial, [], rfl, rfl, rfl, fun o ho => absurd ho List.not_mem_nil⟩
  | succ n ih =>
    obtain ⟨hown, os, hgroups, hsent, hblamed, hall⟩ := ih
    rw [groupsOut, dispatches, reportedLost, flatMap_range_succ, flatMap_range_succ,
      flatMap_range_succ, ← groupsOut, ← dispatches, ← reportedLost, handsOut, sends, reportsLost]
    cases he : S.events[n]? with
    | none =>
      rw [stateAt_succ_of_none he, List.append_nil, List.append_nil, List.append_nil]
      exact ⟨hown, os, hgroups, hsent, hblamed, hall⟩
    | some e =>
      obtain ⟨os', hstep⟩ := Coordinator.exists_accounts S.env hown e
      rw [stateAt_succ he]
      dsimp only
      refine ⟨hstep.own.2, os ++ os', ?_, ?_, ?_, ?_⟩
      · rw [hgroups, List.append_assoc, hstep.groups, List.map_append, List.append_assoc]
      · rw [hsent, hstep.sent, List.filterMap_append]
      · rw [List.append_assoc, hstep.blamed, ← List.append_assoc, hblamed, List.filterMap_append]
      · intro o ho
        exact (List.mem_append.mp ho).elim (hall o) (hstep.own.1 o)

theorem membersOut_subset {i : ℕ} (h : i ≤ n) : S.membersOut i ⊆ S.membersOut n := by
  induction h with
  | refl => exact List.Subset.refl _
  | step _ ih =>
    rw [membersOut_succ]
    exact List.Subset.trans ih (List.subset_append_left _ _)

/-! ### Members and their generations -/

/-- What an event does to the scheduler, with the members it hands out. -/
theorem effects (S : Session) (n : ℕ) :
    Effects S.env (fun _ => True) (S.stateAt n).scheduler.view
      ((S.handsOut n).flatMap (·.group.members)) (S.stateAt (n + 1)).scheduler.view := by
  rw [handsOut]
  cases he : S.events[n]? with
  | none =>
    rw [stateAt_succ_of_none he]
    exact .refl _
  | some e =>
    rw [stateAt_succ he]
    cases hk : (S.stateAt n).call e with
    | none =>
      have hhands : (S.stateAt n).handsOut S.env e = [] := by
        cases e with
        | schedule now written =>
          rw [Coordinator.call] at hk
          rw [Coordinator.handsOut]
          cases hloop : (S.stateAt n).loop with
          | resting =>
            rw [hloop] at hk
            exact absurd hk (Option.some_ne_none _)
          | _ => rfl
        | _ => rfl
      rw [Coordinator.scheduler_step_of_none hk]
      dsimp only
      rw [hhands]
      exact .refl _
    | some call =>
      have hmembers : ((S.stateAt n).handsOut S.env e).flatMap (·.group.members) =
          ((S.stateAt n).scheduler.step S.env call).2.members := by
        cases Coordinator.calls_of_call hk with
        | cycle hloop =>
          rw [Coordinator.handsOut, hloop, Impl.step_runCycle]
          rfl
        | blame hloop =>
          rw [Coordinator.handsOut, hloop]
          rfl
        | _ => rfl
      rw [Coordinator.scheduler_step_of_some hk]
      dsimp only
      rw [hmembers]
      exact (Impl.effects_step S.env (S.wf n) call).mono fun _ _ => trivial

/-- **The generations of the members handed out are the numbers from one on.** -/
theorem map_generation_membersOut (S : Session) (n : ℕ) :
    (S.stateAt n).scheduler.nextGenerationValue = 1 + (S.membersOut n).length ∧
      (S.membersOut n).map (·.generation.value) = List.range' 1 (S.membersOut n).length := by
  induction n with
  | zero => exact ⟨rfl, rfl⟩
  | succ n ih =>
    obtain ⟨hnext, hmap⟩ := ih
    obtain ⟨hnext', hmap'⟩ := (S.effects n).generations
    change (S.stateAt (n + 1)).scheduler.nextGenerationValue =
      (S.stateAt n).scheduler.nextGenerationValue + _ at hnext'
    change _ = List.range' (S.stateAt n).scheduler.nextGenerationValue _ at hmap'
    rw [membersOut_succ, List.length_append, List.map_append, hmap, hmap', hnext', hnext]
    exact ⟨Nat.add_assoc .., List.range'_append_1⟩

/-- A member is known by its generation. -/
theorem membersOut_unique {m m' : ExecutableMember} (hm : m ∈ S.membersOut n)
    (hm' : m' ∈ S.membersOut n) (hgen : m.generation = m'.generation) : m = m' := by
  have hnodup : ((S.membersOut n).map (·.generation.value)).Nodup := by
    rw [(S.map_generation_membersOut n).2]
    exact List.nodup_range'
  exact List.inj_on_of_nodup_map hnodup hm hm' (congrArg StrongId.value hgen)

/-- Everything in flight is in flight as a member that has been handed out. -/
theorem carriedBy (S : Session) (n : ℕ) :
    (S.stateAt n).scheduler.view.CarriedBy (S.membersOut n) := by
  induction n with
  | zero => exact fun r s hs => absurd hs.symm (Option.some_ne_none s)
  | succ n ih =>
    rw [membersOut_succ]
    exact (S.effects n).carriedBy ih

/-- **What has been handed out is covered** by what the scheduler knows. -/
theorem covers_membersOut (S : Session) (n : ℕ) :
    ∀ m ∈ S.membersOut n, (S.stateAt n).scheduler.view.Covers m := by
  induction n with
  | zero => exact fun m hm => absurd hm List.not_mem_nil
  | succ n ih =>
    intro m hm
    rw [membersOut_succ] at hm
    rcases List.mem_append.mp hm with hold | hnew
    · obtain ⟨s, hs, hle⟩ := ih m hold
      obtain ⟨s', hs', hreq⟩ := exists_request_succ hs
      exact ⟨s', hs', by rwa [hreq]⟩
    · exact (S.effects n).covers (S.sane n).2 m hnew

/-- **What has been handed out is not empty.** -/
theorem tokenCount_pos_membersOut (S : Session) (n : ℕ) :
    ∀ m ∈ S.membersOut n, 0 < m.tokenCount := by
  induction n with
  | zero => exact fun m hm => absurd hm List.not_mem_nil
  | succ n ih =>
    intro m hm
    rw [membersOut_succ] at hm
    rcases List.mem_append.mp hm with hold | hnew
    · exact ih m hold
    · exact (S.effects n).tokenCount_pos (S.sane n).2 m hnew

/-- Every group comes from a cycle. -/
theorem exists_of_mem_groupsOut {dg : DispatchedGroup} (h : dg ∈ S.groupsOut n) :
    ∃ i now, dg ∈ ((S.stateAt i).scheduler.runCycle S.env now).2.groups := by
  obtain ⟨i, -, hi⟩ := List.mem_flatMap.mp h
  rw [handsOut] at hi
  cases he : S.events[i]? with
  | none =>
    rw [he] at hi
    exact absurd hi List.not_mem_nil
  | some e =>
    rw [he] at hi
    cases e with
    | schedule now written =>
      change dg ∈ (S.stateAt i).handsOut S.env (.schedule now written) at hi
      rw [Coordinator.handsOut] at hi
      cases hloop : (S.stateAt i).loop with
      | resting =>
        rw [hloop] at hi
        exact ⟨i, now, hi⟩
      | _ =>
        rw [hloop] at hi
        exact absurd hi List.not_mem_nil
    | _ => exact absurd hi List.not_mem_nil

/-- The members of a group are of different requests. -/
theorem nodup_of_mem_groupsOut {dg : DispatchedGroup} (h : dg ∈ S.groupsOut n) :
    (dg.group.members.map (·.requestId)).Nodup := by
  obtain ⟨i, now, hi⟩ := exists_of_mem_groupsOut h
  refine List.Nodup.sublist (List.Sublist.map _ ?_) (Impl.soundCycle (S.wf i) S.env now).nodup
  rw [DispatchBatch.members, List.flatMap_def]
  exact List.sublist_flatten_of_mem (List.mem_map_of_mem hi)

theorem mem_membersOut {dg : DispatchedGroup} (hdg : dg ∈ S.groupsOut n) {m : ExecutableMember}
    (hm : m ∈ dg.group.members) : m ∈ S.membersOut n :=
  List.mem_flatMap.mpr ⟨dg, hdg, hm⟩

/-- **What the loop has left has been handed out.** -/
theorem groups_subset_groupsOut (S : Session) (n : ℕ) :
    (S.stateAt n).loop.groups ⊆ S.groupsOut n := by
  obtain ⟨-, os, hgroups, -⟩ := S.exists_accounts n
  rw [hgroups]
  exact List.subset_append_right _ _

/-! ### At most once -/

/-- What is sent of the members of some groups is a part of them, in their order. -/
theorem sublist_sent {os : List Ending} (h : ∀ o ∈ os, o.Own) :
    ((os.filterMap (·.sent)).flatMap (·.2.group.members)).Sublist
      ((os.map (·.dg)).flatMap (·.group.members)) := by
  induction os with
  | nil => exact List.Sublist.refl _
  | cons o os ih =>
    obtain ⟨hown, hos⟩ := List.forall_mem_cons.mp h
    obtain ⟨dg, _ | ⟨conn, d⟩⟩ := o
    · exact (ih hos).trans (List.sublist_append_right ..)
    · have hgroup : d.group = dg.group := hown conn d rfl
      change (d.group.members ++ _).Sublist (dg.group.members ++ _)
      rw [hgroup]
      exact (ih hos).append_left _

/-- **Every group is sent once, or its worker is given up.** In every session, whatever the
interleaving: the groups handed out are, in their order, those whose dispatch has ended and
those that the loop has left. The dispatches that have been sent are those of the endings, each
of its group; the workers reported as lost by the loop, or about to be, are those of the
endings without one. And no member is ever sent twice: the generations of those that have been
sent ascend. -/
theorem exists_endings (S : Session) (n : ℕ) :
    ∃ os : List Ending,
      S.groupsOut n = os.map (·.dg) ++ (S.stateAt n).loop.groups ∧
      S.dispatches n = os.filterMap (·.sent) ∧ (∀ o ∈ os, o.Own) ∧
      S.reportedLost n ++ (S.stateAt n).loop.blames = os.filterMap (·.blamed) ∧
      (((S.dispatches n).flatMap (·.2.group.members)).map (·.generation.value)).Pairwise
        (· < ·) := by
  obtain ⟨-, os, hgroups, hsent, hblamed, hown⟩ := S.exists_accounts n
  refine ⟨os, hgroups, hsent, hown, hblamed, ?_⟩
  have hsub : ((S.dispatches n).flatMap (·.2.group.members)).Sublist (S.membersOut n) := by
    rw [hsent, membersOut, hgroups, List.flatMap_append]
    exact (sublist_sent hown).trans (List.sublist_append_left ..)
  refine List.Pairwise.sublist (hsub.map _) ?_
  rw [(S.map_generation_membersOut n).2]
  exact List.pairwise_lt_range'

end Session

/-! ### Assembling -/

namespace Dispatch

variable {store store' : Table RequestId (List UInt32)} {d d' : Dispatch}
  {ms : List ExecutableMember}

theorem assemble_concat (store : Table RequestId (List UInt32)) (d : Dispatch)
    (ms : List ExecutableMember) (m : ExecutableMember) :
    d.assemble store (ms ++ [m]) = (d.assemble store ms).bind fun d' =>
      ((store.lookup m.requestId).bind fun tvec =>
        readTokens tvec m.tokenStart m.tokenCount).map (d'.push m) := by
  induction ms generalizing d with
  | nil =>
    rw [List.nil_append, assemble, assemble, Option.bind_some]
    cases (store.lookup m.requestId).bind fun tvec =>
      readTokens tvec m.tokenStart m.tokenCount <;> rfl
  | cons x ms ih =>
    rw [List.cons_append, assemble, assemble]
    cases (store.lookup x.requestId).bind fun tvec =>
      readTokens tvec x.tokenStart x.tokenCount with
    | none => rfl
    | some slice => exact ih _

/-- Only the tokens of the members matter. -/
theorem assemble_congr (h : ∀ m ∈ ms, store'.lookup m.requestId = store.lookup m.requestId) :
    d.assemble store' ms = d.assemble store ms := by
  induction ms generalizing d with
  | nil => rfl
  | cons m ms ih =>
    obtain ⟨hm, hms⟩ := List.forall_mem_cons.mp h
    rw [assemble, assemble, hm]
    cases (store.lookup m.requestId).bind fun tvec =>
      readTokens tvec m.tokenStart m.tokenCount with
    | none => rfl
    | some slice => exact ih hms

/-- The tokens of every member are there. -/
theorem isSome_slice_of_assemble (h : d.assemble store ms = some d') :
    ∀ m ∈ ms, ((store.lookup m.requestId).bind fun tvec =>
      readTokens tvec m.tokenStart m.tokenCount).isSome := by
  induction ms generalizing d with
  | nil => exact fun m hm => absurd hm List.not_mem_nil
  | cons x ms ih =>
    rw [assemble] at h
    split at h
    · exact absurd h.symm (Option.some_ne_none d')
    · rename_i slice hslice
      exact List.forall_mem_cons.mpr ⟨by rw [hslice]; rfl, ih h⟩

end Dispatch

/-- The dispatch that is being put together has the tokens of the members done so far. -/
def ScheduleLoop.Assembled (store : Table RequestId (List UInt32)) : ScheduleLoop → Prop
  | slicing dg _ d left _ => ∃ done, dg.group.members = done ++ left ∧
      Dispatch.assemble store ⟨dg.group, d.epoch, d.bootId, [], [0]⟩ done = some d
  | _ => True

theorem ScheduleLoop.Assembled.congr {store store' : Table RequestId (List UInt32)}
    {l : ScheduleLoop} (h : l.Assembled store)
    (hstore : ∀ m ∈ l.groups.flatMap (·.group.members),
      store'.lookup m.requestId = store.lookup m.requestId) : l.Assembled store' := by
  cases l with
  | slicing dg sock d left rest =>
    obtain ⟨done, hmembers, hd⟩ := h
    refine ⟨done, hmembers, (Dispatch.assemble_congr fun m hm => hstore m ?_).trans hd⟩
    refine List.mem_flatMap.mpr ⟨dg, List.mem_cons_self, ?_⟩
    rw [hmembers]
    exact List.mem_append_left _ hm
  | _ => trivial

namespace Coordinator

variable {env : Env} {c : Coordinator}

/-- **The loop reads the tokens of one member after the other.** -/
theorem assembled_scheduleLoop (env : Env) (now : Nanoseconds) (written : Bool)
    (h : c.loop.Assembled c.tokens) :
    (c.scheduleLoop env now written).1.loop.Assembled c.tokens := by
  unfold scheduleLoop
  rcases hloop : c.loop with _ | (_ | ⟨dg, rest⟩) | _ | _ |
    ⟨dg, sock, d, (_ | ⟨m, left⟩), rest⟩ | _
  case dispatching.cons =>
    dsimp only
    cases c.workerSocks.lookup dg.assignedWorker <;> trivial
  case stamped => exact ⟨[], rfl, rfl⟩
  case slicing.nil =>
    dsimp only
    split_ifs <;> trivial
  case slicing.cons =>
    rw [hloop] at h
    obtain ⟨done, hmembers, hd⟩ := h
    dsimp only
    cases hslice : c.slice m with
    | none => trivial
    | some tokens =>
      refine ⟨done ++ [m], by rw [hmembers, List.append_assoc]; rfl, ?_⟩
      rw [slice] at hslice
      rw [Dispatch.assemble_concat]
      change (Dispatch.assemble c.tokens ⟨dg.group, d.epoch, d.bootId, [], [0]⟩ done).bind _ = _
      rw [hd, Option.bind_some, hslice, Option.map_some]
  all_goals trivial

/-- A dispatch is sent when it is put together, and if it is not too long. -/
theorem exists_of_mem_dispatches {e : NetEvent} {conn : ConnectionId} {d : Dispatch}
    (h : (conn, d) ∈ c.dispatches env e) :
    d.bodyBytes ≤ kFrameMaxBytes ∧ ∃ dg rest, c.loop = .slicing dg conn d [] rest := by
  have haside := dispatches_eq_nil env c (e := e)
  cases e with
  | schedule now written =>
    unfold dispatches step scheduleLoop at h
    rcases hloop : c.loop with _ | (_ | ⟨dg, rest⟩) | _ | _ |
      ⟨dg, sock, d', (_ | ⟨m, left⟩), rest⟩ | _ <;> simp only [hloop] at h
    case dispatching.cons =>
      cases hsock : c.workerSocks.lookup dg.assignedWorker <;> rw [hsock] at h <;>
        exact absurd h List.not_mem_nil
    case slicing.nil =>
      split_ifs at h with hsent
      · obtain ⟨rfl, rfl⟩ := Prod.mk.inj (List.mem_singleton.mp h)
        exact ⟨hsent.1, dg, rest, rfl⟩
      · exact absurd h List.not_mem_nil
    case slicing.cons =>
      cases hslice : c.slice m <;> rw [hslice] at h <;> exact absurd h List.not_mem_nil
    all_goals exact absurd h List.not_mem_nil
  | _ => exact absurd (haside trivial ▸ h) List.not_mem_nil

end Coordinator

namespace Session

variable {S : Session} {n : ℕ}

/-- **No step replaces tokens that count.** -/
def KeepsPayloads (S : Session) : Prop :=
  ∀ n e, S.events[n]? = some e → (S.stateAt n).KeepsPayloads S.env e

/-- Then the tokens of the accepted messages are stored at all times. -/
theorem KeepsPayloads.kept (h : S.KeepsPayloads) (n : ℕ) : S.Kept n := by
  induction n with
  | zero => exact fun _ _ ⟨i, hi, _⟩ => absurd hi (Nat.not_lt_zero i)
  | succ n ih =>
    cases he : S.events[n]? with
    | some e => exact kept_succ he (h n e he) ih
    | none =>
      rintro r tokens haccepted
      rw [stateAt_succ_of_none he]
      rcases acceptedWith_succ_iff.mp haccepted with hold | ⟨conn, now, req, he', -⟩
      · exact ih r tokens hold
      · exact absurd (he.symm.trans he') (Option.some_ne_none _).symm

/-- What has been handed out has been accepted, with the tokens that are stored. -/
theorem KeepsPayloads.exists_tokens (h : S.KeepsPayloads) {m : ExecutableMember}
    (hm : m ∈ S.membersOut n) :
    ∃ tokens, S.AcceptedWith n m.requestId tokens ∧
      (S.stateAt n).tokens.lookup m.requestId = some tokens := by
  obtain ⟨s, hs, -⟩ := S.covers_membersOut n m hm
  obtain ⟨tokens, htokens⟩ := exists_acceptedWith hs
  exact ⟨tokens, htokens, h.kept n _ _ htokens⟩

/-- **The tokens of what has been handed out do not change any more.** -/
theorem KeepsPayloads.lookup_succ (h : S.KeepsPayloads) {m : ExecutableMember}
    (hm : m ∈ S.membersOut n) :
    (S.stateAt (n + 1)).tokens.lookup m.requestId = (S.stateAt n).tokens.lookup m.requestId := by
  obtain ⟨tokens, haccepted, hlookup⟩ := h.exists_tokens hm
  rw [hlookup]
  exact h.kept (n + 1) _ _ (acceptedWith_succ_iff.mpr (Or.inl haccepted))

/-- **A dispatch is put together from the tokens that are stored**, though they are read under
the lock anew for every member. -/
theorem KeepsPayloads.assembled (h : S.KeepsPayloads) (n : ℕ) :
    (S.stateAt n).loop.Assembled (S.stateAt n).tokens := by
  induction n with
  | zero => exact trivial
  | succ n ih =>
    have hkeep : (S.stateAt n).loop.Assembled (S.stateAt (n + 1)).tokens := by
      refine ih.congr fun m hm => h.lookup_succ ?_
      obtain ⟨dg, hdg, hmem⟩ := List.mem_flatMap.mp hm
      exact mem_membersOut (S.groups_subset_groupsOut n hdg) hmem
    cases he : S.events[n]? with
    | none => rwa [stateAt_succ_of_none he]
    | some e =>
      rw [stateAt_succ he] at hkeep ⊢
      have haside := (S.stateAt n).loop_step S.env (e := e)
      cases e with
      | schedule now written =>
        rw [Coordinator.tokens_step_of_none rfl]
        exact Coordinator.assembled_scheduleLoop S.env now written ih
      | _ => exact (haside trivial).symm ▸ hkeep

/-- **A dispatch as it is sent**: its group has been handed out, it has been put together from
the tokens that are stored, and it is not too long for a frame. -/
structure SentAs (S : Session) (n : ℕ) (d : Dispatch) : Prop where
  group : ∃ dg ∈ S.groupsOut n, dg.group = d.group
  assembled : Dispatch.assemble (S.stateAt n).tokens ⟨d.group, d.epoch, d.bootId, [], [0]⟩
    d.group.members = some d
  size : d.bodyBytes ≤ kFrameMaxBytes

theorem KeepsPayloads.sentAs (h : S.KeepsPayloads) {conn : ConnectionId} {d : Dispatch}
    (hd : (conn, d) ∈ S.sends n) : S.SentAs n d := by
  rw [sends] at hd
  cases he : S.events[n]? with
  | none =>
    rw [he] at hd
    exact absurd hd List.not_mem_nil
  | some e =>
    rw [he] at hd
    obtain ⟨hsize, dg, rest, hloop⟩ := Coordinator.exists_of_mem_dispatches hd
    have hassembled := h.assembled n
    have hown := (S.exists_accounts n).1
    rw [hloop] at hassembled hown
    obtain ⟨done, hmembers, hdone⟩ := hassembled
    change d.group = dg.group at hown
    rw [List.append_nil] at hmembers
    refine ⟨⟨dg, S.groups_subset_groupsOut n ?_, hown.symm⟩, ?_, hsize⟩
    · rw [hloop]
      exact List.mem_cons_self
    · rw [hown, hmembers]
      exact hdone

end Session

end PrefillFabric
