import PrefillFabric.Scheduler.Resumption

/-!
# What a cycle hands out

The batch of one cycle, read against the state the cycle starts from. A cycle sweeps first and
dispatches afterwards, so that there are two things to follow through its effects. A request
that waits at some point of the cycle has waited since its start, untouched
(`Effects.req_of_isWaiting`): hence a member carries the next chunk of the request *as it was
before the cycle*, and a request that was dispatched is not dispatched again. And what is
dispatched after the sweep stays dispatched (`Effects.isDispatched`), which would fail for a
sweep that came later.

That the members of a group agree in their key is not seen in the view, where a launch is a
list of members; it is read off the formation of the groups (`Keyed`), which a dispatch leaves
as they are but for generation and worker.

`HandedOut` is reachability with a memory: a state together with every member that was handed
out on the way to it, by this scheduler or by one whose snapshot it has read.
-/

namespace PrefillFabric

/-- The request is in flight, and its execution is under way. -/
def View.IsDispatched (v : View) (r : RequestId) : Prop :=
  ∃ s, v.req r = some s ∧ s.inFlight = true ∧ s.lifecycle = .dispatched

/-- The request is in flight, and its execution is under way. -/
def Impl.IsDispatched (σ : Impl) (r : RequestId) : Prop :=
  ∃ s, σ.requests.lookup r = some s ∧ s.inFlight = true ∧ s.lifecycle = .dispatched

theorem Impl.view_isDispatched {σ : Impl} {r : RequestId} :
    σ.view.IsDispatched r ↔ σ.IsDispatched r := by
  constructor
  · rintro ⟨t, ht, h⟩
    obtain ⟨s, hs, rfl⟩ := exists_of_view_req ht
    exact ⟨s, hs, h⟩
  · rintro ⟨s, hs, h⟩
    exact ⟨s.core, view_req hs, h⟩

/-! ### Through the effects of a cycle -/

section Effects

theorem View.req_of_setReq {v : View} {r x : RequestId} {s t : Rs}
    (h : (v.setReq x t).req r = some s) : s = t ∨ v.req r = some s := by
  change Function.update v.req x (some t) r = some s at h
  rw [Function.update_apply] at h
  split_ifs at h
  · exact Or.inl (Option.some.inj h).symm
  · exact Or.inr h

variable {env : Env} {v v' : View} {l : Label} {r : RequestId} {s : Rs}
  {ms : List ExecutableMember}

/-- What waits has not been touched. -/
theorem Effect.req_of_isWaiting (h : Effect env v l v') (hl : l.Cyclic) (hs : v'.req r = some s)
    (hwait : s.isWaiting = true) : v.req r = some s ∧ ∀ m ∈ l.members, m.requestId ≠ r := by
  cases h with
  | idle hidle => exact ⟨by rwa [hidle.req] at hs, fun m hm => absurd hm List.not_mem_nil⟩
  | expire _ _ =>
    rcases View.req_of_setReq hs with rfl | hs
    · exact absurd (Rs.isWaiting_iff.mp hwait).1 Lifecycle.noConfusion
    · exact ⟨hs, fun m hm => absurd hm List.not_mem_nil⟩
  | @launch _ _ _ _ ms hlaunch =>
    have hnot : ∀ m ∈ ms, m.requestId ≠ r := by
      rintro m hm rfl
      obtain ⟨t, id, -, -, -, ht⟩ := hlaunch.exists_of_mem hm
      obtain rfl := Option.some.inj (ht.symm.trans hs)
      exact absurd (Rs.isWaiting_iff.mp hwait).2.1 Bool.noConfusion
    exact ⟨hlaunch.others r hnot ▸ hs, hnot⟩
  | _ => exact hl.elim

theorem Effects.req_of_isWaiting (h : Effects env Label.Cyclic v ms v') (hs : v'.req r = some s)
    (hwait : s.isWaiting = true) : v.req r = some s ∧ ∀ m ∈ ms, m.requestId ≠ r := by
  induction h with
  | refl => exact ⟨hs, fun m hm => absurd hm List.not_mem_nil⟩
  | tail _ hlast hl ih =>
    obtain ⟨hu, hnot⟩ := hlast.req_of_isWaiting hl hs hwait
    obtain ⟨hv, hnot'⟩ := ih hu
    refine ⟨hv, fun m hm => ?_⟩
    rcases List.mem_append.mp hm with hm | hm
    · exact hnot' m hm
    · exact hnot m hm

theorem Effect.members_spec (h : Effect env v l v') :
    (l.members.map (·.requestId)).Nodup ∧ ∀ m ∈ l.members, v.Fits m := by
  cases h with
  | launch hlaunch =>
    refine ⟨hlaunch.nodup, fun m hm => ?_⟩
    obtain ⟨s, -, hs, hwait, hcarries, -⟩ := hlaunch.exists_of_mem hm
    exact ⟨s, hs, hwait, hcarries⟩
  | _ => exact ⟨List.nodup_nil, fun m hm => absurd hm List.not_mem_nil⟩

/-- **The members of a cycle** are of distinct requests, and each carries the next chunk of a
request that has waited since the cycle began. -/
theorem Effects.members_spec (h : Effects env Label.Cyclic v ms v') :
    (ms.map (·.requestId)).Nodup ∧ ∀ m ∈ ms, v.Fits m := by
  induction h with
  | refl => exact ⟨List.nodup_nil, fun m hm => absurd hm List.not_mem_nil⟩
  | tail hchain hlast hl ih =>
    obtain ⟨hnodup, hfits⟩ := ih
    obtain ⟨hnodup', hfits'⟩ := hlast.members_spec
    refine ⟨?_, fun m hm => ?_⟩
    · rw [List.map_append, List.nodup_append]
      refine ⟨hnodup, hnodup', ?_⟩
      rintro a ha b hb rfl
      obtain ⟨m, hm, rfl⟩ := List.mem_map.mp hb
      obtain ⟨m', hm', heq⟩ := List.mem_map.mp ha
      obtain ⟨s, hs, hwait, -⟩ := hfits' m hm
      exact (hchain.req_of_isWaiting hs hwait).2 m' hm' heq
    · rcases List.mem_append.mp hm with hm | hm
      · exact hfits m hm
      · obtain ⟨s, hs, hwait, hcarries⟩ := hfits' m hm
        exact ⟨s, (hchain.req_of_isWaiting hs hwait).1, hwait, hcarries⟩

/-- What is dispatched after an effect of a cycle was dispatched before, or is a member. -/
theorem Effect.isDispatched_of (h : Effect env v l v') (hl : l.Cyclic)
    (hr : v'.IsDispatched r) : v.IsDispatched r ∨ ∃ m ∈ l.members, m.requestId = r := by
  obtain ⟨s, hs, hflight, hdispatched⟩ := hr
  cases h with
  | idle hidle => exact Or.inl ⟨s, hidle.req ▸ hs, hflight, hdispatched⟩
  | expire _ _ =>
    rcases View.req_of_setReq hs with rfl | hs
    · exact absurd hdispatched Lifecycle.noConfusion
    · exact Or.inl ⟨s, hs, hflight, hdispatched⟩
  | @launch _ _ _ _ ms hlaunch =>
    by_cases hm : ∃ m ∈ ms, m.requestId = r
    · exact Or.inr hm
    · push Not at hm
      exact Or.inl ⟨s, hlaunch.others r hm ▸ hs, hflight, hdispatched⟩
  | _ => exact hl.elim

theorem Effects.isDispatched_of (h : Effects env Label.Cyclic v ms v') (hr : v'.IsDispatched r) :
    v.IsDispatched r ∨ ∃ m ∈ ms, m.requestId = r := by
  induction h with
  | refl => exact Or.inl hr
  | tail _ hlast hl ih =>
    rcases hlast.isDispatched_of hl hr with hu | ⟨m, hm, hmr⟩
    · rcases ih hu with hv | ⟨m, hm, hmr⟩
      · exact Or.inl hv
      · exact Or.inr ⟨m, List.mem_append_left _ hm, hmr⟩
    · exact Or.inr ⟨m, List.mem_append_right _ hm, hmr⟩

/-- After the sweep, members are dispatched, and what is dispatched stays so. -/
theorem Effect.isDispatched (h : Effect env v l v') (hl : l.Dispatching)
    (hr : v.IsDispatched r ∨ ∃ m ∈ l.members, m.requestId = r) : v'.IsDispatched r := by
  cases h with
  | idle hidle =>
    rcases hr with ⟨s, hs, hdispatched⟩ | ⟨m, hm, -⟩
    · exact ⟨s, hidle.req ▸ hs, hdispatched⟩
    · exact absurd hm List.not_mem_nil
  | @launch _ _ _ _ ms hlaunch =>
    by_cases hm : ∃ m ∈ ms, m.requestId = r
    · obtain ⟨m, hm, rfl⟩ := hm
      obtain ⟨s, id, -, -, -, hs⟩ := hlaunch.exists_of_mem hm
      exact ⟨_, hs, rfl, rfl⟩
    · obtain ⟨s, hs, hdispatched⟩ := hr.resolve_right hm
      push Not at hm
      exact ⟨s, (hlaunch.others r hm).trans hs, hdispatched⟩
  | _ => exact hl.elim

theorem Effects.isDispatched (h : Effects env Label.Dispatching v ms v')
    (hr : v.IsDispatched r ∨ ∃ m ∈ ms, m.requestId = r) : v'.IsDispatched r := by
  induction h with
  | refl => exact hr.resolve_right fun ⟨m, hm, _⟩ => absurd hm List.not_mem_nil
  | tail _ hlast hl ih =>
    refine hlast.isDispatched hl ?_
    rcases hr with hv | ⟨m, hm, hmr⟩
    · exact Or.inl (ih (Or.inl hv))
    · rcases List.mem_append.mp hm with hm | hm
      · exact Or.inl (ih (Or.inr ⟨m, hm, hmr⟩))
      · exact Or.inr ⟨m, hm, hmr⟩

end Effects

/-! ### Keys -/

/-- The requests of the group all have its key. -/
def View.Keyed (v : View) (env : Env) (g : ExecutionGroup) : Prop :=
  ∀ r ∈ g.rids, ∃ s, v.req r = some s ∧ makeCompatKey env s.request = g.key

theorem View.Keyed.add {v : View} {env : Env} {g : ExecutionGroup} {rid : RequestId} {s : Rs}
    (h : v.Keyed env g) (hs : v.req rid = some s.core)
    (hkey : makeCompatKey env s.request = g.key) : v.Keyed env (g.add rid s) := by
  intro r hr
  rw [ExecutionGroup.rids_add, List.mem_append, List.mem_singleton] at hr
  rcases hr with hr | rfl
  · exact h r hr
  · exact ⟨s.core, hs, hkey⟩

/-- A member without what a dispatch writes into it. -/
def ExecutableMember.plain (m : ExecutableMember) : ExecutableMember :=
  { m with generation := .nil, assignedWorker := .nil }

namespace ExecutionGroup

/-- A group without what a dispatch writes into its members. -/
def plain (g : ExecutionGroup) : ExecutionGroup :=
  { g with members := g.members.map (·.plain) }

/-- What is read off the members without generation and worker, before and after a dispatch. -/
theorem map_members_eq {β : Type} {g g' : ExecutionGroup} (h : g'.plain = g.plain)
    {f : ExecutableMember → β} (hf : ∀ m, f m.plain = f m) :
    g'.members.map f = g.members.map f := by
  have hmembers : g'.members.map (·.plain) = g.members.map (·.plain) :=
    congrArg ExecutionGroup.members h
  have hcomp : f = f ∘ ExecutableMember.plain := funext fun m => (hf m).symm
  rw [hcomp, ← List.map_map, ← List.map_map]
  exact congrArg (List.map f) hmembers

theorem rids_eq {g g' : ExecutionGroup} (h : g'.plain = g.plain) : g'.rids = g.rids :=
  map_members_eq h fun _ => rfl

theorem length_members_eq {g g' : ExecutionGroup} (h : g'.plain = g.plain) :
    g'.members.length = g.members.length := by
  have hlength := congrArg List.length (rids_eq h)
  rwa [rids, rids, List.length_map, List.length_map] at hlength

/-- What a group admits has its key. -/
theorem key_eq_of_admits {env : Env} {g : ExecutionGroup} {s : Rs} (h : g.admits env s = true) :
    makeCompatKey env s.request = g.key := by
  simp only [admits, Bool.and_eq_true, decide_eq_true_eq] at h
  exact h.1.1.1.1.symm

end ExecutionGroup

namespace Impl

variable {env : Env} {now : Nanoseconds}

section Formation

variable {P : ExecutionGroup → Prop} {v : View}
  (hopened : ∀ gid rid s, v.req rid = some s.core → s.isWaiting = true → P (.opened env gid rid s))
  (hadd : ∀ g rid s, P g → v.req rid = some s.core → s.isWaiting = true → g.admits env s = true →
    P (g.add rid s))

include hopened hadd

/-- Placing a candidate uses at most a group identity, and keeps what is kept by opening a group
and by adding to it. -/
theorem placeCandidate_rec {acc : Impl × List ExecutionGroup}
    (hview : ∃ n, acc.1.view = { v with nextGroup := n }) (h : ∀ g ∈ acc.2, P g)
    (rid : RequestId) :
    (∃ n, (placeCandidate env acc rid).1.view = { v with nextGroup := n }) ∧
      ∀ g ∈ (placeCandidate env acc rid).2, P g := by
  obtain ⟨σ, gs⟩ := acc
  dsimp only at hview h
  rw [placeCandidate]
  dsimp only
  cases hs : σ.requests.lookup rid with
  | none => exact ⟨hview, h⟩
  | some s =>
    have hrid : v.req rid = some s.core := by
      obtain ⟨n, hn⟩ := hview
      exact (congrArg (fun u => u.req rid) hn).symm.trans (view_req hs)
    dsimp only
    cases hwait : s.isWaiting with
    | false => exact ⟨hview, h⟩
    | true =>
      rw [Bool.not_true, if_neg Bool.false_ne_true]
      cases hpack : packInto env rid s gs with
      | some gs' =>
        obtain ⟨before, g, after, rfl, rfl, hadmits⟩ := packInto_eq_some hpack
        refine ⟨by rwa [view_noteRequest], fun x hx => ?_⟩
        simp only [List.mem_append, List.mem_cons] at hx h
        rcases hx with hx | rfl | hx
        · exact h x (Or.inl hx)
        · exact hadd g rid s (h g (Or.inr (Or.inl rfl))) hrid hwait hadmits
        · exact h x (Or.inr (Or.inr hx))
      | none =>
        obtain ⟨n, hn⟩ := hview
        refine ⟨⟨σ.nextGroupValue + 1, ?_⟩, fun x hx => ?_⟩
        · exact congrArg (fun u : View => { u with nextGroup := σ.nextGroupValue + 1 }) hn
        · rcases List.mem_append.mp hx with hx | hx
          · exact h x hx
          · obtain rfl := List.mem_singleton.mp hx
            exact hopened _ rid s hrid hwait

/-- **The rule for formation**: what holds of a group opened for a waiting request, and is kept
when one that it admits is added, holds of every group that is formed. -/
theorem formGroups_rec (cands : List RequestId) {σ : Impl} (hσ : σ.view = v) :
    (∃ n, (formGroups env cands σ).1.view = { v with nextGroup := n }) ∧
      ∀ g ∈ (formGroups env cands σ).2, P g := by
  have hfold : ∀ acc : Impl × List ExecutionGroup, (∃ n, acc.1.view = { v with nextGroup := n }) →
      (∀ g ∈ acc.2, P g) →
      (∃ n, (cands.foldl (placeCandidate env) acc).1.view = { v with nextGroup := n }) ∧
        ∀ g ∈ (cands.foldl (placeCandidate env) acc).2, P g := by
    induction cands with
    | nil => exact fun _ hview h => ⟨hview, h⟩
    | cons rid cands ih =>
      intro acc hview h
      obtain ⟨hview', h'⟩ := placeCandidate_rec hopened hadd hview h rid
      exact ih _ hview' h'
  exact hfold (σ, []) ⟨σ.nextGroupValue, hσ ▸ rfl⟩ fun g hg => absurd hg List.not_mem_nil

end Formation

/-- **Groups are formed under one key each.** -/
theorem keyed_formGroups (cands : List RequestId) (σ : Impl) :
    ∀ g ∈ (formGroups env cands σ).2, σ.view.Keyed env g := by
  refine (formGroups_rec (fun gid rid s hs _ => ?_) (fun g rid s hg hs _ hadmits => ?_) cands
    rfl).2
  · exact View.Keyed.add (fun r hr => absurd hr List.not_mem_nil) hs rfl
  · exact hg.add hs (ExecutionGroup.key_eq_of_admits hadmits)

theorem map_plain_commitMembers (gid : GroupId) (w : WorkerId) (ms : List ExecutableMember)
    (σ : Impl) : (commitMembers now gid w ms σ).2.map (·.plain) = ms.map (·.plain) := by
  induction ms generalizing σ with
  | nil => rfl
  | cons m ms ih =>
    rw [commitMembers, List.map_cons, List.map_cons, ih]
    rfl

/-- What a dispatch adds to the batch is the group formed, but for generations and worker, with
the memory of all its members. -/
theorem groups_dispatchGroup (acc : Impl × DispatchBatch) (g : ExecutionGroup) :
    ∀ d ∈ (dispatchGroup now acc g).2.groups,
      d ∈ acc.2.groups ∨ g.members ≠ [] ∧ d.group.plain = g.plain ∧
        d.reservedBytes = (g.members.map (·.memoryEstimateBytes.toNat)).sum := by
  obtain ⟨σ, batch⟩ := acc
  intro d hd
  rw [dispatchGroup] at hd
  split_ifs at hd with hempty
  · exact Or.inl hd
  · cases hw : chooseWorker g.backend σ with
    | none =>
      rw [hw] at hd
      exact Or.inl hd
    | some w =>
      rw [hw] at hd
      dsimp only at hd
      split_ifs at hd
      · rcases List.mem_append.mp hd with hd | hd
        · exact Or.inl hd
        · obtain rfl := List.mem_singleton.mp hd
          refine Or.inr ⟨fun hnil => hempty (List.isEmpty_iff.mpr hnil), ?_, rfl⟩
          exact congrArg (fun ms => { g with members := ms }) (map_plain_commitMembers ..)
      · exact Or.inl hd

theorem groups_foldl_dispatchGroup (gs : List ExecutionGroup) (acc : Impl × DispatchBatch) :
    ∀ d ∈ (gs.foldl (dispatchGroup now) acc).2.groups,
      d ∈ acc.2.groups ∨ ∃ g ∈ gs, g.members ≠ [] ∧ d.group.plain = g.plain ∧
        d.reservedBytes = (g.members.map (·.memoryEstimateBytes.toNat)).sum := by
  induction gs generalizing acc with
  | nil => exact fun _ h => Or.inl h
  | cons g gs ih =>
    intro d hd
    rcases ih _ d hd with hd | ⟨x, hx, hsame⟩
    · rcases groups_dispatchGroup acc g d hd with hd | hsame
      · exact Or.inl hd
      · exact Or.inr ⟨g, List.mem_cons_self, hsame⟩
    · exact Or.inr ⟨x, List.mem_cons_of_mem g hx, hsame⟩

/-- **Every group of a batch is under one key.** -/
theorem keyed_dispatchPhase (σ : Impl) :
    ∀ d ∈ (σ.dispatchPhase env now).2.groups, σ.view.Keyed env d.group := by
  intro d hd r hr
  rcases groups_foldl_dispatchGroup _ _ d hd with hd | ⟨g, hg, -, hplain, -⟩
  · exact absurd hd List.not_mem_nil
  · have hkey : d.group.plain.key = g.plain.key := congrArg ExecutionGroup.key hplain
    rw [show d.group.key = g.key from hkey]
    exact keyed_formGroups _ σ g hg r (ExecutionGroup.rids_eq hplain ▸ hr)

/-- No group of a batch is empty. -/
theorem members_ne_nil_of_mem_groups {σ : Impl} {d : DispatchedGroup}
    (hd : d ∈ (σ.runCycle env now).2.groups) : d.group.members ≠ [] := by
  rcases groups_foldl_dispatchGroup _ _ d hd with hd | ⟨g, -, hne, hplain, -⟩
  · exact absurd hd List.not_mem_nil
  · intro hnil
    have hrids := ExecutionGroup.rids_eq hplain
    rw [ExecutionGroup.rids, hnil] at hrids
    exact hne (List.map_eq_nil_iff.mp hrids.symm)

/-! ### One cycle -/

/-- **What a cycle guarantees** of the batch it returns, told from the state it starts from. -/
structure SoundCycle (env : Env) (now : Nanoseconds) (σ : Impl) : Prop where
  /-- No request occurs twice in the whole batch. -/
  nodup : ((σ.runCycle env now).2.members.map (·.requestId)).Nodup
  /-- No request was in flight, and each member carries its request's current attempt and
  next chunk. -/
  carries : ∀ m ∈ (σ.runCycle env now).2.members, ∃ s, σ.requests.lookup m.requestId = some s ∧
    s.inFlight = false ∧ m.Carries s
  /-- A group has one compatibility key. -/
  compatible : ∀ d ∈ (σ.runCycle env now).2.groups, ∀ m ∈ d.group.members,
    ∃ s, σ.requests.lookup m.requestId = some s ∧ makeCompatKey env s.request = d.group.key
  /-- No generation is assigned twice. -/
  generations : ((σ.runCycle env now).2.members.map (·.generation)).Nodup
  /-- What comes to be dispatched is what is in the batch. -/
  dispatched : ∀ r, ¬σ.IsDispatched r ∧ (σ.runCycle env now).1.IsDispatched r ↔
    ∃ m ∈ (σ.runCycle env now).2.members, m.requestId = r

variable {σ : Impl}

theorem fits_runCycle (hwf : σ.view.Wf) {m : ExecutableMember}
    (hm : m ∈ (σ.runCycle env now).2.members) :
    ∃ s, σ.requests.lookup m.requestId = some s ∧ s.inFlight = false ∧ m.Carries s := by
  obtain ⟨t, ht, hwait, hcarries⟩ := (effects_runCycle env now hwf).members_spec.2 m hm
  obtain ⟨s, hs, rfl⟩ := exists_of_view_req ht
  exact ⟨s, hs, (Rs.isWaiting_iff.mp hwait).2.1, hcarries.attempt, hcarries.start, hcarries.count⟩

theorem keyed_runCycle (hwf : σ.view.Wf) {d : DispatchedGroup}
    (hd : d ∈ (σ.runCycle env now).2.groups) {m : ExecutableMember} (hm : m ∈ d.group.members) :
    ∃ s, σ.requests.lookup m.requestId = some s ∧ makeCompatKey env s.request = d.group.key := by
  have hmem : m ∈ (σ.runCycle env now).2.members := List.mem_flatMap.mpr ⟨d, hd, hm⟩
  obtain ⟨s, hs, -⟩ := fits_runCycle hwf hmem
  -- the key is that of the record after the sweep, which is of the same request
  obtain ⟨t, ht, hkey⟩ := keyed_dispatchPhase (σ.expirySweep now) d hd m.requestId
    (List.mem_map_of_mem hm)
  obtain ⟨t', ht', hsame⟩ := (effects_expirySweep env now σ hwf).exists_request (view_req hs)
  obtain rfl : t' = t := Option.some.inj (ht'.symm.trans ht)
  exact ⟨s, hs, hsame ▸ hkey⟩

theorem isDispatched_runCycle (hwf : σ.view.Wf) (r : RequestId) :
    ¬σ.IsDispatched r ∧ (σ.runCycle env now).1.IsDispatched r ↔
      ∃ m ∈ (σ.runCycle env now).2.members, m.requestId = r := by
  rw [← view_isDispatched, ← view_isDispatched]
  constructor
  · rintro ⟨hnot, hafter⟩
    exact ((effects_runCycle env now hwf).isDispatched_of hafter).resolve_left hnot
  · rintro ⟨m, hm, rfl⟩
    refine ⟨?_, ?_⟩
    · rintro ⟨t, ht, hflight, -⟩
      obtain ⟨s, hs, hidle, -⟩ := fits_runCycle hwf hm
      obtain rfl := Option.some.inj ((view_req hs).symm.trans ht)
      exact absurd (hidle.symm.trans hflight) Bool.noConfusion
    · have hsweep := effects_expirySweep env now σ hwf
      exact (effects_dispatchPhase env now (hsweep.wf hwf)).isDispatched (Or.inr ⟨m, hm, rfl⟩)

/-- Every cycle from a well-formed state is sound. -/
theorem soundCycle (hwf : σ.view.Wf) (env : Env) (now : Nanoseconds) :
    SoundCycle env now σ where
  nodup := (effects_runCycle env now hwf).members_spec.1
  carries _ hm := fits_runCycle hwf hm
  compatible _ hd _ hm := keyed_runCycle hwf hd hm
  generations := by
    have hnodup : ((σ.runCycle env now).2.members.map (·.generation.value)).Nodup := by
      rw [(effects_runCycle env now hwf).generations.2]
      exact List.nodup_range'
    refine List.Nodup.of_map (fun g : Generation => g.value) ?_
    rwa [List.map_map]
  dispatched := isDispatched_runCycle hwf

end Impl

/-! ### All that was handed out -/

/-- Of two counters of generations the greater one is kept. -/
theorem Impl.nextGenerationValue_importState (env : Env) (now : Nanoseconds) (st : PersistedState)
    (τ : Impl) : (τ.importState env now st).nextGenerationValue =
      max τ.nextGenerationValue st.nextGenerationValue :=
  importState_rec
    (P := fun u => u.nextGenerationValue = max τ.nextGenerationValue st.nextGenerationValue)
    env now st rfl (fun _ _ h => h) (fun _ _ h => h) (fun _ _ h => h) (fun _ _ h => h)
    fun _ _ _ _ _ _ h => h

/-- **A state and everything handed out on the way to it.** A scheduler that reads a snapshot
inherits what the writer of the snapshot has handed out. -/
inductive HandedOut : Env → Impl → List ExecutableMember → Prop
  | fresh (env : Env) : HandedOut env (.fresh env) []
  | step {env : Env} {σ : Impl} {ms : List ExecutableMember} (h : HandedOut env σ ms) (c : Call) :
      HandedOut env (σ.step env c).1 (ms ++ (σ.step env c).2.members)
  | importState {env env' : Env} {σ τ : Impl} {ms ms' : List ExecutableMember}
      (h : HandedOut env τ ms) (h' : HandedOut env' σ ms') (now : Nanoseconds) :
      HandedOut env (τ.importState env now σ.exportState) (ms ++ ms')

theorem Reachable.exists_handedOut {env : Env} {σ : Impl} (h : Reachable env σ) :
    ∃ ms, HandedOut env σ ms := by
  induction h with
  | fresh env => exact ⟨[], .fresh env⟩
  | step _ c ih =>
    obtain ⟨ms, h⟩ := ih
    exact ⟨_, h.step c⟩
  | importState _ _ now ih ih' =>
    obtain ⟨ms, h⟩ := ih
    obtain ⟨ms', h'⟩ := ih'
    exact ⟨_, h.importState h' now⟩

namespace HandedOut

variable {env : Env} {σ : Impl} {ms : List ExecutableMember}

theorem wf (h : HandedOut env σ ms) : σ.view.Wf := by
  induction h with
  | fresh env => exact Impl.wf_fresh env
  | step _ c ih => exact Impl.wf_step ih c
  | @importState env env' σ τ _ _ _ _ now ih _ =>
    exact (Impl.quiet_importState ih env now σ.exportState).1.wf

/-- Every generation that was ever assigned is below the counter. -/
theorem generation_lt (h : HandedOut env σ ms) :
    ∀ m ∈ ms, m.generation.value < σ.nextGenerationValue := by
  induction h with
  | fresh env => exact fun m hm => absurd hm List.not_mem_nil
  | @step env σ ms hσ c ih =>
    obtain ⟨hnext, hmap⟩ := (Impl.effects_step env hσ.wf c).generations
    change (σ.step env c).1.nextGenerationValue = σ.nextGenerationValue + _ at hnext
    intro m hm
    rw [hnext]
    rcases List.mem_append.mp hm with hm | hm
    · exact (ih m hm).trans_le (Nat.le_add_right ..)
    · have hgen := List.mem_map_of_mem (f := (·.generation.value)) hm
      rw [hmap, List.mem_range'_1] at hgen
      exact hgen.2
  | @importState env env' σ τ _ _ hτ hσ now ih ih' =>
    intro m hm
    rw [Impl.nextGenerationValue_importState]
    rcases List.mem_append.mp hm with hm | hm
    · exact lt_of_lt_of_le (ih m hm) (le_max_left ..)
    · exact lt_of_lt_of_le (ih' m hm) (le_max_right ..)

/-- **The counter counts what was handed out**: to exceed 64 bits it takes as many dispatches. -/
theorem nextGenerationValue_le (h : HandedOut env σ ms) :
    σ.nextGenerationValue ≤ ms.length + 1 := by
  induction h with
  | fresh env => exact le_rfl
  | @step env σ ms hσ c ih =>
    have hnext := (Impl.effects_step env hσ.wf c).generations.1
    change (σ.step env c).1.nextGenerationValue = σ.nextGenerationValue + _ at hnext
    rw [hnext, List.length_append]
    omega
  | @importState env env' σ τ ms ms' _ _ now ih ih' =>
    rw [Impl.nextGenerationValue_importState, List.length_append]
    change max τ.nextGenerationValue σ.nextGenerationValue ≤ _
    omega

/-- **At most one outstanding dispatch.** Of all that was handed out for a request, at most one
member is awaited. -/
theorem eq_of_awaits (h : HandedOut env σ ms) : ∀ m ∈ ms, ∀ m' ∈ ms,
    m.requestId = m'.requestId → σ.Awaits m → σ.Awaits m' → m = m' := by
  induction h with
  | fresh env => exact fun m hm => absurd hm List.not_mem_nil
  | @step env σ ms hσ c ih =>
    have heffects := Impl.effects_step env hσ.wf c
    have hold : ∀ x ∈ ms, x.generation.value < σ.nextGenerationValue := hσ.generation_lt
    have hnew : ∀ x ∈ (σ.step env c).2.members, σ.nextGenerationValue ≤ x.generation.value := by
      intro x hx
      have hgen := List.mem_map_of_mem (f := (·.generation.value)) hx
      rw [heffects.generations.2, List.mem_range'_1] at hgen
      exact hgen.1
    -- what was handed out earlier and is awaited now was awaited all along
    have hearlier : ∀ x ∈ ms, (σ.step env c).1.Awaits x → σ.Awaits x := by
      intro x hx hawaits
      rw [← Impl.view_awaits] at hawaits ⊢
      refine (heffects.awaits hawaits).resolve_right ?_
      rintro ⟨y, hy, hticket⟩
      have hgen : y.generation = x.generation := (congrArg (·.2.2.1) hticket :)
      have := hnew y hy
      have := hold x hx
      rw [hgen] at *
      omega
    intro m hm m' hm' hid hawaits hawaits'
    have hgen : m.generation = m'.generation := by
      obtain ⟨s, hs, hrec⟩ := hawaits
      obtain ⟨s', hs', hrec'⟩ := hawaits'
      obtain rfl := Option.some.inj (hs.symm.trans (hid ▸ hs'))
      exact hrec.generation.symm.trans hrec'.generation
    rcases List.mem_append.mp hm with hm | hm <;> rcases List.mem_append.mp hm' with hm' | hm'
    · exact ih m hm m' hm' hid (hearlier m hm hawaits) (hearlier m' hm' hawaits')
    · exact absurd (hgen ▸ hnew m' hm') (Nat.not_le.mpr (hold m hm))
    · exact absurd (hgen ▸ hnew m hm) (Nat.not_le.mpr (hold m' hm'))
    · have hnodup : ((σ.step env c).2.members.map (·.generation.value)).Nodup := by
        rw [heffects.generations.2]
        exact List.nodup_range'
      exact List.inj_on_of_nodup_map hnodup hm hm' (congrArg StrongId.value hgen)
  | @importState env env' σ τ _ _ hτ hσ now ih ih' =>
    intro m _ m' _ _ hm
    exact absurd hm ((Impl.quiet_importState hτ.wf env now _).1.not_awaits m)

/-- **Every cycle hands out sound dispatches.** Whatever a scheduler has been through, the batch
of its next cycle is sound, its generations are past all that were ever assigned, and of all
that was handed out for a request no two are outstanding. -/
theorem soundCycle_and_generation_lt (h : HandedOut env σ ms) (now : Nanoseconds) :
    Impl.SoundCycle env now σ ∧
      (∀ m ∈ (σ.runCycle env now).2.members, ∀ m' ∈ ms,
        m'.generation.value < m.generation.value) ∧
      ∀ m ∈ ms, ∀ m' ∈ ms, m.requestId = m'.requestId → σ.Awaits m → σ.Awaits m' → m = m' := by
  refine ⟨Impl.soundCycle h.wf env now, fun m hm m' hm' => ?_, h.eq_of_awaits⟩
  have hgen := List.mem_map_of_mem (f := (·.generation.value)) hm
  rw [(Impl.effects_runCycle env now h.wf).generations.2, List.mem_range'_1] at hgen
  exact (h.generation_lt m' hm').trans_le hgen.1

end HandedOut

/-- **The rule for what a run hands out**: what holds at the start and is kept when a call adds its
members to those handed out before holds of the state before any call, and of all that was handed
out up to it. -/
theorem Run.rec_emitted {env : Env} {calls : List Call} {P : Impl → List ExecutableMember → Prop}
    (hfresh : P (.fresh env) [])
    (hstep : ∀ σ ms, P σ ms → ∀ c ∈ calls, P (σ.step env c).1 (ms ++ (σ.step env c).2.members))
    (n : ℕ) :
    P ((fresh env calls).stateAt n) ((List.range n).flatMap (fresh env calls).emitted) := by
  induction n with
  | zero => exact hfresh
  | succ n ih =>
    rw [List.range_succ, List.flatMap_append, List.flatMap_singleton]
    cases hc : (fresh env calls).calls[n]? with
    | none => rwa [stateAt_succ_of_none hc, emitted_of_none hc, List.append_nil]
    | some c =>
      rw [stateAt_succ hc, emitted_of_some hc]
      exact hstep _ _ ih c (List.mem_of_getElem? hc)

/-- What a run has handed out up to a call. -/
theorem Run.handedOut_stateAt (env : Env) (calls : List Call) (n : ℕ) :
    HandedOut env ((fresh env calls).stateAt n)
      ((List.range n).flatMap (fresh env calls).emitted) :=
  rec_emitted (.fresh env) (fun _ _ h c _ => h.step c) n

/-- One request is in flight when another arrives, and a second worker with it. -/
def Run.lateCalls : List Call :=
  [⟨0, .submitWithTokens (plainRequest 1 2) [5, 6]⟩, ⟨0, .runCycle⟩,
    ⟨0, .submitWithTokens (plainRequest 2 2) [7, 8]⟩, ⟨0, .registerWorker { workerId := ⟨7⟩ }⟩]

/-- The cycle that follows hands out the other one, and nothing else. -/
theorem HandedOut.soundCycle_lateCalls :
    ((((Run.fresh .standard Run.lateCalls).stateAt 4).runCycle .standard 0).2.members.map
        fun m => (m.requestId, m.generation)) = [(⟨2⟩, ⟨2⟩)] ∧
      Impl.SoundCycle .standard 0 ((Run.fresh .standard Run.lateCalls).stateAt 4) :=
  ⟨by decide +kernel,
    ((Run.handedOut_stateAt .standard Run.lateCalls 4).soundCycle_and_generation_lt 0).1⟩

end PrefillFabric
