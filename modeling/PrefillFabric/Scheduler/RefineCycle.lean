import PrefillFabric.Scheduler.Refine

/-!
# The effects of a scheduling cycle

A cycle is a chain of effects: requests expire, identities are used up, groups are
dispatched. The chain is put together from the parts of the cycle.

* The sweep expires requests one at a time (`effects_expirySweep`).
* Formation is not seen, but for the group identities it uses; what it leaves is
  `Formed`: groups of distinct waiting requests, under new identities, whose members
  carry the next chunks of their requests.
* Reserving goes through a group member by member, up to a first failure
  (`reserveMembers_spec`); undoing what was reserved restores what was there
  (`idle_undo`), and dispatching gives each member its generation
  (`commitMembers_spec`).
* So each formed group is dispatched as one `View.Launch`, or nothing is seen of it,
  and the groups still to come are formed as before (`dispatchGroup_spec`).
-/

namespace PrefillFabric

variable {env : Env} {now : Nanoseconds}

/-! ### Chains -/

namespace Effects

variable {L : Label → Prop} {v u v' : View} {ms ms' : List ExecutableMember}

theorem single {l : Label} (h : Effect env v l v') (hL : L l) : Effects env L v l.members v' := by
  have hchain := (Effects.refl v).tail h hL
  rwa [List.nil_append] at hchain

theorem trans (h : Effects env L v ms u) (h' : Effects env L u ms' v') :
    Effects env L v (ms ++ ms') v' := by
  induction h' with
  | refl => rwa [List.append_nil]
  | tail _ hl hL ih =>
    rw [← List.append_assoc]
    exact ih.tail hl hL

/-- What every effect of the kind keeps, a chain keeps. -/
theorem invariant {P : View → Prop} (hP : ∀ v l v', Effect env v l v' → L l → P v → P v')
    (h : Effects env L v ms v') (hv : P v) : P v' := by
  induction h with
  | refl => exact hv
  | tail _ hl hL ih => exact hP _ _ _ hl hL ih

/-- The labels of a chain are of any wider kind. -/
theorem mono {L' : Label → Prop} (h : Effects env L v ms v') (hL : ∀ l, L l → L' l) :
    Effects env L' v ms v' := by
  induction h with
  | refl => exact Effects.refl _
  | tail _ hl hLl ih => exact ih.tail hl (hL _ hLl)

theorem wf (h : Effects env L v ms v') (hv : v.Wf) : v'.Wf :=
  h.invariant (fun _ _ _ hl _ => hl.wf) hv

/-- **The rule for one request along a chain**: it stays known, and what every fate under the
labels keeps is true of it in the end. -/
theorem exists_of_fate {P : Rs → Prop} {r : RequestId} {s : Rs} (h : Effects env L v ms v')
    (hP : ∀ v l s s', L l → Fate env v r s l s' → P s → P s') (hs : v.req r = some s)
    (h₀ : P s) : ∃ s', v'.req r = some s' ∧ P s' := by
  induction h with
  | refl => exact ⟨s, hs, h₀⟩
  | tail _ hl hL ih =>
    obtain ⟨t, ht, htP⟩ := ih
    obtain ⟨t', ht', hfate⟩ := hl.exists_fate ht
    exact ⟨t', ht', hP _ _ t t' hL hfate htP⟩

theorem exists_request {r : RequestId} {s : Rs} (h : Effects env L v ms v')
    (hs : v.req r = some s) : ∃ s', v'.req r = some s' ∧ s'.request = s.request :=
  h.exists_of_fate (P := fun t => t.request = s.request)
    (fun _ _ _ _ _ hfate ht => hfate.request_eq.trans ht) hs rfl

end Effects

theorem View.Idle.refl (v : View) : View.Idle v v :=
  ⟨rfl, rfl, fun _ => rfl, id, rfl, rfl, rfl, rfl, le_rfl, le_rfl⟩

theorem View.Idle.of_eq {v v' : View} (h : v' = v) : View.Idle v v' := h ▸ View.Idle.refl v

/-! ### Expiry -/

variable (env now)

namespace Impl

theorem effect_expireRequest {σ : Impl} {r : RequestId} {s : Rs} (hwf : σ.view.Wf)
    (hs : σ.requests.lookup r = some s) (hlive : s.lifecycle.isTerminal = false) :
    Effect env σ.view (.expire r) (σ.expireRequest now r s).view := by
  have hreq : σ.view.req r = some s.core := congrArg (Option.map Rs.core) hs
  have hid : s.request.requestId = r := hwf.keyed r s.core hreq
  unfold expireRequest
  dsimp only
  rw [view_record, view_setRequest, Rs.core_expired, view_charge, view_count,
    view_releaseReservation, hid]
  have hdetach : (if s.inFlight then σ.detachMember s.currentGroup r else σ).view =
      σ.view.detachIf s.inFlight s.currentGroup r := by
    cases s.inFlight with
    | true => exact σ.view_detachMember s.currentGroup r
    | false => rfl
  rw [hdetach]
  exact Effect.expire hreq hlive

/-- A request that the sweep expires. -/
def Overdue (σ : Impl) (now : Nanoseconds) (r : RequestId) : Prop :=
  ∃ s, σ.requests.lookup r = some s ∧ s.lifecycle.isTerminal = false ∧
    (s.deadlinePassed now = true ∨ s.queueDelayPassed now = true)

theorem sweepRequest_of_not_overdue {σ : Impl} {now : Nanoseconds} {r : RequestId}
    (h : ¬σ.Overdue now r) : σ.sweepRequest now r = σ := by
  unfold sweepRequest
  cases hs : σ.requests.lookup r with
  | none => rfl
  | some s =>
    dsimp only
    split_ifs with hterm hdeadline hdelay
    · rfl
    · exact absurd ⟨s, hs, Bool.eq_false_iff.mpr hterm, Or.inl hdeadline⟩ h
    · exact absurd ⟨s, hs, Bool.eq_false_iff.mpr hterm, Or.inr hdelay⟩ h
    · rfl

/-- An overdue request is expired, and counted apart if it has waited for too long. -/
theorem exists_sweepRequest_eq {σ : Impl} {now : Nanoseconds} {r : RequestId}
    (h : σ.Overdue now r) :
    ∃ s k, σ.requests.lookup r = some s ∧ s.lifecycle.isTerminal = false ∧
      σ.sweepRequest now r = (σ.count fun st =>
        { st with queueDelayExceeded := st.queueDelayExceeded + k }).expireRequest now r s := by
  obtain ⟨s, hs, hlive, hover⟩ := h
  unfold sweepRequest
  rw [hs]
  dsimp only
  rw [if_neg (Bool.eq_false_iff.mp hlive)]
  split_ifs with hdeadline hdelay
  · exact ⟨s, 0, rfl, hlive, rfl⟩
  · exact ⟨s, 1, rfl, hlive, rfl⟩
  · exact absurd hover (not_or.mpr ⟨hdeadline, hdelay⟩)

theorem effect_sweepRequest {σ : Impl} (hwf : σ.view.Wf) {r : RequestId} (h : σ.Overdue now r) :
    Effect env σ.view (.expire r) (σ.sweepRequest now r).view := by
  obtain ⟨s, k, hs, hlive, heq⟩ := exists_sweepRequest_eq h
  rw [heq]
  generalize hcounted : σ.count _ = τ
  have hview : τ.view = σ.view := by
    rw [← hcounted, view_count]
  have hlookup : τ.requests.lookup r = some s := by
    rw [← hcounted]
    exact hs
  rw [← hview] at hwf ⊢
  exact effect_expireRequest env now hwf hlookup hlive

theorem effects_sweepRequest {σ : Impl} (hwf : σ.view.Wf) (r : RequestId) :
    Effects env Label.Cyclic σ.view [] (σ.sweepRequest now r).view := by
  by_cases h : σ.Overdue now r
  · exact Effects.single (effect_sweepRequest env now hwf h) trivial
  · rw [sweepRequest_of_not_overdue h]
    exact Effects.refl _

theorem effects_foldl_sweepRequest (rs : List RequestId) (σ : Impl) (hwf : σ.view.Wf) :
    Effects env Label.Cyclic σ.view [] (rs.foldl (sweepRequest now) σ).view := by
  induction rs generalizing σ with
  | nil => exact Effects.refl _
  | cons r rs ih =>
    have hfirst := effects_sweepRequest env now hwf r
    exact hfirst.trans (ih _ (hfirst.wf hwf))

theorem effects_expirySweep (σ : Impl) (hwf : σ.view.Wf) :
    Effects env Label.Cyclic σ.view [] (σ.expirySweep now).view :=
  effects_foldl_sweepRequest env now _ σ hwf

/-! ### Ageing and statistics -/

theorem view_ageWaiting (σ : Impl) : σ.ageWaiting.view = σ.view := by
  refine foldl_frame (fun τ r => τ.view_modify_request r fun s => ?_) σ.requests.keys σ
  split_ifs <;> rfl

theorem view_noteAll (rids : List RequestId) (line : String) (σ : Impl) :
    (σ.noteAll rids line).view = σ.view :=
  foldl_frame (fun τ r => τ.view_noteRequest r line) rids σ

/-! ### Candidates -/

theorem nodup_sortedCandidates (σ : Impl) : (σ.sortedCandidates env now).Nodup := by
  have hperm := List.perm_insertionSort (fun a b => (!precedes env now σ b a) = true) σ.candidates
  refine hperm.nodup_iff.mpr ?_
  exact σ.requests.keys_nodup.sublist (List.filter_sublist.map _)

end Impl

/-! ### Formation -/

/-- A member carries the next chunk of a waiting request. -/
def View.Fits (v : View) (m : ExecutableMember) : Prop :=
  ∃ s, v.req m.requestId = some s ∧ s.isWaiting = true ∧ m.Carries s

/-- **Formed groups**: not empty, of distinct requests, under distinct identities that
are in use for no other group, and of members that carry the next chunks of waiting
requests. -/
structure View.Formed (v : View) (gs : List ExecutionGroup) : Prop where
  ne_nil : ∀ g ∈ gs, g.members ≠ []
  fits : ∀ g ∈ gs, ∀ m ∈ g.members, v.Fits m
  nodup : (gs.flatMap (·.rids)).Nodup
  nodup_ids : (gs.map (·.groupId)).Nodup
  id_ne_nil : ∀ g ∈ gs, g.groupId ≠ .nil
  unused : ∀ g ∈ gs, v.grp g.groupId = none ∧ g.groupId.value < v.nextGroup

/-- Packing adds the chunk to one of the open groups, one that admits it. -/
theorem packInto_eq_some {env : Env} {rid : RequestId} {s : Rs} {gs gs' : List ExecutionGroup}
    (h : packInto env rid s gs = some gs') :
    ∃ before g after, gs = before ++ g :: after ∧ gs' = before ++ g.add rid s :: after ∧
      g.admits env s = true := by
  induction gs generalizing gs' with
  | nil => exact nomatch h
  | cons g gs ih =>
    rw [packInto] at h
    split_ifs at h with hadmits
    · obtain rfl := Option.some.inj h
      exact ⟨[], g, gs, rfl, rfl, hadmits⟩
    · obtain ⟨rest, hrest, rfl⟩ := Option.map_eq_some_iff.mp h
      obtain ⟨before, g', after, rfl, rfl, hadmits'⟩ := ih hrest
      exact ⟨g :: before, g', after, rfl, rfl, hadmits'⟩

theorem ExecutionGroup.rids_add (g : ExecutionGroup) (rid : RequestId) (s : Rs) :
    (g.add rid s).rids = g.rids ++ [rid] := by
  rw [rids, add, List.map_append]
  rfl

/-- The state of the formation after some candidates: nothing is seen but the group
identities used, the open groups are formed, and hold only candidates seen. -/
structure Forming (v : View) (seen : List RequestId) (acc : Impl × List ExecutionGroup) : Prop where
  view : ∃ n, v.nextGroup ≤ n ∧ acc.1.view = { v with nextGroup := n }
  formed : acc.1.view.Formed acc.2
  seen : ∀ r ∈ acc.2.flatMap (·.rids), r ∈ seen

theorem View.Formed.add {v : View} {before after : List ExecutionGroup} {g g' : ExecutionGroup}
    {m : ExecutableMember} (h : v.Formed (before ++ g :: after)) (hid : g'.groupId = g.groupId)
    (hmembers : g'.members = g.members ++ [m]) (hm : v.Fits m)
    (hnew : m.requestId ∉ (before ++ g :: after).flatMap (·.rids)) :
    v.Formed (before ++ g' :: after) := by
  have hmem : ∀ x, x ∈ before ++ g' :: after → x ∈ before ++ g :: after ∨ x = g' := by
    intro x hx
    simp only [List.mem_append, List.mem_cons] at hx ⊢
    tauto
  have hg : g ∈ before ++ g :: after := List.mem_append_right _ List.mem_cons_self
  have hrids : g'.rids = g.rids ++ [m.requestId] := by
    rw [ExecutionGroup.rids, ExecutionGroup.rids, hmembers, List.map_append]
    rfl
  refine ⟨fun x hx => ?_, fun x hx y hy => ?_, ?_, ?_, fun x hx => ?_, fun x hx => ?_⟩
  · rcases hmem x hx with hx | rfl
    · exact h.ne_nil x hx
    · rw [hmembers]
      exact List.append_ne_nil_of_right_ne_nil _ (List.cons_ne_nil _ _)
  · rcases hmem x hx with hx | rfl
    · exact h.fits x hx y hy
    · rw [hmembers] at hy
      rcases List.mem_append.mp hy with hy | hy
      · exact h.fits g hg y hy
      · exact List.mem_singleton.mp hy ▸ hm
  · have hperm : ((before ++ g' :: after).flatMap (·.rids)).Perm
        (m.requestId :: (before ++ g :: after).flatMap (·.rids)) := by
      simp only [List.flatMap_append, List.flatMap_cons, hrids]
      rw [← List.append_assoc, ← List.append_assoc, List.append_assoc _ [m.requestId]]
      refine List.Perm.trans List.perm_middle ?_
      rw [List.append_assoc]
      exact List.Perm.refl _
    exact hperm.nodup_iff.mpr (List.nodup_cons.mpr ⟨hnew, h.nodup⟩)
  · have hids := h.nodup_ids
    rw [List.map_append, List.map_cons] at hids ⊢
    rw [hid]
    exact hids
  · rcases hmem x hx with hx | rfl
    · exact h.id_ne_nil x hx
    · rw [hid]
      exact h.id_ne_nil g hg
  · rcases hmem x hx with hx | rfl
    · exact h.unused x hx
    · rw [hid]
      exact h.unused g hg

theorem View.Formed.open {v : View} {gs : List ExecutionGroup} {g : ExecutionGroup}
    {m : ExecutableMember} (hv : v.Wf) (h : v.Formed gs) (hid : g.groupId = ⟨v.nextGroup⟩)
    (hmembers : g.members = [m]) (hm : v.Fits m) (hnew : m.requestId ∉ gs.flatMap (·.rids)) :
    ({ v with nextGroup := v.nextGroup + 1 } : View).Formed (gs ++ [g]) := by
  have hmem : ∀ x, x ∈ gs ++ [g] → x ∈ gs ∨ x = g := by
    intro x hx
    simpa using hx
  have hrids : g.rids = [m.requestId] := by
    rw [ExecutionGroup.rids, hmembers]
    rfl
  refine ⟨fun x hx => ?_, fun x hx y hy => ?_, ?_, ?_, fun x hx => ?_, fun x hx => ?_⟩
  · rcases hmem x hx with hx | rfl
    · exact h.ne_nil x hx
    · rw [hmembers]
      exact List.cons_ne_nil _ _
  · rcases hmem x hx with hx | rfl
    · exact h.fits x hx y hy
    · rw [hmembers] at hy
      exact List.mem_singleton.mp hy ▸ hm
  · rw [List.flatMap_append, List.flatMap_singleton, hrids]
    refine List.nodup_append.mpr ⟨h.nodup, List.nodup_singleton _, fun a ha b hb hab => ?_⟩
    exact hnew (List.mem_singleton.mp hb ▸ hab ▸ ha)
  · rw [List.map_append]
    refine List.nodup_append.mpr ⟨h.nodup_ids, List.nodup_singleton _, fun a ha b hb hab => ?_⟩
    obtain ⟨x, hx, rfl⟩ := List.mem_map.mp ha
    have hlt := (h.unused x hx).2
    have hb' : b = g.groupId := List.mem_singleton.mp hb
    rw [hab, hb', hid] at hlt
    exact absurd hlt (Nat.lt_irrefl _)
  · rcases hmem x hx with hx | rfl
    · exact h.id_ne_nil x hx
    · rw [hid]
      exact StrongId.ne_nil_of_pos hv.nextGroup_pos
  · rcases hmem x hx with hx | rfl
    · exact ⟨(h.unused x hx).1, Nat.lt_succ_of_lt (h.unused x hx).2⟩
    · rw [hid]
      refine ⟨?_, Nat.lt_succ_self _⟩
      by_contra hc
      obtain ⟨p, hp⟩ := Option.ne_none_iff_exists'.mp hc
      exact absurd (hv.grp_lt _ p hp) (Nat.lt_irrefl _)

theorem View.fits_nextMember {v : View} {rid : RequestId} {s : Rs} (index : ℕ)
    (hs : v.req rid = some s.core) (hwait : s.isWaiting = true) :
    v.Fits (s.nextMember rid index) := ⟨s.core, hs, hwait, rfl, rfl, rfl⟩

namespace Impl

theorem forming_placeCandidate {v : View} (hv : v.Wf) {seen : List RequestId}
    {acc : Impl × List ExecutionGroup} (h : Forming v seen acc) {rid : RequestId}
    (hrid : rid ∉ seen) : Forming v (seen ++ [rid]) (placeCandidate env acc rid) := by
  obtain ⟨σ, gs⟩ := acc
  obtain ⟨⟨n, hn, hview⟩, hformed, hseen⟩ := h
  dsimp only at hview hformed hseen
  have hskip : Forming v (seen ++ [rid]) (σ, gs) :=
    ⟨⟨n, hn, hview⟩, hformed, fun r hr => List.mem_append_left _ (hseen r hr)⟩
  have hnew : rid ∉ gs.flatMap (·.rids) := fun hc => hrid (hseen rid hc)
  unfold placeCandidate
  dsimp only
  cases hs : σ.requests.lookup rid with
  | none => exact hskip
  | some s =>
    have hreq : σ.view.req rid = some s.core := congrArg (Option.map Rs.core) hs
    dsimp only
    cases hwait : s.isWaiting with
    | false => exact hskip
    | true =>
      rw [Bool.not_true, if_neg Bool.false_ne_true]
      cases hpack : packInto env rid s gs with
      | some gs' =>
        obtain ⟨before, g, after, rfl, rfl, -⟩ := packInto_eq_some hpack
        refine ⟨⟨n, hn, ?_⟩, ?_, fun r hr => ?_⟩
        · exact (σ.view_noteRequest rid _).trans hview
        · rw [view_noteRequest]
          exact hformed.add rfl rfl (View.fits_nextMember _ hreq hwait) hnew
        · rw [List.mem_append, List.mem_singleton]
          simp only [List.flatMap_append, List.flatMap_cons, ExecutionGroup.rids_add,
            List.mem_append, List.mem_singleton] at hr hseen
          rcases hr with hr | (hr | rfl) | hr
          · exact Or.inl (hseen r (Or.inl hr))
          · exact Or.inl (hseen r (Or.inr (Or.inl hr)))
          · exact Or.inr rfl
          · exact Or.inl (hseen r (Or.inr (Or.inr hr)))
      | none =>
        have hnext : σ.nextGroupValue = n := congrArg View.nextGroup hview
        have hwf : σ.view.Wf := by
          rw [hview]
          exact ⟨hv.keyed, hv.holds, fun g p hp => (hv.grp_lt g p hp).trans_le hn, hv.held_lt,
            hv.nextReservation_pos, lt_of_lt_of_le hv.nextGroup_pos hn⟩
        refine ⟨⟨n + 1, Nat.le_succ_of_le hn, ?_⟩, ?_, fun r hr => ?_⟩
        · have hbump : ({ σ with nextGroupValue := σ.nextGroupValue + 1 } : Impl).view =
            { σ.view with nextGroup := σ.nextGroupValue + 1 } := rfl
          rw [hbump, hview, hnext]
        · exact hformed.open hwf rfl rfl (View.fits_nextMember _ hreq hwait) hnew
        · rw [List.flatMap_append, List.mem_append] at hr
          rcases hr with hr | hr
          · exact List.mem_append_left _ (hseen r hr)
          · exact List.mem_append_right _ hr

theorem forming_foldl {v : View} (hv : v.Wf) (cands seen : List RequestId)
    (acc : Impl × List ExecutionGroup) (h : Forming v seen acc) (hnodup : cands.Nodup)
    (hdisj : ∀ r ∈ cands, r ∉ seen) :
    Forming v (seen ++ cands) (cands.foldl (placeCandidate env) acc) := by
  induction cands generalizing seen acc with
  | nil => rwa [List.append_nil]
  | cons rid cands ih =>
    obtain ⟨hrid, hcands⟩ := List.nodup_cons.mp hnodup
    have hfirst := forming_placeCandidate env hv h (hdisj rid List.mem_cons_self)
    have hrest := ih (seen ++ [rid]) _ hfirst hcands fun r hr hc => by
      rcases List.mem_append.mp hc with hc | hc
      · exact hdisj r (List.mem_cons_of_mem rid hr) hc
      · exact hrid (List.mem_singleton.mp hc ▸ hr)
    rwa [List.append_assoc] at hrest

/-- **Formation** uses group identities and is otherwise not seen; what it leaves is
formed. -/
theorem formGroups_spec {σ : Impl} (hwf : σ.view.Wf) {cands : List RequestId}
    (hnodup : cands.Nodup) :
    View.Idle σ.view (formGroups env cands σ).1.view ∧
      (formGroups env cands σ).1.view.Formed (formGroups env cands σ).2 := by
  have hstart : Forming σ.view [] (σ, []) :=
    { view := ⟨_, le_rfl, rfl⟩
      formed :=
        { ne_nil := fun _ hg => absurd hg List.not_mem_nil
          fits := fun _ hg => absurd hg List.not_mem_nil
          nodup := List.nodup_nil
          nodup_ids := List.nodup_nil
          id_ne_nil := fun _ hg => absurd hg List.not_mem_nil
          unused := fun _ hg => absurd hg List.not_mem_nil }
      seen := fun _ hr => absurd hr List.not_mem_nil }
  obtain ⟨⟨n, hn, hview⟩, hformed, -⟩ :=
    forming_foldl env hwf cands [] _ hstart hnodup fun _ _ => List.not_mem_nil
  unfold formGroups
  refine ⟨?_, hformed⟩
  rw [hview]
  exact ⟨rfl, rfl, fun _ => rfl, id, rfl, rfl, rfl, rfl, hn, le_rfl⟩

end Impl

/-! ### Reservation -/

/-- **Reservations have been made** for some requests, in order, under the next
identities. -/
structure View.Reserved (rids : List RequestId) (v u : View) : Prop where
  member : ∀ i r, rids[i]? = some r → ∃ s, v.req r = some s ∧
    u.req r = some (s.holding ⟨v.nextReservation + i⟩) ∧
    u.mem.held ⟨v.nextReservation + i⟩ = some (r, s.nextChunk.memoryEstimateBytes.toNat)
  others : ∀ r, r ∉ rids → u.req r = v.req r
  held : ∀ id, id.value < v.nextReservation ∨ v.nextReservation + rids.length ≤ id.value →
    u.mem.held id = v.mem.held id
  sound : v.mem.Sound → u.mem.Sound
  nextReservation : v.nextReservation + rids.length ≤ u.nextReservation
  rest : u = { v with req := u.req, mem := u.mem, nextReservation := u.nextReservation }

/-- One reservation, and then others. -/
theorem View.Reserved.cons {v u : View} {r : RequestId} {rids : List RequestId} {s : Rs}
    {m : MemoryGovernor} (hs : v.req r = some s) (hr : r ∉ rids)
    (hheld : ∀ id, m.held id = if id = ⟨v.nextReservation⟩ then
      some (r, s.nextChunk.memoryEstimateBytes.toNat) else v.mem.held id)
    (hsound : v.mem.Sound → m.Sound)
    (h : View.Reserved rids
      { v.setReq r (s.holding ⟨v.nextReservation⟩) with
        mem := m, nextReservation := v.nextReservation + 1 } u) :
    View.Reserved (r :: rids) v u := by
  have hlen : v.nextReservation + (rids.length + 1) ≤ u.nextReservation := by
    have hle : v.nextReservation + 1 + rids.length ≤ u.nextReservation := h.nextReservation
    omega
  refine
    { member := fun i x hx => ?_
      others := fun x hx => ?_
      held := fun id hid => ?_
      sound := fun hv => h.sound (hsound hv)
      nextReservation := hlen
      rest := h.rest }
  · cases i with
    | zero =>
      obtain rfl : r = x := Option.some.inj hx
      refine ⟨s, hs, ?_, ?_⟩
      · rw [h.others r hr]
        exact Function.update_self ..
      · rw [Nat.add_zero, h.held ⟨v.nextReservation⟩ (Or.inl (Nat.lt_succ_self _)), hheld,
          if_pos rfl]
    | succ i =>
      obtain ⟨t, ht, hreq, hmem⟩ := h.member i x hx
      have hxr : x ≠ r := fun hc => hr (hc ▸ List.mem_of_getElem? hx)
      have hsucc : v.nextReservation + 1 + i = v.nextReservation + (i + 1) := by omega
      refine ⟨t, ?_, hsucc ▸ hreq, hsucc ▸ hmem⟩
      rw [← ht]
      exact (Function.update_of_ne hxr ..).symm
  · rw [List.mem_cons, not_or] at hx
    rw [h.others x hx.2]
    exact Function.update_of_ne hx.1 ..
  · have hne : id ≠ ⟨v.nextReservation⟩ := by
      rintro rfl
      simp only [List.length_cons] at hid
      omega
    rw [List.length_cons] at hid
    rw [h.held id (by dsimp only; omega), hheld, if_neg hne]

theorem View.Reserved.nil (v : View) {n : ℕ} (hn : v.nextReservation ≤ n) :
    View.Reserved [] v { v with nextReservation := n } where
  member i r hr := absurd hr (by simp)
  others _ _ := rfl
  held _ _ := rfl
  sound := id
  nextReservation := hn
  rest := rfl

namespace Impl

/-- What reserving for a list of requests comes to: reservations for the first of
them, and for all of them if none failed. -/
structure Reserves (rids : List RequestId) (σ : Impl)
    (out : Impl × List (ReservationId × RequestId) × Bool) : Prop where
  reserved : View.Reserved (out.2.1.map Prod.snd) σ.view out.1.view
  ids : ∀ (i : ℕ) (p : ReservationId × RequestId), out.2.1[i]? = some p →
    p.1 = ⟨σ.nextReservationValue + i⟩
  subset : ∀ r ∈ out.2.1.map Prod.snd, r ∈ rids
  all : out.2.2 = true → out.2.1.map Prod.snd = rids ∧
    out.1.nextReservationValue = σ.nextReservationValue + rids.length

/-- **Reserving** goes through the requests in order, up to a first failure. -/
theorem reserveMembers_spec (rids : List RequestId) (σ : Impl) (hnodup : rids.Nodup)
    (hknown : ∀ r ∈ rids, ∃ s, σ.requests.lookup r = some s) :
    Reserves rids σ (reserveMembers rids σ) := by
  induction rids generalizing σ with
  | nil =>
    exact
      { reserved := View.Reserved.nil σ.view le_rfl
        ids := fun i p hp => absurd hp (by simp [reserveMembers])
        subset := fun _ hr => hr
        all := fun _ => ⟨rfl, rfl⟩ }
  | cons r rids ih =>
    obtain ⟨hr, hrids⟩ := List.nodup_cons.mp hnodup
    obtain ⟨s, hs⟩ := hknown r List.mem_cons_self
    have hreq : σ.view.req r = some s.core := congrArg (Option.map Rs.core) hs
    rw [reserveMembers, hs, Option.getD_some]
    dsimp only
    generalize hres : σ.mem.reserve ⟨σ.nextReservationValue⟩ r
      s.nextChunk.memoryEstimateBytes.toNat .reserved = res
    cases hok : isOk res.2 with
    | false =>
      have hmem : res.1 = σ.mem := by
        rw [← hres] at hok ⊢
        exact MemoryGovernor.reserve_of_not_ok hok
      rw [if_neg Bool.false_ne_true, hmem]
      exact
        { reserved := View.Reserved.nil σ.view (Nat.le_succ _)
          ids := fun i p hp => absurd hp (by simp)
          subset := fun _ hr => absurd hr List.not_mem_nil
          all := fun hc => absurd hc Bool.false_ne_true }
    | true =>
      rw [if_pos rfl]
      generalize hσ₁ : Impl.setRequest _ r _ = σ₁
      have hview₁ : σ₁.view = { σ.view.setReq r (s.core.holding ⟨σ.nextReservationValue⟩) with
          mem := res.1, nextReservation := σ.nextReservationValue + 1 } := by
        rw [← hσ₁, view_setRequest]
        rfl
      have hnext₁ : σ₁.nextReservationValue = σ.nextReservationValue + 1 :=
        congrArg View.nextReservation hview₁
      have hknown₁ : ∀ x ∈ rids, ∃ t, σ₁.requests.lookup x = some t := by
        intro x hx
        have hxr : x ≠ r := fun hc => hr (hc ▸ hx)
        obtain ⟨t, ht⟩ := hknown x (List.mem_cons_of_mem r hx)
        exact ⟨t, by rw [← hσ₁, ← ht]; exact AList.lookup_insert_ne hxr⟩
      obtain ⟨hreserved, hids, hsubset, hall⟩ := ih σ₁ hrids hknown₁
      have hheld := MemoryGovernor.held_reserve_of_ok (hres ▸ hok)
      have hsound : σ.mem.Sound → res.1.Sound := fun hg => hres ▸ hg.reserve
      refine
        { reserved := View.Reserved.cons hreq (fun hc => hr (hsubset r hc)) (m := res.1)
            (hres ▸ hheld) hsound (hview₁ ▸ hreserved)
          ids := fun i p hp => ?_
          subset := fun x hx => ?_
          all := fun hc => ?_ }
      · cases i with
        | zero =>
          obtain rfl := Option.some.inj hp
          rfl
        | succ i =>
          rw [hids i p hp, hnext₁, Nat.add_right_comm, Nat.add_assoc]
      · rcases List.mem_cons.mp hx with rfl | hx
        · exact List.mem_cons_self
        · exact List.mem_cons_of_mem r (hsubset x hx)
      · obtain ⟨hlist, hnext⟩ := hall hc
        refine ⟨congrArg (List.cons r) hlist, ?_⟩
        dsimp only
        rw [hnext, hnext₁, List.length_cons, Nat.add_assoc, Nat.add_comm 1]

end Impl

/-! ### Undoing reservations -/

/-- A record without its reservation. -/
def Rs.cleared (s : Rs) : Rs := { s with reservation := .nil, reservedBytes := 0 }

/-- Taking back a reservation from a request that held none before restores it. -/
theorem Rs.cleared_holding {s : Rs} (hs : s.HoldsOnlyInFlight) (hflight : s.inFlight = false)
    (id : ReservationId) : (s.holding id).cleared = s := by
  have hnil := hs.reservation_eq hflight
  have hzero := hs.reservedBytes_eq hnil
  obtain ⟨⟩ := s
  dsimp only at hnil hzero
  rw [cleared, holding, ← hnil, ← hzero]

namespace View

/-- Undo one reservation. -/
def undo (v : View) (p : ReservationId × RequestId) : View :=
  { v with
    mem := v.mem.release p.1
    req := fun x => if x = p.2 then (v.req x).map Rs.cleared else v.req x }

theorem foldl_undo_req (ps : List (ReservationId × RequestId)) (u : View) (x : RequestId) :
    (ps.foldl undo u).req x =
      if x ∈ ps.map Prod.snd then (u.req x).map Rs.cleared else u.req x := by
  induction ps generalizing u with
  | nil => exact (if_neg List.not_mem_nil).symm
  | cons p ps ih =>
    rw [List.foldl_cons, ih, List.map_cons]
    -- clearing twice is clearing once
    have htwice : Option.map Rs.cleared ((u.undo p).req x) = (u.req x).map Rs.cleared := by
      change Option.map Rs.cleared (if x = p.2 then (u.req x).map Rs.cleared else u.req x) = _
      split_ifs
      · rw [Option.map_map]
        rfl
      · rfl
    by_cases hx : x ∈ ps.map Prod.snd
    · rw [if_pos hx, if_pos (List.mem_cons_of_mem _ hx), htwice]
    · rw [if_neg hx]
      change (if x = p.2 then (u.req x).map Rs.cleared else u.req x) = _
      simp only [List.mem_cons, hx, or_false]

theorem foldl_undo_mem (ps : List (ReservationId × RequestId)) (u : View) :
    (ps.foldl undo u).mem = ps.foldl (fun m p => m.release p.1) u.mem := by
  induction ps generalizing u with
  | nil => rfl
  | cons p ps ih => rw [List.foldl_cons, ih, List.foldl_cons]; rfl

theorem foldl_undo_rest (ps : List (ReservationId × RequestId)) (u : View) : ps.foldl undo u =
    { u with req := (ps.foldl undo u).req, mem := (ps.foldl undo u).mem } := by
  induction ps generalizing u with
  | nil => rfl
  | cons p ps ih => exact ih (u.undo p)

end View

theorem MemoryGovernor.held_foldl_release {α : Type} (f : α → ReservationId) (l : List α)
    (g : MemoryGovernor) (k : ReservationId) :
    (l.foldl (fun m a => m.release (f a)) g).held k = if k ∈ l.map f then none else g.held k := by
  induction l generalizing g with
  | nil => exact (if_neg List.not_mem_nil).symm
  | cons a l ih =>
    rw [List.foldl_cons, ih, held_release, List.map_cons]
    by_cases hk : k ∈ l.map f
    · rw [if_pos hk, if_pos (List.mem_cons_of_mem _ hk)]
    · rw [if_neg hk]
      simp only [List.mem_cons, hk, or_false]

theorem MemoryGovernor.Sound.foldl_release {α : Type} {f : α → ReservationId} {l : List α}
    {g : MemoryGovernor} (hg : g.Sound) (hnodup : (l.map f).Nodup)
    (hheld : ∀ a ∈ l, ∃ p, g.held (f a) = some p) :
    (l.foldl (fun m a => m.release (f a)) g).Sound := by
  induction l generalizing g with
  | nil => exact hg
  | cons a l ih =>
    obtain ⟨ha, hl⟩ := List.nodup_cons.mp hnodup
    obtain ⟨p, hp⟩ := hheld a List.mem_cons_self
    refine ih (hg.release hp) hl fun b hb => ?_
    obtain ⟨q, hq⟩ := hheld b (List.mem_cons_of_mem a hb)
    refine ⟨q, ?_⟩
    have hne : f b ≠ f a := fun hc => ha (hc ▸ List.mem_map_of_mem hb)
    rw [held_release, if_neg hne, hq]

/-- Identities drawn one after the other from a counter. -/
theorem map_fst_eq_map_range' {ps : List (ReservationId × RequestId)} {n : ℕ}
    (hids : ∀ (i : ℕ) (p : ReservationId × RequestId), ps[i]? = some p → p.1 = ⟨n + i⟩) :
    ps.map Prod.fst = (List.range' n ps.length).map StrongId.mk := by
  refine List.ext_getElem (by simp) fun i hi _ => ?_
  rw [List.length_map] at hi
  rw [List.getElem_map, List.getElem_map, List.getElem_range', Nat.one_mul,
    hids i _ (List.getElem?_eq_getElem hi)]

/-- **Undoing reservations leaves nothing to be seen.** -/
theorem View.idle_undo {v u : View} {ps : List (ReservationId × RequestId)} (hv : v.Wf)
    (h : View.Reserved (ps.map Prod.snd) v u)
    (hids : ∀ (i : ℕ) (p : ReservationId × RequestId), ps[i]? = some p →
      p.1 = ⟨v.nextReservation + i⟩)
    (hwait : ∀ r ∈ ps.map Prod.snd, ∀ s, v.req r = some s → s.isWaiting = true) :
    View.Idle v (ps.foldl View.undo u) := by
  have hmap := map_fst_eq_map_range' hids
  have hmem : ∀ id : ReservationId, id ∈ ps.map Prod.fst ↔
      v.nextReservation ≤ id.value ∧ id.value < v.nextReservation + ps.length := by
    intro id
    rw [hmap, List.mem_map]
    constructor
    · rintro ⟨k, hk, rfl⟩
      exact List.mem_range'_1.mp hk
    · exact fun hk => ⟨id.value, List.mem_range'_1.mpr hk, rfl⟩
  have hnodup : (ps.map Prod.fst).Nodup := by
    rw [hmap]
    exact List.Nodup.map (fun a b hab => congrArg StrongId.value hab) List.nodup_range'
  have hlen : (ps.map Prod.snd).length = ps.length := List.length_map ..
  have hrest : ps.foldl undo u = { v with
      req := (ps.foldl undo u).req
      mem := (ps.foldl undo u).mem
      nextReservation := u.nextReservation } := by
    refine (foldl_undo_rest ps u).trans ?_
    generalize (ps.foldl undo u).req = q
    generalize (ps.foldl undo u).mem = m
    rw [h.rest]
  refine
    { req := funext fun x => ?_
      grp := (congrArg View.grp hrest :)
      held := fun id => ?_
      sound := fun hg => ?_
      boot := (congrArg View.boot hrest :)
      epoch := (congrArg View.epoch hrest :)
      nextGeneration := (congrArg View.nextGeneration hrest :)
      nextAttempt := (congrArg View.nextAttempt hrest :)
      nextGroup := ((congrArg View.nextGroup hrest :) : _ = _).ge
      nextReservation := ?_ }
  · rw [foldl_undo_req]
    by_cases hx : x ∈ ps.map Prod.snd
    · obtain ⟨i, hi⟩ := List.mem_iff_getElem?.mp hx
      obtain ⟨s, hs, hreq, -⟩ := h.member i x hi
      have hflight := (Rs.isWaiting_iff.mp (hwait x hx s hs)).2.1
      rw [if_pos hx, hreq, hs, Option.map_some, Rs.cleared_holding (hv.holds x s hs) hflight]
    · rw [if_neg hx, h.others x hx]
  · rw [foldl_undo_mem, MemoryGovernor.held_foldl_release]
    by_cases hid : id ∈ ps.map Prod.fst
    · rw [if_pos hid]
      -- a new identity was in use for nothing
      cases hold : v.mem.held id with
      | none => rfl
      | some p =>
        have := hv.held_lt id p hold
        have := (hmem id).mp hid
        omega
    · rw [if_neg hid]
      refine h.held id ?_
      rw [hlen]
      have := mt (hmem id).mpr hid
      omega
  · rw [foldl_undo_mem]
    refine (h.sound hg).foldl_release hnodup fun p hp => ?_
    obtain ⟨i, hi⟩ := List.mem_iff_getElem?.mp hp
    obtain ⟨s, -, -, hheld⟩ := h.member i p.2 (by rw [List.getElem?_map, hi, Option.map_some])
    rw [hids i p hi]
    exact ⟨_, hheld⟩
  · rw [hrest]
    have := h.nextReservation
    change v.nextReservation ≤ u.nextReservation
    omega

namespace Impl

theorem view_undoReservation (σ : Impl) (p : ReservationId × RequestId) :
    (σ.undoReservation p).view = σ.view.undo p := by
  refine View.ext (funext fun x => ?_) rfl rfl rfl rfl rfl rfl rfl rfl
  change ((AList.modify p.2 _ σ.requests).lookup x).map Rs.core =
    if x = p.2 then ((σ.requests.lookup x).map Rs.core).map Rs.cleared
    else (σ.requests.lookup x).map Rs.core
  rw [AList.lookup_modify]
  split_ifs with hx
  · subst hx
    rw [Option.map_map, Option.map_map]
    rfl
  · rfl

theorem view_foldl_undoReservation (ps : List (ReservationId × RequestId)) (σ : Impl) :
    (ps.foldl undoReservation σ).view = ps.foldl View.undo σ.view := by
  induction ps generalizing σ with
  | nil => rfl
  | cons p ps ih => rw [List.foldl_cons, ih, view_undoReservation, List.foldl_cons]

/-- Reserving for waiting requests and undoing it leaves nothing to be seen. -/
theorem idle_undoReservation {σ : Impl} {rids : List RequestId} (hwf : σ.view.Wf)
    (hnodup : rids.Nodup)
    (hwaiting : ∀ r ∈ rids, ∃ s, σ.requests.lookup r = some s ∧ s.isWaiting = true) :
    View.Idle σ.view
      ((reserveMembers rids σ).2.1.foldl undoReservation (reserveMembers rids σ).1).view := by
  obtain ⟨hres, hids, hsubset, -⟩ := reserveMembers_spec rids σ hnodup fun r hr =>
    (hwaiting r hr).imp fun _ h => h.1
  rw [view_foldl_undoReservation]
  refine View.idle_undo hwf hres hids fun r hr s hs => ?_
  obtain ⟨t, ht, hwait⟩ := hwaiting r (hsubset r hr)
  obtain rfl := Option.some.inj ((congrArg (Option.map Rs.core) ht).symm.trans hs)
  exact hwait

end Impl

/-! ### Dispatch -/

/-- A member as it is dispatched. -/
def ExecutableMember.dispatched (w : WorkerId) (n : ℕ) (m : ExecutableMember) : ExecutableMember :=
  { m with generation := ⟨n⟩, assignedWorker := w }

/-- **Members have been dispatched**, in order, under the next generations. -/
structure View.Committed (now : Nanoseconds) (gid : GroupId) (w : WorkerId)
    (ms ms' : List ExecutableMember) (u u' : View) : Prop where
  length : ms'.length = ms.length
  member : ∀ (i : ℕ) (m : ExecutableMember), ms[i]? = some m →
    ms'[i]? = some (m.dispatched w (u.nextGeneration + i)) ∧
    ∃ s, u.req m.requestId = some s ∧
      u'.req m.requestId = some (s.launched now gid w ⟨u.nextGeneration + i⟩)
  others : ∀ r, r ∉ ms.map (·.requestId) → u'.req r = u.req r
  rest : u' = { u with req := u'.req, nextGeneration := u.nextGeneration + ms.length }

theorem View.Committed.map_requestId {now : Nanoseconds} {gid : GroupId} {w : WorkerId}
    {ms ms' : List ExecutableMember}
    {u u' : View} (h : View.Committed now gid w ms ms' u u') :
    ms'.map (·.requestId) = ms.map (·.requestId) := by
  refine List.ext_getElem (by rw [List.length_map, List.length_map, h.length]) fun i hi hi' => ?_
  rw [List.length_map] at hi hi'
  have hm := (h.member i ms[i] (List.getElem?_eq_getElem hi')).1
  rw [List.getElem?_eq_getElem hi] at hm
  rw [List.getElem_map, List.getElem_map, Option.some.inj hm]
  rfl

namespace Impl

theorem view_commitMember (gid : GroupId) (w : WorkerId) {m : ExecutableMember} {σ : Impl} {s : Rs}
    (hs : σ.requests.lookup m.requestId = some s) : (σ.commitMember now gid w m).view =
      { σ.view.setReq m.requestId (s.core.launched now gid w ⟨σ.nextGenerationValue⟩) with
        nextGeneration := σ.nextGenerationValue + 1 } := by
  unfold commitMember
  rw [hs, Option.getD_some]
  dsimp only
  rw [view_count, view_setRequest]
  rfl

theorem commitMembers_spec (gid : GroupId) (w : WorkerId) (ms : List ExecutableMember) (σ : Impl)
    (hnodup : (ms.map (·.requestId)).Nodup)
    (hknown : ∀ m ∈ ms, ∃ s, σ.requests.lookup m.requestId = some s) :
    View.Committed now gid w ms (commitMembers now gid w ms σ).2 σ.view
      (commitMembers now gid w ms σ).1.view := by
  induction ms generalizing σ with
  | nil =>
    exact
      { length := rfl
        member := fun i m hm => absurd hm (by simp)
        others := fun _ _ => rfl
        rest := rfl }
  | cons m ms ih =>
    obtain ⟨hm, hms⟩ := List.nodup_cons.mp hnodup
    obtain ⟨s, hs⟩ := hknown m List.mem_cons_self
    have hview := view_commitMember now gid w hs
    have hreq : σ.view.req m.requestId = some s.core := congrArg (Option.map Rs.core) hs
    rw [commitMembers]
    dsimp only
    generalize σ.commitMember now gid w m = σ₁ at hview
    have hnext : σ₁.view.nextGeneration = σ.nextGenerationValue + 1 :=
      congrArg View.nextGeneration hview
    have hother : ∀ x, x ≠ m.requestId → σ₁.view.req x = σ.view.req x := fun x hx => by
      rw [hview]
      exact Function.update_of_ne hx ..
    have hmem : ∀ y ∈ ms, y.requestId ≠ m.requestId := fun y hy hc =>
      hm (List.mem_map.mpr ⟨y, hy, hc⟩)
    have hknown₁ : ∀ y ∈ ms, ∃ t, σ₁.requests.lookup y.requestId = some t := by
      intro y hy
      obtain ⟨t, ht⟩ := hknown y (List.mem_cons_of_mem m hy)
      have hy₁ := hother y.requestId (hmem y hy)
      rw [show σ.view.req y.requestId = some t.core from congrArg (Option.map Rs.core) ht] at hy₁
      obtain ⟨t₁, ht₁, -⟩ := Option.map_eq_some_iff.mp hy₁
      exact ⟨t₁, ht₁⟩
    obtain ⟨hlength, hmember, hothers, hrest⟩ := ih σ₁ hms hknown₁
    rw [hnext] at hmember
    refine
      { length := congrArg Nat.succ hlength
        member := fun i y hy => ?_
        others := fun x hx => ?_
        rest := ?_ }
    · cases i with
      | zero =>
        obtain rfl : m = y := Option.some.inj hy
        refine ⟨rfl, s.core, hreq, ?_⟩
        rw [hothers m.requestId hm, hview]
        exact Function.update_self ..
      | succ i =>
        obtain ⟨hy', t, ht, hlaunched⟩ := hmember i y hy
        have hsucc : σ.nextGenerationValue + 1 + i = σ.nextGenerationValue + (i + 1) := by omega
        rw [hsucc] at hy' hlaunched
        refine ⟨hy', t, ?_, hlaunched⟩
        rw [← ht, hother _ (hmem y (List.mem_of_getElem? hy))]
    · rw [List.map_cons, List.mem_cons, not_or] at hx
      rw [hothers x hx.2, hother x hx.1]
    · refine hrest.trans ?_
      generalize (commitMembers now gid w ms σ₁).1.view.req = q
      rw [hview, List.length_cons, Nat.add_comm ms.length 1, ← Nat.add_assoc]
      rfl

/-- The one with the lesser identity. -/
def lesser (chosen : Option WorkerId) (w : WorkerId) : Option WorkerId :=
  match chosen with
  | none => some w
  | some c => if w.value < c.value then some w else some c

theorem chooseWorker_eq_foldl (backend : String) (σ : Impl) : chooseWorker backend σ =
    ((σ.workers.entries.filter fun e => eligible backend e.2).map (·.1)).foldl lesser none := rfl

/-- The worker chosen is registered, and can take the group. -/
theorem exists_of_chooseWorker {backend : String} {σ : Impl} {w : WorkerId}
    (h : chooseWorker backend σ = some w) :
    ∃ ws, σ.workers.lookup w = some ws ∧ eligible backend ws = true := by
  -- the fold returns one of the identities it went through
  have hfold : ∀ (l : List WorkerId) (c : Option WorkerId),
      l.foldl lesser c = some w → c = some w ∨ w ∈ l := by
    intro l
    induction l with
    | nil => exact fun c hc => Or.inl hc
    | cons x l ih =>
      intro c hc
      rcases ih _ hc with hfirst | hmem
      · cases c with
        | none => exact Or.inr (List.mem_cons.mpr (Or.inl (Option.some.inj hfirst).symm))
        | some y =>
          rw [lesser] at hfirst
          split_ifs at hfirst
          · exact Or.inr (List.mem_cons.mpr (Or.inl (Option.some.inj hfirst).symm))
          · exact Or.inl hfirst
      · exact Or.inr (List.mem_cons_of_mem x hmem)
  rw [chooseWorker_eq_foldl] at h
  rcases hfold _ none h with hc | hmem
  · exact nomatch hc
  · obtain ⟨e, he, rfl⟩ := List.mem_map.mp hmem
    obtain ⟨hentry, helig⟩ := List.mem_filter.mp he
    exact ⟨e.2, AList.mem_lookup_iff.mpr hentry, helig⟩

theorem mem_foldl_insertOutstanding {x : RequestId} (rids l : List RequestId) :
    x ∈ rids.foldl (fun l rid => insertOutstanding rid l) l ↔ x ∈ rids ∨ x ∈ l := by
  induction rids generalizing l with
  | nil => simp
  | cons r rids ih =>
    rw [List.foldl_cons, ih, mem_insertOutstanding, List.mem_cons]
    tauto

end Impl

namespace View

/-- What is formed stays formed while nothing is seen. -/
theorem Formed.idle {v v' : View} {gs : List ExecutionGroup} (h : v.Formed gs)
    (hidle : View.Idle v v') : v'.Formed gs where
  ne_nil := h.ne_nil
  fits g hg m hm := by
    obtain ⟨s, hs⟩ := h.fits g hg m hm
    exact ⟨s, by rw [hidle.req]; exact hs⟩
  nodup := h.nodup
  nodup_ids := h.nodup_ids
  id_ne_nil := h.id_ne_nil
  unused g hg := by
    rw [hidle.grp]
    exact ⟨(h.unused g hg).1, (h.unused g hg).2.trans_le hidle.nextGroup⟩

theorem Formed.tail {v : View} {g : ExecutionGroup} {gs : List ExecutionGroup}
    (h : v.Formed (g :: gs)) : v.Formed gs where
  ne_nil x hx := h.ne_nil x (List.mem_cons_of_mem g hx)
  fits x hx := h.fits x (List.mem_cons_of_mem g hx)
  nodup := by
    have := h.nodup
    rw [List.flatMap_cons] at this
    exact (List.nodup_append.mp this).2.1
  nodup_ids := (List.nodup_cons.mp h.nodup_ids).2
  id_ne_nil x hx := h.id_ne_nil x (List.mem_cons_of_mem g hx)
  unused x hx := h.unused x (List.mem_cons_of_mem g hx)

theorem Formed.head {v : View} {g : ExecutionGroup} {gs : List ExecutionGroup}
    (h : v.Formed (g :: gs)) : v.Formed [g] where
  ne_nil _ hx := List.mem_singleton.mp hx ▸ h.ne_nil g List.mem_cons_self
  fits _ hx := List.mem_singleton.mp hx ▸ h.fits g List.mem_cons_self
  nodup := by
    have := h.nodup
    rw [List.flatMap_cons] at this
    rw [List.flatMap_singleton]
    exact (List.nodup_append.mp this).1
  nodup_ids := List.nodup_singleton _
  id_ne_nil _ hx := List.mem_singleton.mp hx ▸ h.id_ne_nil g List.mem_cons_self
  unused _ hx := List.mem_singleton.mp hx ▸ h.unused g List.mem_cons_self

theorem Formed.nodup_rids {v : View} {g : ExecutionGroup} (h : v.Formed [g]) : g.rids.Nodup := by
  have := h.nodup
  rwa [List.flatMap_singleton] at this

/-- **Reserving and then committing is launching.** -/
theorem launch_of_committed {now : Nanoseconds} {gid : GroupId} {w : WorkerId} {g : ExecutionGroup}
    {ms' : List ExecutableMember} {out : List RequestId} {v u u' : View}
    (hformed : v.Formed [g]) (hboot : (v.boot w).isSome) (hres : View.Reserved g.rids v u)
    (hnext : u.nextReservation = v.nextReservation + g.rids.length)
    (hcom : View.Committed now gid w g.members ms' u u') (hgid : g.groupId = gid)
    (hout : ∀ r, r ∈ out ↔ r ∈ g.rids) :
    View.Launch now gid w ms' v
      { u' with grp := Function.update u'.grp gid (some (w, out)) } := by
  have hg : g ∈ [g] := List.mem_singleton_self g
  have hu := hres.rest
  have hu' := hcom.rest
  have hmap := hcom.map_requestId
  have hlen : ms'.length = g.rids.length := by
    rw [hcom.length, ExecutionGroup.rids, List.length_map]
  have hgen : u.nextGeneration = v.nextGeneration := (congrArg View.nextGeneration hu :)
  have hmem : u'.mem = u.mem := (congrArg View.mem hu' :)
  have hnodup : g.rids.Nodup := by
    have := hformed.nodup
    rwa [List.flatMap_singleton] at this
  refine
    { ne_nil := fun hc => ?_
      nodup := hmap ▸ hnodup
      gid_ne_nil := hgid ▸ hformed.id_ne_nil g hg
      gid_lt := hgid ▸ (hformed.unused g hg).2
      grp_gid := hgid ▸ (hformed.unused g hg).1
      boot_worker := hboot
      member := fun i m' hm' => ?_
      others := fun r hr => ?_
      held := fun id hid => ?_
      sound := fun hv => ?_
      grp := ⟨out, ?_, fun r => ?_⟩
      boot := ((congrArg View.boot hu' :) : u'.boot = u.boot).trans (congrArg View.boot hu :)
      epoch := ((congrArg View.epoch hu' :) : u'.epoch = u.epoch).trans (congrArg View.epoch hu :)
      nextGeneration := ?_
      nextAttempt := ((congrArg View.nextAttempt hu' :) : u'.nextAttempt = u.nextAttempt).trans
        (congrArg View.nextAttempt hu :)
      nextGroup := ((congrArg View.nextGroup hu' :) : u'.nextGroup = u.nextGroup).trans
        (congrArg View.nextGroup hu :)
      nextReservation := ?_ }
  · refine hformed.ne_nil g hg (List.eq_nil_of_length_eq_zero ?_)
    rw [← hcom.length, hc, List.length_nil]
  · have hi : i < g.members.length := hcom.length ▸ (List.getElem?_eq_some_iff.mp hm').1
    obtain ⟨m, hm⟩ : ∃ m, g.members[i]? = some m := ⟨_, List.getElem?_eq_getElem hi⟩
    obtain ⟨hm'', t, ht, hlaunched⟩ := hcom.member i m hm
    obtain rfl := Option.some.inj (hm''.symm.trans hm')
    have hrid : g.rids[i]? = some m.requestId := by
      rw [ExecutionGroup.rids, List.getElem?_map, hm, Option.map_some]
    obtain ⟨s, hs, hreq, hheld⟩ := hres.member i m.requestId hrid
    obtain ⟨s', hs', hwait, hcarries⟩ := hformed.fits g hg m (List.mem_of_getElem? hm)
    obtain rfl : s = s' := Option.some.inj (hs.symm.trans hs')
    obtain rfl := Option.some.inj (hreq.symm.trans ht)
    refine ⟨?_, rfl, s, hs, hwait, ⟨hcarries.attempt, hcarries.start, hcarries.count⟩, ?_, ?_⟩
    · rw [← hgen]
      rfl
    · exact hlaunched
    · exact hmem ▸ hheld
  · have hr' : r ∉ g.rids := fun hc => by
      rw [ExecutionGroup.rids, ← hmap, List.mem_map] at hc
      obtain ⟨m, hm, hmr⟩ := hc
      exact hr m hm hmr
    exact (hcom.others r hr').trans (hres.others r hr')
  · rw [hlen] at hid
    exact hmem ▸ hres.held id hid
  · exact hmem ▸ hres.sound hv
  · have hgrp : u'.grp = v.grp := ((congrArg View.grp hu' :) : u'.grp = u.grp).trans
      (congrArg View.grp hu :)
    rw [hgrp]
  · rw [hout, ExecutionGroup.rids, ← hmap, List.mem_map]
  · rw [← hgen, hcom.length]
    exact (congrArg View.nextGeneration hu' :)
  · rw [hlen, ← hnext]
    exact (congrArg View.nextReservation hu' :)

/-- The groups still to come are formed after a dispatch as before. -/
theorem Formed.launch {now : Nanoseconds} {gid : GroupId} {w : WorkerId} {g : ExecutionGroup}
    {gs : List ExecutionGroup} {ms' : List ExecutableMember} {v v' : View}
    (h : v.Formed (g :: gs)) (hl : View.Launch now gid w ms' v v') (hgid : g.groupId = gid)
    (hmap : ms'.map (·.requestId) = g.rids) : v'.Formed gs where
  ne_nil := h.tail.ne_nil
  fits x hx m hm := by
    obtain ⟨s, hs⟩ := h.tail.fits x hx m hm
    refine ⟨s, ?_⟩
    rw [hl.others m.requestId fun m' hm' hc => ?_]
    · exact hs
    · have hnodup := h.nodup
      rw [List.flatMap_cons, List.nodup_append] at hnodup
      refine hnodup.2.2 m.requestId ?_ m.requestId ?_ rfl
      · rw [← hmap]
        exact List.mem_map.mpr ⟨m', hm', hc⟩
      · exact List.mem_flatMap.mpr ⟨x, hx, List.mem_map_of_mem hm⟩
  nodup := h.tail.nodup
  nodup_ids := h.tail.nodup_ids
  id_ne_nil := h.tail.id_ne_nil
  unused x hx := by
    obtain ⟨out, hgrp, -⟩ := hl.grp
    have hne : x.groupId ≠ gid := fun hc =>
      (List.nodup_cons.mp h.nodup_ids).1 (List.mem_map.mpr ⟨x, hx, hc.trans hgid.symm⟩)
    rw [hgrp, Function.update_of_ne hne, hl.nextGroup]
    exact h.tail.unused x hx

end View

/-! ### The cycle -/

namespace Impl

theorem view_commitGroup (w : WorkerId) (g : ExecutionGroup) (batch : DispatchBatch) (σ : Impl) :
    (σ.commitGroup now w g batch).1.view =
      { (commitMembers now g.groupId w g.members σ).1.view with
        grp := Function.update (commitMembers now g.groupId w g.members σ).1.view.grp g.groupId
          (some (w, g.rids.foldl (fun l rid => insertOutstanding rid l) [])) } := by
  unfold commitGroup
  dsimp only
  generalize (commitMembers now g.groupId w g.members σ) = committed
  rw [view_count, view_insert_group { committed.1 with
    workers := AList.modify w (fun ws => { ws with busyUnits := ws.busyUnits + 1 })
      committed.1.workers }, committed.1.view_modify_worker w]
  exact fun _ => rfl

theorem members_commitGroup (w : WorkerId) (g : ExecutionGroup) (batch : DispatchBatch) (σ : Impl) :
    (σ.commitGroup now w g batch).2.members =
      batch.members ++ (commitMembers now g.groupId w g.members σ).2 := by
  unfold commitGroup DispatchBatch.members
  dsimp only
  rw [List.flatMap_append, List.flatMap_singleton]

/-- The requests of a formed group wait. -/
theorem exists_isWaiting_of_formed {σ : Impl} {g : ExecutionGroup} {gs : List ExecutionGroup}
    (h : σ.view.Formed gs) (hg : g ∈ gs) :
    ∀ r ∈ g.rids, ∃ s, σ.requests.lookup r = some s ∧ s.isWaiting = true := by
  intro r hr
  obtain ⟨m, hm, rfl⟩ := List.mem_map.mp hr
  obtain ⟨t, ht, hwait, -⟩ := h.fits g hg m hm
  obtain ⟨s, hs, rfl⟩ := Option.map_eq_some_iff.mp ht
  exact ⟨s, hs, hwait⟩

/-- **A formed group is put off or dispatched whole.** Put off, nothing is seen of it; otherwise
there is a worker for it, memory was reserved for all of its members, and all of them are launched
together. -/
theorem dispatchGroup_cases {acc : Impl × DispatchBatch} {g : ExecutionGroup}
    {gs : List ExecutionGroup} (hwf : acc.1.view.Wf) (hformed : acc.1.view.Formed (g :: gs)) :
    (View.Idle acc.1.view (dispatchGroup now acc g).1.view ∧
      (dispatchGroup now acc g).2.groups = acc.2.groups) ∨
    ∃ w, chooseWorker g.backend acc.1 = some w ∧ (reserveMembers g.rids acc.1).2.2 = true ∧
      dispatchGroup now acc g = commitGroup now w g acc.2 (reserveMembers g.rids acc.1).1 ∧
      (commitMembers now g.groupId w g.members (reserveMembers g.rids acc.1).1).2.map
        (·.requestId) = g.rids ∧
      View.Launch now g.groupId w
        (commitMembers now g.groupId w g.members (reserveMembers g.rids acc.1).1).2 acc.1.view
        (dispatchGroup now acc g).1.view := by
  obtain ⟨σ, batch⟩ := acc
  dsimp only at hwf hformed ⊢
  have hone := hformed.head
  have hnodup := hone.nodup_rids
  have hwaiting := exists_isWaiting_of_formed hformed List.mem_cons_self
  unfold dispatchGroup
  dsimp only
  rw [if_neg (by rw [List.isEmpty_iff]; exact hformed.ne_nil g List.mem_cons_self)]
  cases hw : chooseWorker g.backend σ with
  | none => exact Or.inl ⟨View.Idle.of_eq (view_noteAll ..), rfl⟩
  | some w =>
    obtain ⟨ws, hws, -⟩ := exists_of_chooseWorker hw
    have hboot : (σ.view.boot w).isSome := by
      change ((σ.workers.lookup w).map _).isSome = true
      rw [hws]
      rfl
    obtain ⟨hres, -, -, hall⟩ := reserveMembers_spec g.rids σ hnodup fun r hr =>
      (hwaiting r hr).imp fun _ h => h.1
    have hundo := idle_undoReservation hwf hnodup hwaiting
    dsimp only
    generalize reserveMembers g.rids σ = reserved at hres hall hundo
    cases hok : reserved.2.2 with
    | false =>
      rw [if_neg Bool.false_ne_true]
      refine Or.inl ⟨?_, rfl⟩
      rw [view_noteAll]
      exact hundo
    | true =>
      rw [if_pos rfl]
      obtain ⟨hlist, hnext⟩ := hall hok
      rw [hlist] at hres
      have hknown : ∀ m ∈ g.members, ∃ s, reserved.1.requests.lookup m.requestId = some s := by
        intro m hm
        obtain ⟨i, hi⟩ := List.mem_iff_getElem?.mp (List.mem_map_of_mem (f := (·.requestId)) hm)
        obtain ⟨s, -, hs, -⟩ := hres.member i m.requestId hi
        obtain ⟨t, ht, -⟩ := Option.map_eq_some_iff.mp hs
        exact ⟨t, ht⟩
      have hcom := commitMembers_spec now g.groupId w g.members reserved.1 hnodup hknown
      have hout : ∀ r, r ∈ g.rids.foldl (fun l rid => insertOutstanding rid l) [] ↔ r ∈ g.rids := by
        intro r
        rw [mem_foldl_insertOutstanding]
        simp
      have hlaunch := View.launch_of_committed hone hboot hres hnext hcom rfl hout
      rw [← view_commitGroup] at hlaunch
      exact Or.inr ⟨w, rfl, rfl, rfl, hcom.map_requestId, hlaunch⟩

/-- **A formed group** is dispatched as one launch, or nothing is seen of it. -/
theorem dispatchGroup_spec {acc : Impl × DispatchBatch} {g : ExecutionGroup}
    {gs : List ExecutionGroup} (hwf : acc.1.view.Wf) (hformed : acc.1.view.Formed (g :: gs)) :
    ∃ ms, Effects env Label.Dispatching acc.1.view ms (dispatchGroup now acc g).1.view ∧
      (dispatchGroup now acc g).2.members = acc.2.members ++ ms ∧
      (dispatchGroup now acc g).1.view.Formed gs := by
  rcases dispatchGroup_cases now hwf hformed with
    ⟨hidle, hgroups⟩ | ⟨w, -, -, heq, hmap, hlaunch⟩
  · refine ⟨[], Effects.single (Effect.idle hidle) trivial, ?_, hformed.tail.idle hidle⟩
    rw [DispatchBatch.members, hgroups, List.append_nil, DispatchBatch.members]
  · refine ⟨_, Effects.single (Effect.launch hlaunch) trivial, ?_,
      hformed.launch hlaunch rfl hmap⟩
    rw [heq, members_commitGroup]
    rfl

theorem effects_foldl_dispatchGroup (gs : List ExecutionGroup) (acc : Impl × DispatchBatch)
    (hwf : acc.1.view.Wf) (hformed : acc.1.view.Formed gs) :
    ∃ ms, Effects env Label.Dispatching acc.1.view ms (gs.foldl (dispatchGroup now) acc).1.view ∧
      (gs.foldl (dispatchGroup now) acc).2.members = acc.2.members ++ ms := by
  induction gs generalizing acc with
  | nil => exact ⟨[], Effects.refl _, (List.append_nil _).symm⟩
  | cons g gs ih =>
    obtain ⟨ms, heffects, hmembers, hrest⟩ :=
      dispatchGroup_spec env now hwf hformed
    obtain ⟨ms', heffects', hmembers'⟩ := ih _ (heffects.wf hwf) hrest
    refine ⟨ms ++ ms', heffects.trans heffects', ?_⟩
    rw [List.foldl_cons, hmembers', hmembers, List.append_assoc]

/-- The part of a cycle after the sweep: what waits is packed into groups, and the groups
are dispatched. -/
def dispatchPhase (env : Env) (now : Nanoseconds) (σ : Impl) : Impl × DispatchBatch :=
  let formed := formGroups env (σ.sortedCandidates env now) σ
  let dispatched := formed.2.foldl (dispatchGroup now) (formed.1, {})
  (dispatched.1.ageWaiting.refreshStats, dispatched.2)

theorem runCycle_eq (σ : Impl) :
    σ.runCycle env now = (σ.expirySweep now).dispatchPhase env now := rfl

/-- **After the sweep** a cycle dispatches, and does nothing else that is seen. -/
theorem effects_dispatchPhase {σ : Impl} (hwf : σ.view.Wf) :
    Effects env Label.Dispatching σ.view (σ.dispatchPhase env now).2.members
      (σ.dispatchPhase env now).1.view := by
  obtain ⟨hidle, hformed⟩ := formGroups_spec env hwf (nodup_sortedCandidates env now σ)
  unfold dispatchPhase
  dsimp only
  generalize formGroups env (σ.sortedCandidates env now) σ = formed at hidle hformed
  have hform : Effects env Label.Dispatching σ.view [] formed.1.view :=
    Effects.single (Effect.idle hidle) trivial
  obtain ⟨ms, hdispatch, hmembers⟩ := effects_foldl_dispatchGroup env now formed.2
    (formed.1, {}) (hform.wf hwf) hformed
  rw [hmembers, refreshStats, view_count, view_ageWaiting]
  exact hform.trans hdispatch

/-- **A scheduling cycle** is a chain of effects that hands out the members of its
batch. -/
theorem effects_runCycle {σ : Impl} (hwf : σ.view.Wf) :
    Effects env Label.Cyclic σ.view (σ.runCycle env now).2.members (σ.runCycle env now).1.view := by
  have hsweep := effects_expirySweep env now σ hwf
  have hdispatch := (effects_dispatchPhase env now (hsweep.wf hwf)).mono
    fun _ => Label.Dispatching.cyclic
  have hcycle := hsweep.trans hdispatch
  rwa [List.nil_append] at hcycle

end Impl

end PrefillFabric
