import PrefillFabric.Scheduler.Packing

/-!
# Formation

How the waiting requests are dealt out to groups. The candidates are taken in the order of
service, and each goes into the first open group that admits it, or opens a group of its own.

So nobody is forgotten and nobody is packed twice: the groups are a partition of the candidates
in which the order of service shows, both in the members of a group and in the order of the
groups (`Impl.packed_formed`). And no group is opened without need: of two groups with the same
key, the earlier one has no room for the chunk the later one was opened for
(`Impl.pairwise_neededAfter`).
-/

namespace PrefillFabric

/-! ### One candidate -/

section Placing

variable {env : Env} {rid : RequestId} {s : Rs} {gs gs' : List ExecutionGroup}

/-- What finds no group is admitted by none. -/
theorem admits_of_packInto_eq_none (h : packInto env rid s gs = none) :
    ∀ g ∈ gs, g.admits env s = false := by
  induction gs with
  | nil => exact fun g hg => absurd hg List.not_mem_nil
  | cons g gs ih =>
    rw [packInto] at h
    split_ifs at h with hadmits
    exact List.forall_mem_cons.mpr
      ⟨Bool.eq_false_iff.mpr hadmits, ih (Option.map_eq_none_iff.mp h)⟩

/-- **First fit**: what finds a group finds the first that admits it. -/
theorem exists_first_of_packInto (h : packInto env rid s gs = some gs') :
    ∃ before g after, gs = before ++ g :: after ∧ gs' = before ++ g.add rid s :: after ∧
      g.admits env s = true ∧ ∀ x ∈ before, x.admits env s = false := by
  induction gs generalizing gs' with
  | nil => exact nomatch h
  | cons g gs ih =>
    rw [packInto] at h
    split_ifs at h with hadmits
    · obtain rfl := Option.some.inj h
      exact ⟨[], g, gs, rfl, rfl, hadmits, List.forall_mem_nil _⟩
    · obtain ⟨rest, hrest, rfl⟩ := Option.map_eq_some_iff.mp h
      obtain ⟨before, g', after, rfl, rfl, hadmits', hbefore⟩ := ih hrest
      exact ⟨g :: before, g', after, rfl, rfl, hadmits',
        List.forall_mem_cons.mpr ⟨Bool.eq_false_iff.mpr hadmits, hbefore⟩⟩

end Placing

/-! ### The rule for all groups together -/

section Rule

variable {env : Env} {v : View} {P : List RequestId → List ExecutionGroup → Prop}
  (hopened : ∀ done gs gid rid s, P done gs → v.req rid = some (Rs.core s) → s.isWaiting = true →
    (∀ g ∈ gs, g.admits env s = false) → P (done ++ [rid]) (gs ++ [.opened env gid rid s]))
  (hadded : ∀ done before g after rid s, P done (before ++ g :: after) →
    v.req rid = some (Rs.core s) → s.isWaiting = true → g.admits env s = true →
    (∀ x ∈ before, x.admits env s = false) →
    P (done ++ [rid]) (before ++ g.add rid s :: after))

include hopened hadded

/-- One more candidate is dealt with. -/
theorem Impl.placeCandidate_dealt {acc : Impl × List ExecutionGroup} {done : List RequestId}
    (hview : acc.1.view.req = v.req) {rid : RequestId} {s : Rs} (hs : v.req rid = some s)
    (hwait : s.isWaiting = true) (h : P done acc.2) :
    (placeCandidate env acc rid).1.view.req = v.req ∧
      P (done ++ [rid]) (placeCandidate env acc rid).2 := by
  rw [← hview] at hs
  obtain ⟨t, ht, rfl⟩ := exists_of_view_req hs
  rw [hview] at hs
  rw [placeCandidate, ht]
  dsimp only
  rw [if_neg (by rw [show t.isWaiting = true from hwait]; exact Bool.false_ne_true)]
  cases hpack : packInto env rid t acc.2 with
  | none => exact ⟨hview, hopened _ _ _ _ t h hs hwait (admits_of_packInto_eq_none hpack)⟩
  | some groups =>
    obtain ⟨before, g, after, heq, rfl, hadmits, hbefore⟩ := exists_first_of_packInto hpack
    rw [heq] at h
    exact ⟨(congrArg View.req (view_noteRequest _ _ _)).trans hview,
      hadded _ _ _ _ _ t h hs hwait hadmits hbefore⟩

/-- **The rule for formation**, for all groups together and with the candidates dealt with so
far: what holds of no candidates and no groups, and is kept when a candidate opens a group or
goes into the first that admits it, holds of the candidates and the groups formed. -/
theorem Impl.formGroups_dealt (h₀ : P [] []) {σ : Impl} (hview : σ.view.req = v.req)
    {cands : List RequestId}
    (hwait : ∀ r ∈ cands, ∃ s, v.req r = some s ∧ s.isWaiting = true) :
    P cands (formGroups env cands σ).2 := by
  have hfold : ∀ (done : List RequestId) (acc : Impl × List ExecutionGroup),
      acc.1.view.req = v.req → P done acc.2 →
      P (done ++ cands) (cands.foldl (placeCandidate env) acc).2 := by
    induction cands with
    | nil =>
      intro done acc _ h
      rwa [List.append_nil]
    | cons rid cands ih =>
      intro done acc hacc h
      obtain ⟨⟨s, hs, hs'⟩, hrest⟩ := List.forall_mem_cons.mp hwait
      obtain ⟨hacc', h'⟩ := placeCandidate_dealt hopened hadded hacc hs hs' h
      have hdone := ih hrest (done ++ [rid]) _ hacc' h'
      rwa [List.append_assoc, List.singleton_append] at hdone
  exact hfold [] (σ, []) hview h₀

end Rule

/-! ### A partition in the order of service -/

/-- **The groups that a list of candidates is packed into**: each candidate is in one of them and
once, in each they stand in the order of the list, and the groups stand in the order of the
candidates they were opened for. -/
structure Packed (cands : List RequestId) (gs : List ExecutionGroup) : Prop where
  perm : (gs.flatMap (·.rids)).Perm cands
  members : ∀ g ∈ gs, g.rids.Sublist cands
  firsts : (gs.map (·.rids.headD .nil)).Sublist cands

namespace Packed

variable {env : Env} {done : List RequestId} {gs before after : List ExecutionGroup}
  {g : ExecutionGroup} {rid : RequestId} {s : Rs}

theorem nil : Packed [] [] := ⟨.refl _, fun _ hg => absurd hg List.not_mem_nil, .slnil⟩

theorem opened (h : Packed done gs) (gid : GroupId) :
    Packed (done ++ [rid]) (gs ++ [.opened env gid rid s]) where
  perm := by
    rw [List.flatMap_append]
    exact h.perm.append_right [rid]
  members := by
    refine List.forall_mem_append.mpr ⟨fun g hg => ?_, List.forall_mem_singleton.mpr ?_⟩
    · exact (h.members g hg).trans (List.sublist_append_left ..)
    · exact List.sublist_append_right done [rid]
  firsts := by
    rw [List.map_append]
    exact h.firsts.append (.refl [rid])

theorem rids_add : (g.add rid s).rids = g.rids ++ [rid] := List.map_append

theorem added (h : Packed done (before ++ g :: after)) (hne : g.members ≠ []) :
    Packed (done ++ [rid]) (before ++ g.add rid s :: after) where
  perm := by
    have hperm := h.perm
    rw [List.flatMap_append, List.flatMap_cons] at hperm ⊢
    rw [rids_add]
    have hswap : (before.flatMap (·.rids) ++ (g.rids ++ [rid] ++ after.flatMap (·.rids))).Perm
        (before.flatMap (·.rids) ++ (g.rids ++ after.flatMap (·.rids)) ++ [rid]) := by
      rw [List.append_assoc, List.append_assoc, List.append_assoc]
      exact (List.perm_append_comm.append_left _).append_left _
    exact hswap.trans (hperm.append_right [rid])
  members := by
    intro x hx
    rcases List.mem_append.mp hx with hx | hx
    · exact (h.members x (List.mem_append_left _ hx)).trans (List.sublist_append_left ..)
    · rcases List.mem_cons.mp hx with rfl | hx
      · rw [rids_add]
        exact (h.members g (List.mem_append_right _ List.mem_cons_self)).append (.refl [rid])
      · exact (h.members x (List.mem_append_right _ (List.mem_cons_of_mem g hx))).trans
          (List.sublist_append_left ..)
  firsts := by
    have hfirst : (g.add rid s).rids.headD .nil = g.rids.headD .nil := by
      rw [rids_add]
      cases hm : g.rids with
      | nil => exact absurd (List.map_eq_nil_iff.mp hm) hne
      | cons _ _ => rfl
    have hsub := h.firsts
    rw [List.map_append, List.map_cons] at hsub ⊢
    rw [hfirst]
    exact hsub.trans (List.sublist_append_left ..)

end Packed

namespace Impl

variable {env : Env} {now : Nanoseconds} {σ : Impl}

/-- Whoever is a candidate waits. -/
theorem isWaiting_of_mem_sortedCandidates (r : RequestId) (hr : r ∈ σ.sortedCandidates env now) :
    ∃ s, σ.view.req r = some s ∧ s.isWaiting = true := by
  obtain ⟨s, hs, hwait⟩ := mem_candidates.mp (mem_sortedCandidates.mp hr)
  exact ⟨s.core, view_req hs, hwait⟩

/-- **The groups of a cycle are a partition of the waiting requests**, in the order of service. -/
theorem packed_formed (env : Env) (now : Nanoseconds) (σ : Impl) :
    Packed ((σ.expirySweep now).sortedCandidates env now) (σ.formed env now) := by
  refine (formGroups_dealt (v := (σ.expirySweep now).view)
    (P := fun done gs => Packed done gs ∧ ∀ g ∈ gs, g.members ≠ [])
    (fun done gs gid rid s h _ _ _ => ⟨h.1.opened gid, ?_⟩)
    (fun done before g after rid s h _ _ _ _ => ⟨h.1.added (h.2 g ?_), ?_⟩)
    ⟨.nil, List.forall_mem_nil _⟩ rfl isWaiting_of_mem_sortedCandidates).1
  · exact List.forall_mem_append.mpr ⟨h.2, List.forall_mem_singleton.mpr (List.cons_ne_nil _ _)⟩
  · exact List.mem_append_right _ List.mem_cons_self
  · obtain ⟨hbefore, hafter⟩ := List.forall_mem_append.mp h.2
    exact List.forall_mem_append.mpr ⟨hbefore, List.forall_mem_cons.mpr
      ⟨List.append_ne_nil_of_right_ne_nil _ (List.cons_ne_nil _ _),
        (List.forall_mem_cons.mp hafter).2⟩⟩

/-- The backend of a group that is formed is that of its key. -/
theorem backend_of_mem_formed {g : ExecutionGroup} (hg : g ∈ σ.formed env now) :
    g.backend = g.key.backend :=
  (formGroups_rec (P := fun g => g.backend = g.key.backend) (fun _ _ _ _ _ => rfl)
    (fun _ _ _ h _ _ _ => h) _ rfl).2 g hg

end Impl

/-! ### No group without need -/

namespace ExecutionGroup

variable {env : Env} {g g' : ExecutionGroup} {m : ExecutableMember} {rid : RequestId} {s : Rs}

/-- **A group has no room for a member** under one of the limits of the policy, counted without a
bound. -/
def Crowded (env : Env) (g : ExecutionGroup) (m : ExecutableMember) : Prop :=
  env.cfg.maxRequestsPerGroup.toNat < g.members.length + 1 ∨
    env.cfg.maxTokensPerGroup.toNat < g.tokenSum + m.tokenCount ∨
    env.cfg.maxComputePerGroup.toNat < g.computeSum + m.computeEstimate.toNat ∨
    env.cfg.maxMemoryPerGroup.toNat <
      max g.maxMemoryEstimateBytes.toNat m.memoryEstimateBytes.toNat

/-- Where there is no room there is none once a member has been added. -/
theorem Crowded.add (h : g.Crowded env m) (rid : RequestId) (s : Rs) :
    (g.add rid s).Crowded env m := by
  rw [Crowded, length_add, tokenSum_add, computeSum_add]
  rcases h with h | h | h | h
  · exact Or.inl (by omega)
  · exact Or.inr (Or.inl (by omega))
  · exact Or.inr (Or.inr (Or.inl (by omega)))
  · refine Or.inr (Or.inr (Or.inr (h.trans_le (max_le_max_right _ ?_))))
    show _ ≤ (max g.maxMemoryEstimateBytes s.nextChunk.memoryEstimateBytes).toNat
    rw [UInt64.toNat_max]
    exact le_max_left ..

/-- **Whoever is turned away by a group with its key finds no room there.** A sum that has wrapped
around is less than what it stands for, so no one is turned away on its account. -/
theorem Tallied.crowded (h : g.Tallied env) (hkey : g.key = makeCompatKey env s.request)
    (hadmits : g.admits env s = false) (rid : RequestId) (i : ℕ) :
    g.Crowded env (s.nextMember rid i) := by
  by_contra hroom
  simp only [Crowded, not_or, not_lt] at hroom
  obtain ⟨hlength, htokens, hcompute, hmemory⟩ := hroom
  refine Bool.eq_false_iff.mp hadmits ?_
  simp only [admits, Bool.and_eq_true, decide_eq_true_eq]
  refine ⟨⟨⟨⟨hkey, ?_⟩, ?_⟩, ?_⟩, ?_⟩
  · exact (Nat.add_le_add_right (Nat.mod_le ..) 1).trans hlength
  · rw [h.totalTokenCount, Nat.mod_add_mod]
    exact (Nat.mod_le ..).trans htokens
  · rw [UInt64.le_iff_toNat_le, UInt64.toNat_add, h.sumComputeEstimate, Nat.mod_add_mod]
    exact (Nat.mod_le ..).trans hcompute
  · rw [UInt64.le_iff_toNat_le, UInt64.toNat_max]
    exact hmemory

/-- The later of two groups was not opened without need. -/
def NeededAfter (env : Env) (g g' : ExecutionGroup) : Prop :=
  g.key = g'.key → ∀ m, g'.members.head? = some m → g.Crowded env m

theorem NeededAfter.add_left (h : g.NeededAfter env g') (rid : RequestId) (s : Rs) :
    (g.add rid s).NeededAfter env g' :=
  fun hkey m hm => (h hkey m hm).add rid s

theorem NeededAfter.add_right (h : g.NeededAfter env g') (hne : g'.members ≠ []) (rid : RequestId)
    (s : Rs) : g.NeededAfter env (g'.add rid s) := by
  intro hkey m hm
  refine h hkey m ?_
  rw [← hm, ExecutionGroup.add, List.head?_append_of_ne_nil _ hne]

end ExecutionGroup

/-- **No group is opened without need.** Under every policy and in every state, of any two groups
of a cycle with the same key the earlier one has no room for the chunk for which the later one was
opened. -/
theorem Impl.pairwise_neededAfter (env : Env) (now : Nanoseconds) (σ : Impl) :
    (σ.formed env now).Pairwise (ExecutionGroup.NeededAfter env) := by
  refine (Impl.formGroups_dealt (v := (σ.expirySweep now).view)
    (P := fun _ gs => (∀ g ∈ gs, g.Tallied env ∧ g.members ≠ []) ∧
      gs.Pairwise (ExecutionGroup.NeededAfter env))
    (fun done gs gid rid s hgs hs hwait hadmits => ?_)
    (fun done before g after rid s hgs hs hwait hadmits _ => ?_)
    ⟨List.forall_mem_nil _, .nil⟩ rfl Impl.isWaiting_of_mem_sortedCandidates).2
  · refine ⟨List.forall_mem_append.mpr ⟨hgs.1, List.forall_mem_singleton.mpr
      ⟨ExecutionGroup.tallied_opened gid rid s, List.cons_ne_nil _ _⟩⟩,
      List.pairwise_append.mpr ⟨hgs.2, List.pairwise_singleton .., fun g hg x hx => ?_⟩⟩
    obtain rfl := List.mem_singleton.mp hx
    rintro hkey m hm
    obtain rfl := Option.some.inj hm
    exact (hgs.1 g hg).1.crowded hkey (hadmits g hg) rid _
  · obtain ⟨hall, hpairs⟩ := hgs
    obtain ⟨hbefore, hafter⟩ := List.forall_mem_append.mp hall
    obtain ⟨⟨htallied, hne⟩, hafter⟩ := List.forall_mem_cons.mp hafter
    obtain ⟨hpb, hpa, hcross⟩ := List.pairwise_append.mp hpairs
    obtain ⟨hg, hpa⟩ := List.pairwise_cons.mp hpa
    refine ⟨List.forall_mem_append.mpr ⟨hbefore, List.forall_mem_cons.mpr
      ⟨⟨htallied.add hadmits rid,
        List.append_ne_nil_of_right_ne_nil _ (List.cons_ne_nil _ _)⟩, hafter⟩⟩,
      List.pairwise_append.mpr ⟨hpb, List.pairwise_cons.mpr
        ⟨fun x hx => (hg x hx).add_left rid s, hpa⟩, fun x hx y hy => ?_⟩⟩
    rcases List.mem_cons.mp hy with rfl | hy
    · exact (hcross x hx g List.mem_cons_self).add_right hne rid s
    · exact hcross x hx y (List.mem_cons_of_mem g hy)

/-- Groups of one request each. -/
def Env.oneByOne : Env := { Env.standard with cfg := { maxRequestsPerGroup := 1 } }

/-- Two requests that could be packed together. -/
def Run.twoAlike : List Call :=
  [⟨0, .submitWithTokens (plainRequest 1 2) [5, 6]⟩,
    ⟨0, .submitWithTokens (plainRequest 2 2) [7, 8]⟩]

/-- There are two groups for them, since the first is full. -/
example : (((Run.fresh .oneByOne Run.twoAlike).stateAt 2).formed .oneByOne 0).map (·.rids) =
    [[⟨1⟩], [⟨2⟩]] := by
  decide +kernel

end PrefillFabric
