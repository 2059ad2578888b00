import PrefillFabric.Scheduler.GroupMemory

/-!
# Which worker takes which group

The second half of a cycle goes through the groups it has formed, one after the other. A group is
given to a worker that is there, matches and has a unit free, to the one with the lowest identity
if there are several, and then its memory is reserved; where there is no such worker or not enough
memory the group is put off, and the next one is tried. What the groups before have taken counts.

Two things are said of this loop, over all of its rounds. The batch it hands out is what this rule
gives, computed from the workers as they were before (`Lowest`): the units a worker has free for
the group number `i` are those it had, less the groups before `i` that went to it. And the loop is
greedy to the end (`Life.cycle_greedy`): when it is over, no group that was put off could still be
dispatched, since the room there is only shrinks as the loop goes on.
-/

namespace PrefillFabric

/-- A worker with some more groups. -/
def Ws.loaded (k : ℕ) (ws : Ws) : Ws := { ws with busyUnits := ws.busyUnits + k }

theorem Ws.loaded_loaded (ws : Ws) (k l : ℕ) : (ws.loaded k).loaded l = ws.loaded (k + l) := by
  rw [loaded, loaded, loaded, Nat.add_assoc]

/-- The number of the groups that are on a worker. -/
def load (ds : List DispatchedGroup) (w : WorkerId) : ℕ := (ds.map (·.assignedWorker)).count w

theorem load_concat (ds : List DispatchedGroup) (d : DispatchedGroup) (w : WorkerId) :
    load (ds ++ [d]) w = load ds w + if w = d.assignedWorker then 1 else 0 := by
  rw [load, List.map_append, List.count_append, List.map_singleton, List.count_singleton, load]
  refine congrArg _ (if_congr ?_ rfl rfl)
  rw [beq_iff_eq, eq_comm]

namespace Impl

variable {env : Env} {now : Nanoseconds} {σ τ υ : Impl} {g : ExecutionGroup}
  {acc : Impl × DispatchBatch} {backend : String} {w : WorkerId} {ws : Ws}

/-! ### The worker that is chosen -/

theorem value_le_of_foldl_lesser {l : List WorkerId} {c : Option WorkerId}
    (h : l.foldl lesser c = some w) :
    (∀ x ∈ c, w.value ≤ x.value) ∧ ∀ x ∈ l, w.value ≤ x.value := by
  induction l generalizing c with
  | nil =>
    refine ⟨fun x hx => ?_, List.forall_mem_nil _⟩
    obtain rfl := Option.some.inj (h.symm.trans hx)
    exact le_rfl
  | cons y l ih =>
    obtain ⟨hc, hl⟩ := ih h
    cases c with
    | none => exact ⟨fun x hx => (nomatch hx), List.forall_mem_cons.mpr ⟨hc y rfl, hl⟩⟩
    | some z =>
      simp only [lesser] at hc
      split_ifs at hc with hlt
      · have hy := hc y rfl
        refine ⟨fun x hx => ?_, List.forall_mem_cons.mpr ⟨hy, hl⟩⟩
        obtain rfl := Option.some.inj hx
        exact hy.trans hlt.le
      · have hz := hc z rfl
        refine ⟨fun x hx => ?_, List.forall_mem_cons.mpr ⟨hz.trans (not_lt.mp hlt), hl⟩⟩
        obtain rfl := Option.some.inj hx
        exact hz

/-- **No worker with a lower identity could have been chosen.** -/
theorem chooseWorker_least {w' : WorkerId} (h : chooseWorker backend σ = some w)
    (hw' : σ.workers.lookup w' = some ws) (helig : eligible backend ws = true) :
    w.value ≤ w'.value := by
  rw [chooseWorker_eq_foldl] at h
  refine (value_le_of_foldl_lesser h).2 w' (List.mem_map.mpr ⟨⟨w', ws⟩, ?_, rfl⟩)
  exact List.mem_filter.mpr ⟨AList.mem_lookup_iff.mp hw', helig⟩

/-- More groups make no worker eligible. -/
theorem eligible_of_loaded {k : ℕ} (h : eligible backend (ws.loaded k) = true) :
    eligible backend ws = true := by
  simp only [eligible, Bool.and_eq_true, decide_eq_true_eq] at h ⊢
  exact ⟨⟨h.1.1, lt_of_le_of_lt (Nat.le_add_right _ k) h.1.2⟩, h.2⟩

/-! ### Rounds of the loop -/

/-- **One round**: the workers and the batch are as they were, or the group is in the batch, with
the worker that was chosen for it, and this worker has one more. -/
theorem dispatchGroup_assigns (now : Nanoseconds) (acc : Impl × DispatchBatch)
    (g : ExecutionGroup) :
    ((dispatchGroup now acc g).1.workers = acc.1.workers ∧
      (dispatchGroup now acc g).2.groups = acc.2.groups) ∨
    ∃ d, (dispatchGroup now acc g).2.groups = acc.2.groups ++ [d] ∧
      chooseWorker d.group.backend acc.1 = some d.assignedWorker ∧
      (dispatchGroup now acc g).1.workers =
        AList.modify d.assignedWorker (Ws.loaded 1) acc.1.workers := by
  obtain ⟨σ, batch⟩ := acc
  rw [dispatchGroup]
  split_ifs
  · exact Or.inl ⟨rfl, rfl⟩
  cases hw : chooseWorker g.backend σ with
  | none => exact Or.inl ⟨congrArg Surroundings.workers (around_noteAll _ _ σ), rfl⟩
  | some w =>
    have hreserve := congrArg Surroundings.workers (around_reserveMembers g.rids σ)
    dsimp only
    split_ifs
    · obtain ⟨d, hgroups, hplain, -, rfl⟩ :=
        groups_commitGroup now w g batch (reserveMembers g.rids σ).1
      have hbackend : d.group.plain.backend = g.plain.backend :=
        congrArg (fun g : ExecutionGroup => g.backend) hplain
      change d.group.backend = g.backend at hbackend
      refine Or.inr ⟨d, hgroups, hbackend ▸ hw, ?_⟩
      rw [← show (reserveMembers g.rids σ).1.workers = σ.workers from hreserve]
      exact congrArg (AList.modify d.assignedWorker (Ws.loaded 1)) (congrArg Surroundings.workers
        (around_commitMembers now g.groupId d.assignedWorker g.members _))
    · refine Or.inl ⟨(congrArg Surroundings.workers ((around_noteAll _ _ _).trans
        (foldl_frame (q := around) (f := undoReservation) (fun _ _ => rfl) _ _))).trans hreserve,
        rfl⟩

/-- **The lowest worker with room**: the group goes to a worker that has a unit left for it, after
the groups before, and none with a lower identity has. -/
structure Lowest (base : Table WorkerId Ws) (before : List DispatchedGroup)
    (d : DispatchedGroup) : Prop where
  room : ∃ ws, base.lookup d.assignedWorker = some ws ∧
    eligible d.group.backend (ws.loaded (load before d.assignedWorker)) = true
  least : ∀ w ws, base.lookup w = some ws →
    eligible d.group.backend (ws.loaded (load before w)) = true →
    d.assignedWorker.value ≤ w.value

/-- What holds between two rounds: the workers have what is in the batch, and each group of the
batch is where it belongs. -/
structure Assigned (base : Table WorkerId Ws) (acc : Impl × DispatchBatch) : Prop where
  workers : ∀ w, acc.1.workers.lookup w = (base.lookup w).map (Ws.loaded (load acc.2.groups w))
  lowest : ∀ i d, acc.2.groups[i]? = some d → Lowest base (acc.2.groups.take i) d

theorem Assigned.dispatchGroup {base : Table WorkerId Ws} (h : Assigned base acc)
    (now : Nanoseconds) (g : ExecutionGroup) : Assigned base (dispatchGroup now acc g) := by
  rcases dispatchGroup_assigns now acc g with ⟨hworkers, hgroups⟩ | ⟨d, hgroups, hw, hworkers⟩
  · constructor
    · rw [hworkers, hgroups]
      exact h.workers
    · rw [hgroups]
      exact h.lowest
  · constructor
    · intro w
      rw [hworkers, hgroups, AList.lookup_modify, load_concat, h.workers, h.workers]
      split_ifs with heq
      · rw [heq, Option.map_map]
        rfl
      · rfl
    · intro i e he
      rw [hgroups] at he ⊢
      rcases Nat.lt_or_ge i acc.2.groups.length with hlt | hge
      · rw [List.getElem?_append_left hlt] at he
        rw [List.take_append_of_le_length hlt.le]
        exact h.lowest i e he
      · -- it is the group of this round
        rw [List.getElem?_append_right hge, List.getElem?_singleton] at he
        split_ifs at he with hi
        obtain rfl := Option.some.inj he
        obtain rfl : i = acc.2.groups.length := by omega
        rw [List.take_left]
        constructor
        · obtain ⟨ws, hws, helig⟩ := exists_of_chooseWorker hw
          rw [h.workers] at hws
          obtain ⟨ws₀, hws₀, rfl⟩ := Option.map_eq_some_iff.mp hws
          exact ⟨ws₀, hws₀, helig⟩
        · intro w ws hws helig
          refine chooseWorker_least hw ?_ helig
          rw [h.workers, hws, Option.map_some]

/-! ### What is left -/

/-- **There is less room**: the workers have more groups, if anything, and more memory is
reserved. -/
structure LessRoom (σ τ : Impl) : Prop where
  workers : ∀ w ws, τ.workers.lookup w = some ws →
    ∃ ws₀ k, σ.workers.lookup w = some ws₀ ∧ ws = ws₀.loaded k
  reserved : σ.mem.reserved ≤ τ.mem.reserved
  budget : τ.mem.budget = σ.mem.budget

theorem LessRoom.refl (σ : Impl) : LessRoom σ σ := ⟨fun _ ws h => ⟨ws, 0, h, rfl⟩, le_rfl, rfl⟩

theorem LessRoom.trans (h : LessRoom σ τ) (h' : LessRoom τ υ) : LessRoom σ υ where
  workers w ws hws := by
    obtain ⟨ws', l, hws', rfl⟩ := h'.workers w ws hws
    obtain ⟨ws₀, k, hws₀, rfl⟩ := h.workers w ws' hws'
    exact ⟨ws₀, k + l, hws₀, ws₀.loaded_loaded k l⟩
  reserved := h.reserved.trans h'.reserved
  budget := h'.budget.trans h.budget

/-- **What cannot be dispatched cannot be with less room.** -/
theorem LessRoom.takes (h : LessRoom σ τ) (hbytes : τ.bytesOf g.rids = σ.bytesOf g.rids)
    (htakes : τ.Takes g) : σ.Takes g := by
  obtain ⟨⟨w, ws, hws, helig⟩, hmem⟩ := htakes
  obtain ⟨ws₀, k, hws₀, rfl⟩ := h.workers w ws hws
  refine ⟨⟨w, ws₀, hws₀, eligible_of_loaded helig⟩, ?_⟩
  have hreserved := h.reserved
  rw [MemoryGovernor.Affords, hbytes, h.budget] at hmem
  rw [MemoryGovernor.Affords]
  omega

/-- A round takes room, if anything. -/
theorem lessRoom_dispatchGroup {gs : List ExecutionGroup} (hwf : acc.1.view.Wf)
    (hformed : acc.1.view.Formed (g :: gs)) (now : Nanoseconds) :
    LessRoom acc.1 (dispatchGroup now acc g).1 where
  workers w ws hws := by
    rcases dispatchGroup_assigns now acc g with ⟨hworkers, -⟩ | ⟨d, -, -, hworkers⟩
    · rw [hworkers] at hws
      exact ⟨ws, 0, hws, rfl⟩
    · rw [hworkers, AList.lookup_modify] at hws
      split_ifs at hws with heq
      · obtain ⟨ws₀, hws₀, rfl⟩ := Option.map_eq_some_iff.mp hws
        exact ⟨ws₀, 1, heq ▸ hws₀, rfl⟩
      · exact ⟨ws, 0, hws, rfl⟩
  reserved := by
    obtain ⟨σ, batch⟩ := acc
    by_cases htakes : σ.Takes g
    · obtain ⟨w, hcommit⟩ := dispatchGroup_of_takes hwf hformed htakes now batch
      have hmem : (commitMembers now g.groupId w g.members (reserveMembers g.rids σ).1).1.mem =
          (reserveMembers g.rids σ).1.mem := mem_commitMembers ..
      rw [hcommit]
      refine le_trans ?_ (congrArg MemoryGovernor.reserved hmem).ge
      rw [(reserved_reserveMembers g.rids σ).1]
      exact Nat.le_add_right _ _
    · exact (spared_dispatchGroup hwf hformed htakes now batch).2.reserved.ge
  budget := budget_dispatchGroup acc g

theorem lessRoom_foldl_dispatchGroup (env : Env) {gs : List ExecutionGroup} (hwf : acc.1.view.Wf)
    (hformed : acc.1.view.Formed gs) (now : Nanoseconds) :
    LessRoom acc.1 (gs.foldl (dispatchGroup now) acc).1 := by
  induction gs generalizing acc with
  | nil => exact .refl _
  | cons g gs ih =>
    obtain ⟨ms, heffects, -, hrest⟩ := dispatchGroup_spec env now hwf hformed
    exact (lessRoom_dispatchGroup hwf hformed now).trans (ih (heffects.wf hwf) hrest)

/-! ### The cycle -/

/-- **What is put off could not be dispatched at the end of the cycle either.** -/
theorem dispatched_or_not_takes (hwf : σ.view.Wf) (hg : g ∈ σ.formed env now) :
    (∃ d ∈ (σ.runCycle env now).2.groups, d.group.plain = g.plain) ∨
      ¬(σ.runCycle env now).1.Takes g := by
  obtain ⟨before, after, hsplit⟩ := List.append_of_mem hg
  obtain ⟨hwf', hformed, -⟩ := tried_spec hwf hsplit
  have hreq := fun r (hr : r ∈ g.rids) => req_runCycle_of_split hwf hsplit hr
  by_cases htakes : (σ.tried env now before).1.Takes g
  · obtain ⟨w, hcommit⟩ := dispatchGroup_of_takes hwf' hformed htakes now (σ.tried env now before).2
    obtain ⟨d, hgroups, hplain, -, -⟩ := groups_commitGroup now w g (σ.tried env now before).2
      (reserveMembers g.rids (σ.tried env now before).1).1
    refine Or.inl ⟨d, ?_, hplain⟩
    rw [runCycle_eq_tried, hsplit, tried_append, List.foldl_cons]
    refine mem_groups_foldl after ?_
    rw [hcommit, hgroups]
    exact List.mem_append_right _ (List.mem_singleton_self d)
  · obtain ⟨-, hspared⟩ := spared_dispatchGroup hwf' hformed htakes now (σ.tried env now before).2
    refine Or.inr fun hend => htakes (LessRoom.takes ?_ ?_ hend)
    · rw [runCycle_eq_tried, hsplit, tried_append]
      have hroom := lessRoom_foldl_dispatchGroup env hwf' hformed now
      generalize (g :: after).foldl (dispatchGroup now) (σ.tried env now before) = done at hroom
      have hworkers : done.1.ageWaiting.refreshStats.workers = done.1.workers :=
        congrArg Surroundings.workers (around_ageWaiting done.1)
      have hmem : done.1.ageWaiting.refreshStats.mem = done.1.mem :=
        congrArg View.mem (view_ageWaiting done.1)
      constructor
      · rw [hworkers]
        exact hroom.workers
      · rw [hmem]
        exact hroom.reserved
      · rw [hmem]
        exact hroom.budget
    · refine congrArg List.sum (List.map_congr_left fun r hr => ?_)
      rw [nextChunkOf_eq, nextChunkOf_eq, hreq r hr]
      exact congrArg (fun f => ((f r).getD {}).nextChunk.memoryEstimateBytes.toNat) hspared.req

/-- **The batch of a cycle**, group by group. -/
theorem lowest_of_getElem? {i : ℕ} {d : DispatchedGroup}
    (hd : (σ.runCycle env now).2.groups[i]? = some d) :
    Lowest (σ.expirySweep now).workers ((σ.runCycle env now).2.groups.take i) d := by
  have hstart : Assigned (σ.expirySweep now).workers ((formGroups env
      ((σ.expirySweep now).sortedCandidates env now) (σ.expirySweep now)).1, {}) := by
    have hworkers := congrArg Surroundings.workers (around_formGroups env
      ((σ.expirySweep now).sortedCandidates env now) (σ.expirySweep now))
    constructor
    · intro w
      rw [show (formGroups env ((σ.expirySweep now).sortedCandidates env now)
        (σ.expirySweep now)).1.workers = (σ.expirySweep now).workers from hworkers]
      cases (σ.expirySweep now).workers.lookup w <;> rfl
    · intro i d hd
      exact absurd hd (Option.some_ne_none d).symm
  have hdone : Assigned (σ.expirySweep now).workers (σ.tried env now (σ.formed env now)) :=
    List.foldlRecOn _ (dispatchGroup now) (motive := Assigned (σ.expirySweep now).workers) hstart
      fun acc h g _ => h.dispatchGroup now g
  exact hdone.lowest i d hd

end Impl

/-- **A cycle is greedy.** In every state a scheduler can be in: of the groups that a cycle forms,
each is dispatched, or cannot be dispatched even with what is left when the cycle is over, for want
of a worker or of memory. And each group of the batch goes to the worker with the lowest identity
that has a unit left for it, after those before it in the batch. -/
theorem Life.cycle_greedy (ℓ : Life) (n : ℕ) (now : Nanoseconds) :
    (∀ g ∈ (ℓ.stateAt n).formed ℓ.env now,
      (∃ d ∈ ((ℓ.stateAt n).runCycle ℓ.env now).2.groups, d.group.plain = g.plain) ∨
        ¬((ℓ.stateAt n).runCycle ℓ.env now).1.Takes g) ∧
      ∀ i d, ((ℓ.stateAt n).runCycle ℓ.env now).2.groups[i]? = some d →
        Impl.Lowest ((ℓ.stateAt n).expirySweep now).workers
          (((ℓ.stateAt n).runCycle ℓ.env now).2.groups.take i) d :=
  ⟨fun _ hg => Impl.dispatched_or_not_takes (ℓ.wf n) hg, fun _ _ hd => Impl.lowest_of_getElem? hd⟩

end PrefillFabric
