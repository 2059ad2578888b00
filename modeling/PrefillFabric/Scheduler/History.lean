import PrefillFabric.Scheduler.Simulation

/-!
# Histories

A `Run` is a scheduler in some state and the calls made to it. Along it,
`Run.emitted` are the members each cycle hands out and `Run.Accepted` says that a
completion was taken. A member is *awaited* (`Impl.Awaits`) as long as its request is
in flight under the attempt and the generation of the member.

Two facts tie the one to the other. Generations are handed out in order, so that a
member is known by its generation (`Run.emitted_unique`); and whatever is in flight
was handed out by an earlier cycle and has been awaited ever since
(`Run.exists_dispatch`).
-/

namespace PrefillFabric

/-! ### Members that are awaited -/

/-- What a completion has to name: request, attempt, generation and worker. -/
def ExecutableMember.ticket (m : ExecutableMember) :
    RequestId × AttemptId × Generation × WorkerId :=
  (m.requestId, m.attemptId, m.generation, m.assignedWorker)

/-- The request of the member is in flight, under the member's attempt and
generation, on the member's worker. -/
structure Rs.Awaits (s : Rs) (m : ExecutableMember) : Prop where
  inFlight : s.inFlight = true
  lifecycle : s.lifecycle.isTerminal = false
  attempt : s.attempt = m.attemptId
  generation : s.currentGeneration = m.generation
  worker : s.dispatchedWorker = m.assignedWorker

/-- A record awaits one ticket at a time. -/
theorem Rs.Awaits.ticket_eq {s : Rs} {m m' : ExecutableMember} (h : s.Awaits m) (h' : s.Awaits m')
    (hid : m'.requestId = m.requestId) : m'.ticket = m.ticket := by
  rw [ExecutableMember.ticket, ExecutableMember.ticket, hid, ← h.attempt, ← h.generation,
    ← h.worker, ← h'.attempt, ← h'.generation, ← h'.worker]

theorem Rs.Awaits.of_ticket {s : Rs} {m m' : ExecutableMember} (h : s.Awaits m)
    (hticket : m'.ticket = m.ticket) : s.Awaits m' := by
  simp only [ExecutableMember.ticket, Prod.mk.injEq] at hticket
  obtain ⟨-, hattempt, hgen, hworker⟩ := hticket
  exact ⟨h.inFlight, h.lifecycle, h.attempt.trans hattempt.symm, h.generation.trans hgen.symm,
    h.worker.trans hworker.symm⟩

/-- The completion of the member is awaited. -/
def Impl.Awaits (σ : Impl) (m : ExecutableMember) : Prop :=
  ∃ s, σ.requests.lookup m.requestId = some s ∧ s.Awaits m

/-- The completion of the member is awaited, in the view. -/
def View.Awaits (v : View) (m : ExecutableMember) : Prop :=
  ∃ s, v.req m.requestId = some s ∧ s.Awaits m

namespace Impl

variable {σ : Impl}

theorem view_req {r : RequestId} {s : Rs} (h : σ.requests.lookup r = some s) :
    σ.view.req r = some s.core :=
  congrArg (Option.map Rs.core) h

theorem exists_of_view_req {r : RequestId} {t : Rs} (h : σ.view.req r = some t) :
    ∃ s, σ.requests.lookup r = some s ∧ s.core = t :=
  Option.map_eq_some_iff.mp h

theorem view_awaits {m : ExecutableMember} : σ.view.Awaits m ↔ σ.Awaits m := by
  constructor
  · rintro ⟨t, ht, h⟩
    obtain ⟨s, hs, rfl⟩ := exists_of_view_req ht
    exact ⟨s, hs, ⟨h.1, h.2, h.3, h.4, h.5⟩⟩
  · rintro ⟨s, hs, h⟩
    exact ⟨s.core, view_req hs, ⟨h.1, h.2, h.3, h.4, h.5⟩⟩

theorem Awaits.of_ticket {m m' : ExecutableMember} (h : σ.Awaits m)
    (hticket : m'.ticket = m.ticket) : σ.Awaits m' := by
  obtain ⟨s, hs, hawaits⟩ := h
  have hid : m'.requestId = m.requestId := congrArg Prod.fst hticket
  exact ⟨s, by rw [hid]; exact hs, hawaits.of_ticket hticket⟩

end Impl

variable {env : Env} {v v' : View} {l : Label} {L : Label → Prop} {r : RequestId}

theorem Rs.finished_inFlight (env : Env) (o : MemberOutcome) (a : AttemptId) (s : Rs) :
    (s.finished env o a).inFlight = false := by
  have hadv : ∀ t : Rs, t.inFlight = false → t.advanced.inFlight = false := by
    intro t ht
    unfold Rs.advanced
    split_ifs <;> exact ht
  have hsettled : ((s.landed env).settled env o a).inFlight = false := by
    cases o with
    | success => exact hadv _ rfl
    | needsNextChunk => exact hadv _ rfl
    | retryableFailure =>
      unfold Rs.settled
      dsimp only
      split_ifs <;> rfl
    | _ => rfl
  exact (Rs.dropReservation_inFlight _).trans hsettled

theorem Rs.retried_inFlight (env : Env) (a : AttemptId) (s : Rs) :
    (s.retried env a).inFlight = false := by
  unfold Rs.retried
  split_ifs with h
  · rfl
  · exact Bool.eq_false_iff.mpr h

/-- What is awaited after something happened to a request was awaited before, or has
just been handed out. -/
theorem Fate.awaits {s s' : Rs} {m : ExecutableMember} (h : Fate env v m.requestId s l s')
    (hs' : s'.Awaits m) : s.Awaits m ∨ ∃ m' ∈ l.members, m'.ticket = m.ticket := by
  cases h with
  | keep => exact Or.inl hs'
  | expire => exact absurd hs'.lifecycle Bool.noConfusion
  | @launch ms m' _ _ _ hmem hr _ hcarries =>
    exact Or.inr ⟨m', hmem, hs'.ticket_eq ⟨rfl, rfl, hcarries.attempt.symm, rfl, rfl⟩ hr⟩
  | finish o =>
    exact absurd (hs'.inFlight.symm.trans (s.finished_inFlight env o _)) Bool.noConfusion
  | flag => exact Or.inl ⟨hs'.1, hs'.2, hs'.3, hs'.4, hs'.5⟩
  | cancel => exact absurd hs'.lifecycle Bool.noConfusion
  | withdraw => exact absurd hs'.inFlight Bool.noConfusion
  | retry => exact absurd (hs'.inFlight.symm.trans (s.retried_inFlight env _)) Bool.noConfusion
  | recover => exact absurd hs'.inFlight Bool.noConfusion

/-- What is awaited after an effect was awaited before, or has just been handed out. -/
theorem Effect.awaits {m : ExecutableMember} (h : Effect env v l v') (hm : v'.Awaits m) :
    v.Awaits m ∨ ∃ m' ∈ l.members, m'.ticket = m.ticket := by
  obtain ⟨s', hs', hawaits⟩ := hm
  rcases h.origin hs' with ⟨now, req, -, -, -, rfl⟩ | ⟨s, hr, hfate⟩
  · exact absurd hawaits.inFlight Bool.noConfusion
  · exact (hfate.awaits hawaits).imp_left fun hold => ⟨s, hr, hold⟩

theorem Effects.awaits {m : ExecutableMember} {ms : List ExecutableMember}
    (h : Effects env L v ms v') (hm : v'.Awaits m) :
    v.Awaits m ∨ ∃ m' ∈ ms, m'.ticket = m.ticket := by
  induction h with
  | refl => exact Or.inl hm
  | tail _ hl _ ih =>
    rcases hl.awaits hm with hold | ⟨m', hmem, hticket⟩
    · refine (ih hold).imp_right ?_
      rintro ⟨m', hmem, hticket⟩
      exact ⟨m', List.mem_append_left _ hmem, hticket⟩
    · exact Or.inr ⟨m', List.mem_append_right _ hmem, hticket⟩

/-! ### Generations -/

/-- **Generations are handed out in order**, and each is used up when it is. -/
theorem Effect.generations (h : Effect env v l v') :
    v'.nextGeneration = v.nextGeneration + l.members.length ∧
      l.members.map (·.generation.value) = List.range' v.nextGeneration l.members.length := by
  cases h with
  | idle h => exact ⟨h.nextGeneration, rfl⟩
  | @launch _ _ _ _ ms h =>
    refine ⟨h.nextGeneration, List.ext_getElem? fun i => ?_⟩
    change (ms.map (·.generation.value))[i]? = (List.range' v.nextGeneration ms.length)[i]?
    cases hi : ms[i]? with
    | none =>
      have hlen := List.getElem?_eq_none_iff.mp hi
      rw [List.getElem?_map, hi, List.getElem?_eq_none (by rwa [List.length_range'])]
      rfl
    | some m =>
      have hlen := (List.getElem?_eq_some_iff.mp hi).1
      rw [List.getElem?_map, hi, List.getElem?_range' hlen, Option.map_some, (h.member i m hi).1,
        Nat.one_mul]
  | lose h => exact ⟨h.nextGeneration, rfl⟩
  | _ => exact ⟨rfl, rfl⟩

theorem Effects.generations {ms : List ExecutableMember} (h : Effects env L v ms v') :
    v'.nextGeneration = v.nextGeneration + ms.length ∧
      ms.map (·.generation.value) = List.range' v.nextGeneration ms.length := by
  induction h with
  | refl => exact ⟨rfl, rfl⟩
  | tail _ hl _ ih =>
    obtain ⟨hnext, hmap⟩ := ih
    obtain ⟨hnext', hmap'⟩ := hl.generations
    refine ⟨by rw [hnext', hnext, List.length_append, Nat.add_assoc], ?_⟩
    rw [List.map_append, hmap, hmap', hnext, List.length_append, List.range'_append_1]

/-! ### Runs -/

/-- A scheduler, the state it starts from, and the calls made to it. -/
structure Run where
  env : Env
  start : Impl
  calls : List Call

namespace Run

/-- The run of a scheduler from its construction on. -/
def fresh (env : Env) (calls : List Call) : Run := ⟨env, .fresh env, calls⟩

/-- A plain request, for runs written out. -/
def plainRequest (r : ℕ) (tokens : UInt64) : PrefillRequest :=
  { requestId := ⟨r⟩, tenantId := ⟨1⟩, promptTokenCount := tokens }

/-- The completion of the first chunk a scheduler hands out. -/
def firstReport (o : MemberOutcome) : MemberResult :=
  { requestId := ⟨1⟩, attemptId := ⟨1⟩, generation := ⟨1⟩, outcome := o, epoch := ⟨1⟩ }

/-- The state before call number `n`. -/
def stateAt (ρ : Run) (n : ℕ) : Impl := (schedulerFrom ρ.env ρ.start).stateAt ρ.calls n

/-- The members handed out by call number `n`, if it is a cycle. -/
def emitted (ρ : Run) (n : ℕ) : List ExecutableMember :=
  match ρ.calls[n]? with
  | some ⟨now, .runCycle⟩ => ((ρ.stateAt n).runCycle ρ.env now).2.members
  | _ => []

/-- Call number `n` reports a completion, and the completion is accepted. -/
def Accepted (ρ : Run) (n : ℕ) (result : MemberResult) : Prop :=
  ∃ now, ρ.calls[n]? = some ⟨now, .reportCompletion result⟩ ∧
    isOk ((ρ.stateAt n).reportCompletion ρ.env now result).2 = true

variable {ρ : Run} {n : ℕ}

theorem stateAt_succ {c : Call} (h : ρ.calls[n]? = some c) :
    ρ.stateAt (n + 1) = ((ρ.stateAt n).step ρ.env c).1 :=
  Machine.stateAt_succ h

theorem stateAt_succ_of_none (h : ρ.calls[n]? = none) : ρ.stateAt (n + 1) = ρ.stateAt n :=
  Machine.stateAt_succ_of_none h

theorem emitted_of_some {c : Call} (h : ρ.calls[n]? = some c) :
    ρ.emitted n = ((ρ.stateAt n).step ρ.env c).2.members := by
  obtain ⟨now, op⟩ := c
  rw [emitted, h]
  cases op with
  | runCycle => rw [Impl.step_runCycle]; rfl
  | _ => rfl

theorem emitted_of_none (h : ρ.calls[n]? = none) : ρ.emitted n = [] := by
  rw [emitted, h]

theorem wf (hwf : ρ.start.view.Wf) (n : ℕ) : (ρ.stateAt n).view.Wf := Impl.wf_stateAt hwf n

theorem effects (hwf : ρ.start.view.Wf) {c : Call} (h : ρ.calls[n]? = some c) :
    Effects ρ.env c.op.Causes (ρ.stateAt n).view (ρ.emitted n) (ρ.stateAt (n + 1)).view := by
  rw [emitted_of_some h, stateAt_succ h]
  exact Impl.effects_step ρ.env (wf hwf n) c

/-! ### Members and their generations -/

theorem nextGeneration_succ (hwf : ρ.start.view.Wf) (n : ℕ) :
    (ρ.stateAt (n + 1)).nextGenerationValue =
      (ρ.stateAt n).nextGenerationValue + (ρ.emitted n).length := by
  cases h : ρ.calls[n]? with
  | none => rw [stateAt_succ_of_none h, emitted_of_none h]; rfl
  | some c => exact (effects hwf h).generations.1

theorem map_generation_emitted (hwf : ρ.start.view.Wf) (n : ℕ) :
    (ρ.emitted n).map (·.generation.value) =
      List.range' (ρ.stateAt n).nextGenerationValue (ρ.emitted n).length := by
  cases h : ρ.calls[n]? with
  | none => rw [emitted_of_none h]; rfl
  | some c => exact (effects hwf h).generations.2

theorem nextGeneration_mono (hwf : ρ.start.view.Wf) {i j : ℕ} (h : i ≤ j) :
    (ρ.stateAt i).nextGenerationValue ≤ (ρ.stateAt j).nextGenerationValue := by
  induction j, h using Nat.le_induction with
  | base => exact le_rfl
  | succ j _ ih => exact ih.trans (by rw [nextGeneration_succ hwf]; exact Nat.le_add_right ..)

/-- The generation of a member is between the counters before and after its cycle. -/
theorem generation_bounds (hwf : ρ.start.view.Wf) {m : ExecutableMember} (hm : m ∈ ρ.emitted n) :
    (ρ.stateAt n).nextGenerationValue ≤ m.generation.value ∧
      m.generation.value < (ρ.stateAt (n + 1)).nextGenerationValue := by
  have hmem : m.generation.value ∈ (ρ.emitted n).map (·.generation.value) :=
    List.mem_map_of_mem hm
  rw [map_generation_emitted hwf, List.mem_range'_1] at hmem
  rwa [nextGeneration_succ hwf]

/-- **A member is known by its generation.** -/
theorem emitted_unique (hwf : ρ.start.view.Wf) {i j : ℕ} {m m' : ExecutableMember}
    (hm : m ∈ ρ.emitted i) (hm' : m' ∈ ρ.emitted j) (hgen : m.generation = m'.generation) :
    i = j ∧ m = m' := by
  have hb := generation_bounds hwf hm
  have hb' := generation_bounds hwf hm'
  rw [← hgen] at hb'
  obtain rfl : i = j := by
    rcases Nat.lt_trichotomy i j with hlt | heq | hgt
    · have := nextGeneration_mono hwf (show i + 1 ≤ j from hlt)
      omega
    · exact heq
    · have := nextGeneration_mono hwf (show j + 1 ≤ i from hgt)
      omega
  refine ⟨rfl, ?_⟩
  have hnodup : ((ρ.emitted i).map (·.generation.value)).Nodup := by
    rw [map_generation_emitted hwf]
    exact List.nodup_range'
  exact List.inj_on_of_nodup_map hnodup hm hm' (congrArg StrongId.value hgen)

/-! ### Origins -/

/-- What is awaited after a call was awaited before, or has just been handed out. -/
theorem awaits_succ (hwf : ρ.start.view.Wf) {m : ExecutableMember}
    (h : (ρ.stateAt (n + 1)).Awaits m) :
    (ρ.stateAt n).Awaits m ∨ ∃ m' ∈ ρ.emitted n, m'.ticket = m.ticket := by
  cases hc : ρ.calls[n]? with
  | none =>
    rw [stateAt_succ_of_none hc] at h
    exact Or.inl h
  | some c =>
    rw [← Impl.view_awaits] at h ⊢
    exact (effects hwf hc).awaits h

/-- **What is in flight has been handed out**, and has been awaited ever since. -/
theorem exists_dispatch (hwf : ρ.start.view.Wf) (hquiet : ∀ m, ¬ρ.start.Awaits m)
    {m : ExecutableMember} (h : (ρ.stateAt n).Awaits m) :
    ∃ i m', i < n ∧ m' ∈ ρ.emitted i ∧ m'.ticket = m.ticket ∧
      ∀ k, i < k → k ≤ n → (ρ.stateAt k).Awaits m' := by
  have horigin := Machine.exists_origin (M := schedulerFrom ρ.env ρ.start)
    (P := fun σ => σ.Awaits m)
    (G := fun σ c => ∃ m' ∈ (σ.step ρ.env c).2.members, m'.ticket = m.ticket) (hquiet m)
    (fun k c hc hk => emitted_of_some (ρ := ρ) hc ▸ awaits_succ hwf hk) n h
  obtain ⟨i, c, hi, hc, ⟨m', hmem, hticket⟩, hsince⟩ := horigin
  exact ⟨i, m', hi, emitted_of_some (ρ := ρ) hc ▸ hmem, hticket,
    fun k hk hkn => (hsince k hk hkn).of_ticket hticket⟩

theorem fresh_wf (env : Env) (calls : List Call) : (fresh env calls).start.view.Wf :=
  Impl.wf_fresh env

theorem fresh_not_awaits (env : Env) (calls : List Call) (m : ExecutableMember) :
    ¬(fresh env calls).start.Awaits m := by
  rintro ⟨s, hs, -⟩
  exact absurd hs (Option.some_ne_none s).symm

end Run

end PrefillFabric
