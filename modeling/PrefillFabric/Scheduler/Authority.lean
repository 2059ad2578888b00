import PrefillFabric.Scheduler.History

/-!
# The authority of completions

A completion is taken once and only from the dispatch it belongs to: the accepted
completions of a run answer distinct members of earlier cycles, each of which was
awaited without a break from its dispatch to the acceptance, and a completion that is
refused leaves nothing behind but a counter and an event
(`Run.exists_injective_answers`).

The converse, that what is in flight can be completed by the worker it was sent to,
does not hold of every run. Authority is made of the epoch and of the boot numbers of
the workers, and two operations change it without looking at what is in flight: an
epoch roll, and the registration of a worker under another boot number. A run in
which neither happens to work in flight is exactly a run in which everything in flight
can always be completed (`Run.forall_completable_iff`).
-/

namespace PrefillFabric

/-! ### Refusals -/

/-- At most the counters of refusals and the events differ. -/
def Impl.SameButRefusals (σ σ' : Impl) : Prop :=
  ∃ events stale duplicate, σ' = { σ with
    events := events
    stats := { σ.stats with
      staleAuthorityRejected := stale
      duplicateCompletionRejected := duplicate } }

theorem Impl.sameButRefusals_refuse (now : Nanoseconds) (result : MemberResult) (why : Refusal)
    (σ : Impl) : σ.SameButRefusals (σ.refuse now result why).1 := by
  have hcounted : ∃ stale duplicate, why.counted σ.stats = { σ.stats with
      staleAuthorityRejected := stale, duplicateCompletionRejected := duplicate } := by
    cases why <;> exact ⟨_, _, rfl⟩
  obtain ⟨stale, duplicate, hst⟩ := hcounted
  unfold refuse
  cases why.detail with
  | none => exact ⟨σ.events, stale, duplicate, by rw [← hst]; rfl⟩
  | some detail => exact ⟨σ.events.record _, stale, duplicate, by rw [← hst]; rfl⟩

/-- **A refused completion changes nothing** but what counts refusals. -/
theorem Impl.sameButRefusals_of_not_ok {env : Env} {now : Nanoseconds} {result : MemberResult}
    {σ : Impl} (h : ¬isOk (σ.reportCompletion env now result).2 = true) :
    σ.SameButRefusals (σ.reportCompletion env now result).1 := by
  unfold reportCompletion at h ⊢
  cases hauth : σ.checkAuthority result with
  | error why => exact σ.sameButRefusals_refuse now result why
  | ok s =>
    rw [hauth] at h
    exact absurd rfl h

/-! ### Completions answer dispatches -/

namespace Run

/-- The completion reported by call `j` answers the member `m` that call `i` handed
out: it names the member, under the epoch of the moment, and the member was awaited
all the time. -/
structure Answers (ρ : Run) (j : ℕ) (result : MemberResult) (i : ℕ) (m : ExecutableMember) :
    Prop where
  lt : i < j
  emitted : m ∈ ρ.emitted i
  requestId : m.requestId = result.requestId
  attemptId : m.attemptId = result.attemptId
  generation : m.generation = result.generation
  epoch : (ρ.stateAt j).epoch = result.epoch
  awaited : ∀ k, i < k → k ≤ j → (ρ.stateAt k).Awaits m

variable {ρ : Run} {j : ℕ} {result : MemberResult}

/-- What is acceptable answers a dispatch. -/
theorem exists_answers (hwf : ρ.start.view.Wf) (hquiet : ∀ m, ¬ρ.start.Awaits m) {s : Rs}
    (hs : (ρ.stateAt j).view.Accepts result s) : ∃ i m, ρ.Answers j result i m := by
  let m₀ : ExecutableMember :=
    { requestId := result.requestId
      attemptId := result.attemptId
      generation := result.generation
      assignedWorker := s.dispatchedWorker }
  have hm₀ : (ρ.stateAt j).Awaits m₀ := Impl.view_awaits.mp
    ⟨s, hs.req, ⟨hs.inFlight, hs.lifecycle, hs.attempt.symm, hs.generation.symm, rfl⟩⟩
  obtain ⟨i, m, hi, hm, hticket, hsince⟩ := exists_dispatch hwf hquiet hm₀
  simp only [ExecutableMember.ticket, Prod.mk.injEq] at hticket
  obtain ⟨hid, hattempt, hgen, -⟩ := hticket
  exact ⟨i, m, hi, hm, hid, hattempt, hgen, hs.epoch.symm, hsince⟩

/-- Once a completion is accepted, its request is out of flight. -/
theorem Accepted.not_awaits (h : ρ.Accepted j result) (hwf : ρ.start.view.Wf)
    {m : ExecutableMember} (hm : m.requestId = result.requestId) :
    ¬(ρ.stateAt (j + 1)).Awaits m := by
  obtain ⟨now, hc, hok⟩ := h
  rw [← Impl.view_awaits, stateAt_succ hc]
  rintro ⟨s', hs', hawaits⟩
  obtain ⟨s, hs⟩ := Impl.isOk_reportCompletion_iff.mp hok
  obtain ⟨a, ha⟩ := Impl.exists_finished_of_accepts ρ.env now (wf hwf j) hs
  rw [hm] at hs'
  obtain rfl := Option.some.inj (ha.symm.trans hs')
  exact Bool.noConfusion (hawaits.inFlight.symm.trans (s.finished_inFlight ρ.env _ a))

/-- Two completions do not answer the same member. -/
theorem Accepted.answers_ne (h : ρ.Accepted j result) (hwf : ρ.start.view.Wf) {j' i : ℕ}
    {result' : MemberResult} {m : ExecutableMember} (hj : j < j') (ha : ρ.Answers j result i m) :
    ¬ρ.Answers j' result' i m := fun ha' =>
  h.not_awaits hwf ha.requestId (ha'.awaited (j + 1) (Nat.lt_succ_of_lt ha.lt) hj)

/-- **Completions answer dispatches.** In every run of a new scheduler the accepted
completions are sent, injectively, to members of earlier cycles that they name, and
that were awaited until then: not retried, not recovered, not completed, not over. A
completion that is refused changes neither requests, groups, workers and tenants nor
the memory governor. -/
theorem exists_injective_answers (env : Env) (calls : List Call) :
    (∃ f : ℕ → ℕ × ExecutableMember,
      Set.InjOn f {j | ∃ result, (fresh env calls).Accepted j result} ∧
      ∀ j result, (fresh env calls).Accepted j result →
        (fresh env calls).Answers j result (f j).1 (f j).2) ∧
    ∀ j now result, calls[j]? = some ⟨now, .reportCompletion result⟩ →
      ¬(fresh env calls).Accepted j result →
        ((fresh env calls).stateAt j).SameButRefusals ((fresh env calls).stateAt (j + 1)) := by
  have hwf := fresh_wf env calls
  refine ⟨?_, fun j now result hc hnot => ?_⟩
  · have hexists : ∀ j, ∃ p : ℕ × ExecutableMember, ∀ result,
        (fresh env calls).Accepted j result → (fresh env calls).Answers j result p.1 p.2 := by
      intro j
      by_cases hj : ∃ result, (fresh env calls).Accepted j result
      · obtain ⟨result, h⟩ := hj
        obtain ⟨s, hs⟩ := Impl.isOk_reportCompletion_iff.mp h.choose_spec.2
        obtain ⟨i, m, hm⟩ := exists_answers hwf (fresh_not_awaits env calls) hs
        refine ⟨(i, m), fun result' h' => ?_⟩
        -- the call determines the result
        obtain ⟨now, hc, -⟩ := h
        obtain ⟨now', hc', -⟩ := h'
        obtain ⟨-, rfl⟩ : now = now' ∧ result = result' := by
          simpa using hc.symm.trans hc'
        exact hm
      · exact ⟨(0, {}), fun result h => absurd ⟨result, h⟩ hj⟩
    choose f hf using hexists
    refine ⟨f, ?_, hf⟩
    rintro j ⟨result, h⟩ j' ⟨result', h'⟩ heq
    have ha := hf j result h
    have ha' := hf j' result' h'
    rcases Nat.lt_trichotomy j j' with hlt | rfl | hgt
    · exact absurd (heq ▸ ha') (h.answers_ne hwf hlt ha)
    · rfl
    · exact absurd (heq ▸ ha) (h'.answers_ne hwf hgt ha')
  · rw [stateAt_succ hc]
    exact Impl.sameButRefusals_of_not_ok fun hok => hnot ⟨now, hc, hok⟩

end Run

/-! ### What authority is made of -/

variable {env : Env} {v v' : View} {l : Label} {L : Label → Prop} {ms : List ExecutableMember}

/-- A label that touches neither the epoch nor a boot number. -/
def Label.KeepsAuthority : Label → Prop
  | roll | boot _ _ => False
  | _ => True

theorem Label.Cyclic.keepsAuthority (h : l.Cyclic) : l.KeepsAuthority := by
  cases l <;> trivial

theorem Effect.authority_eq (h : Effect env v l v') (hl : l.KeepsAuthority) :
    v'.epoch = v.epoch ∧ v'.boot = v.boot := by
  cases h with
  | idle h => exact ⟨h.epoch, h.boot⟩
  | launch h => exact ⟨h.epoch, h.boot⟩
  | lose h => exact ⟨h.epoch, h.boot⟩
  | boot => exact False.elim hl
  | roll => exact False.elim hl
  | _ => exact ⟨rfl, rfl⟩

theorem Effects.authority_eq (h : Effects env L v ms v') (hL : ∀ l, L l → l.KeepsAuthority) :
    v'.epoch = v.epoch ∧ v'.boot = v.boot :=
  h.invariant (P := fun u => u.epoch = v.epoch ∧ u.boot = v.boot)
    (fun _ l _ hl hlL hu => by
      have heq := hl.authority_eq (hL l hlL)
      exact ⟨heq.1.trans hu.1, heq.2.trans hu.2⟩)
    ⟨rfl, rfl⟩

/-- The epoch does not go back. -/
theorem Effect.epoch_le (h : Effect env v l v') : v.epoch.value ≤ v'.epoch.value := by
  by_cases hl : l.KeepsAuthority
  · rw [(h.authority_eq hl).1]
  · cases h with
    | roll => exact Nat.le_succ _
    | boot => exact le_rfl
    | _ => exact absurd trivial hl

/-- A worker that has registered stays known. -/
theorem Effect.boot_isSome (h : Effect env v l v') {w : WorkerId} (hw : (v.boot w).isSome) :
    (v'.boot w).isSome := by
  by_cases hl : l.KeepsAuthority
  · rwa [(h.authority_eq hl).2]
  · cases h with
    | roll => exact hw
    | boot x b =>
      change (Function.update v.boot x (some b) w).isSome
      rw [Function.update_apply]
      split_ifs
      · rfl
      · exact hw
    | _ => exact absurd trivial hl

/-- **What authority rests on**: there is an epoch, and what is in flight is in flight
on a worker that is known. -/
structure View.Authorised (v : View) : Prop where
  epoch_pos : 0 < v.epoch.value
  worker : v.Each fun v s => s.isLive = true → (v.boot s.dispatchedWorker).isSome

theorem Fate.worker_known {r : RequestId} {s s' : Rs} (h : Fate env v r s l s')
    (hs : s.isLive = true → (v.boot s.dispatchedWorker).isSome) (hs' : s'.isLive = true) :
    (v.boot s'.dispatchedWorker).isSome := by
  obtain ⟨hflight, hlive⟩ := Rs.isLive_iff.mp hs'
  cases h with
  | keep => exact hs hs'
  | expire => exact Bool.noConfusion hlive
  | launch _ _ _ _ _ _ _ hboot => exact hboot
  | finish o => exact Bool.noConfusion (hflight.symm.trans (s.finished_inFlight env o _))
  | flag => exact hs hs'
  | cancel => exact Bool.noConfusion hlive
  | withdraw => exact Bool.noConfusion hflight
  | retry => exact Bool.noConfusion (hflight.symm.trans (s.retried_inFlight env _))
  | recover => exact Bool.noConfusion hflight

theorem Effect.authorised (h : Effect env v l v') (hv : v.Authorised) : v'.Authorised where
  epoch_pos := lt_of_lt_of_le hv.epoch_pos h.epoch_le
  worker := h.each (fun _ _ _ _ hlive => Bool.noConfusion hlive)
    (fun _ _ _ _ hfate hs hs' => h.boot_isSome (hfate.worker_known hs hs')) hv.worker

theorem Effect.eq_of_boot {w : WorkerId} {b : WorkerBootId} (h : Effect env v (.boot w b) v') :
    v' = { v with boot := Function.update v.boot w (some b) } := by
  cases h
  rfl

theorem Impl.authorised_fresh (env : Env) : (Impl.fresh env).view.Authorised where
  epoch_pos := Nat.one_pos
  worker _ s h := absurd h (Option.some_ne_none s).symm

/-! ### What is in flight can be completed -/

/-- The completion a worker reports for a member that was handed out in the state: of
the member, under the epoch and the boot number of that time. -/
def Impl.completionOf (σ : Impl) (m : ExecutableMember) : MemberResult where
  requestId := m.requestId
  attemptId := m.attemptId
  generation := m.generation
  tokensCompleted := m.tokenCount
  nextTokenStart := (m.tokenStart + m.tokenCount) % 2 ^ 64
  epoch := σ.epoch
  worker := m.assignedWorker
  boot := ((σ.workers.lookup m.assignedWorker).map (·.desc.bootId)).getD .nil

/-- **An operation keeps authority**: the epoch is not rolled while anything is in
flight, and a worker with something in flight registers under the boot number it has. -/
def Impl.KeepsAuthority (σ : Impl) : Op → Prop
  | .rollEpoch => ∀ r s, σ.requests.lookup r = some s → s.isLive = false
  | .registerWorker w => w.workerId ≠ .nil → ∀ r s, σ.requests.lookup r = some s →
      s.isLive = true → s.dispatchedWorker = w.workerId →
      (σ.workers.lookup w.workerId).map (·.desc.bootId) = some (σ.registeredBoot w)
  | _ => True

namespace Run

variable {ρ : Run} {n : ℕ}

/-- **Everything in flight can be completed** before call number `n`: for each request
in flight there is the member it was handed out as, and the completion of that member
is accepted. -/
def Completable (ρ : Run) (n : ℕ) : Prop :=
  ∀ r s, (ρ.stateAt n).requests.lookup r = some s → s.inFlight = true →
    s.lifecycle.isTerminal = false → ∃ i m, i < n ∧ m ∈ ρ.emitted i ∧ m.requestId = r ∧
      s.Awaits m ∧ ∀ now, isOk ((ρ.stateAt n).reportCompletion ρ.env now
        ((ρ.stateAt i).completionOf m)).2 = true

theorem authorised (hwf : ρ.start.view.Wf) (h₀ : ρ.start.view.Authorised) (n : ℕ) :
    (ρ.stateAt n).view.Authorised :=
  Impl.view_invariant hwf h₀ (fun _ _ _ _ h hv => h.authorised hv) n

theorem epoch_mono (hwf : ρ.start.view.Wf) {i j : ℕ} (h : i ≤ j) :
    (ρ.stateAt i).epoch.value ≤ (ρ.stateAt j).epoch.value := by
  induction j, h using Nat.le_induction with
  | base => exact le_rfl
  | succ j _ ih =>
    refine ih.trans ?_
    cases hc : ρ.calls[j]? with
    | none => rw [stateAt_succ_of_none hc]
    | some c =>
      exact (effects hwf hc).invariant
        (P := fun u => (ρ.stateAt j).view.epoch.value ≤ u.epoch.value)
        (fun _ _ _ hl _ hu => hu.trans hl.epoch_le) le_rfl

/-- An operation that keeps authority keeps it for whatever is in flight. -/
theorem authority_kept (hwf : ρ.start.view.Wf) (h₀ : ρ.start.view.Authorised) {c : Call}
    (hc : ρ.calls[n]? = some c) (hkeep : (ρ.stateAt n).KeepsAuthority c.op) {r : RequestId}
    {s : Rs} (hs : (ρ.stateAt n).requests.lookup r = some s) (hlive : s.isLive = true) :
    (ρ.stateAt (n + 1)).view.epoch = (ρ.stateAt n).view.epoch ∧
      (ρ.stateAt (n + 1)).view.boot s.dispatchedWorker =
        (ρ.stateAt n).view.boot s.dispatchedWorker := by
  have hlabels : (∀ l, c.op.Causes l → l.KeepsAuthority) →
      (ρ.stateAt (n + 1)).view.epoch = (ρ.stateAt n).view.epoch ∧
        (ρ.stateAt (n + 1)).view.boot s.dispatchedWorker =
          (ρ.stateAt n).view.boot s.dispatchedWorker := by
    intro hL
    have heq := (effects hwf hc).authority_eq hL
    exact ⟨heq.1, congrFun heq.2 _⟩
  have hknown := (authorised hwf h₀ n).worker r s.core (Impl.view_req hs) hlive
  obtain ⟨now, op⟩ := c
  cases op with
  | rollEpoch => exact absurd ((hkeep r s hs).symm.trans hlive) Bool.noConfusion
  | registerWorker w =>
    have hnext : ρ.stateAt (n + 1) = ((ρ.stateAt n).registerWorker now w).1 := stateAt_succ hc
    rw [hnext]
    rcases (ρ.stateAt n).effect_registerWorker ρ.env now w with ⟨-, hview⟩ | ⟨hne, heffect⟩
    · rw [hview]
      exact ⟨rfl, rfl⟩
    · rw [heffect.eq_of_boot]
      refine ⟨rfl, ?_⟩
      by_cases hw : s.dispatchedWorker = w.workerId
      · rw [hw]
        exact (Function.update_self ..).trans (hkeep hne r s hs hlive hw).symm
      · exact Function.update_of_ne hw ..
  | attachExecutor ex backend =>
    have hnext : ρ.stateAt (n + 1) = (ρ.stateAt n).attachExecutor ex backend := stateAt_succ hc
    rw [hnext]
    rcases (ρ.stateAt n).effect_attachExecutor ρ.env ex backend with hview | ⟨hnone, b, heffect⟩
    · rw [hview]
      exact ⟨rfl, rfl⟩
    · rw [heffect.eq_of_boot]
      refine ⟨rfl, Function.update_of_ne ?_ ..⟩
      -- nothing is in flight on a local worker that does not exist
      intro hw
      change ((ρ.stateAt n).view.boot s.dispatchedWorker).isSome = true at hknown
      rw [hw, hnone] at hknown
      exact Bool.noConfusion hknown
  | runCycle => exact hlabels fun l hl => Label.Cyclic.keepsAuthority hl
  | _ => exact hlabels fun l hl => by cases l <;> trivial

/-- The member a record in flight is in flight as. -/
theorem exists_awaits {r : RequestId} {s : Rs} (hflight : s.inFlight = true)
    (hlive : s.lifecycle.isTerminal = false) :
    ∃ m : ExecutableMember, m.requestId = r ∧ s.Awaits m :=
  ⟨{ requestId := r
     attemptId := s.attempt
     generation := s.currentGeneration
     assignedWorker := s.dispatchedWorker }, rfl, ⟨hflight, hlive, rfl, rfl, rfl⟩⟩

/-- What is handed out can be completed right away. -/
theorem isOk_completionOf_emitted (hwf : ρ.start.view.Wf) (h₀ : ρ.start.view.Authorised)
    {m : ExecutableMember} (hm : m ∈ ρ.emitted n) {s : Rs}
    (hs : (ρ.stateAt (n + 1)).requests.lookup m.requestId = some s) (hawaits : s.Awaits m)
    (now : Nanoseconds) : isOk ((ρ.stateAt (n + 1)).reportCompletion ρ.env now
      ((ρ.stateAt n).completionOf m)).2 = true := by
  cases hc : ρ.calls[n]? with
  | none =>
    rw [emitted_of_none hc] at hm
    exact absurd hm List.not_mem_nil
  | some c =>
    have hm' := hm
    rw [emitted_of_some hc] at hm'
    obtain ⟨t, rfl, -⟩ := Impl.exists_runCycle_of_mem_members hm'
    obtain ⟨hepoch, hboot⟩ := (effects hwf hc).authority_eq fun l hl =>
      Label.Cyclic.keepsAuthority hl
    have hauth := authorised hwf h₀ (n + 1)
    have hknown := hauth.worker _ s.core (Impl.view_req hs)
      (Rs.isLive_iff.mpr ⟨hawaits.inFlight, hawaits.lifecycle⟩)
    change ((ρ.stateAt (n + 1)).view.boot s.dispatchedWorker).isSome = true at hknown
    rw [hawaits.worker] at hknown
    refine Impl.isOk_reportCompletion_iff.mpr ⟨s.core,
      { epoch_ne_nil := StrongId.ne_nil_of_pos (authorised hwf h₀ n).epoch_pos
        epoch := hepoch.symm
        req := Impl.view_req hs
        boot := Or.inr ?_
        attempt := hawaits.attempt.symm
        generation := hawaits.generation.symm
        lifecycle := hawaits.lifecycle
        inFlight := hawaits.inFlight
        worker := Or.inr hawaits.worker.symm }⟩
    change (ρ.stateAt (n + 1)).view.boot m.assignedWorker =
      some (((ρ.stateAt n).view.boot m.assignedWorker).getD .nil)
    obtain ⟨b, hb⟩ := Option.isSome_iff_exists.mp hknown
    rw [← hboot, hb, Option.getD_some]

/-- A call that keeps authority keeps everything completable. -/
theorem Completable.succ (hwf : ρ.start.view.Wf) (h₀ : ρ.start.view.Authorised) {c : Call}
    (hc : ρ.calls[n]? = some c) (h : ρ.Completable n)
    (hkeep : (ρ.stateAt n).KeepsAuthority c.op) : ρ.Completable (n + 1) := by
  intro r s' hs' hflight hlive
  obtain ⟨m₀, rfl, hm₀⟩ := exists_awaits (r := r) hflight hlive
  rcases awaits_succ hwf ⟨s', hs', hm₀⟩ with ⟨s, hs, hsm₀⟩ | ⟨m, hm, hticket⟩
  · obtain ⟨i, m, hi, hm, hid, hsm, hok⟩ := h _ s hs hsm₀.inFlight hsm₀.lifecycle
    have hs'm : s'.Awaits m := hm₀.of_ticket (hsm₀.ticket_eq hsm hid)
    refine ⟨i, m, by omega, hm, hid, hs'm, fun now => ?_⟩
    obtain ⟨hepoch, hboot⟩ := authority_kept hwf h₀ hc hkeep hs
      (Rs.isLive_iff.mpr ⟨hsm.inFlight, hsm.lifecycle⟩)
    obtain ⟨t, ht⟩ := Impl.isOk_reportCompletion_iff.mp (hok now)
    refine Impl.isOk_reportCompletion_iff.mpr ⟨s'.core,
      { epoch_ne_nil := ht.epoch_ne_nil
        epoch := ht.epoch.trans hepoch.symm
        req := Impl.view_req (by rw [← hs', ← hid]; rfl)
        boot := ht.boot.imp_right fun hb => ?_
        attempt := hs'm.attempt.symm
        generation := hs'm.generation.symm
        lifecycle := hs'm.lifecycle
        inFlight := hs'm.inFlight
        worker := Or.inr hs'm.worker.symm }⟩
    rw [← hb]
    change (ρ.stateAt (n + 1)).view.boot m.assignedWorker = (ρ.stateAt n).view.boot m.assignedWorker
    rw [← hsm.worker]
    exact hboot
  · have hid : m.requestId = m₀.requestId := congrArg Prod.fst hticket
    have hs'm : s'.Awaits m := hm₀.of_ticket hticket
    exact ⟨n, m, Nat.lt_succ_self n, hm, hid, hs'm,
      isOk_completionOf_emitted hwf h₀ hm (by rw [hid]; exact hs') hs'm⟩

/-- After an epoch roll nothing that was in flight can be completed. -/
theorem not_completable_of_rollEpoch (hwf : ρ.start.view.Wf) {now : Nanoseconds}
    (hc : ρ.calls[n]? = some ⟨now, .rollEpoch⟩) {r : RequestId} {s : Rs}
    (hs : (ρ.stateAt n).requests.lookup r = some s) (hlive : s.isLive = true) :
    ¬ρ.Completable (n + 1) := by
  intro h
  obtain ⟨hflight, hterm⟩ := Rs.isLive_iff.mp hlive
  have hnext : ρ.stateAt (n + 1) = (ρ.stateAt n).rollEpoch now := stateAt_succ hc
  have hs' : (ρ.stateAt (n + 1)).requests.lookup r = some s := by
    rw [hnext]
    exact hs
  obtain ⟨i, m, hi, -, -, -, hok⟩ := h r s hs' hflight hterm
  obtain ⟨t, ht⟩ := Impl.isOk_reportCompletion_iff.mp (hok 0)
  -- the epoch of the completion is no later than the one that was left behind
  have hepoch : (ρ.stateAt i).epoch.value = (ρ.stateAt n).epoch.value + 1 := by
    have := congrArg StrongId.value ht.epoch
    rwa [hnext] at this
  have hle := epoch_mono hwf (show i ≤ n by omega)
  omega

/-- Nor, after a worker has registered under another boot number, what was in flight
on it. -/
theorem Completable.not_succ_of_registerWorker (h : ρ.Completable n) (hwf : ρ.start.view.Wf)
    {now : Nanoseconds} {w : WorkerDescriptor} (hc : ρ.calls[n]? = some ⟨now, .registerWorker w⟩)
    (hne : w.workerId ≠ .nil) {r : RequestId} {s : Rs}
    (hs : (ρ.stateAt n).requests.lookup r = some s) (hlive : s.isLive = true)
    (hw : s.dispatchedWorker = w.workerId)
    (hboot : (ρ.stateAt n).view.boot w.workerId ≠ some ((ρ.stateAt n).registeredBoot w)) :
    ¬ρ.Completable (n + 1) := by
  intro h'
  obtain ⟨hflight, hterm⟩ := Rs.isLive_iff.mp hlive
  have hnext : ρ.stateAt (n + 1) = ((ρ.stateAt n).registerWorker now w).1 := stateAt_succ hc
  have hview : (ρ.stateAt (n + 1)).view =
      { (ρ.stateAt n).view with
        boot := Function.update (ρ.stateAt n).view.boot w.workerId
          (some ((ρ.stateAt n).registeredBoot w)) } := by
    rw [hnext]
    rcases (ρ.stateAt n).effect_registerWorker ρ.env now w with ⟨hnil, -⟩ | ⟨-, heffect⟩
    · exact absurd hnil hne
    · exact heffect.eq_of_boot
  have hreq : (ρ.stateAt (n + 1)).view.req r = some s.core := by
    rw [hview]
    exact Impl.view_req hs
  obtain ⟨s', hs', hcore⟩ := Impl.exists_of_view_req hreq
  have hflight' : s'.inFlight = true := (congrArg Rs.inFlight hcore).trans hflight
  have hterm' : s'.lifecycle.isTerminal = false :=
    (congrArg (·.lifecycle.isTerminal) hcore).trans hterm
  obtain ⟨i, m, -, hm, -, hsm, hok⟩ := h r s hs hflight hterm
  obtain ⟨i', m', -, hm', -, hsm', hok'⟩ := h' r s' hs' hflight' hterm'
  -- both times the completion is that of the one dispatch of the current generation
  have hgen : m.generation = m'.generation := by
    rw [← hsm.generation, ← hsm'.generation]
    exact (congrArg Rs.currentGeneration hcore).symm
  obtain ⟨rfl, rfl⟩ := emitted_unique hwf hm hm' hgen
  have hworker : m.assignedWorker = w.workerId := hsm.worker.symm.trans hw
  have hcurrent : ∀ {k : ℕ}, (∃ t, (ρ.stateAt k).view.Accepts ((ρ.stateAt i).completionOf m) t) →
      (ρ.stateAt k).view.boot w.workerId = some ((ρ.stateAt i).completionOf m).boot := by
    rintro k ⟨t, ht⟩
    rcases ht.boot with ⟨hnil, -⟩ | hb
    · exact absurd (hworker.symm.trans hnil) hne
    · rw [← hb, ← hworker]
      rfl
  have hold := hcurrent (Impl.isOk_reportCompletion_iff.mp (hok 0))
  have hnew := hcurrent (Impl.isOk_reportCompletion_iff.mp (hok' 0))
  rw [hview] at hnew
  exact hboot (hold.trans (hnew.symm.trans (Function.update_self ..)))

/-- **When everything in flight can be completed.** In every run of a new scheduler,
everything in flight can be completed by the worker it was sent to, at every moment,
exactly if every call keeps authority: the epoch is rolled only while nothing is in
flight, and no worker registers under another boot number while something is in flight
on it. -/
theorem forall_completable_iff (env : Env) (calls : List Call) :
    (∀ n, n ≤ calls.length → (fresh env calls).Completable n) ↔
      ∀ n c, calls[n]? = some c → ((fresh env calls).stateAt n).KeepsAuthority c.op := by
  have hwf := fresh_wf env calls
  refine Machine.forall_iff_forall_allowed
    (P := (fresh env calls).Completable)
    (A := fun n (c : Call) => ((fresh env calls).stateAt n).KeepsAuthority c.op) (fun _ => id)
    (fun r s hs => absurd hs (Option.some_ne_none s).symm)
    (fun n c hc h hkeep => h.succ hwf (Impl.authorised_fresh env) hc hkeep)
    (fun n c hc h hnot => ?_)
  obtain ⟨now, op⟩ := c
  cases op with
  | rollEpoch =>
    simp only [Impl.KeepsAuthority, not_forall, Bool.not_eq_false] at hnot
    obtain ⟨r, s, hs, hlive⟩ := hnot
    exact not_completable_of_rollEpoch hwf hc hs hlive
  | registerWorker w =>
    simp only [Impl.KeepsAuthority, Classical.not_imp, not_forall] at hnot
    obtain ⟨hne, r, s, hs, hlive, hw, hboot⟩ := hnot
    exact h.not_succ_of_registerWorker hwf hc hne hs hlive hw hboot
  | _ => exact absurd trivial hnot

/-- A request is dispatched and the epoch is rolled before it completes. -/
def rolledCalls : List Call :=
  [⟨0, .submitWithTokens (plainRequest 1 2) [5, 6]⟩, ⟨0, .runCycle⟩, ⟨0, .rollEpoch⟩]

/-- The roll strands the request: it is in flight, and no completion of anything handed
out so far would be accepted. -/
theorem not_completable_rolledCalls : ¬(fresh .standard rolledCalls).Completable 3 := by
  have hflight : (((fresh .standard rolledCalls).stateAt 3).requests.lookup ⟨1⟩).map
      (fun s => (s.inFlight, s.lifecycle)) = some (true, .dispatched) := by
    decide +kernel
  have hrefused : ∀ i < 3, ∀ m ∈ (fresh .standard rolledCalls).emitted i,
      isOk (((fresh .standard rolledCalls).stateAt 3).reportCompletion .standard 0
        (((fresh .standard rolledCalls).stateAt i).completionOf m)).2 = false := by
    decide +kernel
  intro h
  obtain ⟨s, hs, hstate⟩ := Option.map_eq_some_iff.mp hflight
  obtain ⟨hin, hdisp⟩ := Prod.mk.inj hstate
  obtain ⟨i, m, hi, hm, -, -, hok⟩ := h ⟨1⟩ s hs hin (by rw [hdisp]; rfl)
  exact Bool.noConfusion ((hok 0).symm.trans (hrefused i hi m hm))

end Run

end PrefillFabric
