import PrefillFabric.Scheduler.Lifetime
import PrefillFabric.Scheduler.Queries
import PrefillFabric.Scheduler.Reservations
import PrefillFabric.Scheduler.Terminal

/-!
# What a request holds when it is over

A request in flight holds a reservation, has a place in a group, and with it a share in a
slot of a worker; and it is marked as being in flight. When it is over it should hold none
of these.

Places and reservations are given up on every way to the end, without any condition: the
places in groups are taken by requests that are not over (`View.Attached`), and so are the
reservations (`Rs.HoldsLive`). The mark is not. The sweep that expires a request whose
chunk is being executed takes it out of its group and leaves it in flight, and nothing that
happens afterwards takes the mark away, since nothing happens to a request that is over.

`Life.overHoldNothing_iff`: in every life, what is over holds nothing, exactly as long as no
cycle finds a request past its deadline that is in flight.
-/

namespace PrefillFabric

section

variable {env : Env} {v v' : View} {l : Label} {r : RequestId} {s s' : Rs}

/-! ### Reservations and the mark -/

/-- A reservation is held in flight, and not past the end. -/
def Rs.HoldsLive (s : Rs) : Prop := s.reservation ≠ .nil → s.isLive = true

/-- Out of flight once it is over. -/
def Rs.AtRest (s : Rs) : Prop := s.lifecycle.isTerminal = true → s.inFlight = false

theorem Rs.holdsLive_of_nil (h : s.reservation = .nil) : s.HoldsLive := fun hne => absurd h hne

theorem Rs.atRest_of_live (h : s.lifecycle.isTerminal = false) : s.AtRest := fun hover =>
  Bool.noConfusion (h.symm.trans hover)

/-- **Whatever happens to a request, it gives its reservation back when it is over.** -/
theorem Fate.holdsLive (h : Fate env v r s l s') (hs : s.HoldsLive) : s'.HoldsLive := by
  cases h with
  | keep => exact hs
  | launch => exact fun _ => rfl
  | flag => exact hs
  | retry =>
    refine Rs.holdsLive_of_nil ?_
    rw [Rs.retried]
    split_ifs with hflight
    · exact s.dropReservation_reservation
    · exact not_not.mp fun hne => hflight (Rs.isLive_iff.mp (hs hne)).1
  | expire | finish | cancel | withdraw | recover =>
    exact Rs.holdsLive_of_nil (Rs.dropReservation_reservation _)

/-- **Whatever happens to a request takes the mark away from it when it is over**, unless it
expires in flight. -/
theorem Fate.atRest (h : Fate env v r s l s') (hexpire : l = .expire r → s.inFlight = false)
    (hs : s.AtRest) : s'.AtRest := by
  cases h with
  | keep => exact hs
  | expire => exact fun _ => s.dropReservation_inFlight.trans (hexpire rfl)
  | launch => exact Rs.atRest_of_live rfl
  | finish o => exact fun _ => s.finished_inFlight env o _
  | flag _ hlive => exact Rs.atRest_of_live hlive
  | cancel hflight _ => exact fun _ => s.dropReservation_inFlight.trans hflight
  | withdraw => exact fun _ => rfl
  | retry => exact fun _ => s.retried_inFlight env _
  | recover => exact fun _ => rfl

theorem Effect.holdsLive (h : Effect env v l v') (hv : v.Each fun _ s => s.HoldsLive) :
    v'.Each fun _ s => s.HoldsLive :=
  h.each (fun _ _ _ _ => Rs.holdsLive_of_nil rfl) (fun _ _ _ _ hfate hs => hfate.holdsLive hs) hv

theorem Effect.atRest (h : Effect env v l v')
    (hexpire : ∀ r s, l = .expire r → v.req r = some s → s.inFlight = false)
    (hv : v.Each fun _ s => s.AtRest) : v'.Each fun _ s => s.AtRest :=
  h.each (fun _ _ _ _ _ => rfl)
    (fun r s _ hs hfate hrest => hfate.atRest (fun hl => hexpire r s hl hs) hrest) hv

/-- What a request becomes when it expires. -/
theorem Effect.req_expire (h : Effect env v (.expire r) v') (hs : v.req r = some s) :
    v'.req r = some s.expired := by
  cases h with
  | expire hs₀ _ =>
    obtain rfl := Option.some.inj (hs₀.symm.trans hs)
    exact Function.update_self ..

/-- The others stay as they are. -/
theorem Effect.req_expire_of_ne {x : RequestId} (h : Effect env v (.expire x) v') (hne : r ≠ x) :
    v'.req r = v.req r := by
  cases h with
  | expire _ _ => exact Function.update_of_ne hne ..

end

/-! ### The sweep -/

namespace Impl

variable {env : Env} {now : Nanoseconds} {σ : Impl} {r : RequestId} {s : Rs}

/-- **A punctual state**: nothing that is in flight is past its deadline. -/
def Punctual (σ : Impl) (now : Nanoseconds) : Prop :=
  ∀ r s, σ.requests.lookup r = some s → s.isLive = true → s.deadlinePassed now = false

/-- In a punctual state the sweep finds only requests that are not in flight. -/
theorem Punctual.inFlight_eq_false (h : σ.Punctual now) (hover : σ.Overdue now r)
    (hs : σ.view.req r = some s) : s.inFlight = false := by
  obtain ⟨t, ht, hlive, hlate⟩ := hover
  obtain rfl := Option.some.inj ((view_req ht).symm.trans hs)
  change t.inFlight = false
  rw [← Bool.not_eq_true]
  intro hflight
  rcases hlate with hdeadline | hdelay
  · have hnot := h r t ht (Rs.isLive_iff.mpr ⟨hflight, hlive⟩)
    exact Bool.noConfusion (hnot.symm.trans hdeadline)
  · rw [Rs.queueDelayPassed, hflight] at hdelay
    exact Bool.noConfusion hdelay

/-- A step of the sweep leaves a request alone that it is not about. -/
theorem view_req_sweepRequest_of_ne (env : Env) (now : Nanoseconds) (hwf : σ.view.Wf)
    {x : RequestId} (hne : r ≠ x) : (σ.sweepRequest now x).view.req r = σ.view.req r := by
  by_cases hover : σ.Overdue now x
  · exact (effect_sweepRequest env now hwf hover).req_expire_of_ne hne
  · rw [sweepRequest_of_not_overdue hover]

theorem Punctual.sweepRequest (env : Env) (hwf : σ.view.Wf) (h : σ.Punctual now)
    (hrest : σ.view.Each fun _ s => s.AtRest) (x : RequestId) :
    (σ.sweepRequest now x).Punctual now ∧
      (σ.sweepRequest now x).view.Each fun _ s => s.AtRest := by
  by_cases hover : σ.Overdue now x
  · have heffect := effect_sweepRequest env now hwf hover
    refine ⟨fun r t ht hlive => ?_, heffect.atRest (fun r s hl hs => ?_) hrest⟩
    · by_cases hr : r = x
      · -- what has just expired is not in flight in the sense that counts
        subst hr
        obtain ⟨s, hs, -⟩ := hover
        have hexpired := heffect.req_expire (view_req hs)
        obtain hcore := Option.some.inj ((view_req ht).symm.trans hexpired)
        have hterm : t.lifecycle = .expired := congrArg Rs.lifecycle hcore
        rw [Rs.isLive, hterm] at hlive
        exact Bool.noConfusion ((Bool.and_false _).symm.trans hlive)
      · have hreq := (view_req ht).symm.trans (heffect.req_expire_of_ne hr)
        obtain ⟨s, hs, hcore⟩ := exists_of_view_req hreq.symm
        have hlive' : s.core.isLive = true := (congrArg Rs.isLive hcore).trans hlive
        have hpunctual : s.core.deadlinePassed now = false := h r s hs hlive'
        exact (congrArg (Rs.deadlinePassed now) hcore).symm.trans hpunctual
    · obtain rfl := Label.expire.inj hl
      exact h.inFlight_eq_false hover hs
  · rw [sweepRequest_of_not_overdue hover]
    exact ⟨h, hrest⟩

/-- **In a punctual state** a cycle leaves what is over at rest. -/
theorem Punctual.runCycle (env : Env) (hwf : σ.view.Wf) (h : σ.Punctual now)
    (hrest : σ.view.Each fun _ s => s.AtRest) :
    (σ.runCycle env now).1.view.Each fun _ s => s.AtRest := by
  -- the state stays punctual in the course of the sweep
  have hsweep : (σ.expirySweep now).view.Wf ∧ (σ.expirySweep now).Punctual now ∧
      (σ.expirySweep now).view.Each fun _ s => s.AtRest :=
    List.foldlRecOn σ.requests.keys (Impl.sweepRequest now)
      (motive := fun τ : Impl => τ.view.Wf ∧ τ.Punctual now ∧ τ.view.Each fun _ s => s.AtRest)
      ⟨hwf, h, hrest⟩ fun τ hτ x _ =>
        ⟨(effects_sweepRequest env now hτ.1 x).wf hτ.1, hτ.2.1.sweepRequest env hτ.1 hτ.2.2 x⟩
  rw [runCycle_eq]
  refine (effects_dispatchPhase env now hsweep.1).invariant (fun v l v' hl hdispatch hv => ?_)
    hsweep.2.2
  refine hl.atRest (fun r s hexpire _ => ?_) hv
  rw [hexpire] at hdispatch
  exact hdispatch.elim

/-- **What is past its deadline in flight** is over after a cycle, and in flight still. -/
theorem view_req_runCycle (env : Env) (hwf : σ.view.Wf) (hs : σ.view.req r = some s)
    (hlive : s.lifecycle.isTerminal = false) (hlate : s.deadlinePassed now = true) :
    (σ.runCycle env now).1.view.req r = some s.expired := by
  -- by induction on what the sweep has still to go through, with the request untouched so far
  have hsweep : ∀ (rs : List RequestId) (τ : Impl), r ∈ rs → τ.view.Wf → τ.view.req r = some s →
      (rs.foldl (Impl.sweepRequest now) τ).view.req r = some s.expired := by
    intro rs
    induction rs with
    | nil => exact fun τ hr => absurd hr List.not_mem_nil
    | cons x rs ih =>
      intro τ hr hτ hreq
      rw [List.foldl_cons]
      have hτ' := (effects_sweepRequest env now hτ x).wf hτ
      by_cases hx : r = x
      · -- nothing happens to it in the rest of the sweep
        subst hx
        obtain ⟨t, ht, rfl⟩ := exists_of_view_req hreq
        have hover : τ.Overdue now r := ⟨t, ht, hlive, Or.inl hlate⟩
        have hexpired := (effect_sweepRequest env now hτ hover).req_expire hreq
        exact ((effects_foldl_sweepRequest env now rs _ hτ').of_terminal hexpired rfl).1
      · refine ih _ ((List.mem_cons.mp hr).resolve_left hx) hτ' ?_
        rw [view_req_sweepRequest_of_ne env now hτ hx, hreq]
  have hmem : r ∈ σ.requests.keys := by
    obtain ⟨t, ht, -⟩ := exists_of_view_req hs
    exact AList.mem_keys.mp (AList.lookup_isSome.mp (ht ▸ rfl))
  have hswept : (σ.expirySweep now).view.req r = some s.expired := hsweep _ σ hmem hwf hs
  have hwf' := (effects_expirySweep env now σ hwf).wf hwf
  rw [runCycle_eq]
  exact ((effects_dispatchPhase env now hwf').of_terminal hswept rfl).1

/-! ### Nothing held -/

/-- **What is over holds nothing**: no reservation, no place in a group, and no slot, as every
group has a member in flight that is not over; it is not in flight and is not counted or
listed among the requests that are. -/
structure OverHoldNothing (σ : Impl) : Prop where
  reservation : ∀ r s, σ.requests.lookup r = some s → s.lifecycle.isTerminal = true →
    s.reservation = .nil
  outstanding : ∀ r s, σ.requests.lookup r = some s → s.lifecycle.isTerminal = true →
    ∀ gid gs, σ.groups.lookup gid = some gs → r ∉ gs.outstanding
  slot : ∀ gid gs, σ.groups.lookup gid = some gs → ∃ r s, r ∈ gs.outstanding ∧
    σ.requests.lookup r = some s ∧ s.inFlight = true ∧ s.lifecycle.isTerminal = false
  inFlight : ∀ r s, σ.requests.lookup r = some s → s.lifecycle.isTerminal = true →
    s.inFlight = false
  runningCount : σ.runningCount =
    (σ.requestList.filter fun s => s.inFlight && !s.lifecycle.isTerminal).length
  running : ∀ r s, σ.requests.lookup r = some s → s.lifecycle.isTerminal = true →
    r ∉ σ.snapshot.runningRequestIds

theorem overHoldNothing (hgroups : σ.view.Attached) (hholds : σ.view.Each fun _ s => s.HoldsLive)
    (hrest : σ.view.Each fun _ s => s.AtRest) : σ.OverHoldNothing := by
  have hover : ∀ r s, σ.requests.lookup r = some s → s.lifecycle.isTerminal = true →
      s.inFlight = false := fun r s hs => hrest r s.core (view_req hs)
  refine ⟨fun r s hs hterm => ?_, fun r s hs hterm gid gs hgs hr => ?_, fun gid gs hgs => ?_, hover,
    ?_, fun r s hs hterm hr => ?_⟩
  · refine not_not.mp fun hne => ?_
    have hlive := (Rs.isLive_iff.mp (hholds r s.core (view_req hs) hne)).2
    exact Bool.noConfusion (hlive.symm.trans hterm)
  · obtain ⟨t, ht, hlive, -⟩ := hgroups.outstanding gid _ _ r (view_grp hgs) hr
    obtain rfl := Option.some.inj ((view_req hs).symm.trans ht)
    exact Bool.noConfusion ((Rs.isLive_iff.mp hlive).2.symm.trans hterm)
  · obtain ⟨r, hr⟩ := List.exists_mem_of_ne_nil _ (hgroups.ne_nil gid _ _ (view_grp hgs))
    obtain ⟨t, ht, hlive, -⟩ := hgroups.outstanding gid _ _ r (view_grp hgs) hr
    obtain ⟨s, hs, rfl⟩ := exists_of_view_req ht
    exact ⟨r, s, hr, hs, Rs.isLive_iff.mp hlive⟩
  · rw [Impl.runningCount]
    congr 1
    refine List.filter_congr fun s hs => ?_
    obtain ⟨⟨r, s⟩, he, rfl⟩ := List.mem_map.mp hs
    have hrests := hover r s (AList.mem_lookup_iff.mpr he)
    change s.inFlight = (s.inFlight && !s.lifecycle.isTerminal)
    cases hterm : s.lifecycle.isTerminal with
    | false => rw [Bool.not_false, Bool.and_true]
    | true => rw [hrests hterm, Bool.false_and]
  · obtain ⟨⟨x, t⟩, he, rfl⟩ := List.mem_map.mp hr
    obtain ⟨hmem, hflight⟩ := List.mem_filter.mp he
    obtain rfl := Option.some.inj ((AList.mem_lookup_iff.mpr hmem).symm.trans hs)
    exact Bool.noConfusion ((hover x t hs hterm).symm.trans hflight)

end Impl

/-! ### Lives -/

namespace Life

variable {ℓ : Life} {n : ℕ}

theorem attached (ℓ : Life) (n : ℕ) : (ℓ.stateAt n).view.Attached := by
  have hempty : ∀ {v : View}, (∀ g, v.grp g = none) → v.Attached := fun h =>
    ⟨fun g _ _ _ hg => absurd (hg.symm.trans (h g)) (Option.some_ne_none _),
      fun g _ _ hg => absurd (hg.symm.trans (h g)) (Option.some_ne_none _), h .nil⟩
  refine view_invariant (hempty fun _ => rfl) (fun _ _ _ _ h hv => h.attached hv)
    (fun σ now st _ => hempty fun g => ?_) n
  change ((σ.importState ℓ.env now st).groups.lookup g).map _ = none
  rw [Impl.groups_importState]
  rfl

/-- After a snapshot has been read no reservation is on record. -/
theorem reservation_importState {env : Env} {σ : Impl} (hwf : σ.view.Wf) (now : Nanoseconds)
    (st : PersistedState) {r : RequestId} {s : Rs}
    (hs : (σ.importState env now st).view.req r = some s) : s.reservation = .nil := by
  have hquiet := (Impl.quiet_importState hwf env now st).1
  exact (hquiet.wf.holds r s hs).reservation_eq (hquiet.inFlight r s hs)

theorem holdsLive (ℓ : Life) (n : ℕ) : (ℓ.stateAt n).view.Each fun _ s => s.HoldsLive := by
  refine view_invariant (P := View.Each fun _ s => s.HoldsLive)
    (fun _ s hs => absurd hs (Option.some_ne_none s).symm) (fun _ _ _ _ h hv => h.holdsLive hv)
    (fun σ now st hwf r s hs => ?_) n
  exact Rs.holdsLive_of_nil (reservation_importState hwf now st hs)

/-- One turn leaves what is over at rest, unless it is a cycle in a state that is not punctual. -/
theorem atRest_succ {t : Turn} (ht : ℓ.turns[n]? = some t)
    (hpunctual : ∀ now, t = .call ⟨now, .runCycle⟩ → (ℓ.stateAt n).Punctual now)
    (hrest : (ℓ.stateAt n).view.Each fun _ s => s.AtRest) :
    (ℓ.stateAt (n + 1)).view.Each fun _ s => s.AtRest := by
  rw [stateAt_succ ht]
  cases t with
  | call c =>
    obtain ⟨now, op⟩ := c
    by_cases hop : op = .runCycle
    · subst hop
      exact (hpunctual now rfl).runCycle ℓ.env (ℓ.wf n) hrest
    · refine (Impl.effects_step ℓ.env (ℓ.wf n) ⟨now, op⟩).invariant
        (fun v l v' hl hcauses hv => hl.atRest (fun r s hexpire _ => ?_) hv) hrest
      -- nothing expires but in a cycle
      subst hexpire
      cases op with
      | runCycle => exact absurd rfl hop
      | _ => exact hcauses.elim
  | importState now st =>
    exact fun r s hs _ => (Impl.quiet_importState (ℓ.wf n) ℓ.env now st).1.inFlight r s hs

/-- A cycle in a state that is not punctual leaves something in flight that is over. -/
theorem not_overHoldNothing_succ {now : Nanoseconds}
    (ht : ℓ.turns[n]? = some (.call ⟨now, .runCycle⟩)) (hlate : ¬(ℓ.stateAt n).Punctual now) :
    ¬(ℓ.stateAt (n + 1)).OverHoldNothing := by
  simp only [Impl.Punctual, not_forall, Bool.not_eq_false] at hlate
  obtain ⟨r, s, hs, hlive, hdeadline⟩ := hlate
  obtain ⟨hflight, hterm⟩ := Rs.isLive_iff.mp hlive
  intro hnothing
  rw [stateAt_succ ht] at hnothing
  have hafter := Impl.view_req_runCycle ℓ.env (ℓ.wf n) (Impl.view_req hs) hterm hdeadline
  obtain ⟨t, ht', hcore⟩ := Impl.exists_of_view_req hafter
  have hover : t.lifecycle = .expired := congrArg Rs.lifecycle hcore
  have hmark : t.inFlight = s.core.inFlight :=
    (congrArg Rs.inFlight hcore).trans s.core.dropReservation_inFlight
  have hrest := hnothing.inFlight r t ht' (hover ▸ rfl)
  exact Bool.noConfusion ((hmark.trans hflight).symm.trans hrest)

/-- A snapshot that is read when nothing is reserved leaves nothing reserved. -/
theorem reserving_importState {env : Env} {σ : Impl} (hwf : σ.view.Wf) (hv : σ.view.Reserving)
    (hempty : ∀ id, σ.mem.held id = none) (now : Nanoseconds) (st : PersistedState) :
    (σ.importState env now st).view.Reserving := by
  have hmem : (σ.importState env now st).view.mem = σ.mem := Impl.mem_importState env now st σ
  have hquiet := (Impl.quiet_importState hwf env now st).1
  refine ⟨?_, fun r s hs hlive => ?_, fun id r b hheld => ?_, fun r s hs hne => ?_⟩
  · rw [hmem]
    exact hv.sound
  · exact Bool.noConfusion ((hquiet.inFlight r s hs).symm.trans (Rs.isLive_iff.mp hlive).1)
  · rw [hmem, hempty id] at hheld
    exact absurd hheld (Option.some_ne_none _).symm
  · exact absurd (reservation_importState hwf now st hs) hne

/-- As long as snapshots are read only when nothing is reserved, what the governor holds is what
is in flight. -/
theorem reserving (hclear : ∀ n now st, ℓ.turns[n]? = some (.importState now st) →
      ∀ id, (ℓ.stateAt n).mem.held id = none) (n : ℕ) : (ℓ.stateAt n).view.Reserving := by
  refine (invariant_of_turn (P := fun σ => σ.view.Reserving)
    (A := fun σ t => ∀ now st, t = .importState now st → ∀ id, σ.mem.held id = none)
    (Impl.reserving_fresh ℓ.env) (fun σ c hwf hv _ => ?_) (fun σ now st hwf hv hempty => ?_)
    (fun n t ht now st heq => hclear n now st (heq ▸ ht)) n).2
  · exact Impl.reserving_step hwf hv c
  · exact reserving_importState hwf hv (hempty now st rfl) now st

/-- **What is over holds nothing**, throughout a life, exactly if no cycle finds a request in
flight past its deadline. And as long as snapshots are read only when nothing is reserved, the
governor never holds anything in the name of a request that is over, punctual or not. -/
theorem overHoldNothing_iff (ℓ : Life) :
    ((∀ n, n ≤ ℓ.turns.length → (ℓ.stateAt n).OverHoldNothing) ↔
      ∀ n now, ℓ.turns[n]? = some (.call ⟨now, .runCycle⟩) → (ℓ.stateAt n).Punctual now) ∧
    ((∀ n now st, ℓ.turns[n]? = some (.importState now st) →
        ∀ id, (ℓ.stateAt n).mem.held id = none) →
      ∀ n r s, (ℓ.stateAt n).requests.lookup r = some s → s.lifecycle.isTerminal = true →
        ∀ id b, (ℓ.stateAt n).mem.held id ≠ some (r, b)) := by
  have hiff : (∀ n, n ≤ ℓ.turns.length → (ℓ.stateAt n).OverHoldNothing) ↔
      ∀ n t, ℓ.turns[n]? = some t → ∀ now, t = .call ⟨now, .runCycle⟩ →
        (ℓ.stateAt n).Punctual now := by
    refine Machine.forall_iff_forall_allowed
      (Q := fun n => (ℓ.stateAt n).view.Each fun _ s => s.AtRest)
      (fun n hrest => Impl.overHoldNothing (ℓ.attached n) (ℓ.holdsLive n) hrest)
      (fun _ s hs => absurd hs (Option.some_ne_none s).symm)
      (fun n t ht hrest hpunctual => atRest_succ ht hpunctual hrest) fun n t ht _ hlate => ?_
    simp only [not_forall] at hlate
    obtain ⟨now, rfl, hlate⟩ := hlate
    exact not_overHoldNothing_succ ht hlate
  refine ⟨hiff.trans ⟨fun h n now ht => h n _ ht now rfl, fun h n t ht now heq => ?_⟩,
    fun hclear n r s hs hterm id b hheld => ?_⟩
  · exact h n now (heq ▸ ht)
  · obtain ⟨t, ht, hlive, -⟩ := (reserving hclear n).held id r b hheld
    obtain rfl := Option.some.inj ((Impl.view_req hs).symm.trans ht)
    exact Bool.noConfusion ((Rs.isLive_iff.mp hlive).2.symm.trans hterm)

/-- A request expires while its chunk is executed, and then its completion arrives. -/
def lateTurns : List Turn :=
  [.call ⟨0, .submitWithTokens { Run.plainRequest 1 2 with deadline := some 5 } [5, 6]⟩,
    .call ⟨0, .runCycle⟩, .call ⟨10, .runCycle⟩,
    .call ⟨10, .reportCompletion (Run.firstReport .success)⟩]

/-- The request is over and in flight before its completion arrives, and afterwards as well:
it is still counted and listed. -/
theorem running_lateTurns :
    let ℓ : Life := ⟨.standard, lateTurns⟩
    ((ℓ.stateAt 3).requests.lookup ⟨1⟩).map (fun s => (s.lifecycle, s.inFlight)) =
        some (.expired, true) ∧
      ((ℓ.stateAt 4).requests.lookup ⟨1⟩).map (fun s => (s.lifecycle, s.inFlight)) =
        some (.expired, true) ∧
      (ℓ.stateAt 4).runningCount = 1 ∧ (ℓ.stateAt 4).snapshot.runningRequestIds = [⟨1⟩] := by
  decide +kernel

end Life

end PrefillFabric
