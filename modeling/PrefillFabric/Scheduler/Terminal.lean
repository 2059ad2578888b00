import PrefillFabric.Scheduler.History

/-!
# What is over stays over

A request that is over keeps fields that look alive: its generation, its group, even the
mark of being in flight if it expired while its chunk was executed. What protects it is
that each of the things that can happen to a request, except nothing at all, requires it
not to be over (`Fate.eq_of_terminal`). So its record is the last one it will ever have
(`Effects.of_terminal`), down to everything but its explanation and its age, and no cycle
hands it out again (`Run.lifecycle_of_terminal`).
-/

namespace PrefillFabric

section

variable {env : Env} {v v' : View} {l : Label} {r : RequestId} {s s' : Rs}

/-- **Nothing happens to a request that is over.** -/
theorem Fate.eq_of_terminal (h : Fate env v r s l s') (hs : s.lifecycle.isTerminal = true) :
    s' = s := by
  have hlive : s.lifecycle.isTerminal = false → s' = s := fun h =>
    Bool.noConfusion (hs.symm.trans h)
  cases h with
  | keep => rfl
  | expire h => exact hlive h
  | launch _ _ hwait _ _ _ _ _ => exact hlive (Rs.isTerminal_of_isWaiting hwait)
  | finish _ _ h => exact hlive h
  | flag _ h => exact hlive h
  | cancel _ h => exact hlive h
  | withdraw _ h => exact hlive h
  | retry h => exact hlive h
  | recover _ _ hdisp =>
    refine hlive ?_
    rw [hdisp]
    rfl

theorem Effect.req_of_terminal (h : Effect env v l v') (hs : v.req r = some s)
    (hover : s.lifecycle.isTerminal = true) : v'.req r = some s := by
  obtain ⟨s', hs', hfate⟩ := h.exists_fate hs
  rwa [hfate.eq_of_terminal hover] at hs'

/-- Only what waits is handed out. -/
theorem Effect.requestId_ne_of_not_waiting (h : Effect env v l v') (hs : v.req r = some s)
    (hnot : s.isWaiting = false) : ∀ m ∈ l.members, m.requestId ≠ r := by
  rintro m hm rfl
  cases h with
  | launch hlaunch => exact Bool.noConfusion (hnot.symm.trans (hlaunch.isWaiting hm hs))
  | _ => exact absurd hm List.not_mem_nil

theorem Rs.isWaiting_of_terminal (hover : s.lifecycle.isTerminal = true) : s.isWaiting = false := by
  rw [← Bool.not_eq_true]
  intro hwait
  exact Bool.noConfusion ((Rs.isTerminal_of_isWaiting hwait).symm.trans hover)

theorem Effects.of_terminal {L : Label → Prop} {ms : List ExecutableMember}
    (h : Effects env L v ms v') (hs : v.req r = some s) (hover : s.lifecycle.isTerminal = true) :
    v'.req r = some s ∧ ∀ m ∈ ms, m.requestId ≠ r := by
  induction h with
  | refl => exact ⟨hs, fun m hm => absurd hm List.not_mem_nil⟩
  | tail _ hl _ ih =>
    obtain ⟨hu, hms⟩ := ih
    refine ⟨hl.req_of_terminal hu hover, fun m hm => ?_⟩
    rcases List.mem_append.mp hm with hm | hm
    · exact hms m hm
    · exact hl.requestId_ne_of_not_waiting hu (Rs.isWaiting_of_terminal hover) m hm

end

namespace Run

variable {ρ : Run} {r : RequestId} {s : Rs} {i j n : ℕ}

/-- One call leaves what is over as it was, and does not hand it out. -/
theorem view_req_succ_of_terminal (hwf : ρ.start.view.Wf) (hs : (ρ.stateAt n).view.req r = some s)
    (hover : s.lifecycle.isTerminal = true) :
    (ρ.stateAt (n + 1)).view.req r = some s ∧ ∀ m ∈ ρ.emitted n, m.requestId ≠ r := by
  cases hc : ρ.calls[n]? with
  | none =>
    rw [stateAt_succ_of_none hc, emitted_of_none hc]
    exact ⟨hs, fun m hm => absurd hm List.not_mem_nil⟩
  | some c => exact (effects hwf hc).of_terminal hs hover

theorem view_req_of_terminal (hwf : ρ.start.view.Wf) (hij : i ≤ j)
    (hs : (ρ.stateAt i).view.req r = some s) (hover : s.lifecycle.isTerminal = true) :
    (ρ.stateAt j).view.req r = some s := by
  induction hij with
  | refl => exact hs
  | step _ ih => exact (view_req_succ_of_terminal hwf ih hover).1

/-- **A request that is over stays over**, in the same way, and is handed out by no later
cycle. -/
theorem lifecycle_of_terminal (env : Env) (calls : List Call) (hij : i ≤ j)
    (hs : ((fresh env calls).stateAt i).requests.lookup r = some s)
    (hover : s.lifecycle.isTerminal = true) :
    (∃ s', ((fresh env calls).stateAt j).requests.lookup r = some s' ∧
      s'.lifecycle = s.lifecycle) ∧
    ∀ m ∈ (fresh env calls).emitted j, m.requestId ≠ r := by
  have hwf := fresh_wf env calls
  have hreq := view_req_of_terminal hwf hij (Impl.view_req hs) hover
  obtain ⟨s', hs', hcore⟩ := Impl.exists_of_view_req hreq
  have hl : s'.core.lifecycle = s.core.lifecycle := congrArg Rs.lifecycle hcore
  exact ⟨⟨s', hs', hl⟩, (view_req_succ_of_terminal hwf hreq hover).2⟩

/-- A request expires while its chunk is executed; then its completion arrives, it is cancelled
and retried, its worker is lost and the epoch rolls, and there are two more cycles. -/
def expiredInFlightCalls : List Call :=
  [⟨0, .submitWithTokens { plainRequest 1 2 with deadline := some 5 } [5, 6]⟩, ⟨0, .runCycle⟩,
    ⟨10, .runCycle⟩,
    ⟨10, .reportCompletion (firstReport .success)⟩,
    ⟨10, .cancel ⟨1⟩⟩, ⟨10, .forceRetry ⟨1⟩⟩, ⟨10, .workerLost .nil⟩, ⟨10, .rollEpoch⟩,
    ⟨20, .runCycle⟩]

theorem lifecycle_of_terminal_expiredInFlightCalls :
    (∃ s', ((fresh .standard expiredInFlightCalls).stateAt 8).requests.lookup ⟨1⟩ = some s' ∧
      s'.lifecycle = .expired) ∧
    ∀ m ∈ (fresh .standard expiredInFlightCalls).emitted 8, m.requestId ≠ ⟨1⟩ := by
  have hexpired : (((fresh .standard expiredInFlightCalls).stateAt 3).requests.lookup ⟨1⟩).map
      (·.lifecycle) = some .expired := by
    decide +kernel
  obtain ⟨s, hs, hl⟩ := Option.map_eq_some_iff.mp hexpired
  have h := lifecycle_of_terminal (j := 8) .standard expiredInFlightCalls (by decide) hs (hl ▸ rfl)
  rwa [hl] at h

end Run

end PrefillFabric
