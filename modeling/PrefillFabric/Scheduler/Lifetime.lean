import PrefillFabric.Scheduler.Recovery

/-!
# Lifetimes

A run is a list of calls. In its lifetime a scheduler is asked one more thing: to read a
snapshot, at any time and whatever it is doing then. A `Life` is a list of turns, each a
call or a snapshot to read, and the states of a life are all that a scheduler can ever be
in.

To read a snapshot is no effect: requests, groups and tenants are replaced at one stroke.
But it leaves the state well formed and nothing in flight, so that what is in flight in a
life has been handed out in the same life, and has been awaited ever since
(`Life.exists_dispatch`).
-/

namespace PrefillFabric

/-- What a scheduler is asked. -/
inductive Turn
  | call (c : Call)
  | importState (now : Nanoseconds) (st : PersistedState)

/-- One turn. -/
def Impl.turn (env : Env) (σ : Impl) : Turn → Impl × Reply
  | .call c => σ.step env c
  | .importState now st => (σ.importState env now st, .status (.ok ()))

/-- A scheduler that can read snapshots. -/
def lifetime (env : Env) : Machine Impl Turn Reply where
  init := Impl.fresh env
  step := Impl.turn env

/-- A policy, and what a scheduler under it is asked from its construction on. -/
structure Life where
  env : Env
  turns : List Turn

namespace Life

variable {ℓ : Life} {n : ℕ}

/-- The state before turn number `n`. -/
def stateAt (ℓ : Life) (n : ℕ) : Impl := (lifetime ℓ.env).stateAt ℓ.turns n

/-- The members handed out by turn number `n`. -/
def emitted (ℓ : Life) (n : ℕ) : List ExecutableMember :=
  match ℓ.turns[n]? with
  | some t => ((ℓ.stateAt n).turn ℓ.env t).2.members
  | none => []

theorem stateAt_succ {t : Turn} (h : ℓ.turns[n]? = some t) :
    ℓ.stateAt (n + 1) = ((ℓ.stateAt n).turn ℓ.env t).1 :=
  Machine.stateAt_succ h

/-- **The invariant rule for lives**: what a new scheduler has, every allowed call keeps, and
every allowed snapshot leaves is had throughout a life of allowed turns. -/
theorem invariant_of_turn {P : Impl → Prop} {A : Impl → Turn → Prop} (h₀ : P (Impl.fresh ℓ.env))
    (hcall : ∀ σ c, σ.view.Wf → P σ → A σ (.call c) → P (σ.step ℓ.env c).1)
    (himport : ∀ σ now st, σ.view.Wf → P σ → A σ (.importState now st) →
      P (σ.importState ℓ.env now st))
    (hall : ∀ n t, ℓ.turns[n]? = some t → A (ℓ.stateAt n) t) (n : ℕ) :
    (ℓ.stateAt n).view.Wf ∧ P (ℓ.stateAt n) := by
  refine Machine.invariant_of_step (M := lifetime ℓ.env) (P := fun σ => σ.view.Wf ∧ P σ)
    ⟨Impl.wf_fresh ℓ.env, h₀⟩ (fun σ t h ha => ?_) hall n
  cases t with
  | call c => exact ⟨Impl.wf_step h.1 c, hcall σ c h.1 h.2 ha⟩
  | importState now st =>
    exact ⟨(Impl.quiet_importState h.1 ℓ.env now st).1.wf, himport σ now st h.1 h.2 ha⟩

theorem wf (ℓ : Life) (n : ℕ) : (ℓ.stateAt n).view.Wf :=
  (invariant_of_turn (P := fun _ => True) (A := fun _ _ => True) trivial
    (fun _ _ _ _ _ => trivial) (fun _ _ _ _ _ _ => trivial) (fun _ _ _ => trivial) n).1

/-- What a new scheduler shows, every effect keeps and every snapshot leaves is shown
throughout every life. -/
theorem view_invariant {P : View → Prop} (h₀ : P (Impl.fresh ℓ.env).view)
    (hP : ∀ v l v', v.Wf → Effect ℓ.env v l v' → P v → P v')
    (himport : ∀ σ now st, σ.view.Wf → P (Impl.importState ℓ.env now st σ).view) (n : ℕ) :
    P (ℓ.stateAt n).view := by
  refine (invariant_of_turn (P := fun σ => P σ.view) (A := fun _ _ => True) h₀
    (fun σ c hwf h _ => ?_) (fun σ now st hwf _ _ => himport σ now st hwf) (fun _ _ _ => trivial)
    n).2
  exact ((Impl.effects_step ℓ.env hwf c).invariant (P := fun v => v.Wf ∧ P v)
    (fun v l v' hl _ hv => ⟨hl.wf hv.1, hP v l v' hv.1 hl hv.2⟩) ⟨hwf, h⟩).2

/-! ### Origins -/

/-- What is awaited after a turn was awaited before, or has just been handed out. -/
theorem awaits_turn {env : Env} {σ : Impl} (hwf : σ.view.Wf) {t : Turn} {m : ExecutableMember}
    (h : (σ.turn env t).1.Awaits m) :
    σ.Awaits m ∨ ∃ m' ∈ (σ.turn env t).2.members, m'.ticket = m.ticket := by
  cases t with
  | call c =>
    rw [← Impl.view_awaits] at h ⊢
    exact (Impl.effects_step env hwf c).awaits h
  | importState now st =>
    exact absurd h ((Impl.quiet_importState hwf env now st).1.not_awaits m)

/-- **What is in flight has been handed out**, and has been awaited ever since. -/
theorem exists_dispatch {m : ExecutableMember} (h : (ℓ.stateAt n).Awaits m) :
    ∃ k m', k < n ∧ m' ∈ ℓ.emitted k ∧ m'.ticket = m.ticket ∧
      ∀ j, k < j → j ≤ n → (ℓ.stateAt j).Awaits m' := by
  have hnew : ¬(Impl.fresh ℓ.env).Awaits m := by
    rintro ⟨s, hs, -⟩
    exact absurd hs (Option.some_ne_none s).symm
  -- nothing is awaited at the start, so there is a last turn that has handed it out
  have horigin := Machine.exists_origin (M := lifetime ℓ.env) (P := fun σ => σ.Awaits m)
    (G := fun σ t => ∃ m' ∈ (σ.turn ℓ.env t).2.members, m'.ticket = m.ticket) hnew
    (fun k t ht hk => awaits_turn (ℓ.wf k) (stateAt_succ (ℓ := ℓ) ht ▸ hk)) n h
  obtain ⟨k, t, hk, ht, ⟨m', hmem, hticket⟩, hsince⟩ := horigin
  refine ⟨k, m', hk, ?_, hticket, fun j hj hjn => (hsince j hj hjn).of_ticket hticket⟩
  unfold emitted
  rw [ht]
  exact hmem

end Life

end PrefillFabric
