import PrefillFabric.Scheduler.Journal
import PrefillFabric.Scheduler.Progress

/-!
# What counts as completed

The statistics have a number of completed tokens. One operation changes it: a completion that is
accepted adds the tokens of its chunk (`Impl.completedTokens_step`), and it does so before its
outcome is looked at. So the number is the sum over *all* completions that were accepted
(`Run.completedTokens_eq`), of failed chunks as well as of those that succeeded; and as no chunk is
empty, it is what its name says exactly as long as every completion that was accepted reported
success (`Run.completedTokens_eq_succeeded_iff`).
-/

namespace PrefillFabric

/-- If no entry weighs nothing, a sum over the entries of a kind is the sum over all entries only
where there are no others. -/
theorem sum_map_filter_eq_iff {α : Type} {p : α → Bool} {w : α → ℕ} {l : List α}
    (hpos : ∀ a ∈ l, 0 < w a) :
    (l.map w).sum = ((l.filter p).map w).sum ↔ ∀ a ∈ l, p a = true := by
  have hle : ∀ l : List α, ((l.filter p).map w).sum ≤ (l.map w).sum := by
    intro l
    induction l with
    | nil => exact Nat.le_refl 0
    | cons a l ih =>
      rw [List.filter_cons]
      split_ifs
      · simpa using ih
      · exact ih.trans (by simp)
  induction l with
  | nil => simp
  | cons a l ih =>
    have hrest := ih fun b hb => hpos b (List.mem_cons_of_mem a hb)
    have ha := hpos a List.mem_cons_self
    have hl := hle l
    rw [List.forall_mem_cons, List.filter_cons, List.map_cons, List.sum_cons]
    cases hp : p a with
    | true => simpa using hrest
    | false =>
      simp only [Bool.false_eq_true, if_false, false_and, iff_false]
      omega

namespace Impl

variable {env : Env} {now : Nanoseconds} {σ τ : Impl}

/-- The outcome of a completion that is accepted, and the tokens of the chunk it is for. -/
def landing (σ : Impl) (c : Call) : Option (MemberOutcome × ℕ) :=
  match c.op with
  | .reportCompletion result =>
    match σ.checkAuthority result with
    | .ok s => some (result.outcome, s.nextChunk.tokenCount)
    | .error _ => none
  | _ => none

/-- The number of completed tokens. -/
def completedTokens (σ : Impl) : ℕ := σ.stats.completedTokens

/-- The tokens an entry counts as completed. -/
def landedTokens : Entry → ℕ
  | .landed tokens _ => tokens
  | _ => 0

theorem completedTokens_counted (e : Entry) (st : Stats) :
    (e.counted st).completedTokens = st.completedTokens + landedTokens e := by
  cases e with
  | refused now result why => cases why <;> rfl
  | _ => rfl

theorem Plain.landedTokens_eq {e : Entry} (h : Plain e) : landedTokens e = 0 := by
  cases e with
  | landed tokens latency => exact h.elim
  | _ => rfl

theorem sum_landedTokens_of_plain {es : List Entry} (h : ∀ e ∈ es, Plain e) :
    (es.map landedTokens).sum = 0 :=
  List.sum_eq_zero fun _ hn => by
    obtain ⟨e, he, rfl⟩ := List.mem_map.mp hn
    exact (h e he).landedTokens_eq

theorem Enters.completedTokens_eq {es : List Entry} (h : σ.Enters es τ) :
    τ.completedTokens = σ.completedTokens + (es.map landedTokens).sum :=
  h.stats_eq completedTokens_counted

/-- **The tokens of a chunk count whatever its outcome is.** -/
theorem completedTokens_applyCompletion (result : MemberResult) (s : Rs) (σ : Impl) :
    (σ.applyCompletion env now result s).completedTokens =
      σ.completedTokens + s.nextChunk.tokenCount := by
  obtain ⟨left, henters⟩ := enters_applyCompletion env now result s σ
  have hrest : ∀ e ∈ settlement now result (s.landed env) σ ++ [.remaining left], Plain e :=
    List.forall_mem_append.mpr ⟨plain_settlement, List.forall_mem_singleton.mpr trivial⟩
  rw [henters.completedTokens_eq, List.cons_append, List.map_cons, List.sum_cons,
    sum_landedTokens_of_plain hrest]
  rfl

/-- **One call** adds the tokens of the chunk whose completion it reports, if it is accepted. -/
theorem completedTokens_step (env : Env) (σ : Impl) (c : Call) :
    (σ.step env c).1.completedTokens =
      σ.completedTokens + ((σ.landing c).toList.map (·.2)).sum := by
  obtain ⟨now, op⟩ := c
  have hplain := plain_step env σ (c := ⟨now, op⟩)
  cases op with
  | submitWithTokens req tokens =>
    rcases enters_submitWithTokens env now req tokens σ with ⟨h, -⟩ | ⟨-, ⟨h, -⟩ | ⟨h, -⟩⟩ <;>
      exact h.completedTokens_eq
  | reportCompletion result =>
    change (σ.reportCompletion env now result).1.completedTokens = _
    rw [reportCompletion, landing]
    dsimp only
    cases σ.checkAuthority result with
    | error why => cases why <;> rfl
    | ok s => exact completedTokens_applyCompletion result s σ
  | _ =>
    obtain ⟨es, henters, hes⟩ := hplain trivial
    rw [henters.completedTokens_eq, sum_landedTokens_of_plain hes]
    rfl

/-- No chunk in flight is empty. -/
theorem landing_pos (hsane : σ.view.Each fun _ s => s.Sane env) {c : Call}
    {x : MemberOutcome × ℕ} (hx : σ.landing c = some x) : 0 < x.2 := by
  obtain ⟨now, op⟩ := c
  cases op with
  | reportCompletion result =>
    rw [landing] at hx
    dsimp only at hx
    cases hauth : σ.checkAuthority result with
    | error why =>
      rw [hauth] at hx
      exact absurd hx.symm (Option.some_ne_none x)
    | ok s =>
      rw [hauth] at hx
      obtain rfl := Option.some.inj hx
      obtain ⟨hs, haccepts⟩ := accepts_of_checkAuthority hauth
      have hsane' := hsane _ s.core (view_req hs)
      have hpending : s.nextChunkIndex < s.plan.chunks.length := hsane'.pending haccepts.lifecycle
      have hmem : s.nextChunk ∈ s.plan.chunks :=
        List.mem_of_getElem? (Rs.getElem?_nextChunkIndex hpending)
      rw [show s.plan = _ from hsane'.plan_eq] at hmem
      exact (ChunkPlanner.tokenCount_of_mem_plan env _ _ _ hmem).1
  | _ => exact absurd hx.symm (Option.some_ne_none x)

end Impl

/-! ### Runs -/

namespace Run

/-- The completions accepted by the first `n` calls: their outcomes, and the tokens of their
chunks. -/
def landings (ρ : Run) (n : ℕ) : List (MemberOutcome × ℕ) :=
  (List.range n).flatMap fun k => ((ρ.calls[k]?).bind (ρ.stateAt k).landing).toList

/-- **What is counted as completed**: the tokens of all chunks whose completions were accepted. -/
theorem completedTokens_eq (ρ : Run) (n : ℕ) :
    (ρ.stateAt n).completedTokens = ρ.start.completedTokens + ((ρ.landings n).map (·.2)).sum := by
  induction n with
  | zero => rfl
  | succ n ih =>
    rw [landings, List.range_succ, List.flatMap_append, List.flatMap_singleton, List.map_append,
      List.sum_append, ← Nat.add_assoc, ← landings, ← ih]
    cases hc : ρ.calls[n]? with
    | none => rw [stateAt_succ_of_none hc]; rfl
    | some c => rw [stateAt_succ hc]; exact Impl.completedTokens_step ρ.env _ c

/-- **When the completed tokens are those of completed chunks.** At every moment of every run of a
new scheduler, the number of completed tokens is the sum of the tokens of the chunks whose
completions were accepted with the outcome `success` or `needsNextChunk` exactly if no completion
was accepted with another outcome until then. -/
theorem completedTokens_eq_succeeded_iff (env : Env) (calls : List Call) (n : ℕ) :
    ((fresh env calls).stateAt n).stats.completedTokens =
        ((((fresh env calls).landings n).filter (·.1.advances)).map (·.2)).sum ↔
      ∀ x ∈ (fresh env calls).landings n, x.1.advances = true := by
  have hsane := sane (fresh_wf env calls) (fun _ s h => absurd h (Option.some_ne_none s).symm)
  have htotal := completedTokens_eq (fresh env calls) n
  rw [show (fresh env calls).start.completedTokens = 0 from rfl, Nat.zero_add] at htotal
  rw [show ((fresh env calls).stateAt n).stats.completedTokens = _ from htotal]
  refine sum_map_filter_eq_iff fun x hx => ?_
  obtain ⟨k, -, hk⟩ := List.mem_flatMap.mp hx
  obtain ⟨c, -, hc⟩ := Option.bind_eq_some_iff.mp (Option.mem_toList.mp hk)
  exact Impl.landing_pos (hsane k) hc

/-- A chunk of two tokens fails and is to be tried again. -/
def failedCalls : List Call :=
  [⟨0, .submitWithTokens (plainRequest 1 2) [5, 6]⟩, ⟨0, .runCycle⟩,
    ⟨0, .reportCompletion (firstReport .retryableFailure)⟩]

/-- Two tokens are counted as completed, and no chunk has been completed. -/
theorem completedTokens_failedCalls :
    ((fresh .standard failedCalls).stateAt 3).stats.completedTokens = 2 ∧
      ((((fresh .standard failedCalls).landings 3).filter (·.1.advances)).map (·.2)).sum = 0 := by
  decide +kernel

end Run

end PrefillFabric
