import PrefillFabric.Scheduler.Drive
import PrefillFabric.Scheduler.Journal
import PrefillFabric.Scheduler.Reservations
import PrefillFabric.Scheduler.Workers

/-!
# The tokens a scheduler provides for its requests

The tokens of a prompt are registered before a submission is checked against the limits, and may
be registered in vain; but those of a request that is known are never written again
(`Impl.lookup_tokenResolver_step`), and there are as many as its prompt has (`Impl.Provided`).
-/

namespace PrefillFabric

namespace Impl

variable {env : Env} {now : Nanoseconds} {σ τ : Impl}

/-! ### What registers no tokens -/

/-- Entries that register nothing leave the tokens alone. -/
theorem Enters.tokenResolver_eq {es : List Entry} (h : σ.Enters es τ)
    (hnone : ∀ e ∈ es, e.tokens? = none) : τ.tokenResolver = σ.tokenResolver := by
  have hfold : ∀ j : Journal, (es.foldl Journal.enter j).tokens = j.tokens := by
    clear h
    induction es with
    | nil => exact fun _ => rfl
    | cons e es ih =>
      obtain ⟨he, hes⟩ := List.forall_mem_cons.mp hnone
      intro j
      rw [List.foldl_cons, ih hes, Journal.enter, he]
      rfl
  exact (congrArg Journal.tokens h).trans (hfold σ.journal)

theorem Plain.tokens?_eq {e : Entry} (h : Plain e) : e.tokens? = none := by
  cases e with
  | registered r tokens => exact h.elim
  | _ => rfl

theorem tokenResolver_reportCompletion (env : Env) (now : Nanoseconds) (result : MemberResult)
    (σ : Impl) : (σ.reportCompletion env now result).1.tokenResolver = σ.tokenResolver := by
  rcases enters_reportCompletion env now result σ with ⟨why, henters, -⟩ | ⟨s, left, -, henters, -⟩
  · exact henters.tokenResolver_eq (List.forall_mem_singleton.mpr rfl)
  · refine henters.tokenResolver_eq (List.forall_mem_cons.mpr ⟨rfl, List.forall_mem_append.mpr
      ⟨fun e he => (plain_settlement e he).tokens?_eq, List.forall_mem_singleton.mpr rfl⟩⟩)

/-- **The tokens of every request are there**, as many as its prompt has. -/
def Provided (σ : Impl) : Prop :=
  ∀ r s, σ.requests.lookup r = some s →
    ∃ tokens, σ.tokenResolver.lookup r = some tokens ∧
      tokens.length = s.request.promptTokenCount.toNat

theorem Provided.of_eq (h : σ.Provided) (htokens : τ.tokenResolver = σ.tokenResolver)
    (hreq : ∀ r, (τ.requests.lookup r).map (·.request) = (σ.requests.lookup r).map (·.request)) :
    τ.Provided := by
  intro r t ht
  have hsame := hreq r
  rw [ht, Option.map_some] at hsame
  obtain ⟨s, hs, heq⟩ := Option.map_eq_some_iff.mp hsame.symm
  obtain ⟨tokens, htok, hlen⟩ := h r s hs
  exact ⟨tokens, htokens ▸ htok, heq ▸ hlen⟩

/-- A submission registers tokens for a request that is not known, or none. -/
theorem tokenResolver_submitWithTokens (env : Env) (now : Nanoseconds) (req : PrefillRequest)
    (tokens : List UInt32) (σ : Impl) :
    (σ.submitWithTokens env now req tokens).1.tokenResolver = σ.tokenResolver ∨
      σ.requests.lookup req.requestId = none ∧
        (σ.submitWithTokens env now req tokens).1.tokenResolver =
          σ.tokenResolver.insert req.requestId tokens := by
  rcases enters_submitWithTokens env now req tokens σ with
    ⟨h, -⟩ | ⟨⟨-, hnew⟩, ⟨h, -⟩ | ⟨h, -⟩⟩
  · exact Or.inl (congrArg Journal.tokens h)
  · exact Or.inr ⟨hnew, congrArg Journal.tokens h⟩
  · exact Or.inr ⟨hnew, congrArg Journal.tokens h⟩

theorem requests_admitRequest (env : Env) (now : Nanoseconds) (req : PrefillRequest) (σ : Impl) :
    ∃ s, s.request = req ∧
      (σ.admitRequest env now req).requests = σ.requests.insert req.requestId s := by
  rw [admitRequest]
  dsimp only
  split_ifs
  · exact ⟨_, rfl, rfl⟩
  · exact ⟨_, rfl, rfl⟩

/-- The tokens of a request that is known are not written again. -/
theorem lookup_tokenResolver_submitWithTokens (env : Env) (now : Nanoseconds)
    (req : PrefillRequest) (tokens : List UInt32) {r : RequestId} {s : Rs}
    (hs : σ.requests.lookup r = some s) :
    (σ.submitWithTokens env now req tokens).1.tokenResolver.lookup r =
      σ.tokenResolver.lookup r := by
  rcases tokenResolver_submitWithTokens env now req tokens σ with heq | ⟨hnew, heq⟩
  · rw [heq]
  · rw [heq, AList.lookup_insert_ne]
    rintro rfl
    exact absurd (hs.symm.trans hnew) (Option.some_ne_none s)

/-- What is admitted is known from then on, and has its tokens. -/
theorem exists_of_isOk_submitWithTokens {req : PrefillRequest} {tokens : List UInt32}
    (hok : isOk (σ.submitWithTokens env now req tokens).2 = true) :
    ∃ s, s.request = req ∧ tokens.length = req.promptTokenCount.toNat ∧
      (σ.submitWithTokens env now req tokens).1.requests = σ.requests.insert req.requestId s ∧
      (σ.submitWithTokens env now req tokens).1.tokenResolver.lookup req.requestId =
        some tokens := by
  rcases submitWithTokens_cases env now req tokens σ with ⟨hnot, -⟩ | ⟨-, hlen, heq⟩
  · exact absurd (hnot.symm.trans hok) Bool.noConfusion
  · obtain ⟨s, hreq, hrequests⟩ := requests_admitRequest env now req
      ((σ.withTokens req tokens).withAccount req)
    have htokens := (enters_admitRequest env now req
      ((σ.withTokens req tokens).withAccount req)).tokenResolver_eq
      (List.forall_mem_singleton.mpr rfl)
    rw [heq]
    refine ⟨s, hreq, hlen, hrequests, ?_⟩
    rw [htokens]
    exact AList.lookup_insert _

theorem Provided.submitWithTokens (h : σ.Provided) (env : Env) (now : Nanoseconds)
    (req : PrefillRequest) (tokens : List UInt32) :
    (σ.submitWithTokens env now req tokens).1.Provided := by
  have hkeep : ∀ r s, σ.requests.lookup r = some s → ∃ toks,
      (σ.submitWithTokens env now req tokens).1.tokenResolver.lookup r = some toks ∧
        toks.length = s.request.promptTokenCount.toNat := by
    intro r s hs
    obtain ⟨toks, htoks, hlen⟩ := h r s hs
    exact ⟨toks, (lookup_tokenResolver_submitWithTokens env now req tokens hs).trans htoks, hlen⟩
  intro r t ht
  cases hok : isOk (σ.submitWithTokens env now req tokens).2 with
  | true =>
    obtain ⟨s, hreq, hlen, hrequests, htoks⟩ := exists_of_isOk_submitWithTokens hok
    rw [hrequests, AList.lookup_insert_eq_ite] at ht
    split_ifs at ht with hr
    · obtain rfl := Option.some.inj ht
      exact ⟨tokens, hr ▸ htoks, hreq ▸ hlen⟩
    · exact hkeep r t ht
  | false =>
    rcases submitWithTokens_cases env now req tokens σ with ⟨-, -, hdown⟩ | ⟨-, -, heq⟩
    · exact hkeep r t (hdown.requests ▸ ht)
    · rw [heq] at hok
      exact Bool.noConfusion hok

theorem tokenResolver_step (env : Env) (σ : Impl) {c : Call} (hc : ¬c.op.Submits) :
    (σ.step env c).1.tokenResolver = σ.tokenResolver := by
  obtain ⟨now, op⟩ := c
  have hplain := plain_step env σ (c := ⟨now, op⟩)
  cases op with
  | submitWithTokens req tokens => exact absurd trivial hc
  | reportCompletion result => exact tokenResolver_reportCompletion env now result σ
  | _ =>
    obtain ⟨es, henters, hes⟩ := hplain trivial
    exact henters.tokenResolver_eq fun e he => (hes e he).tokens?_eq

theorem Provided.step (h : σ.Provided) (hwf : σ.view.Wf) (env : Env) (c : Call) :
    (σ.step env c).1.Provided := by
  by_cases hc : c.op.Submits
  · obtain ⟨now, op⟩ := c
    cases op with
    | submitWithTokens req tokens => exact h.submitWithTokens env now req tokens
    | _ => exact hc.elim
  · exact h.of_eq (tokenResolver_step env σ hc) (map_request_step hwf hc)

/-- **The tokens of a request that is known stay what they are.** -/
theorem lookup_tokenResolver_step (env : Env) (c : Call) {r : RequestId} {s : Rs}
    (hs : σ.requests.lookup r = some s) :
    (σ.step env c).1.tokenResolver.lookup r = σ.tokenResolver.lookup r := by
  by_cases hc : c.op.Submits
  · obtain ⟨now, op⟩ := c
    cases op with
    | submitWithTokens req tokens =>
      exact lookup_tokenResolver_submitWithTokens env now req tokens hs
    | _ => exact hc.elim
  · rw [tokenResolver_step env σ hc]

/-! ### Regular states -/

/-- What every call keeps. -/
structure Regular (env : Env) (σ : Impl) : Prop where
  wf : σ.view.Wf
  sane : σ.view.Each fun _ s => s.Sane env
  attached : σ.view.Attached
  reserving : σ.view.Reserving
  epoch_pos : 0 < σ.epoch.value
  provided : σ.Provided

theorem Regular.step (h : σ.Regular env) (c : Call) : (σ.step env c).1.Regular env where
  wf := (effects_step env h.wf c).wf h.wf
  sane := (effects_step env h.wf c).invariant (P := View.Each fun _ s => s.Sane env)
    (fun _ _ _ hl _ hv => hl.each (fun now req _ _ => Rs.sane_admitted now req _)
      (fun _ _ _ _ hfate hs => hfate.sane hs) hv) h.sane
  attached := (effects_step env h.wf c).invariant (fun _ _ _ hl _ => hl.attached) h.attached
  reserving := reserving_step h.wf h.reserving c
  epoch_pos := (effects_step env h.wf c).invariant (P := fun v => 0 < v.epoch.value)
    (fun _ _ _ hl _ hv => hv.trans_le hl.epoch_le) h.epoch_pos
  provided := h.provided.step h.wf env c

theorem regular_fresh (env : Env) : (fresh env).Regular env where
  wf := wf_fresh env
  sane _ s hs := absurd hs.symm (Option.some_ne_none s)
  attached := ⟨fun _ _ _ _ hg => absurd hg.symm (Option.some_ne_none _),
    fun _ _ _ hg => absurd hg.symm (Option.some_ne_none _), rfl⟩
  reserving := reserving_fresh env
  epoch_pos := Nat.one_pos
  provided _ s hs := absurd hs.symm (Option.some_ne_none s)

end Impl

/-- Every state of a run is regular. -/
theorem Run.regular (env : Env) (calls : List Call) (n : ℕ) :
    ((fresh env calls).stateAt n).Regular env :=
  Machine.invariant (M := scheduler env) (P := Impl.Regular env) (Impl.regular_fresh env)
    (fun _ c h => h.step c) n

/-- **Tokens are forever.** In every run of a new scheduler, from an accepted submission on the
tokens of the request are those it was submitted with: neither a submission that is rejected
after its tokens were registered nor one under the same identity replaces them. -/
theorem Run.lookup_tokenResolver_of_accepted (env : Env) (calls : List Call) {i j : ℕ}
    (hij : i < j) {now : Nanoseconds} {req : PrefillRequest} {tokens : List UInt32}
    (hc : calls[i]? = some ⟨now, .submitWithTokens req tokens⟩)
    (hok : isOk (((fresh env calls).stateAt i).submitWithTokens env now req tokens).2 = true) :
    ((fresh env calls).stateAt j).tokenResolver.lookup req.requestId = some tokens ∧
      tokens.length = req.promptTokenCount.toNat := by
  obtain ⟨s, hreq, hlen, hrequests, htokens⟩ := Impl.exists_of_isOk_submitWithTokens hok
  refine ⟨?_, hlen⟩
  -- the request is known, and has its tokens, at every later moment
  suffices hlater : ∀ k, (∃ t, ((fresh env calls).stateAt (i + 1 + k)).requests.lookup
      req.requestId = some t) ∧ ((fresh env calls).stateAt (i + 1 + k)).tokenResolver.lookup
      req.requestId = some tokens by
    obtain ⟨k, rfl⟩ : ∃ k, j = i + 1 + k := ⟨j - (i + 1), by omega⟩
    exact (hlater k).2
  intro k
  induction k with
  | zero =>
    rw [Nat.add_zero, stateAt_succ hc]
    refine ⟨⟨s, ?_⟩, htokens⟩
    show (((fresh env calls).stateAt i).submitWithTokens env now req tokens).1.requests.lookup _ = _
    rw [hrequests, AList.lookup_insert]
  | succ k ih =>
    obtain ⟨⟨t, ht⟩, htok⟩ := ih
    rw [← Nat.add_assoc]
    cases hc' : calls[i + 1 + k]? with
    | none =>
      rw [stateAt_succ_of_none hc']
      exact ⟨⟨t, ht⟩, htok⟩
    | some c =>
      rw [stateAt_succ hc']
      refine ⟨?_, (Impl.lookup_tokenResolver_step env c ht).trans htok⟩
      obtain ⟨u, hu, -⟩ := (Impl.effects_step env (regular env calls _).wf c).exists_request
        (Impl.view_req ht)
      obtain ⟨t', ht', -⟩ := Impl.exists_of_view_req hu
      exact ⟨t', ht'⟩

/-- A request that is submitted again, with other tokens. -/
def Run.repeatedCalls : List Call :=
  [⟨0, .submitWithTokens (plainRequest 1 2) [5, 6]⟩,
    ⟨0, .submitWithTokens (plainRequest 1 2) [7, 8]⟩]

theorem Run.lookup_tokenResolver_repeatedCalls :
    ((fresh .standard repeatedCalls).stateAt 2).tokenResolver.lookup ⟨1⟩ = some [5, 6] ∧
      isOk (((fresh .standard repeatedCalls).stateAt 1).submitWithTokens .standard 0
        (plainRequest 1 2) [7, 8]).2 = false :=
  ⟨(lookup_tokenResolver_of_accepted .standard repeatedCalls (show 0 < 2 by decide)
      (show repeatedCalls[0]? = some ⟨0, .submitWithTokens (plainRequest 1 2) [5, 6]⟩ from rfl)
      (by decide +kernel)).1,
    by decide +kernel⟩

end PrefillFabric
