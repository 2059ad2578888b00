import PrefillFabric.Scheduler.Ledger
import PrefillFabric.Scheduler.Progress
import PrefillFabric.Scheduler.Queries

/-!
# What the accounts say

Counters and accounts are kept by hand, at every place where a request is admitted or
ends. Whether they say what they are meant to say is a question about postings only: a
relation between the accounts and the census that each posting keeps holds throughout
every run (`Run.ledger_invariant`).

* The tally is right: each request is counted once as admitted, and once more when it is
  over, under the way it ended (`Run.tally_eq`).
* So is the number of requests on the account of a tenant, which never exceeds its limit;
  and nothing is ever taken off an account with no request on it
  (`Run.outstanding_eq`).
* The tokens on the account of a tenant are right exactly as long as the sweep finds nothing
  to expire: it closes requests without giving back their tokens
  (`Run.admittedTokens_eq_iff`).

Admission is not limited by what is on any account but by the size of the table, from which
no request is ever removed (`Impl.reject_imp_liveCount_iff`).
-/

namespace PrefillFabric

/-! ### Weights -/

namespace Weight

/-- A weight of the requests that are not over, among those of a kind. -/
def live (p : PrefillRequest → Bool) (f : PrefillRequest → ℕ) : Weight :=
  fun req e => if e.isNone && p req then f req else 0

/-- Counts the requests that ended in a given way. -/
def endedIn (l : Lifecycle) : Weight := fun _ e => if e == some l then 1 else 0

/-- The weight of a tenant's requests that are not over. -/
def ofTenant (t : TenantId) (f : PrefillRequest → ℕ) : Weight := live (·.tenantId == t) f

variable {p : PrefillRequest → Bool} {f : PrefillRequest → ℕ} {req : PrefillRequest}
  {t : TenantId} {l l' : Lifecycle}

@[simp] theorem live_none : live p f req none = if p req then f req else 0 := by
  rw [live, Option.isNone_none, Bool.true_and]

@[simp] theorem live_some : live p f req (some l) = 0 := by
  rw [live, Option.isNone_some, Bool.false_and]
  exact if_neg Bool.false_ne_true

@[simp] theorem endedIn_none : endedIn l req none = 0 := if_neg Bool.false_ne_true

@[simp] theorem endedIn_some : endedIn l req (some l') = if l' = l then 1 else 0 := by
  rw [endedIn]
  simp only [Option.some_beq_some, beq_iff_eq]

theorem ofTenant_none_self : ofTenant req.tenantId f req none = f req := by
  rw [ofTenant, live_none, if_pos (beq_self_eq_true req.tenantId)]

theorem ofTenant_none_of_ne (h : t ≠ req.tenantId) : ofTenant t f req none = 0 := by
  rw [ofTenant, live_none, if_neg fun hc => h (eq_of_beq hc).symm]

theorem ofTenant_some : ofTenant t f req (some l) = 0 := live_some

end Weight

namespace Impl

variable {env : Env} {now : Nanoseconds} {σ : Impl}

/-- A weighted count in the census is a sum over the requests it counts. -/
theorem census_ite (p : PrefillRequest → Option Lifecycle → Bool) (f : PrefillRequest → ℕ)
    (σ : Impl) : σ.census (fun req e => if p req e then f req else 0) =
      ((σ.requestList.filter fun s => p s.request s.lifecycle.ending).map
        fun s => f s.request).sum := by
  refine (AList.total_ite (fun _ (s : Rs) => p s.request s.lifecycle.ending)
    (fun _ s => f s.request) σ.requests).trans ?_
  rw [requestList, List.filter_map, List.map_map]
  rfl

theorem isNone_ending (l : Lifecycle) : l.ending.isNone = !l.isTerminal := by
  rw [Lifecycle.ending]
  cases l.isTerminal <;> rfl

theorem census_ofTenant (t : TenantId) (f : PrefillRequest → ℕ) (σ : Impl) :
    σ.census (.ofTenant t f) = ((σ.liveOf t).map fun s => f s.request).sum := by
  refine (census_ite (fun req e => e.isNone && req.tenantId == t) f σ).trans ?_
  simp only [isNone_ending]
  rfl

theorem census_live (σ : Impl) : σ.census (.live (fun _ => true) 1) = σ.liveCount := by
  refine (census_ite (fun _ e => e.isNone && true) 1 σ).trans ?_
  simp only [isNone_ending, Bool.and_true, Pi.one_apply, List.map_const', List.sum_replicate_nat,
    Nat.mul_one]
  rfl

theorem census_endedIn {l : Lifecycle} (hl : l.isTerminal = true) (σ : Impl) :
    σ.census (.endedIn l) = σ.countIn l := by
  refine (census_ite (fun _ e => e == some l) 1 σ).trans ?_
  have hending : ∀ l' : Lifecycle, (l'.ending == some l) = (l' == l) := by
    intro l'
    cases l <;> cases l' <;> first | rfl | exact Bool.noConfusion hl
  simp only [hending, Pi.one_apply, List.map_const', List.sum_replicate_nat, Nat.mul_one]
  rfl

end Impl

/-! ### The tally -/

/-- The counter of a way to end. -/
def Tally.count (l : Lifecycle) (t : Tally) : ℕ :=
  match l with
  | .completed => t.completed
  | .cancelled => t.cancelled
  | .expired => t.expired
  | .failedNonRetryable => t.failedNonRetryable
  | _ => 0

/-- How many requests have ended, by the counters. -/
def Tally.over (t : Tally) : ℕ :=
  t.completed + t.cancelled + t.expired + t.failedNonRetryable

theorem Tally.count_ended {l : Lifecycle} (hl : l.IsEnd) (l' : Lifecycle) (t : Tally) :
    (t.ended l).count l' = t.count l' + if l = l' then 1 else 0 := by
  obtain ⟨hterm, hne⟩ := hl
  cases l <;> first | exact absurd rfl hne | exact Bool.noConfusion hterm | (cases l' <;> rfl)

theorem Tally.over_ended {l : Lifecycle} (hl : l.IsEnd) (t : Tally) :
    (t.ended l).over = t.over + 1 := by
  obtain ⟨hterm, hne⟩ := hl
  cases l <;> first
    | exact absurd rfl hne
    | exact Bool.noConfusion hterm
    | (simp only [Tally.ended, Tally.over]; omega)

theorem Tally.admitted_ended (l : Lifecycle) (t : Tally) : (t.ended l).admitted = t.admitted := by
  cases l <;> rfl

namespace Ledger

variable {env : Env} {b b' : Ledger} {p : Posting}

/-- **The tally is right.** -/
structure Tallied (b : Ledger) : Prop where
  admitted : b.tally.admitted = b.census 1
  ended : ∀ l, l.IsEnd → b.tally.count l = b.census (.endedIn l)
  total : b.tally.admitted = b.tally.over + b.census (.live (fun _ => true) 1)

theorem Posts.tallied (h : b.Posts env b' p) (hb : b.Tallied) : b'.Tallied := by
  cases h with
  | @opened req _ _ hcensus htally _ =>
    refine ⟨?_, fun l hl => ?_, ?_⟩
    · rw [htally, hcensus, ← hb.admitted]
      rfl
    · rw [htally, hcensus, Weight.endedIn_none, ← hb.ended l hl]
      rfl
    · have htotal := hb.total
      rw [htally, hcensus, Weight.live_none, if_pos rfl]
      change b.tally.admitted + 1 = b.tally.over + (_ + 1)
      omega
  | @closed req l _ hend hcensus htally _ =>
    refine ⟨?_, fun l' hl' => ?_, ?_⟩
    · have hone := hcensus 1
      rw [htally, Tally.admitted_ended, hb.admitted]
      exact (Nat.add_right_cancel hone).symm
    · have hended := hcensus (.endedIn l')
      rw [Weight.endedIn_none, Weight.endedIn_some, Nat.add_zero] at hended
      rw [htally, hended, Tally.count_ended hend, hb.ended l' hl']
    · have hlive := hcensus (.live (fun _ => true) 1)
      rw [Weight.live_none, Weight.live_some, if_pos rfl] at hlive
      have htotal := hb.total
      rw [htally, Tally.admitted_ended, Tally.over_ended hend]
      change _ + 1 = _ at hlive
      omega

/-! ### Tenants -/

/-- **The number of requests on each account is right.** -/
def Numbered (b : Ledger) : Prop := ∀ t, (b.account t).outstanding = b.census (.ofTenant t 1)

theorem Posts.numbered (h : b.Posts env b' p) (hb : b.Numbered) : b'.Numbered := by
  intro t
  cases h with
  | @opened req _ _ hcensus _ haccount =>
    rw [haccount, Function.update_apply, hcensus, ← hb t]
    split_ifs with ht
    · subst ht
      rw [Weight.ofTenant_none_self]
      rfl
    · rw [Weight.ofTenant_none_of_ne ht]
      rfl
  | @closed req l _ _ hcensus _ haccount =>
    have hcount := hcensus (.ofTenant t 1)
    rw [Weight.ofTenant_some, ← hb t] at hcount
    rw [haccount, Function.update_apply]
    split_ifs with ht
    · subst ht
      rw [Weight.ofTenant_none_self] at hcount
      exact (Nat.eq_sub_of_add_eq hcount).symm
    · rw [Weight.ofTenant_none_of_ne ht] at hcount
      exact hcount.symm

/-- **The number of requests on each account is right**, and within the limit. -/
structure Counted (env : Env) (b : Ledger) : Prop where
  outstanding : ∀ t, (b.account t).outstanding = b.census (.ofTenant t 1)
  le_limit : ∀ t, (b.account t).outstanding ≤ env.cfg.perTenantOutstandingLimit.toNat

theorem Posts.counted (h : b.Posts env b' p) (hb : b.Counted env) : b'.Counted env := by
  refine ⟨h.numbered hb.outstanding, fun t => ?_⟩
  cases h with
  | opened _ hroom _ _ haccount =>
    rw [haccount, Function.update_apply]
    split_ifs
    · exact hroom
    · exact hb.le_limit t
  | closed _ _ _ haccount =>
    rw [haccount, Function.update_apply]
    split_ifs
    · exact (Nat.sub_le _ _).trans (hb.le_limit _)
    · exact hb.le_limit t

/-- **The tokens on each account are right**: those of the tenant's requests that are not
over. -/
def Funded (b : Ledger) : Prop :=
  ∀ t, (b.account t).admittedTokens.toNat = b.census (.ofTenant t (·.remainingPrefillTokens))

/-- More tokens are on some account than its requests account for. -/
def Overcharged (b : Ledger) : Prop :=
  ∃ t, b.census (.ofTenant t (·.remainingPrefillTokens)) < (b.account t).admittedTokens.toNat

theorem Overcharged.not_funded (h : b.Overcharged) : ¬b.Funded := by
  obtain ⟨t, ht⟩ := h
  exact fun hb => absurd (hb t) (Nat.ne_of_gt ht)

/-- What is on the account of a tenant once a request is opened, in 64 bits. -/
theorem Posts.toNat_opened {req : PrefillRequest} (h : b.Posts env b' (.opened req)) :
    (b'.account req.tenantId).admittedTokens.toNat =
      ((b.account req.tenantId).admittedTokens.toNat + req.remainingPrefillTokens) % 2 ^ 64 := by
  cases h with
  | opened _ _ _ _ haccount =>
    rw [haccount, Function.update_self]
    exact (UInt64.toNat_add _ _).trans (by rw [UInt64.toNat_ofNat', Nat.add_mod_mod])

/-- To open a request keeps the tokens right if the sum is one of 64 bits. -/
theorem Posts.funded_opened {req : PrefillRequest} (h : b.Posts env b' (.opened req))
    (hfits : (b.account req.tenantId).admittedTokens.toNat + req.remainingPrefillTokens < 2 ^ 64)
    (hb : b.Funded) : b'.Funded := by
  have htoNat := h.toNat_opened
  rw [Nat.mod_eq_of_lt hfits] at htoNat
  cases h with
  | opened _ _ hcensus _ haccount =>
    intro t
    rw [hcensus, ← hb t]
    by_cases ht : t = req.tenantId
    · subst ht
      rw [Weight.ofTenant_none_self, htoNat]
    · rw [Weight.ofTenant_none_of_ne ht, haccount, Function.update_of_ne ht]
      rfl

/-- If the sum is none of 64 bits, the account shows less. -/
theorem Posts.not_funded_opened {req : PrefillRequest} (h : b.Posts env b' (.opened req))
    (hwraps : 2 ^ 64 ≤ (b.account req.tenantId).admittedTokens.toNat + req.remainingPrefillTokens)
    (hb : b.Funded) : ¬b'.Funded := by
  intro hb'
  have htokens := hb' req.tenantId
  have hlt := (b'.account req.tenantId).admittedTokens.toNat_lt
  cases h with
  | opened _ _ hcensus _ _ =>
    rw [hcensus, Weight.ofTenant_none_self, ← hb] at htokens
    omega

/-- To close a request keeps the tokens right if they are given back. -/
theorem Posts.funded_closed {req : PrefillRequest} {l : Lifecycle}
    (h : b.Posts env b' (.closed req l true)) (hb : b.Funded) : b'.Funded := by
  cases h with
  | closed _ hcensus _ haccount =>
    intro t
    have hcount := hcensus (.ofTenant t (·.remainingPrefillTokens))
    rw [Weight.ofTenant_some, Nat.add_zero, ← hb t] at hcount
    rw [haccount, Function.update_apply]
    split_ifs with ht
    · subst ht
      rw [Weight.ofTenant_none_self] at hcount
      -- what is given back is on the account, since it is part of the sum
      have hrem : (UInt64.ofNat req.remainingPrefillTokens).toNat = req.remainingPrefillTokens :=
        UInt64.toNat_ofNat_of_lt' req.remainingPrefillTokens_lt
      have hle : UInt64.ofNat req.remainingPrefillTokens ≤
          (b.account req.tenantId).admittedTokens := by
        rw [UInt64.le_iff_toNat_le, hrem]
        omega
      rw [Account.closed, if_pos ⟨rfl, hle⟩, UInt64.toNat_sub_of_le _ _ hle, hrem]
      omega
    · rw [Weight.ofTenant_none_of_ne ht] at hcount
      exact hcount.symm

/-- To close a request without giving anything back leaves the tokens on all accounts, and no
more requests to account for them. -/
theorem Posts.sweeps (h : b.Posts env b' p) (hp : Impl.Sweeps p) (t : TenantId) :
    (b'.account t).admittedTokens = (b.account t).admittedTokens ∧
      ∀ f, b'.census (.ofTenant t f) ≤ b.census (.ofTenant t f) := by
  cases h with
  | opened _ _ _ _ _ => exact hp.elim
  | closed _ hcensus _ haccount =>
    obtain ⟨rfl, rfl⟩ := hp
    refine ⟨?_, fun f => ?_⟩
    · rw [haccount, Function.update_apply]
      split_ifs with ht
      · rw [ht, Account.closed, if_neg fun h => Bool.false_ne_true h.1]
      · rfl
    · have hcount := hcensus (.ofTenant t f)
      rw [Weight.ofTenant_some] at hcount
      omega

theorem Reaches.overcharged (h : Ledger.Reaches env Impl.Sweeps b b') (hb : b.Overcharged) :
    b'.Overcharged := by
  refine h.invariant (fun b b' p hp hposts hb => ?_) hb
  obtain ⟨t, ht⟩ := hb
  obtain ⟨htokens, hcensus⟩ := hposts.sweeps hp t
  exact ⟨t, (htokens ▸ lt_of_le_of_lt (hcensus _) ht)⟩

/-- To expire a request that has tokens overcharges its tenant. -/
theorem Posts.overcharged {req : PrefillRequest}
    (h : b.Posts env b' (.closed req .expired false)) (hpos : 0 < req.remainingPrefillTokens)
    (hb : b.Funded) : b'.Overcharged := by
  have htokens := (h.sweeps ⟨rfl, rfl⟩ req.tenantId).1
  cases h with
  | closed _ hcensus _ _ =>
    have hcount := hcensus (.ofTenant req.tenantId (·.remainingPrefillTokens))
    rw [Weight.ofTenant_some, Weight.ofTenant_none_self, ← hb] at hcount
    refine ⟨req.tenantId, ?_⟩
    rw [htokens]
    omega

end Ledger

/-! ### Calls that keep the tokens right -/

namespace Impl

variable {env : Env} {now : Nanoseconds} {σ : Impl}

/-- **A call that leaves every token accounted for**: a cycle that finds nothing overdue; a
submission of a request that is not admitted, or whose tokens can be added to those of its
tenant in 64 bits; or any other call. -/
def KeepsTokens (env : Env) (σ : Impl) (c : Call) : Prop :=
  match c.op with
  | .runCycle => ∀ r, ¬σ.Overdue c.now r
  | .submitWithTokens req tokens => σ.Admits env req → tokens.length = req.promptTokenCount.toNat →
      (σ.tenant req.tenantId).admittedTokens.toNat + req.remainingPrefillTokens < 2 ^ 64
  | _ => True

theorem foldl_sweepRequest_of_not_overdue (rs : List RequestId) (h : ∀ r, ¬σ.Overdue now r) :
    rs.foldl (sweepRequest now) σ = σ := by
  induction rs with
  | nil => rfl
  | cons r rs ih => rw [List.foldl_cons, sweepRequest_of_not_overdue (h r), ih]

/-- A sweep that comes upon an overdue request overcharges a tenant. -/
theorem overcharged_foldl_sweepRequest (env : Env) (now : Nanoseconds)
    (hpos : ∀ r s, σ.requests.lookup r = some s → s.lifecycle.isTerminal = false →
      0 < s.request.remainingPrefillTokens)
    (hfunded : σ.ledger.Funded) (rs : List RequestId) (h : ∃ r ∈ rs, σ.Overdue now r) :
    (rs.foldl (sweepRequest now) σ).ledger.Overcharged := by
  induction rs with
  | nil =>
    obtain ⟨r, hr, -⟩ := h
    exact absurd hr List.not_mem_nil
  | cons r rs ih =>
    rw [List.foldl_cons]
    by_cases hover : σ.Overdue now r
    · -- the first overdue request; whatever is expired after it makes it no better
      obtain ⟨s, hs, hlive, hposts⟩ := posts_sweepRequest env hover
      exact (reaches_foldl_sweepRequest env now rs _).overcharged
        (hposts.overcharged (hpos r s hs hlive) hfunded)
    · rw [sweepRequest_of_not_overdue hover]
      refine ih ?_
      obtain ⟨x, hx, hxover⟩ := h
      rcases List.mem_cons.mp hx with rfl | hx
      · exact absurd hxover hover
      · exact ⟨x, hx, hxover⟩

theorem ledger_runCycle (env : Env) (now : Nanoseconds) (hwf : σ.view.Wf) :
    (σ.step env ⟨now, .runCycle⟩).1.ledger = (σ.expirySweep now).ledger := by
  have hwf' := (effects_expirySweep env now σ hwf).wf hwf
  rw [step_runCycle, runCycle_eq, ledger_dispatchPhase env now hwf']

/-- A call that leaves every token accounted for keeps the tokens right. -/
theorem funded_step (hwf : σ.view.Wf) (hfunded : σ.ledger.Funded) {c : Call}
    (hc : σ.KeepsTokens env c) : (σ.step env c).1.ledger.Funded := by
  have hposts := posts_step env hwf c
  obtain ⟨now, op⟩ := c
  have hrefunds : Ledger.Reaches env Refunds σ.ledger (σ.step env ⟨now, op⟩).1.ledger →
      (σ.step env ⟨now, op⟩).1.ledger.Funded := by
    intro h
    refine h.invariant (fun b b' p hp hpost hb => ?_) hfunded
    cases p with
    | opened req => exact hp.elim
    | closed req l refunded =>
      obtain rfl : refunded = true := hp
      exact hpost.funded_closed hb
  have hnothing : Ledger.Reaches env (fun _ => False) σ.ledger (σ.step env ⟨now, op⟩).1.ledger →
      (σ.step env ⟨now, op⟩).1.ledger.Funded :=
    fun h => h.invariant (fun _ _ _ hp _ _ => hp.elim) hfunded
  cases op with
  | submitWithTokens req tokens =>
    rcases σ.admission_submitWithTokens env now req tokens with
      ⟨-, h⟩ | ⟨⟨hadmits, hlen⟩, u, hopen, h⟩
    · exact (congrArg Ledger.Funded h).mpr hfunded
    · have hu := hopen.funded_opened (hc hadmits hlen) hfunded
      rcases h with ⟨-, h⟩ | ⟨-, hclosed⟩
      · exact (congrArg Ledger.Funded h).mpr hu
      · exact hclosed.funded_closed hu
  | runCycle =>
    rw [ledger_runCycle env now hwf, expirySweep, foldl_sweepRequest_of_not_overdue _ hc]
    exact hfunded
  | reportCompletion result => exact hrefunds hposts
  | cancel r => exact hrefunds hposts
  | _ => exact hnothing hposts

/-- Any other call makes them wrong at once. -/
theorem not_funded_step (hwf : σ.view.Wf) (hsane : σ.view.Each fun _ s => s.Sane env)
    (hfunded : σ.ledger.Funded) {c : Call} (hc : ¬σ.KeepsTokens env c) :
    ¬(σ.step env c).1.ledger.Funded := by
  obtain ⟨now, op⟩ := c
  cases op with
  | submitWithTokens req tokens =>
    simp only [KeepsTokens, Classical.not_imp, not_lt] at hc
    obtain ⟨hadmits, hlen, hwraps⟩ := hc
    rcases σ.admission_submitWithTokens env now req tokens with ⟨hnot, -⟩ | ⟨-, u, hopen, h⟩
    · exact absurd ⟨hadmits, hlen⟩ hnot
    · rcases h with ⟨-, h⟩ | ⟨hzero, -⟩
      · intro hafter
        exact hopen.not_funded_opened hwraps hfunded ((congrArg Ledger.Funded h).mp hafter)
      · -- a request without tokens cannot be the one too many
        have hlt := (σ.tenant req.tenantId).admittedTokens.toNat_lt
        rw [hzero] at hwraps
        omega
  | runCycle =>
    simp only [KeepsTokens, not_forall, not_not] at hc
    obtain ⟨r, hover⟩ := hc
    have hpos : ∀ r s, σ.requests.lookup r = some s → s.lifecycle.isTerminal = false →
        0 < s.request.remainingPrefillTokens := fun r s hs hlive =>
      (hsane r s.core (view_req hs)).remaining_pos hlive
    have hmem : r ∈ σ.requests.keys := by
      obtain ⟨s, hs, -⟩ := hover
      exact AList.mem_keys.mp (AList.lookup_isSome.mp (hs ▸ rfl))
    rw [ledger_runCycle env now hwf]
    exact (overcharged_foldl_sweepRequest env now hpos hfunded _ ⟨r, hmem, hover⟩).not_funded
  | _ => exact absurd trivial hc

end Impl

/-! ### Runs -/

namespace Run

/-- **Invariants of ledgers**: what holds of the empty ledger and is kept by every posting
holds at every point of every run. -/
theorem ledger_invariant {P : Ledger → Prop} {env : Env} (h₀ : P (Impl.fresh env).ledger)
    (hP : ∀ b b' p, b.Posts env b' p → P b → P b') (calls : List Call) (n : ℕ) :
    P ((fresh env calls).stateAt n).ledger := by
  refine (Machine.invariant (M := scheduler env) (P := fun σ => σ.view.Wf ∧ P σ.ledger)
    ⟨Impl.wf_fresh env, h₀⟩ (fun σ c h => ⟨Impl.wf_step h.1 c, ?_⟩) n).2
  exact (Impl.posts_step env h.1 c).invariant (fun b b' p _ hposts hb => hP b b' p hposts hb) h.2

theorem tallied (env : Env) (calls : List Call) (n : ℕ) :
    ((fresh env calls).stateAt n).ledger.Tallied :=
  ledger_invariant ⟨rfl, fun l _ => by cases l <;> rfl, rfl⟩
    (fun _ _ _ h hb => h.tallied hb) calls n

theorem counted (env : Env) (calls : List Call) (n : ℕ) :
    ((fresh env calls).stateAt n).ledger.Counted env :=
  ledger_invariant ⟨fun _ => rfl, fun _ => Nat.zero_le _⟩ (fun _ _ _ h hb => h.counted hb) calls n

/-- The table of requests never outgrows the limit on admissions; so the counters of the
scheduler, which are never more than its requests, stay far from wrapping. -/
theorem requestCount_le (env : Env) (calls : List Call) (n : ℕ) :
    ((fresh env calls).stateAt n).requestCount ≤ env.cfg.maxAdmittedRequests.toNat := by
  rw [Impl.requestCount, ← Impl.census_one]
  refine ledger_invariant (P := fun b => b.census 1 ≤ env.cfg.maxAdmittedRequests.toNat)
    (Nat.zero_le _) (fun b b' p hposts hb => ?_) calls n
  cases hposts with
  | opened hfree _ hcensus _ _ =>
    rw [hcensus]
    exact hfree
  | closed _ hcensus _ _ =>
    rw [Nat.add_right_cancel (hcensus 1)]
    exact hb

/-- **Every request is counted once as admitted, and once more when it is over.** -/
theorem tally_eq (env : Env) (calls : List Call) (n : ℕ) :
    let σ := (fresh env calls).stateAt n
    σ.stats.admitted = σ.requestCount ∧
      σ.stats.admitted = σ.stats.completed + σ.stats.cancelled + σ.stats.expired +
        σ.stats.failedNonRetryable + σ.liveCount ∧
      σ.stats.completed = σ.countIn .completed ∧ σ.stats.cancelled = σ.countIn .cancelled ∧
      σ.stats.expired = σ.countIn .expired ∧
      σ.stats.failedNonRetryable = σ.countIn .failedNonRetryable := by
  intro σ
  obtain ⟨hadmitted, hended, htotal⟩ := tallied env calls n
  have hcount : ∀ l, l.IsEnd → σ.stats.tally.count l = σ.countIn l := fun l hl =>
    (hended l hl).trans (σ.census_endedIn hl.1)
  refine ⟨hadmitted.trans σ.census_one, htotal.trans (congrArg (_ + ·) σ.census_live),
    ?_, ?_, ?_, ?_⟩
  · exact hcount .completed ⟨rfl, Lifecycle.noConfusion⟩
  · exact hcount .cancelled ⟨rfl, Lifecycle.noConfusion⟩
  · exact hcount .expired ⟨rfl, Lifecycle.noConfusion⟩
  · exact hcount .failedNonRetryable ⟨rfl, Lifecycle.noConfusion⟩

/-- **The requests on the account of a tenant** are those that are not over, and no more than
the limit. Whoever is about to leave – by a completion or a cancellation, or in a sweep,
whichever requests that has been through – leaves an account that is not empty. -/
theorem outstanding_eq (env : Env) (calls : List Call) (n : ℕ) (t : TenantId) :
    let σ := (fresh env calls).stateAt n
    (σ.tenant t).outstanding = (σ.liveOf t).length ∧
      (σ.tenant t).outstanding ≤ env.cfg.perTenantOutstandingLimit.toNat ∧
      ∀ now (rs : List RequestId) r s,
        (rs.foldl (Impl.sweepRequest now) σ).requests.lookup r = some s →
        s.lifecycle.isTerminal = false → s.request.tenantId = t →
        0 < ((rs.foldl (Impl.sweepRequest now) σ).tenant t).outstanding := by
  intro σ
  have hcounted := counted env calls n
  have houtstanding : ∀ τ : Impl, τ.ledger.Counted env →
      (τ.tenant t).outstanding = (τ.liveOf t).length := by
    intro τ h
    refine ((h.outstanding t).trans (τ.census_ofTenant t 1)).trans ?_
    simp only [Pi.one_apply, List.map_const', List.sum_replicate_nat, Nat.mul_one]
  refine ⟨houtstanding σ hcounted, hcounted.le_limit t, fun now rs r s hs hlive ht => ?_⟩
  rw [houtstanding _ ((Impl.reaches_foldl_sweepRequest env now rs σ).invariant
    (fun _ _ _ _ h hb => h.counted hb) hcounted)]
  refine List.length_pos_of_mem (a := s) (List.mem_filter.mpr ⟨?_, ?_⟩)
  · exact List.mem_map.mpr ⟨⟨r, s⟩, AList.mem_lookup_iff.mp hs, rfl⟩
  · rw [hlive, ht, beq_self_eq_true]
    rfl

theorem funded_iff (σ : Impl) : σ.ledger.Funded ↔ ∀ t, (σ.tenant t).admittedTokens.toNat =
    ((σ.liveOf t).map fun s => s.request.remainingPrefillTokens).sum :=
  forall_congr' fun t => by rw [← σ.census_ofTenant t]; rfl

/-- **The tokens on the accounts** are those of the requests that are not over, throughout a
run, exactly if no cycle of the run ever finds an overdue request and no admission ever makes
the tokens of a tenant more than 64 bits can count. -/
theorem admittedTokens_eq_iff (env : Env) (calls : List Call) :
    (∀ n, n ≤ calls.length → ∀ t,
      (((fresh env calls).stateAt n).tenant t).admittedTokens.toNat =
        ((((fresh env calls).stateAt n).liveOf t).map
          fun s => s.request.remainingPrefillTokens).sum) ↔
    ∀ n c, calls[n]? = some c → ((fresh env calls).stateAt n).KeepsTokens env c := by
  have hwf := fresh_wf env calls
  have hsane := sane hwf (ρ := fresh env calls)
    (fun _ _ h => absurd h (Option.some_ne_none _).symm)
  refine Machine.forall_iff_forall_allowed
    (Q := fun n => ((fresh env calls).stateAt n).ledger.Funded)
    (fun n h => (funded_iff _).mp h) (fun _ => rfl) (fun n c hc h hkeeps => ?_)
    fun n c hc h hnot hafter => ?_
  · rw [stateAt_succ hc]
    exact Impl.funded_step (wf hwf n) h hkeeps
  · rw [stateAt_succ hc, ← funded_iff] at hafter
    exact Impl.not_funded_step (wf hwf n) (hsane n) h hnot hafter

/-- A tenant may have four tokens admitted at a time. -/
def fourTokens : Env :=
  { Env.standard with cfg := { Env.standard.cfg with perTenantAdmittedTokenLimit := 4 } }

/-- A request of four tokens expires, and another one is submitted. -/
def overdueCalls : List Call :=
  [⟨0, .submitWithTokens { plainRequest 1 4 with deadline := some 5 } [1, 2, 3, 4]⟩,
    ⟨10, .runCycle⟩]

/-- The tenant has no request left, and still cannot have another one admitted. -/
theorem admittedTokens_overdueCalls :
    let σ := (fresh fourTokens overdueCalls).stateAt 2
    (σ.tenant ⟨1⟩).admittedTokens.toNat = 4 ∧ (σ.liveOf ⟨1⟩).length = 0 ∧
      ((σ.liveOf ⟨1⟩).map fun s => s.request.remainingPrefillTokens).sum = 0 ∧
      (σ.submitWithTokens fourTokens 20 (plainRequest 2 4) [5, 6, 7, 8]).2 =
        .error ⟨.capacityExceeded, "tenant admitted-token limit exceeded"⟩ := by
  decide +kernel

end Run

/-! ### The size of the table -/

namespace Impl

variable {env : Env} {σ : Impl} {req : PrefillRequest} {tokens : List UInt32}

/-- A valid new request with its tokens is turned down for lack of capacity exactly if the
table is full. -/
theorem submitWithTokens_error_iff (env : Env) (now : Nanoseconds)
    (hvalid : req.validate.code = .ok) (hnew : σ.requests.lookup req.requestId = none)
    (htokens : tokens.length = req.promptTokenCount.toNat) :
    (σ.submitWithTokens env now req tokens).2 =
        .error ⟨.capacityExceeded, "admission capacity exceeded"⟩ ↔
      env.cfg.maxAdmittedRequests.toNat ≤ σ.requestCount := by
  rw [submitWithTokens_eq_of_valid env now hvalid hnew htokens, admitWithinTenant_eq]
  have hne : ∀ message : String, message ≠ "admission capacity exceeded" →
      (.error ⟨.capacityExceeded, message⟩ : Result Unit) ≠
        .error ⟨.capacityExceeded, "admission capacity exceeded"⟩ :=
    fun message h heq => h (congrArg ErrorInfo.message (Except.error.inj heq))
  split_ifs with hfull hout htok
  · exact iff_of_true rfl hfull
  · exact iff_of_false (hne _ (by decide)) hfull
  · exact iff_of_false (hne _ (by decide)) hfull
  · exact iff_of_false id hfull

/-- **The limit on admissions is a limit on requests that are not over** exactly as long as the
table has room, or would be full without the requests that are over, which keep their places
in it. -/
theorem reject_imp_liveCount_iff (env : Env) (now : Nanoseconds)
    (hvalid : req.validate.code = .ok) (hnew : σ.requests.lookup req.requestId = none)
    (htokens : tokens.length = req.promptTokenCount.toNat) :
    ((σ.submitWithTokens env now req tokens).2 =
        .error ⟨.capacityExceeded, "admission capacity exceeded"⟩ →
      env.cfg.maxAdmittedRequests.toNat ≤ σ.liveCount) ↔
    (σ.requestCount < env.cfg.maxAdmittedRequests.toNat ∨
      env.cfg.maxAdmittedRequests.toNat + σ.overCount ≤ σ.requestCount) := by
  have hsum := σ.overCount_add_liveCount
  rw [submitWithTokens_error_iff env now hvalid hnew htokens]
  omega

end Impl

namespace Run

/-- One request may be admitted at a time. -/
def oneRequest : Env := { Env.standard with cfg := { maxAdmittedRequests := 1 } }

/-- The one request is completed. -/
def finishedCalls : List Call :=
  [⟨0, .submitWithTokens (plainRequest 1 2) [5, 6]⟩, ⟨0, .runCycle⟩,
    ⟨0, .reportCompletion (firstReport .success)⟩]

/-- All requests are over, and no other is ever admitted. -/
theorem reject_finishedCalls :
    let σ := (fresh oneRequest finishedCalls).stateAt 3
    σ.countIn .completed = 1 ∧ σ.liveCount = 0 ∧ (plainRequest 2 2).validate.code = .ok ∧
      σ.requests.lookup ⟨2⟩ = none ∧
      (σ.submitWithTokens oneRequest 0 (plainRequest 2 2) [7, 8]).2 =
        .error ⟨.capacityExceeded, "admission capacity exceeded"⟩ := by
  decide +kernel

/-- While its one request is in flight, the scheduler is right to turn down another. -/
theorem reject_imp_liveCount_iff_finishedCalls :
    let σ := (fresh oneRequest finishedCalls).stateAt 2
    ((σ.submitWithTokens oneRequest 0 (plainRequest 2 2) [7, 8]).2 =
        .error ⟨.capacityExceeded, "admission capacity exceeded"⟩ →
      oneRequest.cfg.maxAdmittedRequests.toNat ≤ σ.liveCount) ↔
    (σ.requestCount < oneRequest.cfg.maxAdmittedRequests.toNat ∨
      oneRequest.cfg.maxAdmittedRequests.toNat + σ.overCount ≤ σ.requestCount) :=
  Impl.reject_imp_liveCount_iff oneRequest 0 (by decide +kernel) (by decide +kernel)
    (by decide +kernel)

end Run

end PrefillFabric
