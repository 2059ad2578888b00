import PrefillFabric.Scheduler.Simulation
import PrefillFabric.Scheduler.Surroundings

/-!
# The ledger

The scheduler keeps accounts by hand: a tally of admissions and of the ways requests end,
and for each tenant the number of its requests that are not over and the tokens these were
admitted with. The `Ledger` of a state is these accounts together with its *census*, the
sums over the table of requests of all weights that see of a request only itself and how
it ended, if it has.

Only two things ever happen in the ledger. A request is *opened*, which adds it to the
census as one that is not over; or one that is not over is *closed*, and from then on
counts as ended in some way (`Ledger.Posts`). Every call is a chain of such postings
(`Impl.posts_step`), and each operation makes postings of its own kind only: the one that
closes requests without giving back their tokens is the cycle, in its sweep.
-/

namespace PrefillFabric

/-! ### Standing -/

/-- How a request ended, if it has. -/
def Lifecycle.ending (l : Lifecycle) : Option Lifecycle := if l.isTerminal then some l else none

/-- A request, and how it ended, if it has. -/
def Rs.standing (s : Rs) : PrefillRequest × Option Lifecycle := (s.request, s.lifecycle.ending)

theorem Lifecycle.ending_of_live {l : Lifecycle} (h : l.isTerminal = false) : l.ending = none :=
  if_neg (Bool.eq_false_iff.mp h)

theorem Lifecycle.ending_of_terminal {l : Lifecycle} (h : l.isTerminal = true) :
    l.ending = some l := if_pos h

/-- A weight of requests, by their standing. -/
abbrev Weight := PrefillRequest → Option Lifecycle → ℕ

/-! ### Accounts -/

/-- What is on the account of a tenant: how many of its requests are not over, and the
tokens they were admitted with. -/
@[ext] structure Account where
  outstanding : ℕ
  admittedTokens : UInt64

namespace Account

/-- With one more request. -/
def opened (rem : ℕ) (a : Account) : Account := ⟨a.outstanding + 1, a.admittedTokens + .ofNat rem⟩

/-- With one request fewer, and never fewer than none; the tokens are given back if that many
are on the books. -/
def closed (refunded : Bool) (rem : ℕ) (a : Account) : Account where
  outstanding := a.outstanding - 1
  admittedTokens :=
    if refunded = true ∧ UInt64.ofNat rem ≤ a.admittedTokens then a.admittedTokens - .ofNat rem
    else a.admittedTokens

/-- Where there are no tokens, none are given back. -/
theorem closed_zero (refunded : Bool) (a : Account) :
    a.closed refunded 0 = ⟨a.outstanding - 1, a.admittedTokens⟩ := by
  refine Account.ext rfl ?_
  unfold closed
  dsimp only
  split_ifs
  · exact UInt64.sub_zero _
  · rfl

end Account

namespace TenantService

/-- What is on an account. -/
def account (ts : TenantService) : Account := ⟨ts.outstanding, ts.admittedTokens⟩

theorem account_leave (ts : TenantService) (rem : ℕ) :
    ts.leave.account = ts.account.closed false rem := by
  rw [Account.closed, if_neg fun h => Bool.false_ne_true h.1]
  rfl

theorem account_settle (ts : TenantService) (rem : ℕ) :
    (ts.settle rem).account = ts.account.closed true rem := by
  unfold settle refund Account.closed
  by_cases h : UInt64.ofNat rem ≤ ts.admittedTokens
  · rw [if_pos (show UInt64.ofNat rem ≤ ts.leave.admittedTokens from h),
      if_pos ⟨rfl, show UInt64.ofNat rem ≤ ts.account.admittedTokens from h⟩]
    rfl
  · rw [if_neg (show ¬UInt64.ofNat rem ≤ ts.leave.admittedTokens from h),
      if_neg (show ¬(true = true ∧ UInt64.ofNat rem ≤ ts.account.admittedTokens) from
        fun hc => h hc.2)]
    rfl

end TenantService

/-- One more request ended in a given way. -/
def Tally.ended (l : Lifecycle) (t : Tally) : Tally :=
  match l with
  | .completed => { t with completed := t.completed + 1 }
  | .cancelled => { t with cancelled := t.cancelled + 1 }
  | .expired => { t with expired := t.expired + 1 }
  | .failedNonRetryable => { t with failedNonRetryable := t.failedNonRetryable + 1 }
  | _ => t

/-! ### Ledgers and postings -/

/-- The census of the requests, and the accounts that are kept of them. -/
@[ext] structure Ledger where
  census : Weight → ℕ
  tally : Tally
  account : TenantId → Account

/-- A ledger once a request is opened in it. -/
def Ledger.opening (b : Ledger) (req : PrefillRequest) : Ledger where
  census w := b.census w + w req none
  tally := { b.tally with admitted := b.tally.admitted + 1 }
  account := Function.update b.account req.tenantId
    ((b.account req.tenantId).opened req.remainingPrefillTokens)

/-- What can be posted. -/
inductive Posting
  /-- A request is admitted. -/
  | opened (req : PrefillRequest)
  /-- A request is over, and its tokens are given back or not. -/
  | closed (req : PrefillRequest) (l : Lifecycle) (refunded : Bool)

/-- The ways in which a request that was admitted can end. -/
def Lifecycle.IsEnd (l : Lifecycle) : Prop := l.isTerminal = true ∧ l ≠ .rejected

/-- **Posting** in a ledger. -/
inductive Ledger.Posts (env : Env) (b b' : Ledger) : Posting → Prop
  | opened {req : PrefillRequest} (hfree : b.census 1 < env.cfg.maxAdmittedRequests.toNat)
      (hroom : (b.account req.tenantId).outstanding < env.cfg.perTenantOutstandingLimit.toNat)
      (hcensus : ∀ w, b'.census w = b.census w + w req none)
      (htally : b'.tally = { b.tally with admitted := b.tally.admitted + 1 })
      (haccount : b'.account = Function.update b.account req.tenantId
        ((b.account req.tenantId).opened req.remainingPrefillTokens)) :
      Posts env b b' (.opened req)
  | closed {req : PrefillRequest} {l : Lifecycle} {refunded : Bool} (hend : l.IsEnd)
      (hcensus : ∀ w, b'.census w + w req none = b.census w + w req (some l))
      (htally : b'.tally = b.tally.ended l)
      (haccount : b'.account = Function.update b.account req.tenantId
        ((b.account req.tenantId).closed refunded req.remainingPrefillTokens)) :
      Posts env b b' (.closed req l refunded)

/-- A chain of postings of a kind. -/
def Ledger.Reaches (env : Env) (L : Posting → Prop) : Ledger → Ledger → Prop :=
  Relation.ReflTransGen fun b b' => ∃ p, L p ∧ b.Posts env b' p

theorem Ledger.reaches_of_eq {env : Env} {L : Posting → Prop} {b b' : Ledger} (h : b' = b) :
    Ledger.Reaches env L b b' := h ▸ .refl

/-- What every posting of a kind keeps, a chain of them keeps. -/
theorem Ledger.Reaches.invariant {env : Env} {L : Posting → Prop} {P : Ledger → Prop}
    {b b' : Ledger}
    (h : Ledger.Reaches env L b b')
    (hP : ∀ b b' p, L p → b.Posts env b' p → P b → P b') (hb : P b) : P b' := by
  induction h with
  | refl => exact hb
  | tail _ hp ih =>
    obtain ⟨p, hL, hpost⟩ := hp
    exact hP _ _ p hL hpost ih

namespace Impl

variable {env : Env} {now : Nanoseconds} {σ σ' : Impl} {r : RequestId} {s s' : Rs}
  {req : PrefillRequest}

/-- The sum of a weight over all requests. -/
def census (σ : Impl) (w : Weight) : ℕ :=
  AList.total (fun _ s => w s.request s.lifecycle.ending) σ.requests

/-- The ledger of a state. -/
def ledger (σ : Impl) : Ledger where
  census := σ.census
  tally := σ.stats.tally
  account t := (σ.tenant t).account

theorem census_one (σ : Impl) : σ.census 1 = AList.size σ.requests := AList.total_one σ.requests

/-- Where every request stands as before, the census is as before. -/
theorem census_eq (h : ∀ r, (σ'.requests.lookup r).map Rs.standing =
    (σ.requests.lookup r).map Rs.standing) : σ'.census = σ.census :=
  funext fun w => AList.total_congr (f := Rs.standing) (fun _ p => w p.1 p.2) h

theorem census_insert_new (w : Weight) (h : σ.requests.lookup r = none)
    (hreq : σ'.requests = σ.requests.insert r s) :
    σ'.census w = σ.census w + w s.request s.lifecycle.ending := by
  have hinsert := AList.total_insert (fun _ s => w s.request s.lifecycle.ending) σ.requests r s
  rw [h, Option.elim_none, Nat.add_zero] at hinsert
  rw [census, hreq]
  exact hinsert

theorem census_insert_known (w : Weight) (h : σ.requests.lookup r = some s)
    (hreq : σ'.requests = σ.requests.insert r s') :
    σ'.census w + w s.request s.lifecycle.ending =
      σ.census w + w s'.request s'.lifecycle.ending := by
  have hinsert := AList.total_insert (fun _ s => w s.request s.lifecycle.ending) σ.requests r s'
  rw [h, Option.elim_some] at hinsert
  rw [census, hreq]
  exact hinsert

/-- The tenants and the tally: what is kept by hand. -/
def accounts (σ : Impl) : Table TenantId TenantService × Tally := (σ.tenants, σ.stats.tally)

theorem ledger_eq (hstand : ∀ r, (σ'.requests.lookup r).map Rs.standing =
    (σ.requests.lookup r).map Rs.standing) (haccounts : σ'.accounts = σ.accounts) :
    σ'.ledger = σ.ledger := by
  obtain ⟨htenants, htally⟩ := Prod.mk.inj haccounts
  refine Ledger.ext (census_eq hstand) htally (funext fun t => ?_)
  change ((σ'.tenants.lookup t).getD {}).account = ((σ.tenants.lookup t).getD {}).account
  rw [htenants]

/-! ### Records that are written -/

/-- A record is written under a request that is not over: if the request is over then, it is
closed. -/
theorem posts_closed {l : Lifecycle} {refunded : Bool} (env : Env)
    (hs : σ.requests.lookup r = some s) (hlive : s.lifecycle.isTerminal = false)
    (hreq : σ'.requests = σ.requests.insert r s') (hrequest : s'.request = s.request)
    (hl : s'.lifecycle = l) (hend : l.IsEnd) (htally : σ'.stats.tally = σ.stats.tally.ended l)
    (haccount : ∀ t, (σ'.tenant t).account = if t = s.request.tenantId then
      (σ.tenant s.request.tenantId).account.closed refunded s.request.remainingPrefillTokens
      else (σ.tenant t).account) :
    σ.ledger.Posts env σ'.ledger (.closed s.request l refunded) := by
  refine .closed hend (fun w => ?_) htally (funext fun t => ?_)
  · have hcensus := census_insert_known w hs hreq
    rwa [hl, hrequest, Lifecycle.ending_of_live hlive, Lifecycle.ending_of_terminal hend.1]
      at hcensus
  · rw [Function.update_apply]
    exact haccount t

/-- If it is not over then, nothing is posted. -/
theorem ledger_eq_of_live (hs : σ.requests.lookup r = some s)
    (hlive : s.lifecycle.isTerminal = false) (hreq : σ'.requests = σ.requests.insert r s')
    (hrequest : s'.request = s.request) (hlive' : s'.lifecycle.isTerminal = false)
    (htally : σ'.stats.tally = σ.stats.tally)
    (haccount : ∀ t, (σ'.tenant t).account = (σ.tenant t).account) : σ'.ledger = σ.ledger := by
  refine Ledger.ext (funext fun w => ?_) htally (funext haccount)
  have hcensus := census_insert_known w hs hreq
  rw [hrequest, Lifecycle.ending_of_live hlive, Lifecycle.ending_of_live hlive'] at hcensus
  exact Nat.add_right_cancel hcensus

/-- The requests, the tenants and the statistics. -/
def books (σ : Impl) : Table RequestId Rs × Table TenantId TenantService × Stats :=
  (σ.requests, σ.tenants, σ.stats)

theorem books_releaseReservation (σ : Impl) (s : Rs) :
    (σ.releaseReservation s).books = σ.books := by
  unfold releaseReservation
  split_ifs <;> rfl

theorem books_detachMember (σ : Impl) (gid : GroupId) (r : RequestId) :
    (σ.detachMember gid r).books = σ.books := by
  unfold detachMember
  cases σ.groups.lookup gid with
  | none => rfl
  | some gs =>
    dsimp only
    split_ifs <;> rfl

theorem books_ite {p : Prop} [Decidable p] {τ τ' : Impl} (h : τ.books = σ.books)
    (h' : τ'.books = σ.books) : (if p then τ else τ').books = σ.books := by
  split_ifs
  · exact h
  · exact h'

/-! ### Expiry -/

theorem posts_expireRequest (env : Env) (now : Nanoseconds) (hs : σ.requests.lookup r = some s)
    (hlive : s.lifecycle.isTerminal = false) :
    σ.ledger.Posts env (σ.expireRequest now r s).ledger (.closed s.request .expired false) := by
  have hbooks := (books_releaseReservation _ s).trans
    (books_ite (p := s.inFlight = true)
      (books_detachMember σ s.currentGroup s.request.requestId) rfl)
  unfold expireRequest
  dsimp only
  generalize (if s.inFlight = true then σ.detachMember s.currentGroup s.request.requestId
    else σ).releaseReservation s = σ₁ at hbooks
  obtain ⟨hreq, hrest⟩ := Prod.mk.inj hbooks
  obtain ⟨htenants, hstats⟩ := Prod.mk.inj hrest
  have htenant : ∀ t, σ₁.tenant t = σ.tenant t := fun t => by unfold tenant; rw [htenants]
  refine posts_closed env hs hlive (congrArg (AList.insert r _) hreq) s.dropReservation_request rfl
    ⟨rfl, Lifecycle.noConfusion⟩ (congrArg (fun st => (Stats.tally st).ended .expired) hstats)
    fun t => ?_
  refine (congrArg TenantService.account (tenant_charge _ _ _ t)).trans ?_
  by_cases ht : t = s.request.tenantId
  · rw [if_pos ht, if_pos ht, TenantService.account_leave _ s.request.remainingPrefillTokens]
    exact congrArg (fun ts => (TenantService.account ts).closed false _) (htenant _)
  · rw [if_neg ht, if_neg ht]
    exact congrArg TenantService.account (htenant t)

/-- What the sweep posts. -/
def Sweeps : Posting → Prop
  | .closed _ l refunded => l = .expired ∧ refunded = false
  | _ => False

theorem posts_sweepRequest (env : Env) (h : σ.Overdue now r) :
    ∃ s, σ.requests.lookup r = some s ∧ s.lifecycle.isTerminal = false ∧
      σ.ledger.Posts env (σ.sweepRequest now r).ledger (.closed s.request .expired false) := by
  obtain ⟨s, k, hs, hlive, heq⟩ := exists_sweepRequest_eq h
  refine ⟨s, hs, hlive, ?_⟩
  rw [heq]
  generalize hcounted : σ.count _ = τ
  have hledger : τ.ledger = σ.ledger := by
    rw [← hcounted]
    rfl
  have hlookup : τ.requests.lookup r = some s := by
    rw [← hcounted]
    exact hs
  rw [← hledger]
  exact posts_expireRequest env now hlookup hlive

theorem reaches_sweepRequest (env : Env) (now : Nanoseconds) (σ : Impl) (r : RequestId) :
    Ledger.Reaches env Sweeps σ.ledger (σ.sweepRequest now r).ledger := by
  by_cases h : σ.Overdue now r
  · obtain ⟨s, -, -, hposts⟩ := posts_sweepRequest env h
    exact .single ⟨.closed s.request .expired false, ⟨rfl, rfl⟩, hposts⟩
  · exact Ledger.reaches_of_eq (congrArg ledger (sweepRequest_of_not_overdue h))

theorem reaches_foldl_sweepRequest (env : Env) (now : Nanoseconds) (rs : List RequestId)
    (σ : Impl) :
    Ledger.Reaches env Sweeps σ.ledger (rs.foldl (sweepRequest now) σ).ledger := by
  induction rs generalizing σ with
  | nil => exact .refl
  | cons r rs ih => exact (reaches_sweepRequest env now σ r).trans (ih _)

/-! ### Completion -/

/-- Settling a request closes it in the account of its tenant, which is given back what it had
still to run, and leaves the other accounts alone. -/
theorem account_settleTenant (σ : Impl) (s : Rs) (t : TenantId) :
    ((σ.settleTenant s).tenant t).account = if t = s.request.tenantId then
      (σ.tenant s.request.tenantId).account.closed true s.request.remainingPrefillTokens
      else (σ.tenant t).account := by
  rw [settleTenant, tenant_charge]
  split_ifs
  · exact TenantService.account_settle _ _
  · rfl

/-- What an outcome does in the books: a request that is over then is counted and settled
with its tenant, and for any other nothing is written. -/
structure Settles (s : Rs) (σ : Impl) (out : Impl × Rs) : Prop where
  requests : out.1.requests = σ.requests
  request : out.2.request = s.request
  books : (out.2.lifecycle.isTerminal = false ∧ out.1.stats.tally = σ.stats.tally ∧
      ∀ t, (out.1.tenant t).account = (σ.tenant t).account) ∨
    (out.2.lifecycle.IsEnd ∧ out.1.stats.tally = σ.stats.tally.ended out.2.lifecycle ∧
      ∀ t, (out.1.tenant t).account = if t = s.request.tenantId then
        (σ.tenant s.request.tenantId).account.closed true s.request.remainingPrefillTokens
        else (σ.tenant t).account)

theorem settles_failRequest (now : Nanoseconds) (s : Rs) (line detail : String) (σ : Impl) :
    Settles s σ (failRequest now s line detail σ) where
  requests := rfl
  request := rfl
  books := Or.inr ⟨⟨rfl, Lifecycle.noConfusion⟩, rfl, account_settleTenant _ s⟩

theorem settles_cancelRequest (now : Nanoseconds) (s : Rs) (line detail : String) (σ : Impl) :
    Settles s σ (cancelRequest now s line detail σ) where
  requests := rfl
  request := rfl
  books := Or.inr ⟨⟨rfl, Lifecycle.noConfusion⟩, rfl, account_settleTenant _ s⟩

theorem settles_settleSuccess (now : Nanoseconds) (s : Rs) (σ : Impl) :
    Settles s σ (settleSuccess now s σ) := by
  unfold settleSuccess
  split_ifs
  · exact settles_cancelRequest now s _ _ σ
  · exact ⟨rfl, rfl, Or.inl ⟨rfl, rfl, fun _ => rfl⟩⟩
  · refine ⟨rfl, rfl, Or.inr ⟨⟨rfl, Lifecycle.noConfusion⟩, rfl, fun t => ?_⟩⟩
    refine (account_settleTenant _ s t).trans ?_
    -- the count of completed requests is not on the account
    rw [tenant_charge, tenant_charge, if_pos rfl]
    by_cases ht : t = s.request.tenantId
    · rw [if_pos ht, if_pos ht]
      rfl
    · rw [if_neg ht, if_neg ht, if_neg ht]
      rfl

theorem settles_settleOutcome (env : Env) (now : Nanoseconds) (result : MemberResult) {s : Rs}
    (hlive : s.lifecycle.isTerminal = false) (σ : Impl) :
    Settles s σ (settleOutcome env now result s σ) := by
  unfold settleOutcome
  cases result.outcome with
  | success => exact settles_settleSuccess now s σ
  | needsNextChunk => exact settles_settleSuccess now s σ
  | retryableFailure =>
    dsimp only
    split_ifs
    · exact ⟨rfl, rfl, Or.inl ⟨rfl, rfl, fun _ => rfl⟩⟩
    · exact settles_failRequest now s _ _ σ
  | nonRetryableFailure => exact settles_failRequest now s _ _ σ
  | cancelled => exact settles_cancelRequest now s _ _ σ
  | expired =>
    exact ⟨rfl, rfl, Or.inr ⟨⟨rfl, Lifecycle.noConfusion⟩, rfl, account_settleTenant _ s⟩⟩
  | staleRejected => exact ⟨rfl, rfl, Or.inl ⟨hlive, rfl, fun _ => rfl⟩⟩

/-- What is settled when a request is over: its tokens are given back. -/
def Refunds : Posting → Prop
  | .closed _ _ refunded => refunded = true
  | _ => False

/-- What is counted before the outcome of a completion is looked at. -/
def accounted (now : Nanoseconds) (s : Rs) (σ : Impl) : Impl :=
  (σ.count fun st =>
    { st with
      completedTokens := st.completedTokens + s.nextChunk.tokenCount
      executionLatencyTotalNs := st.executionLatencyTotalNs + (now - s.dispatchTime)
      executionLatencySamples := st.executionLatencySamples + 1 }).charge s.request.tenantId
    fun ts => { ts with scheduledTokens := ts.scheduledTokens + s.nextChunk.tokenCount }

/-- A settled record is put away: its reservation and its place in a group are given up. -/
def putAway (r : RequestId) (out : Impl × Rs) : Impl :=
  let σ := out.1.releaseReservation out.2
  let σ :=
    if out.2.currentGroup.isNil then σ
    else σ.detachMember out.2.currentGroup out.2.request.requestId
  let σ := σ.setRequest r { out.2.dropReservation with currentGroup := .nil }
  σ.count fun st => { st with remainingPrefillTokens := σ.remainingTokens }

theorem applyCompletion_eq (env : Env) (now : Nanoseconds) (result : MemberResult) (s : Rs)
    (σ : Impl) : σ.applyCompletion env now result s =
      putAway result.requestId (settleOutcome env now result (s.landed env) (σ.accounted now s)) :=
  rfl

/-- What is counted then is on no account. -/
theorem account_accounted (now : Nanoseconds) (s : Rs) (σ : Impl) (t : TenantId) :
    ((σ.accounted now s).tenant t).account = (σ.tenant t).account := by
  rw [accounted, tenant_charge]
  split_ifs with ht
  · rw [ht]
    rfl
  · rfl

theorem putAway_spec (r : RequestId) (out : Impl × Rs) :
    (putAway r out).requests =
        out.1.requests.insert r { out.2.dropReservation with currentGroup := .nil } ∧
      (putAway r out).stats.tally = out.1.stats.tally ∧
      ∀ t, (putAway r out).tenant t = out.1.tenant t := by
  have hbooks : (if out.2.currentGroup.isNil = true then out.1.releaseReservation out.2
      else (out.1.releaseReservation out.2).detachMember out.2.currentGroup
        out.2.request.requestId).books = out.1.books :=
    books_ite (books_releaseReservation _ _)
      ((books_detachMember _ _ _).trans (books_releaseReservation _ _))
  unfold putAway
  dsimp only
  generalize (if out.2.currentGroup.isNil = true then _ else _ : Impl) = σ at hbooks
  obtain ⟨hreq, hrest⟩ := Prod.mk.inj hbooks
  obtain ⟨htenants, hstats⟩ := Prod.mk.inj hrest
  have htally : σ.stats.tally = out.1.stats.tally := congrArg Stats.tally hstats
  refine ⟨congrArg (AList.insert r _) hreq, htally, fun t => ?_⟩
  unfold tenant
  rw [← htenants]
  rfl

theorem reaches_applyCompletion (env : Env) (now : Nanoseconds) (result : MemberResult)
    (hs : σ.requests.lookup result.requestId = some s) (hlive : s.lifecycle.isTerminal = false) :
    Ledger.Reaches env Refunds σ.ledger (σ.applyCompletion env now result s).ledger := by
  rw [applyCompletion_eq]
  obtain ⟨hreq, hrequest, hcases⟩ :=
    settles_settleOutcome env now result (s := s.landed env) hlive (σ.accounted now s)
  generalize settleOutcome env now result (s.landed env) (σ.accounted now s) = out
    at hreq hrequest hcases
  obtain ⟨hinsert, htally, htenant⟩ := putAway_spec result.requestId out
  rw [hreq] at hinsert
  have hrequest' := out.2.dropReservation_request.trans hrequest
  have hlifecycle := out.2.dropReservation_lifecycle
  rcases hcases with ⟨hlive', htally', haccount⟩ | ⟨hend, htally', haccount⟩
  · refine Ledger.reaches_of_eq (ledger_eq_of_live hs hlive hinsert hrequest'
      (hlifecycle.symm ▸ hlive') (htally.trans htally') fun t => ?_)
    rw [htenant, haccount, account_accounted]
  · refine .single ⟨.closed s.request out.2.lifecycle true, rfl,
      posts_closed env hs hlive hinsert hrequest' hlifecycle hend (htally.trans htally')
        fun t => ?_⟩
    rw [htenant, haccount, account_accounted, account_accounted]
    rfl

theorem ledger_refuse (now : Nanoseconds) (result : MemberResult) (why : Refusal) (σ : Impl) :
    (σ.refuse now result why).1.ledger = σ.ledger := by
  cases why <;> rfl

theorem reaches_reportCompletion (env : Env) (now : Nanoseconds) (result : MemberResult)
    (σ : Impl) :
    Ledger.Reaches env Refunds σ.ledger (σ.reportCompletion env now result).1.ledger := by
  unfold reportCompletion
  cases hcheck : σ.checkAuthority result with
  | error why => exact Ledger.reaches_of_eq (ledger_refuse now result why σ)
  | ok s =>
    obtain ⟨hs, haccepts⟩ := accepts_of_checkAuthority hcheck
    exact reaches_applyCompletion env now result hs haccepts.lifecycle

/-! ### Cancellation -/

theorem reaches_cancel (env : Env) (now : Nanoseconds) (r : RequestId) (σ : Impl) :
    Ledger.Reaches env Refunds σ.ledger (σ.cancel now r).1.ledger := by
  unfold cancel
  cases hs : σ.requests.lookup r with
  | none => exact .refl
  | some s =>
    dsimp only
    by_cases hterm : s.lifecycle.isTerminal = true
    · rw [if_pos hterm]
      exact .refl
    have hlive := Bool.eq_false_iff.mpr hterm
    rw [if_neg hterm]
    by_cases hflight : s.inFlight = true
    · rw [if_pos hflight]
      exact Ledger.reaches_of_eq (ledger_eq_of_live hs hlive rfl rfl hlive rfl fun _ => rfl)
    · rw [if_neg hflight]
      have hrelease := books_releaseReservation σ s
      generalize σ.releaseReservation s = σ₁ at hrelease
      have hbooks := books_ite (p := s.currentGroup.isNil = true) (σ := (σ₁.count fun st =>
        { st with cancelled := st.cancelled + 1 }).charge s.request.tenantId
          (·.settle s.request.remainingPrefillTokens)) rfl (books_detachMember _ s.currentGroup r)
      generalize (if s.currentGroup.isNil = true then _ else _ : Impl) = σ₂ at hbooks
      obtain ⟨hreq, hrest⟩ := Prod.mk.inj hrelease
      obtain ⟨htenants, hstats⟩ := Prod.mk.inj hrest
      obtain ⟨hreq', hrest'⟩ := Prod.mk.inj hbooks
      obtain ⟨htenants', hstats'⟩ := Prod.mk.inj hrest'
      have htally : σ₂.stats.tally = σ.stats.tally.ended .cancelled := by
        rw [hstats', ← hstats]
        rfl
      refine .single ⟨.closed s.request .cancelled true, rfl,
        posts_closed env hs hlive (congrArg (AList.insert r _) (hreq'.trans hreq))
          s.dropReservation_request rfl ⟨rfl, Lifecycle.noConfusion⟩ htally fun t => ?_⟩
      have htenant : ∀ t, σ₁.tenant t = σ.tenant t := fun t => by unfold tenant; rw [htenants]
      have htenant' : σ₂.tenant t = ((σ₁.count fun st =>
          { st with cancelled := st.cancelled + 1 }).charge s.request.tenantId
            (·.settle s.request.remainingPrefillTokens)).tenant t := by
        unfold tenant
        rw [htenants']
      refine (congrArg TenantService.account htenant').trans ?_
      rw [tenant_charge]
      split_ifs
      · rw [TenantService.account_settle]
        exact congrArg (fun ts => (TenantService.account ts).closed true _) (htenant _)
      · exact congrArg TenantService.account (htenant t)

/-! ### Submission -/

/-- What a submission posts. -/
def Admissions (req : PrefillRequest) (p : Posting) : Prop :=
  p = .opened req ∨ p = .closed req .completed true

theorem account_enrolled (σ : Impl) (req : PrefillRequest) (t : TenantId) :
    ((σ.enrolled req).tenant t).account = (σ.ledger.opening req).account t := by
  refine Eq.trans ?_ (Function.update_apply _ _ _ _).symm
  rw [enrolled, tenant_charge]
  split_ifs <;> rfl

/-- **An admission** opens a request; one with nothing to compute is closed at once. -/
def Admission (env : Env) (req : PrefillRequest) (b b' : Ledger) : Prop :=
  ∃ u : Ledger, b.Posts env u (.opened req) ∧
    ((req.remainingPrefillTokens ≠ 0 ∧ b' = u) ∨
      (req.remainingPrefillTokens = 0 ∧ u.Posts env b' (.closed req .completed true)))

theorem admission_admitRequest (env : Env) (now : Nanoseconds)
    (hnew : σ.requests.lookup req.requestId = none)
    (hfree : AList.size σ.requests < env.cfg.maxAdmittedRequests.toNat)
    (hroom : (σ.tenant req.tenantId).outstanding < env.cfg.perTenantOutstandingLimit.toNat) :
    Admission env req σ.ledger (σ.admitRequest env now req).ledger := by
  rw [← census_one] at hfree
  refine ⟨σ.ledger.opening req, .opened hfree hroom (fun _ => rfl) rfl rfl,
    ?_⟩
  rw [admitRequest_eq]
  split_ifs with hrem
  · -- there is nothing to give back
    refine Or.inr ⟨hrem, ?_⟩
    refine .closed ⟨rfl, Lifecycle.noConfusion⟩ (fun w => ?_) rfl (funext fun t => ?_)
    · change _ + w req none = σ.census w + w req none + w req (some .completed)
      rw [Nat.add_right_comm]
      exact congrArg (· + w req none) ((census_insert_new w hnew rfl).trans rfl)
    · rw [Function.update_apply, hrem, Account.closed_zero, ← account_enrolled, ← account_enrolled]
      change (tenant _ t).account = _
      rw [tenant_record, tenant_setRequest, tenant_charge]
      split_ifs <;> rfl
  · exact Or.inl ⟨hrem, Ledger.ext (funext fun w => (census_insert_new w hnew rfl).trans rfl) rfl
      (funext (account_enrolled σ req))⟩

/-- **A submission** is an admission, or posts nothing. -/
theorem admission_submitWithTokens (env : Env) (now : Nanoseconds) (req : PrefillRequest)
    (tokens : List UInt32) (σ : Impl) :
    (¬(σ.Admits env req ∧ tokens.length = req.promptTokenCount.toNat) ∧
      (σ.submitWithTokens env now req tokens).1.ledger = σ.ledger) ∨
    ((σ.Admits env req ∧ tokens.length = req.promptTokenCount.toNat) ∧
      Admission env req σ.ledger (σ.submitWithTokens env now req tokens).1.ledger) := by
  rcases σ.submitWithTokens_cases env now req tokens with ⟨-, hnot, hsame⟩ | ⟨hadmits, hlen, heq⟩
  · refine Or.inl ⟨hnot, Ledger.ext (census_eq fun r => ?_) hsame.tally (funext fun t => ?_)⟩
    · rw [hsame.requests]
    · exact Account.ext (hsame.outstanding t) (hsame.admittedTokens t)
  · have haccount : ((σ.withTokens req tokens).withAccount req).ledger = σ.ledger := by
      refine Ledger.ext rfl rfl (funext fun t => ?_)
      obtain ⟨hout, htok⟩ := tenant_withAccount req (σ.withTokens req tokens) t
      exact Account.ext hout htok
    refine Or.inr ⟨⟨hadmits, hlen⟩, ?_⟩
    rw [heq, ← haccount]
    refine admission_admitRequest env now hadmits.new hadmits.room ?_
    rw [(tenant_withAccount req (σ.withTokens req tokens) req.tenantId).1]
    exact hadmits.outstanding

theorem reaches_submitWithTokens (env : Env) (now : Nanoseconds) (req : PrefillRequest)
    (tokens : List UInt32) (σ : Impl) :
    Ledger.Reaches env (Admissions req) σ.ledger
      (σ.submitWithTokens env now req tokens).1.ledger := by
  rcases σ.admission_submitWithTokens env now req tokens with ⟨-, h⟩ | ⟨-, u, hopen, hrest⟩
  · exact Ledger.reaches_of_eq h
  · refine (Relation.ReflTransGen.single ⟨_, Or.inl rfl, hopen⟩).trans ?_
    rcases hrest with ⟨-, h⟩ | ⟨-, hclosed⟩
    · exact Ledger.reaches_of_eq h
    · exact .single ⟨_, Or.inr rfl, hclosed⟩

end Impl

/-! ### What posts nothing -/

/-- What leaves every request standing where it stood. -/
def Label.Neutral : Label → Prop
  | enter _ | expire _ | finish _ _ | cancel _ => False
  | _ => True

section

variable {env : Env} {v v' : View} {l : Label} {r : RequestId} {s s' : Rs}

theorem Rs.standing_of_live (h : s.lifecycle.isTerminal = false) : s.standing = (s.request, none) :=
  congrArg (Prod.mk s.request) (Lifecycle.ending_of_live h)

theorem Fate.standing (h : Fate env v r s l s') (hl : l.Neutral) : s'.standing = s.standing := by
  cases h with
  | keep => rfl
  | expire _ => exact hl.elim
  | launch _ _ hwait _ _ _ _ _ =>
    exact (Rs.standing_of_live (Rs.isTerminal_of_isWaiting hwait)).symm
  | finish _ _ _ => exact hl.elim
  | flag _ _ => rfl
  | cancel _ _ => exact hl.elim
  | withdraw _ _ => simp [Rs.standing, Rs.withdrawn]
  | retry hlive =>
    rw [Rs.standing_of_live hlive]
    unfold Rs.retried
    split_ifs
    · exact congrArg (Prod.mk · none) s.dropReservation_request
    · rfl
  | recover _ _ hdisp =>
    have hlive : s.lifecycle.isTerminal = false := by
      rw [hdisp]
      rfl
    rw [Rs.standing_of_live hlive]
    exact congrArg (Prod.mk · none) s.dropReservation_request

theorem Effect.standing (h : Effect env v l v') (hl : l.Neutral) (r : RequestId) :
    (v'.req r).map Rs.standing = (v.req r).map Rs.standing := by
  cases hr : v.req r with
  | none =>
    rcases h.req_eq_none_or_enter hr with hnone | ⟨_, _, -, rfl, -⟩
    · rw [hnone]
    · exact hl.elim
  | some s =>
    obtain ⟨s', hs', hfate⟩ := h.exists_fate hr
    rw [hs', Option.map_some, hfate.standing hl, Option.map_some]

theorem Effects.standing {ms : List ExecutableMember} (h : Effects env Label.Neutral v ms v')
    (r : RequestId) : (v'.req r).map Rs.standing = (v.req r).map Rs.standing := by
  induction h with
  | refl => rfl
  | tail _ hl hL ih => rw [hl.standing hL r, ih]

end

namespace Impl

variable {env : Env} {σ σ' : Impl}

/-- Neutral effects that leave the accounts alone leave the ledger alone. -/
theorem ledger_eq_of_effects {ms : List ExecutableMember}
    (h : Effects env Label.Neutral σ.view ms σ'.view) (haccounts : σ'.accounts = σ.accounts) :
    σ'.ledger = σ.ledger := by
  refine ledger_eq (fun r => ?_) haccounts
  have hstand := h.standing r
  -- the core of a record has its standing
  rwa [view, view, Option.map_map, Option.map_map] at hstand

theorem accounts_of_books (h : σ'.books = σ.books) : σ'.accounts = σ.accounts :=
  congrArg (fun b => (b.2.1, Stats.tally b.2.2)) h

theorem accounts_of_around (h : σ'.around = σ.around) : σ'.accounts = σ.accounts :=
  congrArg (fun a => (a.tenants, a.tally)) h

theorem accounts_withdraw (r : RequestId) (s : Rs) (σ : Impl) :
    (σ.withdraw r s).accounts = σ.accounts := by
  have hrelease := accounts_of_books (books_releaseReservation σ s)
  unfold withdraw
  dsimp only
  generalize σ.releaseReservation s = σ₁ at hrelease
  cases σ₁.groups.lookup s.currentGroup with
  | none => exact hrelease
  | some gs =>
    dsimp only
    split_ifs
    · exact hrelease
    · exact hrelease

theorem accounts_retryWithinBudget (env : Env) (now : Nanoseconds) (r : RequestId) (s : Rs)
    (σ : Impl) : (retryWithinBudget env now r s σ).1.accounts = σ.accounts := by
  unfold retryWithinBudget
  split_ifs <;> rfl

theorem accounts_forceRetry (env : Env) (now : Nanoseconds) (r : RequestId) (σ : Impl) :
    (σ.forceRetry env now r).1.accounts = σ.accounts := by
  unfold forceRetry
  cases σ.requests.lookup r with
  | none => rfl
  | some s =>
    dsimp only
    split_ifs
    · rfl
    · exact (accounts_retryWithinBudget env now r _ _).trans (accounts_withdraw r s σ)
    · exact accounts_retryWithinBudget env now r s σ

theorem accounts_cancelGeneration (r : RequestId) (g : Generation) (σ : Impl) :
    (σ.cancelGeneration r g).1.accounts = σ.accounts := by
  unfold cancelGeneration
  cases σ.requests.lookup r with
  | none => rfl
  | some s =>
    dsimp only
    split_ifs <;> rfl

theorem accounts_loseGroup (now : Nanoseconds) (w : WorkerId) (σ : Impl) (gid : GroupId) :
    (σ.loseGroup now w gid).accounts = σ.accounts := by
  unfold loseGroup
  cases σ.groups.lookup gid with
  | none => rfl
  | some gs =>
    dsimp only
    split_ifs
    · have hfold := accounts_of_around (foldl_frame (around_recoverMember now) gs.outstanding σ)
      exact hfold
    · rfl

theorem accounts_workerLost (now : Nanoseconds) (w : WorkerId) (σ : Impl) :
    (σ.workerLost now w).accounts = σ.accounts :=
  foldl_frame (q := accounts) (accounts_loseGroup now w) σ.groups.keys σ

theorem accounts_registerWorker (now : Nanoseconds) (w : WorkerDescriptor) (σ : Impl) :
    (σ.registerWorker now w).1.accounts = σ.accounts := by
  unfold registerWorker
  split_ifs <;> rfl

theorem accounts_unregisterWorker (now : Nanoseconds) (w : WorkerId) (σ : Impl) :
    (σ.unregisterWorker now w).1.accounts = σ.accounts := by
  unfold unregisterWorker
  cases σ.workers.lookup w <;> rfl

theorem accounts_attachExecutor (ex : Option Executor) (backend : String) (σ : Impl) :
    (σ.attachExecutor ex backend).accounts = σ.accounts := by
  unfold attachExecutor
  dsimp only
  cases σ.workers.lookup .nil <;> rfl

end Impl

/-! ### Calls -/

/-- What an operation posts. -/
def Op.Posts : Op → Posting → Prop
  | submitWithTokens req _, p => Impl.Admissions req p
  | runCycle, p => Impl.Sweeps p
  | reportCompletion _, p | cancel _, p => Impl.Refunds p
  | _, _ => False

/-- The rest of a cycle posts nothing. -/
theorem Impl.ledger_dispatchPhase (env : Env) (now : Nanoseconds) {σ : Impl} (hwf : σ.view.Wf) :
    (σ.dispatchPhase env now).1.ledger = σ.ledger := by
  obtain ⟨htenants, htally⟩ := accounts_dispatchPhase env now hwf
  refine ledger_eq_of_effects ((effects_dispatchPhase env now hwf).mono fun l hl => ?_)
    (Prod.ext htenants htally)
  cases l <;> trivial

/-- **Every call is a chain of postings** that its operation makes. -/
theorem Impl.posts_step (env : Env) {σ : Impl} (hwf : σ.view.Wf) (c : Call) :
    Ledger.Reaches env c.op.Posts σ.ledger (σ.step env c).1.ledger := by
  have heffects := effects_step env hwf c
  obtain ⟨now, op⟩ := c
  -- what neither ends a request nor touches an account posts nothing
  have hquiet : (∀ l, op.Causes l → l.Neutral) → (σ.step env ⟨now, op⟩).1.accounts = σ.accounts →
      Ledger.Reaches env op.Posts σ.ledger (σ.step env ⟨now, op⟩).1.ledger :=
    fun hneutral haccounts =>
      Ledger.reaches_of_eq (ledger_eq_of_effects (heffects.mono hneutral) haccounts)
  cases op with
  | submitWithTokens req tokens => exact reaches_submitWithTokens env now req tokens σ
  | runCycle =>
    have hsweep := reaches_foldl_sweepRequest env now σ.requests.keys σ
    have hwf' := (effects_expirySweep env now σ hwf).wf hwf
    rw [step_runCycle, runCycle_eq, ledger_dispatchPhase env now hwf']
    exact hsweep
  | reportCompletion result => exact reaches_reportCompletion env now result σ
  | cancel r => exact reaches_cancel env now r σ
  | cancelGeneration r g =>
    exact hquiet (fun l hl => by cases l <;> trivial) (accounts_cancelGeneration r g σ)
  | forceRetry r =>
    exact hquiet (fun l hl => by cases l <;> trivial) (accounts_forceRetry env now r σ)
  | registerWorker w =>
    exact hquiet (fun l hl => by cases l <;> trivial) (accounts_registerWorker now w σ)
  | unregisterWorker w =>
    exact hquiet (fun l hl => by cases l <;> trivial) (accounts_unregisterWorker now w σ)
  | workerLost w =>
    exact hquiet (fun l hl => by cases l <;> trivial) (accounts_workerLost now w σ)
  | rollEpoch =>
    exact hquiet (fun l hl => by cases l <;> trivial) rfl
  | attachExecutor ex backend =>
    exact hquiet (fun l hl => by cases l <;> trivial) (accounts_attachExecutor ex backend σ)

end PrefillFabric
