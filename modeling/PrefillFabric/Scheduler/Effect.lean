import PrefillFabric.Scheduler.View

/-!
# Effects

The abstract scheduler: a transition system on views. A `Label` names what
happens, `Effect env v l v'` says that it takes the view `v` to `v'`, and `Effects`
is a chain of effects, with the members it hands out for execution. Everything a
scheduler does to a request, a group or a reservation is one of twelve effects;
what a single request can suffer is one of the nine cases of `Fate`
(`Effect.exists_fate`), so that a property of requests taken one by one is checked
against nine record updates and nothing else.

The effects do not say when they happen: which requests are packed together, which
worker gets a group, when a group is put off are choices of the scheduling cycle
that no safety property depends on.
-/

namespace PrefillFabric

/-! ### What an outcome makes of a record -/

/-- An outcome that reports a chunk as done. -/
def MemberOutcome.advances : MemberOutcome → Bool
  | success | needsNextChunk => true
  | _ => false

namespace Rs

/-- After a successful chunk. -/
def advanced (s : Rs) : Rs :=
  if s.cancelPending then { s with lifecycle := .cancelled, cancelPending := false }
  else if (s.nextChunkIndex + 1) % 2 ^ 32 < s.plan.chunks.length then
    { s with nextChunkIndex := (s.nextChunkIndex + 1) % 2 ^ 32, lifecycle := .queued }
  else { s with lifecycle := .completed }

/-- Whether an outcome starts a new attempt. -/
def retriesAfter (o : MemberOutcome) (s : Rs) : Bool :=
  o == .retryableFailure && decide (s.retriesUsed < s.request.maxRetries)

/-- After an outcome; a new attempt gets the given identity. -/
def settled (env : Env) (o : MemberOutcome) (attempt : AttemptId) (s : Rs) : Rs :=
  match o with
  | .success => s.advanced
  | .needsNextChunk => s.advanced
  | .retryableFailure =>
    if s.retriesUsed < s.request.maxRetries then s.beginAttempt env attempt
    else { s with lifecycle := .failedNonRetryable }
  | .nonRetryableFailure => { s with lifecycle := .failedNonRetryable }
  | .cancelled => { s with lifecycle := .cancelled, cancelPending := false }
  | .expired => { s with lifecycle := .expired }
  | .staleRejected => s

/-- After a completion: landed, settled, and out of its group. -/
def finished (env : Env) (o : MemberOutcome) (attempt : AttemptId) (s : Rs) : Rs :=
  { ((s.landed env).settled env o attempt).dropReservation with currentGroup := .nil }

/-- After its deadline. -/
def expired (s : Rs) : Rs := { s.dropReservation with lifecycle := .expired }

/-- Cancelled while waiting. -/
def cancelled (s : Rs) : Rs :=
  { s.dropReservation with lifecycle := .cancelled, currentGroup := .nil }

/-- With a cancellation pending. -/
def flagged (s : Rs) : Rs := { s with cancelPending := true }

/-- Back in the queue after the loss of its worker. -/
def recovered (s : Rs) : Rs :=
  { s.dropReservation with
    inFlight := false
    recoveredWork := true
    currentGeneration := .nil
    lifecycle := .queued }

/-- Started over, out of flight if it was in flight. -/
def retried (env : Env) (attempt : AttemptId) (s : Rs) : Rs :=
  (if s.inFlight then s.withdrawn else s).beginAttempt env attempt

/-- Holding a reservation for its next chunk. -/
def holding (id : ReservationId) (s : Rs) : Rs :=
  { s with reservation := id, reservedBytes := s.nextChunk.memoryEstimateBytes.toNat }

/-- As admitted. -/
def admitted (env : Env) (now : Nanoseconds) (req : PrefillRequest) (attempt : AttemptId) : Rs :=
  { (Impl.admittedRecord env now req attempt).core with
    lifecycle := if req.remainingPrefillTokens = 0 then .completed else .queued }

/-- In flight and not over: what a completion is awaited for. -/
def isLive (s : Rs) : Bool := s.inFlight && !s.lifecycle.isTerminal

theorem isLive_iff {s : Rs} :
    s.isLive = true ↔ s.inFlight = true ∧ s.lifecycle.isTerminal = false := by
  rw [isLive, Bool.and_eq_true, Bool.not_eq_true']

/-- A request that waits is queued, is not in flight and has a chunk left. -/
theorem isWaiting_iff {s : Rs} : s.isWaiting = true ↔
    s.lifecycle = .queued ∧ s.inFlight = false ∧ s.nextChunkIndex < s.plan.chunks.length := by
  rw [isWaiting, hasPendingChunk, Bool.and_eq_true, Bool.and_eq_true, decide_eq_true_iff,
    beq_iff_eq, Bool.not_eq_true', and_assoc]

theorem nextChunk_mem {s : Rs} (h : s.isWaiting = true) : s.nextChunk ∈ s.plan.chunks :=
  List.mem_of_getElem? (getElem?_nextChunkIndex (isWaiting_iff.mp h).2.2)

theorem isTerminal_of_isWaiting {s : Rs} (h : s.isWaiting = true) :
    s.lifecycle.isTerminal = false := by
  rw [(isWaiting_iff.mp h).1]
  rfl

end Rs

/-- A member executes the next chunk of a record under its current attempt. -/
structure ExecutableMember.Carries (m : ExecutableMember) (s : Rs) : Prop where
  attempt : m.attemptId = s.attempt
  start : m.tokenStart = s.nextChunk.tokenStart
  count : m.tokenCount = s.nextChunk.tokenCount

/-! ### Labels -/

/-- What happens to a scheduler. -/
inductive Label
  /-- Nothing but the use of identities. -/
  | idle
  /-- A request is admitted. -/
  | enter (r : RequestId)
  | expire (r : RequestId)
  /-- A group is dispatched. -/
  | launch (ms : List ExecutableMember)
  /-- A completion is accepted. -/
  | finish (r : RequestId) (o : MemberOutcome)
  /-- A cancellation is left pending. -/
  | flag (r : RequestId)
  | cancel (r : RequestId)
  /-- A forced retry that finds no budget, of a request in flight. -/
  | withdraw (r : RequestId)
  | retry (r : RequestId)
  /-- A worker registers under a boot number. -/
  | boot (w : WorkerId) (b : WorkerBootId)
  | lose (w : WorkerId)
  | roll

/-- The members a label hands out for execution. -/
def Label.members : Label → List ExecutableMember
  | launch ms => ms
  | _ => []

/-- What can happen during a scheduling cycle. -/
def Label.Cyclic : Label → Prop
  | idle | expire _ | launch _ => True
  | _ => False

/-- What can happen during a cycle once the sweep is over. -/
def Label.Dispatching : Label → Prop
  | idle | launch _ => True
  | _ => False

theorem Label.Dispatching.cyclic {l : Label} (h : l.Dispatching) : l.Cyclic := by
  cases l <;> trivial

/-! ### Effects -/

namespace View

/-- Identities have been used up, reservations made and given back: nothing else. -/
structure Idle (v v' : View) : Prop where
  req : v'.req = v.req
  grp : v'.grp = v.grp
  held : ∀ id, v'.mem.held id = v.mem.held id
  sound : v.mem.Sound → v'.mem.Sound
  boot : v'.boot = v.boot
  epoch : v'.epoch = v.epoch
  nextGeneration : v'.nextGeneration = v.nextGeneration
  nextAttempt : v'.nextAttempt = v.nextAttempt
  nextGroup : v.nextGroup ≤ v'.nextGroup
  nextReservation : v.nextReservation ≤ v'.nextReservation

/-- **A group is dispatched**: each member's request was waiting, and is now in
flight under the generation of the member, with a reservation of its own. -/
structure Launch (now : Nanoseconds) (gid : GroupId) (w : WorkerId) (ms : List ExecutableMember)
    (v v' : View) : Prop where
  ne_nil : ms ≠ []
  nodup : (ms.map (·.requestId)).Nodup
  gid_ne_nil : gid ≠ .nil
  gid_lt : gid.value < v.nextGroup
  grp_gid : v.grp gid = none
  boot_worker : (v.boot w).isSome
  /-- Member number `i` has the `i`-th new generation and reservation. -/
  member : ∀ i m, ms[i]? = some m → m.generation = ⟨v.nextGeneration + i⟩ ∧ m.assignedWorker = w ∧
    ∃ s, v.req m.requestId = some s ∧ s.isWaiting = true ∧ m.Carries s ∧
      v'.req m.requestId =
        some ((s.holding ⟨v.nextReservation + i⟩).launched now gid w m.generation) ∧
      v'.mem.held ⟨v.nextReservation + i⟩ =
        some (m.requestId, s.nextChunk.memoryEstimateBytes.toNat)
  others : ∀ r, (∀ m ∈ ms, m.requestId ≠ r) → v'.req r = v.req r
  held : ∀ id, id.value < v.nextReservation ∨ v.nextReservation + ms.length ≤ id.value →
    v'.mem.held id = v.mem.held id
  sound : v.mem.Sound → v'.mem.Sound
  grp : ∃ out, v'.grp = Function.update v.grp gid (some (w, out)) ∧
    ∀ r, r ∈ out ↔ ∃ m ∈ ms, m.requestId = r
  boot : v'.boot = v.boot
  epoch : v'.epoch = v.epoch
  nextGeneration : v'.nextGeneration = v.nextGeneration + ms.length
  nextAttempt : v'.nextAttempt = v.nextAttempt
  nextGroup : v'.nextGroup = v.nextGroup
  nextReservation : v'.nextReservation = v.nextReservation + ms.length

section Launch

variable {now : Nanoseconds} {gid : GroupId} {w : WorkerId} {ms : List ExecutableMember}
  {v v' : View} {m : ExecutableMember} {r : RequestId} {s : Rs}

/-- What becomes of the request of a member. -/
theorem Launch.exists_of_mem (h : Launch now gid w ms v v') (hm : m ∈ ms) :
    ∃ s id, v.req m.requestId = some s ∧ s.isWaiting = true ∧ m.Carries s ∧
      v'.req m.requestId = some ((s.holding id).launched now gid w m.generation) := by
  obtain ⟨i, hi⟩ := List.mem_iff_getElem?.mp hm
  obtain ⟨-, -, s, hs, hwait, hcarries, hreq, -⟩ := h.member i m hi
  exact ⟨s, _, hs, hwait, hcarries, hreq⟩

/-- **Only what waits is launched.** -/
theorem Launch.isWaiting (h : Launch now gid w ms v v') (hm : m ∈ ms)
    (hs : v.req m.requestId = some s) : s.isWaiting = true := by
  obtain ⟨t, -, ht, hwait, -⟩ := h.exists_of_mem hm
  rwa [Option.some.inj (ht.symm.trans hs)] at hwait

/-- What is in flight already is not touched. -/
theorem Launch.req_of_live (h : Launch now gid w ms v v') (hs : v.req r = some s)
    (hlive : s.isLive = true) : v'.req r = some s := by
  rw [h.others r, hs]
  rintro m hm rfl
  have hflight := (Rs.isWaiting_iff.mp (h.isWaiting hm hs)).2.1
  exact Bool.noConfusion (hflight.symm.trans (Rs.isLive_iff.mp hlive).1)

end Launch

/-- A request that goes back to the queue when a worker is lost. -/
def Lost (v : View) (w : WorkerId) (r : RequestId) : Prop :=
  ∃ g out s, v.grp g = some (w, out) ∧ r ∈ out ∧ v.req r = some s ∧ s.inFlight = true ∧
    s.lifecycle = .dispatched

/-- The reservation a request holds, nil for one that is unknown. -/
def reservationOf (v : View) (r : RequestId) : ReservationId :=
  ((v.req r).map (·.reservation)).getD .nil

/-- **A worker is lost**: its groups are dropped and what was in flight in them is
back in the queue. -/
structure Lose (w : WorkerId) (v v' : View) : Prop where
  lost : ∀ r s, v.Lost w r → v.req r = some s → v'.req r = some s.recovered
  kept : ∀ r, ¬v.Lost w r → v'.req r = v.req r
  grp : ∀ g, v'.grp g = (v.grp g).bind fun p => if p.1 = w then none else some p
  mem : ∃ rs : List RequestId, rs.Nodup ∧ (∀ r, r ∈ rs ↔ v.Lost w r) ∧
    v'.mem = rs.foldl (fun m r => m.releaseIf (v.reservationOf r)) v.mem
  boot : v'.boot = v.boot
  epoch : v'.epoch = v.epoch
  nextGeneration : v'.nextGeneration = v.nextGeneration
  nextAttempt : v'.nextAttempt = v.nextAttempt
  nextGroup : v'.nextGroup = v.nextGroup
  nextReservation : v'.nextReservation = v.nextReservation

end View

/-- **The effects** a scheduler is made of. -/
inductive Effect (env : Env) : View → Label → View → Prop
  | idle {v v' : View} (h : View.Idle v v') : Effect env v .idle v'
  | enter {v : View} {now : Nanoseconds} {req : PrefillRequest} (hnew : v.req req.requestId = none)
      (hvalid : req.validate.code = .ok) :
      Effect env v (.enter req.requestId)
        { v.setReq req.requestId (.admitted env now req ⟨v.nextAttempt⟩) with
          nextAttempt := v.nextAttempt + 1 }
  | expire {v : View} {r : RequestId} {s : Rs} (hs : v.req r = some s)
      (hlive : s.lifecycle.isTerminal = false) :
      Effect env v (.expire r)
        (((v.detachIf s.inFlight s.currentGroup r).release s.reservation).setReq r s.expired)
  | launch {v v' : View} {now : Nanoseconds} {gid : GroupId} {w : WorkerId}
      {ms : List ExecutableMember} (h : View.Launch now gid w ms v v') :
      Effect env v (.launch ms) v'
  | finish {v : View} {r : RequestId} {s : Rs} (o : MemberOutcome) (hs : v.req r = some s)
      (hflight : s.inFlight = true) (hlive : s.lifecycle.isTerminal = false) :
      Effect env v (.finish r o)
        { ((v.detachIf (!s.currentGroup.isNil) s.currentGroup r).release s.reservation).setReq r
            (s.finished env o ⟨v.nextAttempt⟩) with
          nextAttempt := if s.retriesAfter o then v.nextAttempt + 1 else v.nextAttempt }
  | flag {v : View} {r : RequestId} {s : Rs} (hs : v.req r = some s) (hflight : s.inFlight = true)
      (hlive : s.lifecycle.isTerminal = false) :
      Effect env v (.flag r) (v.setReq r s.flagged)
  | cancel {v : View} {r : RequestId} {s : Rs} (hs : v.req r = some s)
      (hflight : s.inFlight = false) (hlive : s.lifecycle.isTerminal = false) :
      Effect env v (.cancel r)
        (((v.release s.reservation).detachIf (!s.currentGroup.isNil) s.currentGroup r).setReq r
          s.cancelled)
  | withdraw {v : View} {r : RequestId} {s : Rs} (hs : v.req r = some s)
      (hflight : s.inFlight = true) (hlive : s.lifecycle.isTerminal = false)
      (hbudget : s.request.maxRetries ≤ s.retriesUsed) :
      Effect env v (.withdraw r)
        (((v.release s.reservation).dropGrpIf (!s.currentGroup.isNil) s.currentGroup).setReq r
          s.withdrawn)
  | retry {v : View} {r : RequestId} {s : Rs} (hs : v.req r = some s)
      (hlive : s.lifecycle.isTerminal = false) (hbudget : s.retriesUsed < s.request.maxRetries) :
      Effect env v (.retry r)
        { ((v.release (if s.inFlight then s.reservation else .nil)).dropGrpIf
              (s.inFlight && !s.currentGroup.isNil) s.currentGroup).setReq r
            (s.retried env ⟨v.nextAttempt⟩) with
          nextAttempt := v.nextAttempt + 1 }
  | boot {v : View} (w : WorkerId) (b : WorkerBootId) :
      Effect env v (.boot w b) { v with boot := Function.update v.boot w (some b) }
  | lose {v v' : View} {w : WorkerId} (h : View.Lose w v v') : Effect env v (.lose w) v'
  | roll {v : View} : Effect env v .roll { v with epoch := ⟨v.epoch.value + 1⟩ }

/-- A chain of effects whose labels are all of a kind, with the members it hands out. -/
inductive Effects (env : Env) (L : Label → Prop) : View → List ExecutableMember → View → Prop
  | refl (v : View) : Effects env L v [] v
  | tail {v u v' : View} {ms : List ExecutableMember} {l : Label} (h : Effects env L v ms u)
      (hl : Effect env u l v') (hL : L l) : Effects env L v (ms ++ l.members) v'

/-! ### Fates -/

/-- **What can happen to one request**: the record `s` of the request `r` in the view
`v`, and what it becomes under a label. -/
inductive Fate (env : Env) (v : View) (r : RequestId) (s : Rs) : Label → Rs → Prop
  | keep (l : Label) : Fate env v r s l s
  | expire (hlive : s.lifecycle.isTerminal = false) : Fate env v r s (.expire r) s.expired
  | launch {ms : List ExecutableMember} {m : ExecutableMember} {now : Nanoseconds} {gid : GroupId}
      {id : ReservationId} (hm : m ∈ ms) (hr : m.requestId = r) (hwait : s.isWaiting = true)
      (hcarries : m.Carries s) (hgen : v.nextGeneration ≤ m.generation.value)
      (hgen' : m.generation.value < v.nextGeneration + ms.length)
      (hid : v.nextReservation ≤ id.value) (hboot : (v.boot m.assignedWorker).isSome) :
      Fate env v r s (.launch ms) ((s.holding id).launched now gid m.assignedWorker m.generation)
  | finish (o : MemberOutcome) (hflight : s.inFlight = true)
      (hlive : s.lifecycle.isTerminal = false) :
      Fate env v r s (.finish r o) (s.finished env o ⟨v.nextAttempt⟩)
  | flag (hflight : s.inFlight = true) (hlive : s.lifecycle.isTerminal = false) :
      Fate env v r s (.flag r) s.flagged
  | cancel (hflight : s.inFlight = false) (hlive : s.lifecycle.isTerminal = false) :
      Fate env v r s (.cancel r) s.cancelled
  | withdraw (hflight : s.inFlight = true) (hlive : s.lifecycle.isTerminal = false) :
      Fate env v r s (.withdraw r) s.withdrawn
  | retry (hlive : s.lifecycle.isTerminal = false) :
      Fate env v r s (.retry r) (s.retried env ⟨v.nextAttempt⟩)
  | recover {w : WorkerId} (hlost : v.Lost w r) (hflight : s.inFlight = true)
      (hdispatched : s.lifecycle = .dispatched) : Fate env v r s (.lose w) s.recovered

section

variable {env : Env} {v v' : View} {l : Label} {r : RequestId} {s s' : Rs}

/-- A write under one request leaves the others alone. -/
theorem fate_of_update {u : View} {x : RequestId} {sx sx' : Rs} (hx : v.req x = some sx)
    (hs : v.req r = some s) (hfate : Fate env v x sx l sx')
    (hu : u.req = Function.update v.req x (some sx')) :
    ∃ s', u.req r = some s' ∧ Fate env v r s l s' := by
  rw [hu]
  by_cases h : r = x
  · subst h
    obtain rfl : sx = s := Option.some.inj (hx.symm.trans hs)
    exact ⟨sx', Function.update_self .., hfate⟩
  · exact ⟨s, by rw [Function.update_of_ne h]; exact hs, .keep l⟩

/-- **A request that is known stays known, and suffers one of the fates.** -/
theorem Effect.exists_fate (h : Effect env v l v') (hs : v.req r = some s) :
    ∃ s', v'.req r = some s' ∧ Fate env v r s l s' := by
  cases h with
  | idle h => exact ⟨s, by rw [h.req]; exact hs, .keep _⟩
  | @enter _ req hnew _ =>
    have hne : r ≠ req.requestId := by
      rintro rfl
      rw [hs] at hnew
      exact absurd hnew (Option.some_ne_none s)
    exact ⟨s, by rw [← hs]; exact Function.update_of_ne hne .., .keep _⟩
  | expire hx hlive => exact fate_of_update hx hs (.expire hlive) rfl
  | @launch _ _ _ _ ms hlaunch =>
    by_cases hm : ∃ m ∈ ms, m.requestId = r
    · obtain ⟨m, hmem, rfl⟩ := hm
      obtain ⟨i, hi⟩ := List.mem_iff_getElem?.mp hmem
      obtain ⟨hgen, hw, t, ht, hwait, hcarries, hreq, -⟩ := hlaunch.member i m hi
      obtain rfl : t = s := Option.some.inj (ht.symm.trans hs)
      have hlt : i < ms.length := (List.getElem?_eq_some_iff.mp hi).1
      refine ⟨_, hw ▸ hreq, .launch hmem rfl hwait hcarries ?_ ?_ ?_ ?_⟩
      · rw [hgen]
        exact Nat.le_add_right ..
      · rw [hgen]
        exact Nat.add_lt_add_left hlt _
      · exact Nat.le_add_right ..
      · rw [hw]
        exact hlaunch.boot_worker
    · refine ⟨s, ?_, .keep _⟩
      rw [hlaunch.others r fun m hmem hr => hm ⟨m, hmem, hr⟩, hs]
  | finish o hx hflight hlive => exact fate_of_update hx hs (.finish o hflight hlive) rfl
  | flag hx hflight hlive => exact fate_of_update hx hs (.flag hflight hlive) rfl
  | cancel hx hflight hlive => exact fate_of_update hx hs (.cancel hflight hlive) rfl
  | withdraw hx hflight hlive _ => exact fate_of_update hx hs (.withdraw hflight hlive) rfl
  | retry hx hlive _ => exact fate_of_update hx hs (.retry hlive) rfl
  | boot w b => exact ⟨s, hs, .keep _⟩
  | @lose _ w hlose =>
    by_cases hlost : v.Lost w r
    · obtain ⟨g, out, t, -, -, ht, hflight, hdisp⟩ := id hlost
      obtain rfl : t = s := Option.some.inj (ht.symm.trans hs)
      exact ⟨_, hlose.lost r t hlost hs, .recover hlost hflight hdisp⟩
    · exact ⟨s, by rw [hlose.kept r hlost]; exact hs, .keep _⟩
  | roll => exact ⟨s, hs, .keep _⟩

/-- A request becomes known by being admitted, and in no other way. -/
theorem Effect.req_eq_none_or_enter (h : Effect env v l v') (hs : v.req r = none) :
    v'.req r = none ∨ ∃ now req, req.requestId = r ∧ l = .enter r ∧ req.validate.code = .ok ∧
      v'.req r = some (.admitted env now req ⟨v.nextAttempt⟩) := by
  have hupdate : ∀ {x : RequestId} {sx sx' : Rs}, v.req x = some sx →
      Function.update v.req x (some sx') r = none := by
    intro x sx sx' hx
    have hne : r ≠ x := by
      rintro rfl
      rw [hs] at hx
      exact absurd hx.symm (Option.some_ne_none sx)
    rw [Function.update_of_ne hne]
    exact hs
  cases h with
  | idle h => exact Or.inl (by rw [h.req]; exact hs)
  | @enter now req hnew hvalid =>
    by_cases hr : r = req.requestId
    · subst hr
      exact Or.inr ⟨now, req, rfl, rfl, hvalid, Function.update_self ..⟩
    · exact Or.inl (by rw [← hs]; exact Function.update_of_ne hr ..)
  | expire hx _ => exact Or.inl (hupdate hx)
  | @launch _ _ _ _ ms hlaunch =>
    refine Or.inl ?_
    rw [hlaunch.others r ?_, hs]
    rintro m hmem rfl
    obtain ⟨t, -, ht, -⟩ := hlaunch.exists_of_mem hmem
    rw [hs] at ht
    exact absurd ht.symm (Option.some_ne_none t)
  | finish o hx _ _ => exact Or.inl (hupdate hx)
  | flag hx _ _ => exact Or.inl (hupdate hx)
  | cancel hx _ _ => exact Or.inl (hupdate hx)
  | withdraw hx _ _ _ => exact Or.inl (hupdate hx)
  | retry hx _ _ => exact Or.inl (hupdate hx)
  | boot w b => exact Or.inl hs
  | @lose _ w hlose =>
    refine Or.inl ?_
    rw [hlose.kept r ?_, hs]
    rintro ⟨g, out, t, -, -, ht, -⟩
    rw [hs] at ht
    exact absurd ht.symm (Option.some_ne_none t)
  | roll => exact Or.inl hs

/-- **Where a request comes from** that is known: it has just been admitted, or it was known, and
this is what has become of it. -/
theorem Effect.origin (h : Effect env v l v') (hs' : v'.req r = some s') :
    (∃ now req, req.requestId = r ∧ l = .enter r ∧ req.validate.code = .ok ∧
      s' = .admitted env now req ⟨v.nextAttempt⟩) ∨
    ∃ s, v.req r = some s ∧ Fate env v r s l s' := by
  cases hr : v.req r with
  | none =>
    rcases h.req_eq_none_or_enter hr with hnone | ⟨now, req, hid, hl, hvalid, hsome⟩
    · exact absurd (hs'.symm.trans hnone) (Option.some_ne_none s')
    · exact Or.inl ⟨now, req, hid, hl, hvalid, Option.some.inj (hs'.symm.trans hsome)⟩
  | some s =>
    obtain ⟨t, ht, hfate⟩ := h.exists_fate hr
    obtain rfl : t = s' := Option.some.inj (ht.symm.trans hs')
    exact Or.inr ⟨s, rfl, hfate⟩

end

end PrefillFabric
