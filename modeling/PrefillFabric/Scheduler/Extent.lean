import PrefillFabric.Scheduler.Refine

/-!
# What a state says, and in which order

The tables of a scheduler are iterated over in an order that means nothing. `Impl.extent` is a
state without that order: its tables as functions, and the log, which does have an order, left
out. Two states have the same extent exactly if they differ in the order of their entries and in
their logs at most (`Impl.reordered_iff`).

The sweep is the one part of a cycle that changes the state while it iterates. On extents it is
a fold of operations that each act on every component by itself (`Extent.expire`), and any two of
these commute: what remains of a group that two requests leave, of the account of a tenant, of
the books of the memory governor – underflow and double releases included – does not depend on
who goes first. So the extent of the swept state is the same for every order of the requests
(`Impl.extent_expirySweep_congr`).
-/

namespace PrefillFabric

/-! ### Groups and workers -/

/-- The groups and the workers, as functions. -/
@[ext] structure Places where
  grp : GroupId → Option Gs
  wrk : WorkerId → Option Ws

namespace Places

/-- One unit of capacity less in use. -/
def freed (ws : Ws) : Ws := { ws with busyUnits := ws.busyUnits - 1 }

/-- Give back one unit of a worker's capacity. -/
def free (w : WorkerId) (wrk : WorkerId → Option Ws) : WorkerId → Option Ws :=
  Function.update wrk w ((wrk w).map freed)

/-- A group that a request has left, unless it was the last one. -/
def left (r : RequestId) (gs : Gs) : Gs :=
  { gs with outstanding := eraseOutstanding r gs.outstanding }

/-- Take a request out of a group; the last one to leave frees the worker. -/
def detach (p : Places) (gid : GroupId) (r : RequestId) : Places :=
  match p.grp gid with
  | none => p
  | some gs =>
    if (left r gs).outstanding.isEmpty then
      ⟨Function.update p.grp gid none, free gs.worker p.wrk⟩
    else { p with grp := Function.update p.grp gid (some (left r gs)) }

theorem free_comm (w w' : WorkerId) (wrk : WorkerId → Option Ws) :
    free w (free w' wrk) = free w' (free w wrk) := by
  by_cases h : w = w'
  · rw [h]
  · simp only [free, Function.update_of_ne h, Function.update_of_ne (Ne.symm h)]
    exact Function.update_comm (Ne.symm h) ..

theorem left_comm (r r' : RequestId) (gs : Gs) : left r (left r' gs) = left r' (left r gs) := by
  simp only [left, eraseOutstanding, List.filter_filter, Bool.and_comm]

/-- Who is not left when one has gone is not left when another one has gone as well. -/
theorem isEmpty_left_left {r : RequestId} {gs : Gs} (h : (left r gs).outstanding.isEmpty = true)
    (r' : RequestId) : (left r (left r' gs)).outstanding.isEmpty = true := by
  rw [left_comm]
  rw [List.isEmpty_iff] at h ⊢
  change eraseOutstanding r' (left r gs).outstanding = []
  rw [h]
  rfl

theorem detach_of_none {p : Places} {g : GroupId} (h : p.grp g = none) (r : RequestId) :
    p.detach g r = p := by
  rw [detach, h]

theorem detach_of_last {p : Places} {g : GroupId} {gs : Gs} {r : RequestId} (h : p.grp g = some gs)
    (hlast : (left r gs).outstanding.isEmpty = true) :
    p.detach g r = ⟨Function.update p.grp g none, free gs.worker p.wrk⟩ := by
  rw [detach, h]
  exact if_pos hlast

theorem detach_of_more {p : Places} {g : GroupId} {gs : Gs} {r : RequestId} (h : p.grp g = some gs)
    (hmore : ¬(left r gs).outstanding.isEmpty = true) :
    p.detach g r = { p with grp := Function.update p.grp g (some (left r gs)) } := by
  rw [detach, h]
  exact if_neg hmore

/-- To leave one group does not touch another. -/
theorem grp_detach_of_ne {g g' : GroupId} (h : g' ≠ g) (p : Places) (r : RequestId) :
    (p.detach g r).grp g' = p.grp g' := by
  rw [detach]
  split
  · rfl
  · split_ifs <;> exact Function.update_of_ne h ..

theorem detach_comm_self (p : Places) (g : GroupId) (r r' : RequestId) :
    (p.detach g r).detach g r' = (p.detach g r').detach g r := by
  cases hgs : p.grp g with
  | none => rw [detach_of_none hgs, detach_of_none hgs, detach_of_none hgs]
  | some gs =>
    -- once the last one has gone there is no group left to leave
    have hgone : ∀ {x y : RequestId}, (left x gs).outstanding.isEmpty = true →
        (p.detach g x).detach g y = ⟨Function.update p.grp g none, free gs.worker p.wrk⟩ ∧
          (p.detach g y).detach g x = ⟨Function.update p.grp g none, free gs.worker p.wrk⟩ := by
      intro x y hx
      rw [detach_of_last hgs hx]
      refine ⟨detach_of_none (Function.update_self ..) y, ?_⟩
      by_cases hy : (left y gs).outstanding.isEmpty = true
      · rw [detach_of_last hgs hy]
        exact detach_of_none (Function.update_self ..) x
      · rw [detach_of_more hgs hy,
          detach_of_last (Function.update_self ..) (isEmpty_left_left hx y)]
        dsimp only
        rw [Function.update_idem]
        rfl
    by_cases h : (left r gs).outstanding.isEmpty = true
    · rw [(hgone h).1, (hgone h).2]
    · by_cases h' : (left r' gs).outstanding.isEmpty = true
      · rw [(hgone h').1, (hgone h').2]
      · rw [detach_of_more hgs h, detach_of_more hgs h', detach, detach]
        simp only [Function.update_self, Function.update_idem, left_comm r' r]
        rfl

/-- **Two requests may leave their groups in any order.** -/
theorem detach_comm (p : Places) (g g' : GroupId) (r r' : RequestId) :
    (p.detach g r).detach g' r' = (p.detach g' r').detach g r := by
  by_cases hg : g = g'
  · subst hg
    exact detach_comm_self p g r r'
  · have h₁ := grp_detach_of_ne (Ne.symm hg) p r
    have h₂ := grp_detach_of_ne hg p r'
    cases hgs : p.grp g with
    | none => rw [detach_of_none hgs, detach_of_none (h₂.trans hgs)]
    | some gs =>
      cases hgs' : p.grp g' with
      | none => rw [detach_of_none hgs', detach_of_none (h₁.trans hgs')]
      | some gs' =>
        by_cases h : (left r gs).outstanding.isEmpty = true <;>
          by_cases h' : (left r' gs').outstanding.isEmpty = true <;>
          simp [detach, hgs, hgs', h, h', Function.update_of_ne hg,
            Function.update_of_ne (Ne.symm hg), free_comm gs.worker, Function.update_comm hg]

end Places

/-! ### The books of the memory governor -/

/-- The memory governor, its records as a function. -/
@[ext] structure Books where
  /-- The governor without its records. -/
  governor : MemoryGovernor
  entry : ReservationId → Option ReservationRecord

/-- The books of a governor. -/
def MemoryGovernor.books (g : MemoryGovernor) : Books :=
  ⟨{ g with records := ∅ }, g.records.lookup⟩

theorem MemoryGovernor.giveBack_comm (g : MemoryGovernor) (a b : ℕ) :
    (g.giveBack a).giveBack b = (g.giveBack b).giveBack a := by
  unfold giveBack
  split_ifs <;> simp_all <;> omega

/-- Count an attempt to release what is not active. -/
def MemoryGovernor.miss (g : MemoryGovernor) : MemoryGovernor :=
  { g with doubleReleases := g.doubleReleases + 1 }

theorem MemoryGovernor.giveBack_miss (g : MemoryGovernor) (a : ℕ) :
    g.miss.giveBack a = (g.giveBack a).miss := by
  unfold giveBack miss
  split_ifs <;> rfl

namespace Books

/-- Release a reservation. -/
def release (b : Books) (id : ReservationId) : Books :=
  match b.entry id with
  | none => { b with governor := b.governor.miss }
  | some rec =>
    if rec.active then
      ⟨b.governor.giveBack rec.bytes,
        Function.update b.entry id (some { rec with active := false, bytes := 0 })⟩
    else { b with governor := b.governor.miss }

/-- Release a reservation unless it is nil. -/
def releaseIf (b : Books) (id : ReservationId) : Books := if id.isNil then b else b.release id

/-- **Two reservations may be released in any order**, and with any mishap. -/
theorem release_comm (b : Books) (x y : ReservationId) :
    (b.release x).release y = (b.release y).release x := by
  by_cases h : x = y
  · rw [h]
  · cases hx : b.entry x with
    | none =>
      cases hy : b.entry y with
      | none => simp [release, hx, hy]
      | some ry =>
        cases hactive : ry.active <;>
          simp [release, hx, hy, hactive, Function.update_of_ne h, MemoryGovernor.giveBack_miss]
    | some rx =>
      cases hy : b.entry y with
      | none =>
        cases hactive : rx.active <;>
          simp [release, hx, hy, hactive, Function.update_of_ne (Ne.symm h),
            MemoryGovernor.giveBack_miss]
      | some ry =>
        cases hx' : rx.active <;> cases hy' : ry.active <;>
          simp [release, hx, hy, hx', hy', Function.update_of_ne h,
            Function.update_of_ne (Ne.symm h), MemoryGovernor.giveBack_miss,
            MemoryGovernor.giveBack_comm _ rx.bytes, Function.update_comm h]

theorem releaseIf_comm (b : Books) (x y : ReservationId) :
    (b.releaseIf x).releaseIf y = (b.releaseIf y).releaseIf x := by
  unfold releaseIf
  split_ifs
  · rfl
  · rfl
  · rfl
  · exact b.release_comm x y

end Books

theorem MemoryGovernor.books_release (g : MemoryGovernor) (id : ReservationId) :
    (g.release id).books = g.books.release id := by
  unfold release Books.release
  have hentry : g.books.entry id = g.records.lookup id := rfl
  rw [hentry]
  cases g.records.lookup id with
  | none => rfl
  | some rec =>
    dsimp only
    split_ifs
    · refine Books.ext ?_ (AList.lookup_insert_fun ..)
      unfold books giveBack
      dsimp only
      split_ifs <;> rfl
    · rfl

/-! ### Extents -/

/-- **A state without the order of its tables** and without its log. -/
@[ext] structure Extent where
  req : RequestId → Option Rs
  places : Places
  ten : TenantId → Option TenantService
  books : Books
  /-- The statistics, the counters and whatever else is not a table. -/
  rest : Impl

/-- The extent of a state. -/
def Impl.extent (σ : Impl) : Extent where
  req := σ.requests.lookup
  places := ⟨σ.groups.lookup, σ.workers.lookup⟩
  ten := σ.tenants.lookup
  books := σ.mem.books
  rest := { σ with
    mem := { maxBytes := 0, headroom := 0 }
    events := {}
    requests := ∅
    groups := ∅
    workers := ∅
    tenants := ∅ }

namespace Impl

variable (σ : Impl)

@[simp] theorem extent_count (f : Stats → Stats) :
    (σ.count f).extent = { σ.extent with rest := σ.extent.rest.count f } := rfl

@[simp] theorem extent_record (now : Nanoseconds) (type : String) (r : RequestId) (a : AttemptId)
    (detail : String) : (σ.record now type r a detail).extent = σ.extent := rfl

@[simp] theorem extent_setRequest (r : RequestId) (s : Rs) : (σ.setRequest r s).extent =
    { σ.extent with req := Function.update σ.extent.req r (some s) } :=
  Extent.ext (AList.lookup_insert_fun ..) rfl rfl rfl rfl

@[simp] theorem extent_charge (t : TenantId) (f : TenantService → TenantService) :
    (σ.charge t f).extent = { σ.extent with
      ten := Function.update σ.extent.ten t (some (f ((σ.extent.ten t).getD {}))) } :=
  Extent.ext rfl rfl (AList.lookup_insert_fun ..) rfl rfl

@[simp] theorem extent_releaseReservation (s : Rs) : (σ.releaseReservation s).extent =
    { σ.extent with books := σ.extent.books.releaseIf s.reservation } := by
  unfold releaseReservation Books.releaseIf
  split_ifs
  · rfl
  · exact Extent.ext rfl rfl rfl (σ.mem.books_release s.reservation) rfl

@[simp] theorem extent_detachMember (gid : GroupId) (r : RequestId) :
    (σ.detachMember gid r).extent =
      { σ.extent with places := σ.extent.places.detach gid r } := by
  unfold detachMember Places.detach
  have hgrp : σ.extent.places.grp gid = σ.groups.lookup gid := rfl
  rw [hgrp]
  cases σ.groups.lookup gid with
  | none => rfl
  | some gs =>
    dsimp only
    by_cases h : (eraseOutstanding r gs.outstanding).isEmpty = true
    · rw [if_pos h, if_pos (show (Places.left r gs).outstanding.isEmpty = true from h)]
      exact Extent.ext rfl (Places.ext (AList.lookup_erase_fun ..) (AList.lookup_modify_fun ..))
        rfl rfl rfl
    · rw [if_neg h, if_neg (show ¬(Places.left r gs).outstanding.isEmpty = true from h)]
      exact Extent.ext rfl (Places.ext (AList.lookup_insert_fun ..) rfl) rfl rfl rfl

end Impl

/-! ### The sweep -/

namespace Rs

/-- What the sweep makes of a request: nothing; or it expires it, and counts it apart or not. -/
def verdict (now : Nanoseconds) (s : Rs) : Option ℕ :=
  if s.lifecycle.isTerminal then none
  else if s.deadlinePassed now then some 0
  else if s.queueDelayPassed now then some 1
  else none

/-- The record of an expired request. -/
def expiredNote (s : Rs) : Rs :=
  { s.dropReservation with lifecycle := .expired }.note
    ("expired; deadline=" ++ toString (s.request.deadline.getD 0))

end Rs

namespace Extent

/-- Expire a request. -/
def expire (k : ℕ) (r : RequestId) (s : Rs) (e : Extent) : Extent where
  req := Function.update e.req r (some s.expiredNote)
  places := if s.inFlight then e.places.detach s.currentGroup s.request.requestId else e.places
  ten := Function.update e.ten s.request.tenantId
    (some ((e.ten s.request.tenantId).getD {}).leave)
  books := e.books.releaseIf s.reservation
  rest := e.rest.count fun st =>
    { st with
      expired := st.expired + 1
      deadlineMissed := st.deadlineMissed + 1
      queueDelayExceeded := st.queueDelayExceeded + k }

/-- Expire a request if it is overdue. -/
def sweep (now : Nanoseconds) (e : Extent) (r : RequestId) : Extent :=
  match e.req r with
  | none => e
  | some s =>
    match s.verdict now with
    | none => e
    | some k => e.expire k r s

variable {e : Extent} {k k' : ℕ} {r r' : RequestId} {s s' : Rs} {now : Nanoseconds}

/-- **Two requests may expire in any order.** -/
theorem expire_comm (h : r ≠ r') :
    (e.expire k r s).expire k' r' s' = (e.expire k' r' s').expire k r s := by
  refine Extent.ext ?_ ?_ ?_ ?_ ?_
  · exact Function.update_comm h ..
  · simp only [expire]
    split_ifs
    · exact e.places.detach_comm ..
    · rfl
    · rfl
    · rfl
  · -- two requests of one tenant leave it one after the other
    simp only [expire]
    by_cases ht : s.request.tenantId = s'.request.tenantId
    · rw [ht]
    · rw [Function.update_of_ne ht, Function.update_of_ne (Ne.symm ht)]
      exact Function.update_comm ht ..
  · exact e.books.releaseIf_comm ..
  · simp only [expire, Impl.count]
    congr 2
    omega

theorem sweep_of_spared (h : (e.req r).bind (·.verdict now) = none) : e.sweep now r = e := by
  rw [sweep]
  cases hs : e.req r with
  | none => rfl
  | some s =>
    rw [hs, Option.bind_some] at h
    dsimp only
    rw [h]

theorem sweep_of_overdue (hs : e.req r = some s) (hk : s.verdict now = some k) :
    e.sweep now r = e.expire k r s := by
  rw [sweep, hs]
  dsimp only
  rw [hk]

/-- A request is spared, or it is overdue. -/
theorem spared_or_overdue (e : Extent) (now : Nanoseconds) (r : RequestId) :
    (e.req r).bind (·.verdict now) = none ∨
      ∃ s k, e.req r = some s ∧ s.verdict now = some k := by
  cases h : (e.req r).bind (·.verdict now) with
  | none => exact Or.inl rfl
  | some k =>
    obtain ⟨s, hs, hk⟩ := Option.bind_eq_some_iff.mp h
    exact Or.inr ⟨s, k, hs, hk⟩

theorem req_sweep_of_ne (h : r' ≠ r) (e : Extent) (now : Nanoseconds) :
    (e.sweep now r).req r' = e.req r' := by
  rcases e.spared_or_overdue now r with hspared | ⟨s, k, hs, hk⟩
  · rw [sweep_of_spared hspared]
  · rw [sweep_of_overdue hs hk]
    exact Function.update_of_ne h ..

theorem sweep_comm (e : Extent) (now : Nanoseconds) (r r' : RequestId) :
    (e.sweep now r).sweep now r' = (e.sweep now r').sweep now r := by
  by_cases h : r = r'
  · rw [h]
  -- to sweep one does not change the verdict on the other
  have hr := req_sweep_of_ne h e now
  have hr' := req_sweep_of_ne (Ne.symm h) e now
  rcases e.spared_or_overdue now r with hspared | ⟨s, k, hs, hk⟩
  · rw [sweep_of_spared hspared, sweep_of_spared (e := e.sweep now r') (by rwa [hr])]
  rcases e.spared_or_overdue now r' with hspared | ⟨s', k', hs', hk'⟩
  · rw [sweep_of_spared hspared, sweep_of_spared (e := e.sweep now r) (by rwa [hr'])]
  rw [sweep_of_overdue (hr'.trans hs') hk', sweep_of_overdue (hr.trans hs) hk,
    sweep_of_overdue hs hk, sweep_of_overdue hs' hk', expire_comm h]

end Extent

namespace Impl

variable (now : Nanoseconds) (σ : Impl)

theorem extent_expireRequest (r : RequestId) (s : Rs) :
    (σ.expireRequest now r s).extent = σ.extent.expire 0 r s := by
  have hdetach : (if s.inFlight then σ.detachMember s.currentGroup s.request.requestId
      else σ).extent = { σ.extent with places :=
        if s.inFlight then σ.extent.places.detach s.currentGroup s.request.requestId
        else σ.extent.places } := by
    cases s.inFlight with
    | true => exact σ.extent_detachMember _ _
    | false => rfl
  unfold expireRequest
  dsimp only
  rw [extent_record, extent_setRequest, extent_charge, extent_count, extent_releaseReservation,
    hdetach]
  rfl

theorem extent_sweepRequest (r : RequestId) :
    (σ.sweepRequest now r).extent = σ.extent.sweep now r := by
  unfold sweepRequest Extent.sweep Rs.verdict
  have hreq : σ.extent.req r = σ.requests.lookup r := rfl
  rw [hreq]
  cases σ.requests.lookup r with
  | none => rfl
  | some s =>
    dsimp only
    split_ifs
    · rfl
    · exact σ.extent_expireRequest now r s
    · rw [extent_expireRequest]
      rfl
    · rfl

theorem extent_expirySweep :
    (σ.expirySweep now).extent = σ.requests.keys.foldl (Extent.sweep now) σ.extent :=
  (List.foldl_hom extent fun σ r => (extent_sweepRequest now σ r).symm).symm

/-- **The sweep does not depend on the order of the requests.** -/
theorem extent_expirySweep_congr {σ τ : Impl} (h : σ.extent = τ.extent) :
    (σ.expirySweep now).extent = (τ.expirySweep now).extent := by
  have hkeys : σ.requests.keys.Perm τ.requests.keys :=
    (AList.lookup_eq_iff_perm.mp (congrArg Extent.req h)).map _
  rw [extent_expirySweep, extent_expirySweep, h]
  exact hkeys.foldl_eq' (fun r _ r' _ e => e.sweep_comm now r r') _

end Impl

/-! ### Reordered states -/

/-- **Two states differ in the order of their entries at most**, and in their logs. -/
structure Impl.Reordered (σ τ : Impl) : Prop where
  requests : σ.requests.entries.Perm τ.requests.entries
  groups : σ.groups.entries.Perm τ.groups.entries
  workers : σ.workers.entries.Perm τ.workers.entries
  tenants : σ.tenants.entries.Perm τ.tenants.entries
  records : σ.mem.records.entries.Perm τ.mem.records.entries
  rest : τ = { σ with
    mem := { σ.mem with records := τ.mem.records }
    events := τ.events
    requests := τ.requests
    groups := τ.groups
    workers := τ.workers
    tenants := τ.tenants }

theorem Impl.reordered_iff {σ τ : Impl} : σ.Reordered τ ↔ σ.extent = τ.extent := by
  constructor
  · intro h
    refine Extent.ext (AList.lookup_eq_iff_perm.mpr h.requests)
      (Places.ext (AList.lookup_eq_iff_perm.mpr h.groups) (AList.lookup_eq_iff_perm.mpr h.workers))
      (AList.lookup_eq_iff_perm.mpr h.tenants)
      (Books.ext ?_ (AList.lookup_eq_iff_perm.mpr h.records)) ?_ <;> rw [h.rest] <;> rfl
  · intro h
    have hbooks := congrArg Extent.books h
    have hplaces := congrArg Extent.places h
    have hrest := congrArg Extent.rest h
    have hgovernor := congrArg Books.governor hbooks
    refine ⟨AList.lookup_eq_iff_perm.mp (congrArg Extent.req h),
      AList.lookup_eq_iff_perm.mp (congrArg Places.grp hplaces),
      AList.lookup_eq_iff_perm.mp (congrArg Places.wrk hplaces),
      AList.lookup_eq_iff_perm.mp (congrArg Extent.ten h),
      AList.lookup_eq_iff_perm.mp (congrArg Books.entry hbooks), ?_⟩
    obtain ⟨⟨⟩⟩ := σ
    obtain ⟨⟨⟩⟩ := τ
    simp only [extent, MemoryGovernor.books, mk.injEq, MemoryGovernor.mk.injEq] at hrest hgovernor
    simp only [mk.injEq, MemoryGovernor.mk.injEq]
    grind

end PrefillFabric
