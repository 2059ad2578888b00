import Mathlib.Data.List.Perm.Basic
import PrefillFabric.Scheduler.Extent
import PrefillFabric.Scheduler.Fairness
import PrefillFabric.Scheduler.Journal

/-!
# The cycle does not depend on hashing

The tables of the source are hash tables, and a cycle runs through them again and again: to sweep,
to collect the candidates, to choose a worker for every group, to age who still waits, to count.
An `Iteration` is a choice of the order in which each of these loops finds its table, and
`Iteration.cycle` is the cycle under that choice.

Two states with the same extent are kept side by side through a cycle (`Impl.Alike`). The loops
that write are folds of operations that commute on extents; the others count, or take a least
worker, or sort. The candidates are sorted by a strict total order, so that groups are packed, and
identities, generations and reservations drawn, in the same order on both sides. Hence the batch
and the extent of the state left behind are the same for any two orders
(`Iteration.cycle_independent`).

The log is the one place where the order of the sweep shows: the events of the sweep are the same,
in another order. As the log is bounded, this is a permutation of what is retained only while the
log holds the whole sweep; with more requests to expire than that, the order decides which of
their events are retained.
-/

namespace PrefillFabric

/-! ### The log -/

namespace EventLog

@[simp] theorem capacity_record (log : EventLog) (e : Event) :
    (log.record e).capacity = log.capacity := rfl

theorem capacity_foldl_record (log : EventLog) (es : List Event) :
    (es.foldl record log).capacity = log.capacity := by
  induction es generalizing log with
  | nil => rfl
  | cons e es ih => exact ih (log.record e)

theorem length_record_le (log : EventLog) (e : Event) (h : log.events.length ≤ log.capacity) :
    (log.record e).events.length ≤ log.capacity := by
  unfold record
  dsimp only
  split_ifs with hfull
  · rw [List.length_tail, List.length_append, List.length_singleton]
    omega
  · exact Nat.not_lt.mp hfull

/-- **What a log retains** of what is recorded: all but the oldest, as far as there is no room. -/
theorem events_foldl_record (log : EventLog) (es : List Event) :
    (es.foldl record log).events =
      (log.events ++ es).drop (es.length - (log.capacity - log.events.length)) := by
  induction es generalizing log with
  | nil => simp
  | cons e es ih =>
    rw [List.foldl_cons, ih, capacity_record]
    by_cases hfull : log.capacity < (log.events ++ [e]).length
    · have hrecord : (log.record e).events = (log.events ++ [e]).tail := by
        simp only [record, if_pos hfull]
      have hlength : (log.record e).events.length = log.events.length := by
        rw [hrecord, List.length_tail, List.length_append, List.length_singleton,
          Nat.add_sub_cancel]
      rw [hlength, hrecord, ← List.drop_one]
      rw [List.length_append, List.length_singleton] at hfull
      have hroom : log.capacity - log.events.length = 0 := by omega
      rw [hroom, Nat.sub_zero, Nat.sub_zero, ← List.drop_append_of_le_length (by simp),
        List.drop_drop, List.append_assoc, List.singleton_append, List.length_cons, Nat.add_comm 1]
    · have hrecord : (log.record e).events = log.events ++ [e] := by
        simp only [record, if_neg hfull]
      rw [hrecord, List.append_assoc, List.singleton_append]
      rw [List.length_append, List.length_singleton] at *
      congr 1
      rw [List.length_cons]
      omega

/-- One event more than there is room for pushes out the first of them, and all there was. -/
theorem events_foldl_record_of_succ {log : EventLog} {es : List Event}
    (h : log.events.length ≤ log.capacity) (hes : es.length = log.capacity + 1) :
    (es.foldl record log).events = es.tail := by
  have hdrop : es.length - (log.capacity - log.events.length) = log.events.length + 1 := by omega
  rw [events_foldl_record, hdrop, List.drop_append, List.drop_eq_nil_of_le (Nat.le_succ _),
    List.nil_append, Nat.add_sub_cancel_left, List.drop_one]

/-- **A log that holds all of them** retains the same events, in whichever order they come. -/
theorem perm_foldl_record {log : EventLog} {es es' : List Event} (h : es.Perm es')
    (hroom : es.length ≤ log.capacity) :
    (es.foldl record log).events.Perm (es'.foldl record log).events := by
  rw [events_foldl_record, events_foldl_record, ← h.length_eq]
  have hold : es.length - (log.capacity - log.events.length) ≤ log.events.length := by omega
  rw [List.drop_append_of_le_length hold, List.drop_append_of_le_length hold]
  exact h.append_left _

end EventLog

/-! ### The log of a sweep -/

namespace Impl

variable (now : Nanoseconds) (σ : Impl)

/-- What the sweep records about a request, if anything. -/
def expiryEvent (r : RequestId) : Option Event :=
  (σ.requests.lookup r).bind fun s => (s.verdict now).map fun _ =>
    ⟨now, "expire", s.request.requestId, s.attempt, "deadline"⟩

/-- What the sweep records, in the order in which it comes by the requests. -/
def expiryEvents : List Event := σ.requests.keys.filterMap (σ.expiryEvent now)

theorem events_sweepRequest (r : RequestId) : (σ.sweepRequest now r).events =
    (σ.expiryEvent now r).elim σ.events σ.events.record := by
  unfold sweepRequest expiryEvent Rs.verdict
  cases σ.requests.lookup r with
  | none => rfl
  | some s =>
    rw [Option.bind_some]
    dsimp only
    split_ifs
    · rfl
    · exact congrArg Journal.events (journal_expireRequest now r s σ)
    · exact congrArg Journal.events (journal_expireRequest now r s _)
    · rfl

/-- **The sweep records what is overdue** when it begins. -/
theorem events_expirySweep :
    (σ.expirySweep now).events = (σ.expiryEvents now).foldl EventLog.record σ.events := by
  have hfold : ∀ (l : List RequestId) (τ : Impl), l.Nodup →
      (∀ r ∈ l, τ.requests.lookup r = σ.requests.lookup r) →
      (l.foldl (sweepRequest now) τ).events =
        (l.filterMap (σ.expiryEvent now)).foldl EventLog.record τ.events := by
    intro l
    induction l with
    | nil => intros; rfl
    | cons r l ih =>
      intro τ hnodup hsame
      obtain ⟨hnot, hnodup⟩ := List.nodup_cons.mp hnodup
      have hevent : τ.expiryEvent now r = σ.expiryEvent now r := by
        rw [expiryEvent, expiryEvent, hsame r List.mem_cons_self]
      -- whoever comes later in the list is as it was
      have hrest : ∀ x ∈ l, (τ.sweepRequest now r).requests.lookup x = σ.requests.lookup x := by
        intro x hx
        have hne : x ≠ r := fun heq => hnot (heq ▸ hx)
        have hreq : (τ.sweepRequest now r).extent.req x = τ.extent.req x := by
          rw [extent_sweepRequest]
          exact Extent.req_sweep_of_ne hne ..
        exact hreq.trans (hsame x (List.mem_cons_of_mem r hx))
      rw [List.foldl_cons, ih _ hnodup hrest, events_sweepRequest, hevent, List.filterMap_cons]
      cases σ.expiryEvent now r <;> rfl
  exact hfold _ σ σ.requests.keys_nodup fun _ _ => rfl

/-! ### Two states side by side -/

/-- **Two states that differ in the order of their entries at most**, each with its own log. -/
structure Alike (L L' : EventLog) (σ τ : Impl) : Prop where
  extent_eq : σ.extent = τ.extent
  events_left : σ.events = L
  events_right : τ.events = L'

end Impl

/-- A request that still waits is older one cycle later. -/
def Rs.aged (s : Rs) : Rs :=
  if s.lifecycle = .queued ∧ s.inFlight = false then { s with agingCycles := s.agingCycles + 1 }
  else s

/-- Change the record of a request, if there is one. -/
def Extent.modify (f : Rs → Rs) (e : Extent) (r : RequestId) : Extent :=
  { e with req := Function.update e.req r ((e.req r).map f) }

theorem Extent.modify_comm (f : Rs → Rs) (e : Extent) (r r' : RequestId) :
    (e.modify f r).modify f r' = (e.modify f r').modify f r := by
  by_cases h : r = r'
  · rw [h]
  · simp only [modify, Function.update_of_ne h, Function.update_of_ne (Ne.symm h)]
    rw [Function.update_comm h]

namespace MemoryGovernor

/-- A reservation is granted, or not, by what the books say. -/
theorem reserve_congr {g g' : MemoryGovernor} (h : g.books = g'.books) (id : ReservationId)
    (req : RequestId) (bytes : ℕ) (kind : ReservationKind) :
    (g.reserve id req bytes kind).1.books = (g'.reserve id req bytes kind).1.books ∧
      (g.reserve id req bytes kind).2 = (g'.reserve id req bytes kind).2 := by
  have hfields := h
  simp only [books, Books.mk.injEq, MemoryGovernor.mk.injEq, and_true] at hfields
  obtain ⟨⟨hmax, hhead, hreserved, hdouble, hunder⟩, hentry⟩ := hfields
  have hactive : g.isActive id = g'.isActive id := by
    rw [isActive, isActive, congrFun hentry id]
  have hwritten : ∀ rec : ReservationRecord,
      (g.records.insert id rec).lookup = (g'.records.insert id rec).lookup := by
    intro rec
    rw [AList.lookup_insert_fun, AList.lookup_insert_fun, hentry]
  unfold reserve budget
  rw [hactive, hmax, hhead, hreserved, hdouble, hunder]
  split_ifs
  · exact ⟨h, rfl⟩
  · exact ⟨Books.ext rfl (hwritten _), rfl⟩
  · exact ⟨h, rfl⟩
  · exact ⟨Books.ext rfl (hwritten _), rfl⟩

end MemoryGovernor

namespace Impl.Alike

variable {L L' : EventLog} {σ τ : Impl}

theorem lookup_requests (h : Alike L L' σ τ) (r : RequestId) :
    σ.requests.lookup r = τ.requests.lookup r :=
  congrFun (congrArg Extent.req h.extent_eq) r

theorem perm_requests (h : Alike L L' σ τ) : σ.requests.entries.Perm τ.requests.entries :=
  AList.lookup_eq_iff_perm.mp (congrArg Extent.req h.extent_eq)

theorem perm_workers (h : Alike L L' σ τ) : σ.workers.entries.Perm τ.workers.entries :=
  AList.lookup_eq_iff_perm.mp (congrArg (·.places.wrk) h.extent_eq)

/-- What an operation does to the extent it does on both sides. -/
theorem map (h : Alike L L' σ τ) {f : Impl → Impl} {g : Extent → Extent}
    (hf : ∀ σ, (f σ).extent = g σ.extent) (hevents : ∀ σ, (f σ).events = σ.events) :
    Alike L L' (f σ) (f τ) where
  extent_eq := by rw [hf, hf, h.extent_eq]
  events_left := (hevents σ).trans h.events_left
  events_right := (hevents τ).trans h.events_right

/-- A change to the counters and the statistics. -/
theorem mapRest (h : Alike L L' σ τ) (f : Impl → Impl)
    (hf : ∀ σ, (f σ).extent = { σ.extent with rest := f σ.extent.rest })
    (hevents : ∀ σ, (f σ).events = σ.events) : Alike L L' (f σ) (f τ) :=
  h.map (g := fun e => { e with rest := f e.rest }) hf hevents

theorem setRequest (h : Alike L L' σ τ) (r : RequestId) (s : Rs) :
    Alike L L' (σ.setRequest r s) (τ.setRequest r s) :=
  h.map (f := (Impl.setRequest · r s))
    (g := fun e => { e with req := Function.update e.req r (some s) })
    (fun σ => σ.extent_setRequest r s) fun _ => rfl

theorem count (h : Alike L L' σ τ) (f : Stats → Stats) : Alike L L' (σ.count f) (τ.count f) :=
  h.mapRest (Impl.count · f) (fun _ => rfl) fun _ => rfl

/-- A change to the record of a request, if there is one. -/
theorem modify (h : Alike L L' σ τ) (r : RequestId) (f : Rs → Rs) :
    Alike L L' { σ with requests := AList.modify r f σ.requests }
      { τ with requests := AList.modify r f τ.requests } :=
  h.map (f := fun σ => { σ with requests := AList.modify r f σ.requests })
    (g := fun e => e.modify f r)
    (fun _ => Extent.ext (AList.lookup_modify_fun ..) rfl rfl rfl rfl) fun _ => rfl

theorem setMem (h : Alike L L' σ τ) {m m' : MemoryGovernor} (hm : m.books = m'.books) :
    Alike L L' { σ with mem := m } { τ with mem := m' } where
  extent_eq := Extent.ext (congrArg Extent.req h.extent_eq :) (congrArg Extent.places h.extent_eq :)
    (congrArg Extent.ten h.extent_eq :) hm (congrArg Extent.rest h.extent_eq :)
  events_left := h.events_left
  events_right := h.events_right

/-- A group on a worker. -/
theorem seat (h : Alike L L' σ τ) (w : WorkerId) (f : Ws → Ws) (gid : GroupId) (gs : Gs) :
    Alike L L' { σ with workers := AList.modify w f σ.workers, groups := σ.groups.insert gid gs }
      { τ with workers := AList.modify w f τ.workers, groups := τ.groups.insert gid gs } :=
  h.map (f := fun σ =>
      { σ with workers := AList.modify w f σ.workers, groups := σ.groups.insert gid gs })
    (g := fun e => { e with
      places := ⟨Function.update e.places.grp gid (some gs),
        Function.update e.places.wrk w ((e.places.wrk w).map f)⟩ })
    (fun _ => Extent.ext rfl
      (Places.ext (AList.lookup_insert_fun ..) (AList.lookup_modify_fun ..)) rfl rfl rfl)
    fun _ => rfl

theorem noteRequest (h : Alike L L' σ τ) (r : RequestId) (line : String) :
    Alike L L' (σ.noteRequest r line) (τ.noteRequest r line) :=
  h.modify r (·.note line)

theorem noteAll (h : Alike L L' σ τ) (rids : List RequestId) (line : String) :
    Alike L L' (σ.noteAll rids line) (τ.noteAll rids line) := by
  unfold Impl.noteAll
  induction rids generalizing σ τ with
  | nil => exact h
  | cons r rids ih => exact ih (h.noteRequest r line)

/-! ### Candidates -/

variable {env : Env}

theorem serviceRatio_eq (h : Alike L L' σ τ) : serviceRatio env σ = serviceRatio env τ := by
  funext s
  have htenant : σ.tenants.lookup s.request.tenantId = τ.tenants.lookup s.request.tenantId :=
    congrFun (congrArg Extent.ten h.extent_eq) _
  rw [serviceRatio, serviceRatio, htenant]

theorem comparable (h : Alike L L' σ τ) (hcmp : Comparable env σ) : Comparable env τ := by
  intro s
  rw [← h.serviceRatio_eq]
  exact hcmp s

/-- **The candidates come in the same order.** -/
theorem sortedCandidates_eq (h : Alike L L' σ τ) (hcmp : Comparable env σ) (now : Nanoseconds) :
    σ.sortedCandidates env now = τ.sortedCandidates env now := by
  refine Impl.sortedCandidates_eq hcmp (h.comparable hcmp) ((h.perm_requests.filter _).map _) ?_
  funext a
  rw [precedence, precedence, h.lookup_requests, h.serviceRatio_eq]

theorem placeCandidate (h : Alike L L' σ τ) (env : Env) (gs : List ExecutionGroup) (r : RequestId) :
    Alike L L' (placeCandidate env (σ, gs) r).1 (placeCandidate env (τ, gs) r).1 ∧
      (Impl.placeCandidate env (σ, gs) r).2 = (Impl.placeCandidate env (τ, gs) r).2 := by
  have hnext : σ.nextGroupValue = τ.nextGroupValue :=
    congrArg (·.rest.nextGroupValue) h.extent_eq
  unfold Impl.placeCandidate
  dsimp only
  rw [h.lookup_requests, hnext]
  cases τ.requests.lookup r with
  | none => exact ⟨h, rfl⟩
  | some s =>
    dsimp only
    split_ifs
    · exact ⟨h, rfl⟩
    · cases packInto env r s gs with
      | some gs' => exact ⟨h.noteRequest r _, rfl⟩
      | none =>
        exact ⟨h.mapRest (fun σ => { σ with nextGroupValue := τ.nextGroupValue + 1 })
          (fun _ => rfl) fun _ => rfl, rfl⟩

theorem formGroups (h : Alike L L' σ τ) (env : Env) (rids : List RequestId) :
    Alike L L' (formGroups env rids σ).1 (formGroups env rids τ).1 ∧
      (Impl.formGroups env rids σ).2 = (Impl.formGroups env rids τ).2 := by
  unfold Impl.formGroups
  generalize ([] : List ExecutionGroup) = gs
  induction rids generalizing σ τ gs with
  | nil => exact ⟨h, rfl⟩
  | cons r rids ih =>
    obtain ⟨hplaced, hgs⟩ := h.placeCandidate env gs r
    have hnext := ih hplaced (Impl.placeCandidate env (σ, gs) r).2
    rw [List.foldl_cons, List.foldl_cons]
    rwa [Prod.mk.eta, hgs, Prod.mk.eta] at hnext

/-! ### Groups -/

/-- **The same worker is chosen**: to take the lesser of two identities commutes. -/
theorem chooseWorker_eq (h : Alike L L' σ τ) (backend : String) :
    chooseWorker backend σ = chooseWorker backend τ := by
  rw [chooseWorker_eq_foldl, chooseWorker_eq_foldl]
  refine ((h.perm_workers.filter _).map _).foldl_eq' (fun x _ y _ chosen => ?_) none
  -- two workers of one identity are one worker, so a tie does not matter
  have heq : x.value = y.value → x = y := congrArg StrongId.mk
  cases chosen with
  | none =>
    simp only [lesser]
    split_ifs with hxy hyx
    · omega
    · rfl
    · rfl
    · rw [heq (by omega)]
  | some c =>
    simp only [lesser]
    split_ifs <;> dsimp only <;> split_ifs <;> first | rfl | omega | rw [heq (by omega)]

theorem reserveMembers (h : Alike L L' σ τ) (rids : List RequestId) :
    Alike L L' (reserveMembers rids σ).1 (reserveMembers rids τ).1 ∧
      (Impl.reserveMembers rids σ).2 = (Impl.reserveMembers rids τ).2 := by
  induction rids generalizing σ τ with
  | nil => exact ⟨h, rfl⟩
  | cons r rids ih =>
    have hnext : σ.nextReservationValue = τ.nextReservationValue :=
      congrArg (·.rest.nextReservationValue) h.extent_eq
    have hbooks : σ.mem.books = τ.mem.books := congrArg Extent.books h.extent_eq
    unfold Impl.reserveMembers
    dsimp only
    rw [h.lookup_requests, hnext]
    -- both sides ask for the same memory under the same identity, and get the same answer
    generalize (τ.requests.lookup r).getD {} = s
    generalize (⟨τ.nextReservationValue⟩ : ReservationId) = rv
    obtain ⟨hmem, hreply⟩ := MemoryGovernor.reserve_congr hbooks rv r
      s.nextChunk.memoryEstimateBytes.toNat .reserved
    rw [hreply]
    have hreserved := (h.mapRest
      (fun σ => { σ with nextReservationValue := τ.nextReservationValue + 1 }) (fun _ => rfl)
      fun _ => rfl).setMem hmem
    split_ifs
    · obtain ⟨hrest, heq⟩ := ih (hreserved.setRequest r
        { s with reservation := rv, reservedBytes := s.nextChunk.memoryEstimateBytes.toNat })
      rw [heq]
      exact ⟨hrest, rfl⟩
    · exact ⟨hreserved, rfl⟩

theorem undoReservation (h : Alike L L' σ τ) (p : ReservationId × RequestId) :
    Alike L L' (σ.undoReservation p) (τ.undoReservation p) := by
  have hreleased : Alike L L' { σ with mem := σ.mem.release p.1 }
      { τ with mem := τ.mem.release p.1 } :=
    h.map (f := fun σ => { σ with mem := σ.mem.release p.1 })
      (g := fun e => { e with books := e.books.release p.1 })
      (fun σ => Extent.ext rfl rfl rfl (σ.mem.books_release p.1) rfl) fun _ => rfl
  exact hreleased.modify p.2 fun s => { s with reservation := .nil, reservedBytes := 0 }

theorem undoReservations (h : Alike L L' σ τ) (ps : List (ReservationId × RequestId)) :
    Alike L L' (ps.foldl Impl.undoReservation σ) (ps.foldl Impl.undoReservation τ) := by
  induction ps generalizing σ τ with
  | nil => exact h
  | cons p ps ih => exact ih (h.undoReservation p)

theorem commitMember (h : Alike L L' σ τ) (now : Nanoseconds) (gid : GroupId) (w : WorkerId)
    (m : ExecutableMember) :
    Alike L L' (σ.commitMember now gid w m) (τ.commitMember now gid w m) := by
  have hnext : σ.nextGenerationValue = τ.nextGenerationValue :=
    congrArg (·.rest.nextGenerationValue) h.extent_eq
  unfold Impl.commitMember
  dsimp only
  rw [h.lookup_requests, hnext]
  refine Alike.count (Alike.setRequest (Alike.count ?_ _) _ _) _
  exact h.mapRest (fun σ => { σ with nextGenerationValue := τ.nextGenerationValue + 1 })
    (fun _ => rfl) fun _ => rfl

theorem commitMembers (h : Alike L L' σ τ) (now : Nanoseconds) (gid : GroupId) (w : WorkerId)
    (ms : List ExecutableMember) :
    Alike L L' (commitMembers now gid w ms σ).1 (commitMembers now gid w ms τ).1 ∧
      (Impl.commitMembers now gid w ms σ).2 = (Impl.commitMembers now gid w ms τ).2 := by
  induction ms generalizing σ τ with
  | nil => exact ⟨h, rfl⟩
  | cons m ms ih =>
    have hnext : σ.nextGenerationValue = τ.nextGenerationValue :=
      congrArg (·.rest.nextGenerationValue) h.extent_eq
    obtain ⟨hrest, heq⟩ := ih (h.commitMember now gid w m)
    refine ⟨hrest, ?_⟩
    rw [Impl.commitMembers, Impl.commitMembers]
    dsimp only
    rw [heq, hnext]

theorem commitGroup (h : Alike L L' σ τ) (now : Nanoseconds) (w : WorkerId) (g : ExecutionGroup)
    (batch : DispatchBatch) :
    Alike L L' (commitGroup now w g batch σ).1 (commitGroup now w g batch τ).1 ∧
      (Impl.commitGroup now w g batch σ).2 = (Impl.commitGroup now w g batch τ).2 := by
  obtain ⟨hcommitted, hmembers⟩ := h.commitMembers now g.groupId w g.members
  have hfirst := hcommitted.lookup_requests (g.rids.headD .nil)
  unfold Impl.commitGroup
  dsimp only
  rw [hmembers]
  refine ⟨(hcommitted.seat w _ g.groupId _).count _, ?_⟩
  dsimp only [Impl.count]
  rw [hfirst]

theorem dispatchGroup (h : Alike L L' σ τ) (now : Nanoseconds) (batch : DispatchBatch)
    (g : ExecutionGroup) :
    Alike L L' (dispatchGroup now (σ, batch) g).1 (dispatchGroup now (τ, batch) g).1 ∧
      (Impl.dispatchGroup now (σ, batch) g).2 = (Impl.dispatchGroup now (τ, batch) g).2 := by
  by_cases hempty : g.members.isEmpty = true
  · rw [Impl.dispatchGroup, Impl.dispatchGroup, if_pos hempty, if_pos hempty]
    exact ⟨h, rfl⟩
  rw [Impl.dispatchGroup, Impl.dispatchGroup, if_neg hempty, if_neg hempty]
  dsimp only
  rw [h.chooseWorker_eq]
  cases chooseWorker g.backend τ with
  | none => exact ⟨h.noteAll g.rids _, rfl⟩
  | some w =>
    obtain ⟨hreserved, heq⟩ := h.reserveMembers g.rids
    dsimp only
    rw [heq]
    split_ifs
    · exact hreserved.commitGroup now w g batch
    · exact ⟨(hreserved.undoReservations _).noteAll g.rids _, rfl⟩

/-! ### After the groups -/

theorem ageWaiting (h : Alike L L' σ τ) : Alike L L' σ.ageWaiting τ.ageWaiting := by
  have hextent : ∀ σ : Impl,
      σ.ageWaiting.extent = σ.requests.keys.foldl (Extent.modify Rs.aged) σ.extent := fun σ =>
    (List.foldl_hom extent fun σ r =>
      (Extent.ext (AList.lookup_modify_fun ..) rfl rfl rfl rfl :
        (σ.ageRequest r).extent = σ.extent.modify Rs.aged r).symm).symm
  have hevents : ∀ σ : Impl, σ.ageWaiting.events = σ.events := fun σ =>
    List.foldlRecOn (motive := fun τ : Impl => τ.events = σ.events) _ ageRequest rfl
      fun _ hτ _ _ => hτ
  refine ⟨?_, (hevents σ).trans h.events_left, (hevents τ).trans h.events_right⟩
  have hkeys : σ.requests.keys.Perm τ.requests.keys := h.perm_requests.map _
  rw [hextent, hextent, h.extent_eq]
  exact hkeys.foldl_eq' (fun r _ r' _ e => e.modify_comm Rs.aged r r') _

theorem refreshStats (h : Alike L L' σ τ) : Alike L L' σ.refreshStats τ.refreshStats := by
  have hlist : σ.requestList.Perm τ.requestList := h.perm_requests.map _
  have hqueued : σ.queuedCount = τ.queuedCount := (hlist.filter _).length_eq
  have hwaiting : σ.waitingTokens = τ.waitingTokens := ((hlist.filter _).map _).sum_eq
  have hremaining : σ.remainingTokens = τ.remainingTokens :=
    ((hlist.filter _).map _).foldr_eq' (fun x _ y _ z => by ac_rfl) 0
  unfold Impl.refreshStats
  rw [hqueued, hwaiting, hremaining]
  exact h.count _

end Impl.Alike

/-! ### Orders of iteration -/

/-- **An order of iteration**: for every state, the same state with its tables in some order. -/
structure Iteration where
  visit : Impl → Impl
  reordered : ∀ σ : Impl, σ.Reordered (visit σ)
  events_visit : ∀ σ, (visit σ).events = σ.events

namespace Iteration

open Impl

/-- The cycle, with each of its loops over a table in a given order. -/
def cycle (ι : Iteration) (env : Env) (now : Nanoseconds) (σ : Impl) : Impl × DispatchBatch :=
  let σ := (ι.visit σ).expirySweep now
  let formed := formGroups env ((ι.visit σ).sortedCandidates env now) σ
  let dispatched := formed.2.foldl
    (fun acc g => dispatchGroup now (ι.visit acc.1, acc.2) g) (formed.1, {})
  ((ι.visit (ι.visit dispatched.1).ageWaiting).refreshStats, dispatched.2)

/-- The order in which the tables are. -/
def same : Iteration where
  visit := id
  reordered _ := reordered_iff.mpr rfl
  events_visit _ := rfl

/-- The cycle of the scheduler is one of them. -/
theorem cycle_same (env : Env) (now : Nanoseconds) (σ : Impl) :
    same.cycle env now σ = σ.runCycle env now := rfl

variable {L L' : EventLog} {env : Env} {σ τ : Impl}

theorem extent_visit (ι : Iteration) (σ : Impl) : (ι.visit σ).extent = σ.extent :=
  (reordered_iff.mp (ι.reordered σ)).symm

theorem alike_visit (ι ι' : Iteration) (h : Alike L L' σ τ) :
    Alike L L' (ι.visit σ) (ι'.visit τ) where
  extent_eq := by rw [extent_visit, extent_visit, h.extent_eq]
  events_left := (ι.events_visit σ).trans h.events_left
  events_right := (ι'.events_visit τ).trans h.events_right

/-- The groups are taken one by one, each side with its own order. -/
theorem alike_dispatch (ι ι' : Iteration) (now : Nanoseconds) (gs : List ExecutionGroup)
    (h : Alike L L' σ τ) (batch : DispatchBatch) :
    let left := gs.foldl (fun acc g => dispatchGroup now (ι.visit acc.1, acc.2) g) (σ, batch)
    let right := gs.foldl (fun acc g => dispatchGroup now (ι'.visit acc.1, acc.2) g) (τ, batch)
    Alike L L' left.1 right.1 ∧ left.2 = right.2 := by
  induction gs generalizing σ τ batch with
  | nil => exact ⟨h, rfl⟩
  | cons g gs ih =>
    obtain ⟨hnext, hbatch⟩ := (alike_visit ι ι' h).dispatchGroup now batch g
    have hrest := ih hnext (dispatchGroup now (ι.visit σ, batch) g).2
    rw [List.foldl_cons, List.foldl_cons]
    rwa [Prod.mk.eta, hbatch, Prod.mk.eta] at hrest

/-- What two sweeps in different orders leave behind. -/
theorem alike_sweep (ι ι' : Iteration) (now : Nanoseconds) (σ : Impl) :
    Alike (((ι.visit σ).expiryEvents now).foldl EventLog.record σ.events)
      (((ι'.visit σ).expiryEvents now).foldl EventLog.record σ.events)
      ((ι.visit σ).expirySweep now) ((ι'.visit σ).expirySweep now) where
  extent_eq := extent_expirySweep_congr now (by rw [extent_visit, extent_visit])
  events_left := by rw [events_expirySweep, ι.events_visit]
  events_right := by rw [events_expirySweep, ι'.events_visit]

theorem expiryEvent_visit (ι : Iteration) (now : Nanoseconds) (σ : Impl) :
    (ι.visit σ).expiryEvent now = σ.expiryEvent now := by
  funext r
  have hr : (ι.visit σ).requests.lookup r = σ.requests.lookup r :=
    congrFun (congrArg Extent.req (ι.extent_visit σ)) r
  rw [expiryEvent, expiryEvent, hr]

/-- The sweep records the same events in whichever order it comes by the requests. -/
theorem perm_expiryEvents (ι : Iteration) (now : Nanoseconds) (σ : Impl) :
    (σ.expiryEvents now).Perm ((ι.visit σ).expiryEvents now) := by
  rw [expiryEvents, expiryEvents, expiryEvent_visit]
  exact ((ι.reordered σ).requests.map _).filterMap _

theorem comparable_swept (ι : Iteration) (hcmp : Comparable env σ) (now : Nanoseconds) :
    Comparable env (ι.visit ((ι.visit σ).expirySweep now)) := by
  have hvisit : ∀ τ : Impl, Alike τ.events τ.events τ (ι.visit τ) := fun τ =>
    ⟨(ι.extent_visit τ).symm, rfl, ι.events_visit τ⟩
  exact (hvisit _).comparable (((hvisit σ).comparable hcmp).expirySweep now)

/-- **A cycle under two orders**: the same batch, the same state but for the order of its tables,
and the same log but for the order of what the sweep records. -/
theorem alike_cycle (ι ι' : Iteration) (hcmp : Comparable env σ) (now : Nanoseconds) :
    Alike (((ι.visit σ).expiryEvents now).foldl EventLog.record σ.events)
        (((ι'.visit σ).expiryEvents now).foldl EventLog.record σ.events)
        (ι.cycle env now σ).1 (ι'.cycle env now σ).1 ∧
      (ι.cycle env now σ).2 = (ι'.cycle env now σ).2 := by
  have hsweep := alike_sweep ι ι' now σ
  have hcands := (alike_visit ι ι' hsweep).sortedCandidates_eq (ι.comparable_swept hcmp now)
    now
  unfold cycle
  dsimp only
  rw [hcands]
  obtain ⟨hformed, hgroups⟩ := hsweep.formGroups env
    ((ι'.visit ((ι'.visit σ).expirySweep now)).sortedCandidates env now)
  rw [hgroups]
  obtain ⟨hdispatched, hbatch⟩ := alike_dispatch ι ι' now (formGroups env
    ((ι'.visit ((ι'.visit σ).expirySweep now)).sortedCandidates env now)
    ((ι'.visit σ).expirySweep now)).2 hformed {}
  exact ⟨(alike_visit ι ι' (alike_visit ι ι' hdispatched).ageWaiting).refreshStats, hbatch⟩

/-- **Scheduling does not depend on hashing.** Whatever the order in which the loops of a cycle
come by the entries of their tables, candidates are compared by a strict total order, the batch is
the same, and so is the state, up to the order of its entries. What is recorded is the same up to
its order, and so is what the log retains of it, if the log has room for the sweep. -/
theorem cycle_independent (hcmp : Comparable env σ) (now : Nanoseconds) (ι ι' : Iteration) :
    (IsStrictTotalOrder RequestId fun a b =>
      precedes env now (ι.visit ((ι.visit σ).expirySweep now)) a b = true) ∧
    (ι.cycle env now σ).2 = (ι'.cycle env now σ).2 ∧
    (ι.cycle env now σ).1.Reordered (ι'.cycle env now σ).1 ∧
    (ι.cycle env now σ).1.events.capacity = (ι'.cycle env now σ).1.events.capacity ∧
    (∃ es es' : List Event, es.Perm es' ∧
      (ι.cycle env now σ).1.events = es.foldl EventLog.record σ.events ∧
      (ι'.cycle env now σ).1.events = es'.foldl EventLog.record σ.events) ∧
    ((σ.expiryEvents now).length ≤ σ.events.capacity →
      (ι.cycle env now σ).1.events.events.Perm (ι'.cycle env now σ).1.events.events) := by
  obtain ⟨halike, hbatch⟩ := alike_cycle ι ι' hcmp now
  have hperm := (ι.perm_expiryEvents now σ).symm.trans (ι'.perm_expiryEvents now σ)
  refine ⟨isStrictTotalOrder_precedes (ι.comparable_swept hcmp now) now, hbatch,
    reordered_iff.mpr halike.extent_eq, ?_,
    ⟨_, _, hperm, halike.events_left, halike.events_right⟩, fun hroom => ?_⟩
  · rw [halike.events_left, halike.events_right, EventLog.capacity_foldl_record,
      EventLog.capacity_foldl_record]
  · rw [halike.events_left, halike.events_right]
    exact EventLog.perm_foldl_record hperm ((ι.perm_expiryEvents now σ).length_eq ▸ hroom)

/-- The requests and the workers backwards. -/
def backwards : Iteration where
  visit σ := { σ with
    requests := ⟨σ.requests.entries.reverse,
      (List.perm_nodupKeys (List.reverse_perm _)).mpr σ.requests.nodupKeys⟩
    workers := ⟨σ.workers.entries.reverse,
      (List.perm_nodupKeys (List.reverse_perm _)).mpr σ.workers.nodupKeys⟩ }
  reordered _ := ⟨(List.reverse_perm _).symm, .refl _, (List.reverse_perm _).symm, .refl _,
    .refl _, rfl⟩
  events_visit _ := rfl

/-- A served tenant and a new one, each with a request in the queue: in whichever order the tables
are, the cycle hands out the same batch, and its log is the same. -/
theorem cycle_independent_servedCalls :
    let σ := (Run.fresh .standard Run.servedCalls).stateAt 5
    (σ.runCycle .standard 0).2 = (backwards.cycle .standard 0 σ).2 ∧
      (σ.runCycle .standard 0).1.events.events.Perm
        (backwards.cycle .standard 0 σ).1.events.events := by
  -- the run is computed once, where the room in its log is checked
  have hcmp : Comparable .standard ((Run.fresh .standard Run.servedCalls).stateAt 5) :=
    (Run.unserved .standard Run.servedCalls 5).comparable (by decide +kernel)
  have hroom : (((Run.fresh .standard Run.servedCalls).stateAt 5).expiryEvents 0).length ≤
      ((Run.fresh .standard Run.servedCalls).stateAt 5).events.capacity := by decide +kernel
  obtain ⟨-, hbatch, -, -, -, hevents⟩ := cycle_independent hcmp 0 same backwards
  rw [cycle_same] at hbatch hevents
  exact ⟨hbatch, hevents hroom⟩

/-! ### A crowd -/

/-- A request that is late as soon as any time has passed. -/
def latecomer (k : ℕ) : PrefillRequest :=
  { Run.plainRequest k 1 with tenantId := ⟨k⟩, deadline := some 0 }

/-- So many of them, each of its own tenant. -/
def crowdCalls (n : ℕ) : List Call :=
  (List.range n).map fun k => ⟨0, .submitWithTokens (latecomer (k + 1)) [0]⟩

/-- A scheduler with so many requests, all of them late. -/
structure Crowd (n : ℕ) (σ : Impl) : Prop where
  late : ∀ r s, σ.requests.lookup r = some s →
    s.verdict 1 = some 0 ∧ s.request.requestId = r ∧ r.value ≤ n
  size_eq : AList.size σ.requests = n
  newcomer : ∀ t : TenantId, n < t.value → σ.tenants.lookup t = none
  capacity_eq : σ.events.capacity = 10000
  length_le : σ.events.events.length ≤ 10000

theorem crowd_fresh (env : Env) : Crowd 0 (.fresh env) where
  late _ _ h := absurd h (Option.some_ne_none _).symm
  size_eq := rfl
  newcomer _ _ := rfl
  capacity_eq := rfl
  length_le := Nat.zero_le _

/-- There is room for another one. -/
theorem Crowd.admits {n : ℕ} (h : Crowd n σ) (hn : n < 100000) :
    σ.Admits .standard (latecomer (n + 1)) where
  valid := by
    simp [PrefillRequest.validate, latecomer, Run.plainRequest, StrongId.isNil]
    decide
  new := by
    by_contra hc
    obtain ⟨s, hs⟩ := Option.ne_none_iff_exists'.mp hc
    have hle := (h.late _ s hs).2.2
    exact absurd hle (Nat.not_succ_le_self n)
  room := h.size_eq.symm ▸ hn
  outstanding := by
    have htenant := h.newcomer (latecomer (n + 1)).tenantId (Nat.lt_succ_self n)
    rw [htenant]
    decide
  admittedTokens := by
    have htenant := h.newcomer (latecomer (n + 1)).tenantId (Nat.lt_succ_self n)
    rw [htenant]
    exact (by decide : (0 : UInt64) + .ofNat 1 ≤ 17179869184)

theorem Crowd.submit {n : ℕ} (h : Crowd n σ) (hn : n < 100000) :
    Crowd (n + 1) (σ.submitWithTokens .standard 0 (latecomer (n + 1)) [0]).1 := by
  have hadmits := h.admits hn
  rcases σ.submitWithTokens_cases .standard 0 (latecomer (n + 1)) [0] with
    ⟨-, hnot, -⟩ | ⟨-, -, heq⟩
  · exact absurd ⟨hadmits, rfl⟩ hnot
  have hsome : (latecomer (n + 1)).remainingPrefillTokens ≠ 0 := by
    simp [latecomer, Run.plainRequest, PrefillRequest.remainingPrefillTokens]
  rw [heq, admitRequest_eq, if_neg hsome]
  constructor
  · intro r s hs
    change (σ.requests.insert _ _).lookup r = some s at hs
    rw [AList.lookup_insert_eq_ite] at hs
    split_ifs at hs with hr
    · obtain rfl := Option.some.inj hs
      exact ⟨rfl, hr.symm, hr ▸ le_rfl⟩
    · obtain ⟨hlate, hid, hle⟩ := h.late r s hs
      exact ⟨hlate, hid, hle.trans (Nat.le_succ n)⟩
  · have hsize := AList.total_insert (fun _ _ => 1) σ.requests (latecomer (n + 1)).requestId
      (admittedRecord .standard 0 (latecomer (n + 1)) ⟨σ.nextAttemptValue⟩)
    rw [AList.total_one, AList.total_one, hadmits.new, h.size_eq] at hsize
    exact hsize
  · intro t ht
    have hne : t ≠ (latecomer (n + 1)).tenantId := fun heq => by
      rw [heq] at ht
      exact absurd ht (lt_irrefl (n + 1))
    change ((σ.tenants.insert _ _).insert _ _).lookup t = none
    rw [AList.lookup_insert_ne hne, AList.lookup_insert_ne hne]
    exact h.newcomer t (by omega)
  · exact h.capacity_eq
  · have hlength := σ.events.length_record_le
      ⟨0, "submit", (latecomer (n + 1)).requestId, ⟨σ.nextAttemptValue⟩, "queued"⟩
      (h.capacity_eq.symm ▸ h.length_le)
    rwa [h.capacity_eq] at hlength

theorem crowd_crowdCalls {n : ℕ} (hn : n ≤ 100000) (k : ℕ) (hk : k ≤ n) :
    Crowd k ((Run.fresh .standard (crowdCalls n)).stateAt k) := by
  induction k with
  | zero => exact crowd_fresh _
  | succ k ih =>
    have hcall : (crowdCalls n)[k]? = some ⟨0, .submitWithTokens (latecomer (k + 1)) [0]⟩ := by
      rw [crowdCalls, List.getElem?_map, List.getElem?_range hk]
      rfl
    change Crowd (k + 1) ((scheduler .standard).stateAt (crowdCalls n) (k + 1))
    rw [Machine.stateAt_succ hcall]
    exact (ih (by omega)).submit (by omega)

/-- Every one of them is recorded, under its own identity. -/
theorem Crowd.expiryEvents_eq {n : ℕ} (h : Crowd n σ) : ∃ f : RequestId → Event,
    (∀ r ∈ σ.requests.keys, (f r).requestId = r) ∧
      σ.expiryEvents 1 = σ.requests.keys.map f := by
  refine ⟨fun r => ⟨1, "expire", r, ((σ.requests.lookup r).getD {}).attempt, "deadline"⟩,
    fun _ _ => rfl, ?_⟩
  rw [expiryEvents, ← List.filterMap_eq_map]
  refine List.filterMap_congr fun r hr => ?_
  obtain ⟨s, hs⟩ := AList.mem_keys_iff_lookup.mp hr
  obtain ⟨hlate, hid, -⟩ := h.late r s hs
  simp [expiryEvent, hs, hlate, hid]

/-- **One too many for the log.** What is retained of the sweep depends on who comes first. -/
theorem Crowd.not_perm (h : Crowd 10001 σ) (hcmp : Comparable env σ) :
    ¬(same.cycle env 1 σ).1.events.events.Perm (backwards.cycle env 1 σ).1.events.events := by
  have hbackwards : (backwards.visit σ).expiryEvents 1 = (σ.expiryEvents 1).reverse := by
    have hevent : (backwards.visit σ).expiryEvent 1 = σ.expiryEvent 1 :=
      backwards.expiryEvent_visit 1 σ
    have hkeys : (backwards.visit σ).requests.keys = σ.requests.keys.reverse :=
      List.map_reverse
    rw [expiryEvents, expiryEvents, hevent, hkeys, List.filterMap_reverse]
  obtain ⟨halike, -⟩ := alike_cycle same backwards hcmp 1
  obtain ⟨f, hf, hevents⟩ := h.expiryEvents_eq
  have hlength : (σ.expiryEvents 1).length = 10001 := by
    rw [hevents, List.length_map]
    exact h.size_eq
  have hnodup : (σ.expiryEvents 1).Nodup := by
    rw [hevents]
    refine σ.requests.keys_nodup.map_on fun r hr r' hr' heq => ?_
    rw [← hf r hr, heq, hf r' hr']
  rw [halike.events_left, halike.events_right, hbackwards]
  change ¬(((σ.expiryEvents 1).foldl EventLog.record σ.events).events).Perm _
  rw [EventLog.events_foldl_record_of_succ (h.capacity_eq.symm ▸ h.length_le)
      (by rw [hlength, h.capacity_eq]),
    EventLog.events_foldl_record_of_succ (h.capacity_eq.symm ▸ h.length_le)
      (by rw [List.length_reverse, hlength, h.capacity_eq])]
  generalize σ.expiryEvents 1 = es at hlength hnodup
  rcases es with _ | ⟨e, es⟩
  · exact absurd hlength (by decide)
  -- the first event is the one that is lost, and the last one of all if the order is reversed
  obtain ⟨hnot, -⟩ := List.nodup_cons.mp hnodup
  have hne : es.reverse ≠ [] := by
    intro hnil
    rw [List.reverse_eq_nil_iff.mp hnil, List.length_singleton] at hlength
    exact absurd hlength (by decide)
  rw [List.tail_cons, List.reverse_cons, List.tail_append_of_ne_nil hne]
  exact fun hperm => hnot (hperm.mem_iff.mpr (List.mem_append_right _ (List.mem_singleton_self e)))

/-- Ten thousand and one requests expire at once: the log loses the event of the first one, and
that is another one if the tables are in another order. -/
theorem not_perm_crowdCalls :
    let σ := (Run.fresh .standard (crowdCalls 10001)).stateAt 10001
    ¬(σ.runCycle .standard 1).1.events.events.Perm
      (backwards.cycle .standard 1 σ).1.events.events := by
  have hcmp : Comparable .standard ((Run.fresh .standard (crowdCalls 10001)).stateAt 10001) :=
    (Run.unserved .standard (crowdCalls 10001) 10001).comparable (by decide +kernel)
  have hnot := (crowd_crowdCalls (by omega) 10001 le_rfl).not_perm hcmp
  rw [cycle_same] at hnot
  exact hnot

end Iteration

end PrefillFabric
