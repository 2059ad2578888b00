import PrefillFabric.Lib.Machine
import PrefillFabric.Memory

/-!
# The governor in machine words

`PrefillFabric.Memory` counts bytes with natural numbers, which is all the scheduler needs.
The governor as it is compiled counts with 64-bit words: its sums wrap, and its differences
do unless they are guarded. `WordGovernor` is that governor, with the calls that can be made
to it, and `WordGovernor.toGovernor` reads its words as numbers.

Reading the words as numbers turns every operation on words into the operation on numbers
(`WordGovernor.toGovernor_step`), whatever state the governor is in: the budget is checked
before the one sum is taken, and the differences are guarded. So what the operations on
numbers keep is kept along every run, and no sum on the way has wrapped
(`GovernorRun.accounts_exact`).
-/

namespace PrefillFabric

/-- One reservation. -/
structure WordRecord where
  id : ReservationId
  requestId : RequestId
  bytes : UInt64
  kind : ReservationKind
  active : Bool

/-- The memory governor, in words. -/
structure WordGovernor where
  maxBytes : UInt64
  headroom : UInt64
  reserved : UInt64 := 0
  doubleReleases : ℕ := 0
  underflowHappened : Bool := false
  records : Table ReservationId WordRecord := ∅

/-- What a governor can be asked to do. -/
inductive GovernorCall
  | reserve (id : ReservationId) (req : RequestId) (bytes : UInt64) (kind : ReservationKind)
  | transition (id : ReservationId) (kind : ReservationKind)
  | release (id : ReservationId)
  | setCapacity (bytes : UInt64)

namespace WordGovernor

variable (w : WordGovernor)

/-- Bytes that may be reserved. -/
def budget : UInt64 := if w.headroom < w.maxBytes then w.maxBytes - w.headroom else 0

/-- Bytes that may still be reserved. -/
def availableBytes : UInt64 := if w.budget < w.reserved then 0 else w.budget - w.reserved

/-- Whether that many bytes may still be reserved. -/
def canReserve (bytes : UInt64) : Bool :=
  if w.budget < w.reserved then false else decide (bytes ≤ w.budget - w.reserved)

/-- Whether a reservation is active. -/
def isActive (id : ReservationId) : Bool := (w.records.lookup id).any (·.active)

/-- Reserve bytes for a request. -/
def reserve (id : ReservationId) (req : RequestId) (bytes : UInt64) (kind : ReservationKind) :
    WordGovernor × Result Unit :=
  if w.isActive id then (w, .error ⟨.duplicateRequest, "reservation id already active"⟩)
  else if bytes = 0 then
    ({ w with records := w.records.insert id ⟨id, req, 0, kind, true⟩ }, .ok ())
  else if w.budget < w.reserved ∨ w.budget - w.reserved < bytes then
    (w, .error ⟨.memoryUnavailable, "insufficient memory budget"⟩)
  else
    -- the one sum of the governor: it would wrap past `2 ^ 64`
    ({ w with
        reserved := w.reserved + bytes
        records := w.records.insert id ⟨id, req, bytes, kind, true⟩ }, .ok ())

/-- Move a reservation to another stage of the pipeline. -/
def transition (id : ReservationId) (kind : ReservationKind) : WordGovernor × Result Unit :=
  match w.records.lookup id with
  | none => (w, .error ⟨.illegalState, "reservation not active"⟩)
  | some rec =>
    if rec.active then ({ w with records := w.records.insert id { rec with kind } }, .ok ())
    else (w, .error ⟨.illegalState, "reservation not active"⟩)

/-- Take bytes off the running total, with the guard against underflow. -/
def giveBack (bytes : UInt64) : WordGovernor :=
  if 0 < bytes then
    if w.reserved < bytes then { w with underflowHappened := true, reserved := 0 }
    else { w with reserved := w.reserved - bytes }
  else w

/-- Release a reservation. -/
def release (id : ReservationId) : WordGovernor :=
  match w.records.lookup id with
  | none => { w with doubleReleases := w.doubleReleases + 1 }
  | some rec =>
    if rec.active then
      { w.giveBack rec.bytes with
        records := w.records.insert id { rec with active := false, bytes := 0 } }
    else { w with doubleReleases := w.doubleReleases + 1 }

/-- Change the capacity. -/
def setCapacity (bytes : UInt64) : WordGovernor :=
  { w with maxBytes := if bytes < w.headroom then w.headroom else bytes }

/-- One call. -/
def step : GovernorCall → WordGovernor × Result Unit
  | .reserve id req bytes kind => w.reserve id req bytes kind
  | .transition id kind => w.transition id kind
  | .release id => (w.release id, .ok ())
  | .setCapacity bytes => (w.setCapacity bytes, .ok ())

end WordGovernor

/-! ### Words as numbers -/

/-- The record, its bytes a number. -/
def WordRecord.toRecord (rec : WordRecord) : ReservationRecord :=
  ⟨rec.id, rec.requestId, rec.bytes.toNat, rec.kind, rec.active⟩

/-- The governor, its words numbers. -/
def WordGovernor.toGovernor (w : WordGovernor) : MemoryGovernor where
  maxBytes := w.maxBytes.toNat
  headroom := w.headroom.toNat
  reserved := w.reserved.toNat
  doubleReleases := w.doubleReleases
  underflowHappened := w.underflowHappened
  records := AList.mapValues WordRecord.toRecord w.records

/-- One call to a governor of numbers. -/
def MemoryGovernor.step (g : MemoryGovernor) : GovernorCall → MemoryGovernor × Result Unit
  | .reserve id req bytes kind => g.reserve id req bytes.toNat kind
  | .transition id kind => g.transition id kind
  | .release id => (g.release id, .ok ())
  | .setCapacity bytes => (g.setCapacity bytes.toNat, .ok ())

namespace WordGovernor

variable {w : WordGovernor} {id : ReservationId} {req : RequestId} {bytes : UInt64}
  {kind : ReservationKind}

theorem toNat_budget (w : WordGovernor) : w.budget.toNat = w.toGovernor.budget := by
  rw [budget]
  change _ = w.maxBytes.toNat - w.headroom.toNat
  split_ifs with h
  · exact UInt64.toNat_sub_of_le _ _ (UInt64.le_of_lt h)
  · have := UInt64.le_iff_toNat_le.mp (UInt64.not_lt.mp h)
    rw [UInt64.toNat_zero]
    omega

theorem budget_lt_reserved_iff :
    w.budget < w.reserved ↔ w.toGovernor.budget < w.toGovernor.reserved := by
  rw [UInt64.lt_iff_toNat_lt, toNat_budget]
  rfl

theorem toNat_budget_sub (h : ¬w.budget < w.reserved) :
    (w.budget - w.reserved).toNat = w.toGovernor.budget - w.toGovernor.reserved := by
  rw [UInt64.toNat_sub_of_le _ _ (UInt64.not_lt.mp h), toNat_budget]
  rfl

/-- **What is available** is what the budget is more than the reserved bytes, if it is. -/
theorem toNat_availableBytes (w : WordGovernor) :
    w.availableBytes.toNat = w.budget.toNat - w.reserved.toNat := by
  rw [availableBytes]
  split_ifs with h
  · have := UInt64.lt_iff_toNat_lt.mp h
    rw [UInt64.toNat_zero]
    omega
  · exact UInt64.toNat_sub_of_le _ _ (UInt64.not_lt.mp h)

theorem lookup_toGovernor (w : WordGovernor) (id : ReservationId) :
    w.toGovernor.records.lookup id = (w.records.lookup id).map WordRecord.toRecord :=
  AList.lookup_mapValues ..

theorem isActive_toGovernor (w : WordGovernor) (id : ReservationId) :
    w.toGovernor.isActive id = w.isActive id := by
  rw [MemoryGovernor.isActive, lookup_toGovernor, Option.any_map, isActive]
  rfl

/-- There is room in words exactly if there is in numbers. -/
theorem full_iff : (w.budget < w.reserved ∨ w.budget - w.reserved < bytes) ↔
    w.toGovernor.budget < w.toGovernor.reserved ∨
      w.toGovernor.budget - w.toGovernor.reserved < bytes.toNat := by
  by_cases h : w.budget < w.reserved
  · simp only [h, budget_lt_reserved_iff.mp h, true_or]
  · rw [← budget_lt_reserved_iff, UInt64.lt_iff_toNat_lt (a := w.budget - w.reserved),
      toNat_budget_sub h]

/-- **The sum does not wrap**: it is taken only where it stays within the budget. -/
theorem toNat_reserved_add (h : ¬(w.budget < w.reserved ∨ w.budget - w.reserved < bytes)) :
    (w.reserved + bytes).toNat = w.reserved.toNat + bytes.toNat := by
  obtain ⟨hle, hfits⟩ := not_or.mp h
  have hsub := UInt64.le_iff_toNat_le.mp (UInt64.not_lt.mp hfits)
  have hle' := UInt64.le_iff_toNat_le.mp (UInt64.not_lt.mp hle)
  rw [UInt64.toNat_sub_of_le _ _ (UInt64.not_lt.mp hle)] at hsub
  have hlt := UInt64.toNat_lt w.budget
  exact (UInt64.toNat_add ..).trans (Nat.mod_eq_of_lt (by omega))

theorem toGovernor_insert (w : WordGovernor) (id : ReservationId) (rec : WordRecord) :
    ({ w with records := w.records.insert id rec } : WordGovernor).toGovernor =
      { w.toGovernor with records := w.toGovernor.records.insert id rec.toRecord } := by
  unfold toGovernor
  rw [AList.mapValues_insert]

theorem toGovernor_reserve (w : WordGovernor) (id : ReservationId) (req : RequestId)
    (bytes : UInt64) (kind : ReservationKind) :
    ((w.reserve id req bytes kind).1.toGovernor, (w.reserve id req bytes kind).2) =
      w.toGovernor.reserve id req bytes.toNat kind := by
  have hzero_iff : bytes.toNat = 0 ↔ bytes = 0 := UInt64.toNat_inj (b := 0)
  rw [reserve, MemoryGovernor.reserve, isActive_toGovernor]
  by_cases hactive : w.isActive id = true
  · rw [if_pos hactive, if_pos hactive]
  rw [if_neg hactive, if_neg hactive]
  by_cases hzero : bytes = 0
  · rw [if_pos hzero, if_pos (hzero_iff.mpr hzero), toGovernor_insert]
    rfl
  rw [if_neg hzero, if_neg (hzero_iff.not.mpr hzero)]
  by_cases hfull : w.budget < w.reserved ∨ w.budget - w.reserved < bytes
  · rw [if_pos hfull, if_pos (full_iff.mp hfull)]
  · rw [if_neg hfull, if_neg (full_iff.not.mp hfull)]
    have hrecords := AList.mapValues_insert WordRecord.toRecord w.records id
      ⟨id, req, bytes, kind, true⟩
    unfold toGovernor
    rw [toNat_reserved_add hfull, hrecords]
    rfl

theorem toGovernor_transition (w : WordGovernor) (id : ReservationId) (kind : ReservationKind) :
    ((w.transition id kind).1.toGovernor, (w.transition id kind).2) =
      w.toGovernor.transition id kind := by
  rw [transition, MemoryGovernor.transition, lookup_toGovernor]
  cases w.records.lookup id with
  | none => rfl
  | some rec =>
    cases hact : rec.active with
    | false => simp [WordRecord.toRecord, hact]
    | true => simp [WordRecord.toRecord, hact, toGovernor_insert]

theorem toGovernor_giveBack (w : WordGovernor) (bytes : UInt64) :
    (w.giveBack bytes).toGovernor = w.toGovernor.giveBack bytes.toNat := by
  have hpos : 0 < bytes ↔ 0 < bytes.toNat := UInt64.lt_iff_toNat_lt
  have hlt : w.reserved < bytes ↔ w.toGovernor.reserved < bytes.toNat := UInt64.lt_iff_toNat_lt
  rw [giveBack, MemoryGovernor.giveBack]
  simp only [← hpos, ← hlt]
  split_ifs with h h'
  · rfl
  · unfold toGovernor
    rw [UInt64.toNat_sub_of_le _ _ (UInt64.not_lt.mp h')]
  · rfl

theorem toGovernor_release (w : WordGovernor) (id : ReservationId) :
    (w.release id).toGovernor = w.toGovernor.release id := by
  rw [release, MemoryGovernor.release, lookup_toGovernor]
  cases w.records.lookup id with
  | none => rfl
  | some rec =>
    cases hact : rec.active with
    | false => simp only [Option.map_some, WordRecord.toRecord, hact]; rfl
    | true =>
      simp only [Option.map_some, WordRecord.toRecord, hact, if_true, ← toGovernor_giveBack]
      unfold toGovernor
      rw [AList.mapValues_insert]
      rfl

theorem toGovernor_setCapacity (w : WordGovernor) (bytes : UInt64) :
    (w.setCapacity bytes).toGovernor = w.toGovernor.setCapacity bytes.toNat := by
  have hmax : (if bytes < w.headroom then w.headroom else bytes).toNat =
      max bytes.toNat w.headroom.toNat := by
    split_ifs with h
    · exact (max_eq_right (UInt64.lt_iff_toNat_lt.mp h).le).symm
    · exact (max_eq_left (UInt64.le_iff_toNat_le.mp (UInt64.not_lt.mp h))).symm
  unfold toGovernor setCapacity
  rw [hmax]
  rfl

/-- **Words compute what numbers do**, in every state and for every call. -/
theorem toGovernor_step (w : WordGovernor) (c : GovernorCall) :
    ((w.step c).1.toGovernor, (w.step c).2) = w.toGovernor.step c := by
  cases c with
  | reserve id req bytes kind => exact w.toGovernor_reserve id req bytes kind
  | transition id kind => exact w.toGovernor_transition id kind
  | release id => exact Prod.ext (w.toGovernor_release id) rfl
  | setCapacity bytes => exact Prod.ext (w.toGovernor_setCapacity bytes) rfl

/-! ### Calls that change nothing -/

theorem release_of_not_active (h : w.isActive id = false) :
    (w.release id).reserved = w.reserved ∧ (w.release id).records = w.records := by
  rw [isActive] at h
  rw [release]
  cases hrec : w.records.lookup id with
  | none => exact ⟨rfl, rfl⟩
  | some rec =>
    rw [hrec] at h
    simp only [if_neg (Bool.eq_false_iff.mp (show rec.active = false from h)), and_self]

theorem reserve_of_not_ok (h : isOk (w.reserve id req bytes kind).2 = false) :
    (w.reserve id req bytes kind).1 = w := by
  rw [reserve] at h ⊢
  split_ifs at h ⊢
  · rfl
  · exact Bool.noConfusion h
  · rfl
  · exact Bool.noConfusion h

theorem transition_of_not_ok (h : isOk (w.transition id kind).2 = false) :
    (w.transition id kind).1 = w := by
  rw [transition] at h ⊢
  cases hrec : w.records.lookup id with
  | none => rfl
  | some rec =>
    rw [hrec] at h
    dsimp only at h ⊢
    split_ifs at h ⊢
    · exact Bool.noConfusion h
    · rfl

/-- **What can be reserved**: an identity that is not active takes any bytes that are
available, and takes none even where the budget is exceeded. -/
theorem isOk_reserve_eq (w : WordGovernor) (id : ReservationId) (req : RequestId) (bytes : UInt64)
    (kind : ReservationKind) : isOk (w.reserve id req bytes kind).2 =
      (!w.isActive id && (bytes == 0 || w.canReserve bytes)) := by
  rw [reserve, canReserve]
  by_cases hactive : w.isActive id = true
  · simp [hactive, isOk]
  by_cases hzero : bytes = 0
  · simp [hactive, hzero, isOk]
  by_cases hover : w.budget < w.reserved
  · simp [hactive, hzero, hover, isOk]
  by_cases hfits : w.budget - w.reserved < bytes
  · simp [hactive, hzero, hover, hfits, isOk]
  · simp [hactive, hzero, hover, hfits, isOk, UInt64.not_lt.mp hfits]

end WordGovernor

/-! ### Runs of a governor -/

/-- One call keeps the total exact. -/
theorem MemoryGovernor.Exact.step {g : MemoryGovernor} (hg : g.Exact) (c : GovernorCall) :
    (g.step c).1.Exact := by
  cases c with
  | reserve => exact hg.reserve
  | transition => exact hg.transition
  | release id => exact hg.release id
  | setCapacity bytes => exact hg.setCapacity bytes.toNat

/-- One call keeps the total within the budget, unless it sets the budget below it. -/
theorem MemoryGovernor.Exact.reserved_step_le {g : MemoryGovernor} (hg : g.Exact)
    {c : GovernorCall} (hle : g.reserved ≤ g.budget)
    (hset : ∀ bytes, c = .setCapacity bytes → g.reserved ≤ (g.step c).1.budget) :
    (g.step c).1.reserved ≤ (g.step c).1.budget := by
  cases c with
  | reserve => exact reserved_reserve_le hle
  | transition id kind =>
    change (g.transition id kind).1.reserved ≤ (g.transition id kind).1.budget
    rcases transition_cases g id kind with ⟨hsame, -⟩ | ⟨rec, -, heq⟩
    · rwa [hsame]
    · rw [heq]
      exact hle
  | release id =>
    change (g.release id).reserved ≤ (g.release id).budget
    rw [budget_release]
    exact (hg.reserved_release_le id).trans hle
  | setCapacity bytes => exact hset bytes rfl

/-- A governor, and the calls made to it from its construction on. -/
structure GovernorRun where
  maxBytes : UInt64
  headroom : UInt64
  calls : List GovernorCall

namespace GovernorRun

variable {ρ : GovernorRun} {n : ℕ}

/-- The governor in words, as a machine. -/
def machine (ρ : GovernorRun) : Machine WordGovernor GovernorCall (Result Unit) where
  init := { maxBytes := ρ.maxBytes, headroom := ρ.headroom }
  step := WordGovernor.step

/-- The governor before call number `n`. -/
def stateAt (ρ : GovernorRun) (n : ℕ) : WordGovernor := ρ.machine.stateAt ρ.calls n

theorem stateAt_succ {c : GovernorCall} (h : ρ.calls[n]? = some c) :
    (ρ.stateAt (n + 1)).toGovernor = ((ρ.stateAt n).toGovernor.step c).1 := by
  rw [← WordGovernor.toGovernor_step]
  exact congrArg WordGovernor.toGovernor (Machine.stateAt_succ h)

/-- **The total is exact throughout.** -/
theorem exact_stateAt (ρ : GovernorRun) (n : ℕ) : (ρ.stateAt n).toGovernor.Exact := by
  refine Machine.invariant (M := ρ.machine) (P := fun w => w.toGovernor.Exact) ⟨rfl, rfl⟩
    (fun w c hw => ?_) n
  have hstep := hw.step c
  rwa [← w.toGovernor_step c] at hstep

/-- **The total stays within the budget** as long as the budget is not set below it. -/
theorem reserved_le_budget (hset : ∀ k bytes, k < n → ρ.calls[k]? = some (.setCapacity bytes) →
    (ρ.stateAt k).reserved ≤ (ρ.stateAt (k + 1)).budget) :
    (ρ.stateAt n).toGovernor.reserved ≤ (ρ.stateAt n).toGovernor.budget := by
  induction n with
  | zero => exact Nat.zero_le _
  | succ n ih =>
    have hle := ih fun k bytes hk => hset k bytes (by omega)
    cases hc : ρ.calls[n]? with
    | none =>
      rwa [show ρ.stateAt (n + 1) = ρ.stateAt n from Machine.stateAt_succ_of_none hc]
    | some c =>
      rw [stateAt_succ hc]
      refine (ρ.exact_stateAt n).reserved_step_le hle fun bytes hcall => ?_
      have hbudget := hset n bytes (Nat.lt_succ_self n) (hcall ▸ hc)
      rw [UInt64.le_iff_toNat_le, WordGovernor.toNat_budget, stateAt_succ hc] at hbudget
      exact hbudget

/-- **The accounts of a governor are exact** throughout every run. The reserved bytes are the
sum over the active records, as numbers, so that no sum has wrapped; the guard against
underflow has not fired; releasing what is not active changes neither the total nor the
records; a reservation or a transition that fails changes nothing; what is available is the
truncated difference of budget and total; and the total is within the budget, as long as no
call has set the budget below it. -/
theorem accounts_exact (ρ : GovernorRun) (n : ℕ) :
    (ρ.stateAt n).reserved.toNat =
        AList.total (fun _ rec => if rec.active then rec.bytes.toNat else 0)
          (ρ.stateAt n).records ∧
      (ρ.stateAt n).underflowHappened = false ∧
      (∀ id, (ρ.stateAt n).isActive id = false →
        ((ρ.stateAt n).release id).reserved = (ρ.stateAt n).reserved ∧
          ((ρ.stateAt n).release id).records = (ρ.stateAt n).records) ∧
      (∀ id req bytes kind, isOk ((ρ.stateAt n).reserve id req bytes kind).2 = false →
        ((ρ.stateAt n).reserve id req bytes kind).1 = ρ.stateAt n) ∧
      (∀ id kind, isOk ((ρ.stateAt n).transition id kind).2 = false →
        ((ρ.stateAt n).transition id kind).1 = ρ.stateAt n) ∧
      (ρ.stateAt n).availableBytes.toNat =
        (ρ.stateAt n).budget.toNat - (ρ.stateAt n).reserved.toNat ∧
      ((∀ k bytes, k < n → ρ.calls[k]? = some (.setCapacity bytes) →
          (ρ.stateAt k).reserved ≤ (ρ.stateAt (k + 1)).budget) →
        (ρ.stateAt n).reserved ≤ (ρ.stateAt n).budget) := by
  have hexact := ρ.exact_stateAt n
  refine ⟨?_, hexact.underflowHappened_eq, fun id => WordGovernor.release_of_not_active,
    fun _ _ _ _ => WordGovernor.reserve_of_not_ok, fun _ _ => WordGovernor.transition_of_not_ok,
    WordGovernor.toNat_availableBytes _, fun hset => ?_⟩
  · exact hexact.reserved_eq.trans (AList.total_mapValues ..)
  · rw [UInt64.le_iff_toNat_le, WordGovernor.toNat_budget]
    exact reserved_le_budget hset

end GovernorRun

end PrefillFabric
