import PrefillFabric.Types

/-!
# The memory governor

The governor keeps one record per reservation it was ever asked for and a running
total of the bytes reserved. `MemoryGovernor.held` is what its records say: which
reservations are active, for whom and for how many bytes.

There are two invariants. `MemoryGovernor.Exact` says that the running total is the
sum over the active records and that the underflow guard has not fired; every
operation keeps it, whatever its arguments. `MemoryGovernor.Sound` says that, moreover,
the total is within the budget and no reservation was released twice; reserving keeps
it (`Sound.reserve`), and so does releasing a reservation that is held
(`Sound.release`).
-/

namespace PrefillFabric

/-- One reservation. -/
structure ReservationRecord where
  id : ReservationId
  requestId : RequestId
  bytes : ℕ
  kind : ReservationKind
  active : Bool

/-- The memory governor. -/
structure MemoryGovernor where
  maxBytes : ℕ
  headroom : ℕ
  reserved : ℕ := 0
  doubleReleases : ℕ := 0
  /-- The bit of the diagnostic flags that records an underflow. -/
  underflowHappened : Bool := false
  records : Table ReservationId ReservationRecord := ∅

namespace MemoryGovernor

/-- Bytes that may be reserved: the capacity without the headroom. -/
def budget (g : MemoryGovernor) : ℕ := g.maxBytes - g.headroom

/-- Whether a reservation is active. -/
def isActive (g : MemoryGovernor) (id : ReservationId) : Bool :=
  (g.records.lookup id).any (·.active)

/-- Reserve bytes for a request. -/
def reserve (g : MemoryGovernor) (id : ReservationId) (req : RequestId) (bytes : ℕ)
    (kind : ReservationKind) : MemoryGovernor × Result Unit :=
  if g.isActive id then (g, .error ⟨.duplicateRequest, "reservation id already active"⟩)
  else if bytes = 0 then
    -- legal, and tracked, but nothing is consumed
    ({ g with records := g.records.insert id ⟨id, req, 0, kind, true⟩ }, .ok ())
  else if g.budget < g.reserved ∨ g.budget - g.reserved < bytes then
    (g, .error ⟨.memoryUnavailable, "insufficient memory budget"⟩)
  else
    ({ g with
        reserved := g.reserved + bytes
        records := g.records.insert id ⟨id, req, bytes, kind, true⟩ }, .ok ())

/-- Take bytes off the running total, with the guard against underflow. -/
def giveBack (g : MemoryGovernor) (bytes : ℕ) : MemoryGovernor :=
  if 0 < bytes then
    if g.reserved < bytes then { g with underflowHappened := true, reserved := 0 }
    else { g with reserved := g.reserved - bytes }
  else g

/-- Release a reservation; releasing one that is not active only counts the
attempt. -/
def release (g : MemoryGovernor) (id : ReservationId) : MemoryGovernor :=
  match g.records.lookup id with
  | none => { g with doubleReleases := g.doubleReleases + 1 }
  | some rec =>
    if rec.active then
      { g.giveBack rec.bytes with
        records := g.records.insert id { rec with active := false, bytes := 0 } }
    else { g with doubleReleases := g.doubleReleases + 1 }

/-- Move a reservation to another stage of the pipeline. -/
def transition (g : MemoryGovernor) (id : ReservationId) (kind : ReservationKind) :
    MemoryGovernor × Result Unit :=
  match g.records.lookup id with
  | none => (g, .error ⟨.illegalState, "reservation not active"⟩)
  | some rec =>
    if rec.active then ({ g with records := g.records.insert id { rec with kind } }, .ok ())
    else (g, .error ⟨.illegalState, "reservation not active"⟩)

/-- Change the capacity, which is never less than the headroom. -/
def setCapacity (g : MemoryGovernor) (bytes : ℕ) : MemoryGovernor :=
  { g with maxBytes := max bytes g.headroom }

/-! ### What is held -/

/-- The holder and the size of an active reservation. -/
def held (g : MemoryGovernor) (id : ReservationId) : Option (RequestId × ℕ) :=
  (g.records.lookup id).bind fun rec =>
    if rec.active then some (rec.requestId, rec.bytes) else none

theorem isActive_eq_isSome_held (g : MemoryGovernor) (id : ReservationId) :
    g.isActive id = (g.held id).isSome := by
  rw [isActive, held]
  cases g.records.lookup id with
  | none => rfl
  | some rec => cases h : rec.active <;> simp [h]

/-- The bytes a record accounts for. -/
def activeBytes (_ : ReservationId) (rec : ReservationRecord) : ℕ :=
  if rec.active then rec.bytes else 0

theorem elim_activeBytes (g : MemoryGovernor) (id : ReservationId) :
    (g.records.lookup id).elim 0 (activeBytes id) = (g.held id).elim 0 (·.2) := by
  rw [held]
  cases g.records.lookup id with
  | none => rfl
  | some rec => cases h : rec.active <;> simp [activeBytes, h]

/-- **The total is exact**, and was never found to be too small. -/
structure Exact (g : MemoryGovernor) : Prop where
  reserved_eq : g.reserved = AList.total activeBytes g.records
  underflowHappened_eq : g.underflowHappened = false

/-- **The books are straight.** -/
structure Sound (g : MemoryGovernor) : Prop where
  reserved_eq : g.reserved = AList.total activeBytes g.records
  reserved_le : g.reserved ≤ g.budget
  doubleReleases_eq : g.doubleReleases = 0
  underflowHappened_eq : g.underflowHappened = false

theorem Sound.exact {g : MemoryGovernor} (h : g.Sound) : g.Exact :=
  ⟨h.reserved_eq, h.underflowHappened_eq⟩

/-- Where nothing is held nothing is reserved. -/
theorem Sound.reserved_eq_zero {g : MemoryGovernor} (h : g.Sound) (hnone : ∀ id, g.held id = none) :
    g.reserved = 0 := by
  rw [h.reserved_eq, AList.total]
  refine List.sum_eq_zero fun n hn => ?_
  obtain ⟨⟨id, rec⟩, he, rfl⟩ := List.mem_map.mp hn
  have hbytes := g.elim_activeBytes id
  rwa [AList.mem_lookup_iff.mpr he, hnone id, Option.elim_some, Option.elim_none] at hbytes

/-! ### Reserving -/

variable {g : MemoryGovernor} {id : ReservationId} {req : RequestId} {bytes : ℕ}
  {kind : ReservationKind}

/-- A reservation either fails and changes nothing, or takes an id that is free,
within the budget. -/
theorem reserve_cases (g : MemoryGovernor) (id : ReservationId) (req : RequestId) (bytes : ℕ)
    (kind : ReservationKind) :
    ((g.reserve id req bytes kind).1 = g ∧ isOk (g.reserve id req bytes kind).2 = false) ∨
    (g.held id = none ∧ (bytes = 0 ∨ g.reserved + bytes ≤ g.budget) ∧
      g.reserve id req bytes kind = ({ g with
        reserved := g.reserved + bytes
        records := g.records.insert id ⟨id, req, bytes, kind, true⟩ }, .ok ())) := by
  rw [reserve]
  split_ifs with hactive hzero hfull
  · exact Or.inl ⟨rfl, rfl⟩
  · refine Or.inr ⟨?_, Or.inl hzero, ?_⟩
    · simpa [isActive_eq_isSome_held] using hactive
    · subst hzero
      rfl
  · exact Or.inl ⟨rfl, rfl⟩
  · refine Or.inr ⟨?_, Or.inr (by omega), rfl⟩
    simpa [isActive_eq_isSome_held] using hactive

/-- There is room for that many more bytes; there always is for none. -/
def Affords (g : MemoryGovernor) (bytes : ℕ) : Prop :=
  bytes = 0 ∨ g.reserved + bytes ≤ g.budget

/-- A reservation succeeds under an identity that is not in use, if there is room for it. -/
theorem isOk_reserve_iff :
    isOk (g.reserve id req bytes kind).2 = true ↔ g.held id = none ∧ g.Affords bytes := by
  rw [reserve, isActive_eq_isSome_held, Affords]
  cases g.held id with
  | some p => simp [isOk]
  | none =>
    rw [Option.isSome_none, if_neg Bool.false_ne_true]
    split_ifs with hzero hfull
    · simp [isOk, hzero]
    · simp only [isOk, Bool.false_eq_true, true_and, false_iff]
      omega
    · simp only [isOk, true_and, true_iff]
      omega

theorem held_reserve_of_ok (h : isOk (g.reserve id req bytes kind).2 = true) (k : ReservationId) :
    (g.reserve id req bytes kind).1.held k = if k = id then some (req, bytes) else g.held k := by
  rcases reserve_cases g id req bytes kind with ⟨-, hno⟩ | ⟨-, -, heq⟩
  · rw [hno] at h
    exact absurd h (by decide)
  · rw [heq, held, AList.lookup_insert_eq_ite]
    by_cases hk : k = id
    · rw [if_pos hk, if_pos hk]
      rfl
    · rw [if_neg hk, if_neg hk]
      rfl

theorem reserve_of_not_ok (h : isOk (g.reserve id req bytes kind).2 = false) :
    (g.reserve id req bytes kind).1 = g := by
  rcases reserve_cases g id req bytes kind with ⟨hsame, -⟩ | ⟨-, -, heq⟩
  · exact hsame
  · rw [heq] at h
    exact absurd h Bool.noConfusion

theorem Exact.reserve (hg : g.Exact) : (g.reserve id req bytes kind).1.Exact := by
  rcases reserve_cases g id req bytes kind with ⟨hsame, -⟩ | ⟨hfree, -, heq⟩
  · rw [hsame]
    exact hg
  · have htotal := AList.total_insert activeBytes g.records id ⟨id, req, bytes, kind, true⟩
    rw [elim_activeBytes, hfree, Option.elim_none] at htotal
    have hweight : activeBytes id ⟨id, req, bytes, kind, true⟩ = bytes := rfl
    have hsum := hg.reserved_eq
    rw [heq]
    refine ⟨?_, hg.underflowHappened_eq⟩
    change g.reserved + bytes = AList.total activeBytes (g.records.insert id _)
    omega

theorem reserved_reserve_le (hle : g.reserved ≤ g.budget) :
    (g.reserve id req bytes kind).1.reserved ≤ (g.reserve id req bytes kind).1.budget := by
  rcases reserve_cases g id req bytes kind with ⟨hsame, -⟩ | ⟨-, hfits, heq⟩
  · rwa [hsame]
  · rw [heq]
    change g.reserved + bytes ≤ g.budget
    omega

theorem doubleReleases_reserve :
    (g.reserve id req bytes kind).1.doubleReleases = g.doubleReleases := by
  rcases reserve_cases g id req bytes kind with ⟨hsame, -⟩ | ⟨-, -, heq⟩
  · rw [hsame]
  · rw [heq]

theorem Sound.reserve (hg : g.Sound) : (g.reserve id req bytes kind).1.Sound :=
  ⟨hg.exact.reserve.reserved_eq, reserved_reserve_le hg.reserved_le,
    doubleReleases_reserve.trans hg.doubleReleases_eq, hg.exact.reserve.underflowHappened_eq⟩

/-! ### Releasing -/

theorem held_release (g : MemoryGovernor) (id k : ReservationId) :
    (g.release id).held k = if k = id then none else g.held k := by
  by_cases hk : k = id
  · rw [if_pos hk, hk]
    cases hrec : g.records.lookup id with
    | none => simp [release, held, hrec]
    | some rec => cases hact : rec.active <;> simp [release, held, hrec, hact]
  · rw [if_neg hk]
    cases hrec : g.records.lookup id with
    | none => simp [release, held, hrec]
    | some rec =>
      cases hact : rec.active <;> simp [release, held, hrec, hact, AList.lookup_insert_ne hk]

theorem giveBack_of_le {n : ℕ} (h : n ≤ g.reserved) :
    g.giveBack n = { g with reserved := g.reserved - n } := by
  rw [giveBack]
  split_ifs with hpos hlt
  · omega
  · rfl
  · rw [Nat.eq_zero_of_not_pos hpos, Nat.sub_zero]

theorem budget_release (g : MemoryGovernor) (id : ReservationId) :
    (g.release id).budget = g.budget := by
  rw [release]
  cases g.records.lookup id with
  | none => rfl
  | some rec =>
    dsimp only
    split_ifs
    · rw [giveBack]
      split_ifs <;> rfl
    · rfl

/-- Releasing what is held gives back its bytes. -/
theorem reserved_release (hheld : g.held id = some (req, bytes)) (hle : bytes ≤ g.reserved) :
    (g.release id).reserved = g.reserved - bytes := by
  obtain ⟨rec, hrec, hsome⟩ := Option.bind_eq_some_iff.mp hheld
  split_ifs at hsome with hact
  obtain ⟨-, rfl⟩ := Prod.mk.inj (Option.some.inj hsome)
  simp only [release, hrec, if_pos hact, giveBack_of_le hle]

/-- A record accounts for no more than the total. -/
theorem Exact.bytes_le {rec : ReservationRecord} (hg : g.Exact)
    (hrec : g.records.lookup id = some rec) (hact : rec.active = true) :
    rec.bytes ≤ g.reserved := by
  have hle := AList.le_total (w := activeBytes) hrec
  rwa [activeBytes, if_pos hact, ← hg.reserved_eq] at hle

/-- Where the total is exact the guard does not fire. -/
theorem Exact.release_eq {rec : ReservationRecord} (hg : g.Exact)
    (hrec : g.records.lookup id = some rec) (hact : rec.active = true) :
    g.release id = { g with
      reserved := g.reserved - rec.bytes
      records := g.records.insert id { rec with active := false, bytes := 0 } } := by
  simp only [MemoryGovernor.release, hrec, if_pos hact, giveBack_of_le (hg.bytes_le hrec hact)]

/-- **Releasing what is not active** only counts the attempt. -/
theorem release_of_not_active (h : g.isActive id = false) :
    g.release id = { g with doubleReleases := g.doubleReleases + 1 } := by
  rw [isActive] at h
  rw [release]
  cases hrec : g.records.lookup id with
  | none => rfl
  | some rec =>
    rw [hrec] at h
    exact if_neg (Bool.eq_false_iff.mp h)

theorem exists_of_isActive (h : g.isActive id = true) :
    ∃ rec, g.records.lookup id = some rec ∧ rec.active = true :=
  (Option.any_eq_true _ _).mp h

theorem Exact.release (hg : g.Exact) (id : ReservationId) : (g.release id).Exact := by
  cases hactive : g.isActive id with
  | false =>
    rw [release_of_not_active hactive]
    exact ⟨hg.reserved_eq, hg.underflowHappened_eq⟩
  | true =>
    obtain ⟨rec, hrec, hact⟩ := exists_of_isActive hactive
    have htotal := AList.total_insert activeBytes g.records id
      { rec with active := false, bytes := 0 }
    rw [hrec, Option.elim_some] at htotal
    have hold : activeBytes id rec = rec.bytes := if_pos hact
    have hnew : activeBytes id { rec with active := false, bytes := 0 } = 0 := rfl
    have hsum := hg.reserved_eq
    rw [hg.release_eq hrec hact]
    refine ⟨?_, hg.underflowHappened_eq⟩
    change g.reserved - rec.bytes = AList.total activeBytes (g.records.insert id _)
    omega

theorem Exact.reserved_release_le (hg : g.Exact) (id : ReservationId) :
    (g.release id).reserved ≤ g.reserved := by
  cases hactive : g.isActive id with
  | false => rw [release_of_not_active hactive]
  | true =>
    obtain ⟨rec, hrec, hact⟩ := exists_of_isActive hactive
    rw [hg.release_eq hrec hact]
    exact Nat.sub_le ..

/-- Releasing what is held keeps the books straight. -/
theorem Sound.release (hg : g.Sound) (hheld : g.held id = some (req, bytes)) :
    (g.release id).Sound := by
  have hactive : g.isActive id = true := by
    rw [isActive_eq_isSome_held, hheld]
    rfl
  obtain ⟨rec, hrec, hact⟩ := exists_of_isActive hactive
  refine ⟨(hg.exact.release id).reserved_eq, ?_, ?_, (hg.exact.release id).underflowHappened_eq⟩
  · rw [budget_release]
    exact (hg.exact.reserved_release_le id).trans hg.reserved_le
  · rw [hg.exact.release_eq hrec hact]
    exact hg.doubleReleases_eq

/-! ### Stages and capacity -/

/-- A reservation moves to another stage if it is active, and otherwise nothing happens. -/
theorem transition_cases (g : MemoryGovernor) (id : ReservationId) (kind : ReservationKind) :
    ((g.transition id kind).1 = g ∧ isOk (g.transition id kind).2 = false) ∨
    ∃ rec, g.records.lookup id = some rec ∧ g.transition id kind =
      ({ g with records := g.records.insert id { rec with kind } }, .ok ()) := by
  rw [transition]
  cases g.records.lookup id with
  | none => exact Or.inl ⟨rfl, rfl⟩
  | some rec =>
    dsimp only
    split_ifs
    · exact Or.inr ⟨rec, rfl, rfl⟩
    · exact Or.inl ⟨rfl, rfl⟩

theorem Exact.transition (hg : g.Exact) : (g.transition id kind).1.Exact := by
  rcases transition_cases g id kind with ⟨hsame, -⟩ | ⟨rec, hrec, heq⟩
  · rwa [hsame]
  · have htotal := AList.total_insert activeBytes g.records id { rec with kind }
    rw [hrec, Option.elim_some] at htotal
    have hweight : activeBytes id { rec with kind } = activeBytes id rec := rfl
    have hsum := hg.reserved_eq
    rw [heq]
    refine ⟨?_, hg.underflowHappened_eq⟩
    change g.reserved = AList.total activeBytes (g.records.insert id _)
    omega

theorem Exact.setCapacity (hg : g.Exact) (bytes : ℕ) : (g.setCapacity bytes).Exact :=
  ⟨hg.reserved_eq, hg.underflowHappened_eq⟩

end MemoryGovernor

end PrefillFabric
