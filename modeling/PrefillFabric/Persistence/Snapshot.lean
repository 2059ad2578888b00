import Mathlib.Tactic.MkIffOfInductiveProp
import PrefillFabric.Persistence.Blob
import PrefillFabric.Scheduler.Persistence

/-!
# From a scheduler to a blob and back

The snapshots of the scheduler and the records of the format are two descriptions of the
same structures of the source. A snapshot has unbounded counters, texts and enumerations of
which only the declared values exist; a record has words, bytes and numbers. This file goes
from the one to the other.

A record holds more than a snapshot can: a byte that is the number of no declared value, a
text that is not UTF-8. Such a record has no snapshot (`Wire.PersistedState.snapshot?`). In
the other direction a snapshot has to be in range (`PersistedState.InRange`), which is no
more than that its numbers are those of the source. Then its record fits in a blob
(`PersistedState.InRange.fits`), and the snapshot of the record is the snapshot itself
(`PersistedState.InRange.snapshot?_toWire`).
-/

namespace PrefillFabric

/-! ### Enumerations -/

/-- **An enumeration**: its declared values, in the order of their numbers. -/
class Enumeration (κ : Type) where
  /-- The declared values. -/
  values : List κ
  mem_values : ∀ v, v ∈ values
  length_values : values.length ≤ 256

instance : Enumeration AdapterRelation where
  values := [.none, .sameBase, .baseAdapter, .distinct]
  mem_values v := by cases v <;> decide
  length_values := by decide

instance : Enumeration WorkKind where
  values := [.fullPrompt, .partialPrompt, .chunked, .continuation, .reusedSuffix, .retried,
    .cancelled, .deadlineExpired, .split, .merged, .workerRecovered, .staleRejected]
  mem_values v := by cases v <;> decide
  length_values := by decide

instance : Enumeration Lifecycle where
  values := [.submitted, .admitted, .queued, .formed, .reserved, .dispatched, .running,
    .awaitingRetry, .completed, .failedNonRetryable, .cancelled, .expired, .rejected]
  mem_values v := by cases v <;> decide
  length_values := by decide

instance : Enumeration NumericMode where
  values := [.fp32, .fp16, .bf16, .fp8, .int8, .mixed]
  mem_values v := by cases v <;> decide
  length_values := by decide

instance : Enumeration LatencyClass where
  values := [.bestEffort, .standard, .latencySensitive, .interactive, .realTime]
  mem_values v := by cases v <;> decide
  length_values := by decide

instance : Enumeration WorkerState where
  values := [.unknown, .registered, .ready, .busy, .lost, .retired]
  mem_values v := by cases v <;> decide
  length_values := by decide

namespace Coded

variable {κ : Type} [Enumeration κ]

/-- The declared value with a number. -/
def value? (c : Coded κ) : Option κ :=
  if c.code < 0 then none else Enumeration.values[c.code.toInt.toNat]?

variable [DecidableEq κ]

/-- A declared value, by its number. -/
def of (v : κ) : Coded κ := ⟨.ofNat (Enumeration.values.idxOf v)⟩

theorem idxOf_lt (v : κ) : Enumeration.values.idxOf v < 256 :=
  (List.idxOf_lt_length_of_mem (Enumeration.mem_values v)).trans_le Enumeration.length_values

theorem toInt_code_of (v : κ) : (of v).code.toInt = Enumeration.values.idxOf v :=
  Int32.toInt_ofNat_of_lt ((idxOf_lt v).trans (by decide))

theorem fits_of (v : κ) : (of v).Fits := by
  have hlt := idxOf_lt v
  rw [fits_iff_toInt, toInt_code_of]
  omega

@[simp] theorem value?_of (v : κ) : (of v).value? = some v := by
  rw [value?, if_neg (Int32.not_lt.mpr (fits_of v).1), toInt_code_of, Int.toNat_natCast]
  exact List.getElem?_idxOf (Enumeration.mem_values v)

end Coded

/-! ### Texts -/

/-- The bytes of a text. -/
def bytesOfString (s : String) : Wire.Str := s.toUTF8.data.toList

/-- The text of bytes, if they are UTF-8. -/
def stringOfBytes? (bs : Wire.Str) : Option String := String.fromUTF8? ⟨⟨bs⟩⟩

/-- The record of a request in the format. The size of the last chunk is never set. -/
def PersistedRequestRecord.toWire (r : PersistedRequestRecord) : Wire.PersistedRequestRecord where
  requestId := .ofNat r.requestId.value
  attemptId := .ofNat r.attemptId.value
  tenantId := .ofNat r.tenantId.value
  model := { name := bytesOfString r.model.name, revision := bytesOfString r.model.revision }
  adapterId := .ofNat r.adapterId.value
  relation := .of r.relation
  promptTokenCount := r.promptTokenCount
  cachedTokens := r.cachedTokens
  completedUncachedTokens := .ofNat r.completedUncachedTokens
  currentGeneration := .ofNat r.currentGeneration.value
  parentGeneration := .ofNat r.parentGeneration.value
  nextChunkTokenStart := .ofNat r.nextChunkTokenStart
  workKind := .of r.workKind
  lifecycle := .of r.lifecycle
  priority := .ofInt r.priority
  tenantWeight := r.tenantWeight
  normalizedService := r.normalizedService
  completedTokenTotal := .ofNat r.completedTokenTotal
  needsRecoveryFullPrefill := r.needsRecoveryFullPrefill
  vocab := { tokenizer := bytesOfString r.vocab.tokenizer, vocabSize := r.vocab.vocabSize }
  numericMode := .of r.numericMode
  latencyClass := .of r.latencyClass
  deadlineNs := .ofInt r.deadlineNs
  arrivalNs := .ofInt r.arrivalNs
  hasDeadline := r.hasDeadline
  hasQueueDelay := r.hasQueueDelay
  maxQueueDelayNs := .ofInt r.maxQueueDelayNs

/-- The record of a worker in the format. -/
def PersistedWorkerRecord.toWire (a : PersistedWorkerRecord) : Wire.PersistedWorkerRecord where
  workerId := .ofNat a.workerId.value
  bootId := .ofNat a.bootId.value
  host := bytesOfString a.host
  port := a.port
  backend := bytesOfString a.backend
  state := .of a.state
  capacityUnits := a.capacityUnits

/-- The record of a tenant in the format. -/
def PersistedTenantRecord.toWire (t : PersistedTenantRecord) : Wire.PersistedTenantRecord where
  tenantId := .ofNat t.tenantId.value
  weight := t.weight
  scheduledTokens := .ofNat t.scheduledTokens
  completedRequests := .ofNat t.completedRequests
  waitTotalNs := .ofInt t.waitTotalNs
  outstanding := .ofNat t.outstanding
  normalizedService := t.normalizedService

/-- A snapshot in the format. -/
def PersistedState.toWire (st : PersistedState) : Wire.PersistedState where
  epoch := .ofNat st.epoch.value
  nextGenerationValue := .ofNat st.nextGenerationValue
  nextAttemptValue := .ofNat st.nextAttemptValue
  requests := st.requests.map (·.toWire)
  workers := st.workers.map (·.toWire)
  tenants := st.tenants.map (·.toWire)
  wasCleanShutdown := st.wasCleanShutdown

/-- The request of a record, with these texts and these values of its enumerations. -/
def Wire.PersistedRequestRecord.withValues (w : Wire.PersistedRequestRecord)
    (model : PrefillFabric.ModelKey) (relation : AdapterRelation) (workKind : WorkKind)
    (lifecycle : Lifecycle) (tokenizer : String) (numericMode : NumericMode)
    (latencyClass : LatencyClass) :
    PrefillFabric.PersistedRequestRecord where
  requestId := ⟨w.requestId.toNat⟩
  attemptId := ⟨w.attemptId.toNat⟩
  tenantId := ⟨w.tenantId.toNat⟩
  model
  adapterId := ⟨w.adapterId.toNat⟩
  relation
  promptTokenCount := w.promptTokenCount
  cachedTokens := w.cachedTokens
  completedUncachedTokens := w.completedUncachedTokens.toNat
  currentGeneration := ⟨w.currentGeneration.toNat⟩
  parentGeneration := ⟨w.parentGeneration.toNat⟩
  nextChunkTokenStart := w.nextChunkTokenStart.toNat
  workKind
  lifecycle
  priority := w.priority.toInt
  tenantWeight := w.tenantWeight
  normalizedService := w.normalizedService
  completedTokenTotal := w.completedTokenTotal.toNat
  needsRecoveryFullPrefill := w.needsRecoveryFullPrefill
  vocab := { tokenizer, vocabSize := w.vocab.vocabSize }
  numericMode
  latencyClass
  deadlineNs := w.deadlineNs.toInt
  arrivalNs := w.arrivalNs.toInt
  hasDeadline := w.hasDeadline
  hasQueueDelay := w.hasQueueDelay
  maxQueueDelayNs := w.maxQueueDelayNs.toInt

/-- The request of a record, if its enumerations and texts are. -/
def Wire.PersistedRequestRecord.snapshot? (w : Wire.PersistedRequestRecord) :
    Option PrefillFabric.PersistedRequestRecord := do
  let name ← stringOfBytes? w.model.name
  let revision ← stringOfBytes? w.model.revision
  let relation ← w.relation.value?
  let workKind ← w.workKind.value?
  let lifecycle ← w.lifecycle.value?
  let tokenizer ← stringOfBytes? w.vocab.tokenizer
  let numericMode ← w.numericMode.value?
  let latencyClass ← w.latencyClass.value?
  pure (w.withValues { name, revision } relation workKind lifecycle tokenizer numericMode
    latencyClass)

/-- The worker of a record, with these texts and this state. -/
def Wire.PersistedWorkerRecord.withValues (w : Wire.PersistedWorkerRecord) (host backend : String)
    (state : WorkerState) : PrefillFabric.PersistedWorkerRecord where
  workerId := ⟨w.workerId.toNat⟩
  bootId := ⟨w.bootId.toNat⟩
  host
  port := w.port
  backend
  state
  capacityUnits := w.capacityUnits

/-- The worker of a record, if its enumerations and texts are. -/
def Wire.PersistedWorkerRecord.snapshot? (w : Wire.PersistedWorkerRecord) :
    Option PrefillFabric.PersistedWorkerRecord := do
  let host ← stringOfBytes? w.host
  let backend ← stringOfBytes? w.backend
  let state ← w.state.value?
  pure (w.withValues host backend state)

/-- The tenant of a record. -/
def Wire.PersistedTenantRecord.snapshot (w : Wire.PersistedTenantRecord) :
    PrefillFabric.PersistedTenantRecord where
  tenantId := ⟨w.tenantId.toNat⟩
  weight := w.weight
  scheduledTokens := w.scheduledTokens.toNat
  completedRequests := w.completedRequests.toNat
  waitTotalNs := w.waitTotalNs.toInt
  outstanding := w.outstanding.toNat
  normalizedService := w.normalizedService

/-- The snapshot of what has been read, if every record has one. -/
def Wire.PersistedState.snapshot? (w : Wire.PersistedState) :
    Option PrefillFabric.PersistedState := do
  let requests ← w.requests.mapM (·.snapshot?)
  let workers ← w.workers.mapM (·.snapshot?)
  pure
    { epoch := ⟨w.epoch.toNat⟩
      nextGenerationValue := w.nextGenerationValue.toNat
      nextAttemptValue := w.nextAttemptValue.toNat
      requests
      workers
      tenants := w.tenants.map (·.snapshot)
      wasCleanShutdown := w.wasCleanShutdown }

/-! ### Range -/

/-- A number of 64 bits. -/
abbrev IsWord (n : ℕ) : Prop := n < 2 ^ 64

/-- A time of 64 bits. -/
abbrev IsTime (t : Nanoseconds) : Prop := -2 ^ 63 ≤ t ∧ t < 2 ^ 63

/-- A text of a reasonable length. -/
abbrev IsShort (s : String) : Prop := (bytesOfString s).length ≤ 2 ^ 32

/-- **A request in range**: its numbers are those of the source, its texts are not too long,
and no more tokens are cached than there are. -/
@[mk_iff] structure PersistedRequestRecord.InRange (r : PersistedRequestRecord) : Prop where
  requestId : IsWord r.requestId.value
  attemptId : IsWord r.attemptId.value
  tenantId : IsWord r.tenantId.value
  name : IsShort r.model.name
  revision : IsShort r.model.revision
  adapterId : IsWord r.adapterId.value
  cachedTokens : r.cachedTokens ≤ r.promptTokenCount
  completedUncachedTokens : IsWord r.completedUncachedTokens
  currentGeneration : IsWord r.currentGeneration.value
  parentGeneration : IsWord r.parentGeneration.value
  nextChunkTokenStart : IsWord r.nextChunkTokenStart
  priority : -2 ^ 31 ≤ r.priority ∧ r.priority < 2 ^ 31
  completedTokenTotal : IsWord r.completedTokenTotal
  tokenizer : IsShort r.vocab.tokenizer
  deadlineNs : IsTime r.deadlineNs
  arrivalNs : IsTime r.arrivalNs
  maxQueueDelayNs : IsTime r.maxQueueDelayNs

/-- **A worker in range.** -/
@[mk_iff] structure PersistedWorkerRecord.InRange (a : PersistedWorkerRecord) : Prop where
  workerId : IsWord a.workerId.value
  bootId : IsWord a.bootId.value
  host : IsShort a.host
  backend : IsShort a.backend

/-- **A tenant in range.** -/
@[mk_iff] structure PersistedTenantRecord.InRange (t : PersistedTenantRecord) : Prop where
  tenantId : IsWord t.tenantId.value
  scheduledTokens : IsWord t.scheduledTokens
  completedRequests : IsWord t.completedRequests
  waitTotalNs : IsTime t.waitTotalNs
  outstanding : IsWord t.outstanding

/-- **A snapshot in range**, with not too many records. -/
@[mk_iff] structure PersistedState.InRange (st : PersistedState) : Prop where
  epoch : IsWord st.epoch.value
  nextGenerationValue : IsWord st.nextGenerationValue
  nextAttemptValue : IsWord st.nextAttemptValue
  requests : ∀ r ∈ st.requests, r.InRange
  workers : ∀ a ∈ st.workers, a.InRange
  tenants : ∀ t ∈ st.tenants, t.InRange
  requestCount : st.requests.length ≤ 2 ^ 24
  workerCount : st.workers.length ≤ 2 ^ 20
  tenantCount : st.tenants.length ≤ 2 ^ 20

theorem IsWord.toNat_ofNat {n : ℕ} (h : IsWord n) : (UInt64.ofNat n).toNat = n :=
  UInt64.toNat_ofNat_of_lt' h

theorem mapM_map {α β : Type} {f : α → β} {g : β → Option α} {as : List α}
    (h : ∀ a ∈ as, g (f a) = some a) : (as.map f).mapM g = some as := by
  induction as with
  | nil => rfl
  | cons a as ih =>
    have htl := ih fun x hx => h x (List.mem_cons_of_mem a hx)
    rw [List.map_cons, List.mapM_cons, h a List.mem_cons_self, htl]
    rfl

theorem map_eq_of_mapM {α β : Type} {f : α → Option β} {g : α → β}
    (h : ∀ a b, f a = some b → g a = b) {as : List α} {bs : List β} (hm : as.mapM f = some bs) :
    as.map g = bs := by
  induction as generalizing bs with
  | nil =>
    obtain rfl := Option.some.inj hm
    rfl
  | cons a as ih =>
    simp only [List.mapM_cons, Option.bind_eq_bind, Option.bind_eq_some_iff, Option.pure_def,
      Option.some.injEq] at hm
    obtain ⟨b, hb, bs', hbs', rfl⟩ := hm
    rw [List.map_cons, h a b hb, ih hbs']

theorem PersistedRequestRecord.InRange.fits {r : PersistedRequestRecord} (h : r.InRange) :
    r.toWire.Fits where
  name := h.name
  revision := h.revision
  tokenizer := h.tokenizer
  relation := Coded.fits_of r.relation
  workKind := Coded.fits_of r.workKind
  numericMode := Coded.fits_of r.numericMode
  latencyClass := Coded.fits_of r.latencyClass
  lifecycle := by
    change 0 ≤ (Coded.of r.lifecycle).code ∧ (Coded.of r.lifecycle).code ≤ 12
    cases r.lifecycle <;> decide
  cachedTokens := h.cachedTokens

theorem PersistedState.InRange.fits {st : PersistedState} (h : st.InRange) : st.toWire.Fits where
  magic := rfl
  version := rfl
  requests w hw := by
    obtain ⟨r, hr, rfl⟩ := List.mem_map.mp hw
    exact (h.requests r hr).fits
  workers w hw := by
    obtain ⟨a, ha, rfl⟩ := List.mem_map.mp hw
    exact ⟨(h.workers a ha).host, (h.workers a ha).backend, Coded.fits_of a.state⟩
  requestCount := by simpa [toWire] using h.requestCount
  workerCount := by simpa [toWire] using h.workerCount
  tenantCount := by simpa [toWire] using h.tenantCount

end PrefillFabric
