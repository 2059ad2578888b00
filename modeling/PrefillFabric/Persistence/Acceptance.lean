import PrefillFabric.Persistence.Snapshot
import PrefillFabric.Scheduler.Resumption

/-!
# What is accepted

A blob that can be read is checked before it is accepted, and the checks are few. Of the six
enumerations of a snapshot one is looked at, the lifecycle of a request; the others are whatever
the bytes are (`Wire.declared_iff_inBounds`).

Nor is it checked that a request can go on. A scheduler that reads the snapshot queues what was
dispatched or running, and leaves every other lifecycle as it is; and it takes up a request where
it was, which may be behind its last token. So what is accepted may hold requests that are not
over and will not be dispatched (`Impl.importState_waiting_iff`). A byte that is no declared value
and a text that is not UTF-8 have no counterpart in the snapshots of a scheduler; what is said
here holds whatever is put in their place (`Wire.PersistedState.snapshotOr`).
-/

namespace PrefillFabric

open Codec ByteReader

/-! ### Declared values -/

namespace Coded

variable {κ : Type} [Enumeration κ] {c : Coded κ}

/-- One of the declared values. -/
def Declared (c : Coded κ) : Prop := c.value?.isSome = true

instance : Decidable c.Declared := inferInstanceAs (Decidable (_ = _))

/-- A byte is the number of a declared value if it is below the number of them. -/
theorem declared_iff (h : c.Fits) :
    c.Declared ↔ c.toByte.toNat < (Enumeration.values : List κ).length := by
  have hcode : c.code.toInt = c.toByte.toNat := by
    have h' := toInt_code_ofByte (κ := κ) c.toByte
    rwa [ofByte_toByte h] at h'
  rw [Declared, value?, if_neg (Int32.not_lt.mpr h.1), hcode, Int.toNat_natCast,
    isSome_getElem?]

end Coded

namespace Wire

/-- **A request with declared values** in every enumeration. -/
structure PersistedRequestRecord.Declared (r : PersistedRequestRecord) : Prop where
  relation : r.relation.Declared
  workKind : r.workKind.Declared
  lifecycle : r.lifecycle.Declared
  numericMode : r.numericMode.Declared
  latencyClass : r.latencyClass.Declared

/-- **A snapshot with declared values** in every enumeration of every record. -/
structure PersistedState.Declared (st : PersistedState) : Prop where
  requests : ∀ r ∈ st.requests, r.Declared
  workers : ∀ a ∈ st.workers, a.state.Declared

/-- The bytes of the enumerations of a request that are not checked are below the numbers of
values that are declared. -/
structure PersistedRequestRecord.InBounds (r : PersistedRequestRecord) : Prop where
  relation : r.relation.toByte < 4
  workKind : r.workKind.toByte < 12
  numericMode : r.numericMode.toByte < 6
  latencyClass : r.latencyClass.toByte < 5

/-- The same for all records of a snapshot. -/
structure PersistedState.InBounds (st : PersistedState) : Prop where
  requests : ∀ r ∈ st.requests, r.InBounds
  workers : ∀ a ∈ st.workers, a.state.toByte < 6

/-! ### What is read -/

/-- Every enumeration of a request is a byte. -/
structure PersistedRequestRecord.Bytewise (r : PersistedRequestRecord) : Prop where
  relation : r.relation.Fits
  workKind : r.workKind.Fits
  lifecycle : r.lifecycle.Fits
  numericMode : r.numericMode.Fits
  latencyClass : r.latencyClass.Fits

/-- Every enumeration of a snapshot is a byte. -/
structure PersistedState.Bytewise (st : PersistedState) : Prop where
  requests : ∀ r ∈ st.requests, r.Bytewise
  workers : ∀ a ∈ st.workers, a.state.Fits

theorem yields_readReq : Yields readReq PersistedRequestRecord.Bytewise :=
  .bind fun _ => .bind fun _ => .bind fun _ => .bind fun _ => .bind fun _ => .bind fun _ =>
  .bind_of yields_enum fun _ hrelation =>
  .bind fun _ => .bind fun _ => .bind fun _ => .bind fun _ => .bind fun _ => .bind fun _ =>
  .bind_of yields_enum fun _ hwork => .bind_of yields_enum fun _ hlifecycle =>
  .bind fun _ => .bind fun _ => .bind fun _ => .bind fun _ => .bind fun _ => .bind fun _ =>
  .bind fun _ => .bind fun _ =>
  .bind_of yields_enum fun _ hmode => .bind_of yields_enum fun _ hclass =>
  .bind fun _ => .bind fun _ => .bind fun _ => .bind fun _ => .bind fun _ =>
  .pure ⟨hrelation, hwork, hlifecycle, hmode, hclass⟩

theorem yields_readWorker : Yields readWorker fun a => a.state.Fits :=
  .bind fun _ => .bind fun _ => .bind fun _ => .bind fun _ => .bind fun _ =>
  .bind_of yields_enum fun _ hstate => .bind fun _ => .pure hstate

theorem Readable.bytewise {b : List UInt8} {st : PersistedState} (h : Readable b st) :
    st.Bytewise := by
  have hyields : ∀ magic version,
      Yields (readPayload magic version) PersistedState.Bytewise := fun _ _ =>
    .bind fun _ => .bind fun _ => .bind fun _ => .bind fun _ =>
    .bind_of (yields_counted _ _ yields_readReq) fun _ hrequests =>
    .bind_of (yields_counted _ _ yields_readWorker) fun _ hworkers =>
    .bind fun _ => .pure ⟨hrequests, hworkers⟩
  obtain ⟨header, rest, -, -, -, -, -, hread⟩ := h
  exact hyields _ _ _ _ _ hread

/-! ### What is checked -/

/-- A request that does not pass the checks that are made. -/
def PersistedRequestRecord.Corrupt (r : PersistedRequestRecord) : Prop :=
  ¬r.lifecycle.Declared ∨ r.promptTokenCount < r.cachedTokens

variable {b : List UInt8} {st : PersistedState} {r : PersistedRequestRecord}

theorem lifecycle_declared_iff (c : Coded Lifecycle) :
    c.Declared ↔ ¬(c.code < 0 ∨ 12 < c.code) := by
  rw [Coded.Declared, Coded.value?]
  split_ifs with hneg
  · exact iff_of_false Bool.false_ne_true (not_not.mpr (Or.inl hneg))
  · have hlength : (Enumeration.values : List Lifecycle).length = 13 := rfl
    have htwelve : (12 : Int32).toInt = 12 := by decide
    rw [isSome_getElem?, hlength, or_iff_right hneg, Int32.lt_iff_toInt_lt, htwelve]
    omega

theorem validateRecord_cases (r : PersistedRequestRecord) :
    (validateRecord r = .ok () ∧ ¬r.Corrupt) ∨
      (∃ what, validateRecord r = .error ⟨.corruptState, what⟩) ∧ r.Corrupt := by
  rw [validateRecord, PersistedRequestRecord.Corrupt, lifecycle_declared_iff, not_not]
  split_ifs with hlifecycle hcached
  · exact Or.inr ⟨⟨_, rfl⟩, Or.inl hlifecycle⟩
  · exact Or.inr ⟨⟨_, rfl⟩, Or.inr hcached⟩
  · exact Or.inl ⟨rfl, not_or.mpr ⟨hlifecycle, hcached⟩⟩

/-- **The checks** pass, or find a corrupt request and say so. -/
theorem validateRecords_cases (rs : List PersistedRequestRecord) :
    (validateRecords rs = .ok () ∧ ∀ r ∈ rs, ¬r.Corrupt) ∨
      (∃ what, validateRecords rs = .error ⟨.corruptState, what⟩) ∧ ∃ r ∈ rs, r.Corrupt := by
  induction rs with
  | nil => exact Or.inl ⟨rfl, fun _ hr => absurd hr List.not_mem_nil⟩
  | cons r rs ih =>
    simp only [validateRecords, List.forall_mem_cons, List.exists_mem_cons_iff]
    rcases validateRecord_cases r with ⟨heq, hr⟩ | ⟨⟨what, heq⟩, hr⟩
    · rw [heq]
      rcases ih with ⟨hrest, hall⟩ | ⟨hrest, hex⟩
      · exact Or.inl ⟨hrest, hr, hall⟩
      · exact Or.inr ⟨hrest, Or.inr hex⟩
    · rw [heq]
      exact Or.inr ⟨⟨what, rfl⟩, Or.inl hr⟩

/-- What the bytes that are not checked leave to be checked. -/
theorem PersistedRequestRecord.Bytewise.declared_iff (h : r.Bytewise) :
    r.Declared ↔ r.lifecycle.Declared ∧ r.InBounds := by
  have hlt : ∀ {κ : Type} [Enumeration κ] {c : Coded κ} {n : UInt8}, c.Fits →
      (Enumeration.values : List κ).length = n.toNat → (c.Declared ↔ c.toByte < n) := by
    intro κ _ c n hfits hn
    rw [Coded.declared_iff hfits, hn, UInt8.lt_iff_toNat_lt]
  have hrelation := hlt (n := 4) h.relation rfl
  have hwork := hlt (n := 12) h.workKind rfl
  have hmode := hlt (n := 6) h.numericMode rfl
  have hclass := hlt (n := 5) h.latencyClass rfl
  constructor
  · rintro ⟨h₁, h₂, h₃, h₄, h₅⟩
    exact ⟨h₃, hrelation.mp h₁, hwork.mp h₂, hmode.mp h₄, hclass.mp h₅⟩
  · rintro ⟨h₃, h₁, h₂, h₄, h₅⟩
    exact ⟨hrelation.mpr h₁, hwork.mpr h₂, h₃, hmode.mpr h₄, hclass.mpr h₅⟩

theorem PersistedState.Bytewise.declared_of_inBounds (h : st.Bytewise)
    (hlifecycle : ∀ r ∈ st.requests, r.lifecycle.Declared) (hbounds : st.InBounds) :
    st.Declared where
  requests r hr := (h.requests r hr).declared_iff.mpr ⟨hlifecycle r hr, hbounds.requests r hr⟩
  workers a ha := (Coded.declared_iff (h.workers a ha)).mpr
    (UInt8.lt_iff_toNat_lt.mp (hbounds.workers a ha))

theorem PersistedState.Bytewise.inBounds_of_declared (h : st.Bytewise) (hdeclared : st.Declared) :
    st.InBounds where
  requests r hr := ((h.requests r hr).declared_iff.mp (hdeclared.requests r hr)).2
  workers a ha := UInt8.lt_iff_toNat_lt.mpr
    ((Coded.declared_iff (h.workers a ha)).mp (hdeclared.workers a ha))

/-- **When the enumerations of what is accepted are declared.** A blob never gives a value that is
not declared, and is rejected as corrupt if it holds one, exactly if what can be read in it fails
the checks that are made, or has each of the bytes that are not checked in bounds. -/
theorem declared_iff_inBounds (b : List UInt8) :
    ((∀ st, deserializeState b = .ok st → st.Declared) ∧
      ∀ st, Readable b st → ¬st.Declared →
        ∃ what, deserializeState b = .error ⟨.corruptState, what⟩) ↔
    ∀ st, Readable b st → (∃ r ∈ st.requests, r.Corrupt) ∨ st.InBounds := by
  constructor
  · rintro ⟨haccepted, -⟩ st hread
    rcases validateRecords_cases st.requests with ⟨hok, -⟩ | ⟨-, hcorrupt⟩
    · have hdeclared := haccepted st (deserializeState_eq_ok_iff.mpr ⟨hread, hok⟩)
      exact Or.inr (hread.bytewise.inBounds_of_declared hdeclared)
    · exact Or.inl hcorrupt
  · intro hbounds
    -- where no request is corrupt the lifecycles are declared, and then everything is
    have hdeclared : ∀ st, Readable b st → (∀ r ∈ st.requests, ¬r.Corrupt) → st.Declared := by
      intro st hread hsound
      rcases hbounds st hread with ⟨r, hr, hcorrupt⟩ | hin
      · exact absurd hcorrupt (hsound r hr)
      · exact hread.bytewise.declared_of_inBounds
          (fun r hr => not_not.mp fun h => hsound r hr (Or.inl h)) hin
    constructor
    · intro st hok
      obtain ⟨hread, hvalid⟩ := deserializeState_eq_ok_iff.mp hok
      rcases validateRecords_cases st.requests with ⟨-, hsound⟩ | ⟨⟨what, herror⟩, -⟩
      · exact hdeclared st hread hsound
      · exact absurd (hvalid.symm.trans herror) (by simp)
    · intro st hread hnot
      rcases validateRecords_cases st.requests with ⟨-, hsound⟩ | ⟨⟨what, herror⟩, -⟩
      · exact absurd (hdeclared st hread hsound) hnot
      · exact ⟨what, by rw [hread.deserializeState_eq, herror]; rfl⟩

/-- A request and a worker with a value that is not declared in every enumeration but the
lifecycle. -/
def undeclaredState : PersistedState where
  requests :=
    [{ requestId := 1, promptTokenCount := 9, relation := ⟨4⟩, workKind := ⟨12⟩,
       numericMode := ⟨6⟩, latencyClass := ⟨5⟩ }]
  workers := [{ workerId := 2, state := ⟨6⟩ }]

/-- It is written, and accepted as it is. -/
theorem accepted_undeclaredState :
    ∃ b, serializeState undeclaredState = .ok b ∧ deserializeState b = .ok undeclaredState ∧
      (∀ r ∈ undeclaredState.requests, ¬r.relation.Declared ∧ ¬r.workKind.Declared ∧
        ¬r.numericMode.Declared ∧ ¬r.latencyClass.Declared) ∧
      ∀ a ∈ undeclaredState.workers, ¬a.state.Declared := by
  refine ⟨_, rfl, by decide +kernel, fun r hr => ?_, fun a ha => ?_⟩
  · obtain rfl := List.mem_singleton.mp hr
    decide
  · obtain rfl := List.mem_singleton.mp ha
    decide

/-! ### Snapshots of what is accepted -/

/-- The request of a record, with something else in the place of what is no value of an
enumeration or no text. -/
def PersistedRequestRecord.snapshotOr (w : PersistedRequestRecord)
    (d : PrefillFabric.PersistedRequestRecord) : PrefillFabric.PersistedRequestRecord :=
  w.withValues
    { name := (stringOfBytes? w.model.name).getD d.model.name
      revision := (stringOfBytes? w.model.revision).getD d.model.revision }
    (w.relation.value?.getD d.relation) (w.workKind.value?.getD d.workKind)
    (w.lifecycle.value?.getD d.lifecycle)
    ((stringOfBytes? w.vocab.tokenizer).getD d.vocab.tokenizer)
    (w.numericMode.value?.getD d.numericMode) (w.latencyClass.value?.getD d.latencyClass)

/-- The worker of a record, in the same way. -/
def PersistedWorkerRecord.snapshotOr (w : PersistedWorkerRecord)
    (d : PrefillFabric.PersistedWorkerRecord) : PrefillFabric.PersistedWorkerRecord :=
  w.withValues ((stringOfBytes? w.host).getD d.host) ((stringOfBytes? w.backend).getD d.backend)
    (w.state.value?.getD d.state)

/-- **The snapshot of what has been read**, with a request and a worker to take from what is no
value of an enumeration or no text. -/
def PersistedState.snapshotOr (w : PersistedState) (d : PrefillFabric.PersistedRequestRecord)
    (e : PrefillFabric.PersistedWorkerRecord) : PrefillFabric.PersistedState where
  epoch := ⟨w.epoch.toNat⟩
  nextGenerationValue := w.nextGenerationValue.toNat
  nextAttemptValue := w.nextAttemptValue.toNat
  requests := w.requests.map (·.snapshotOr d)
  workers := w.workers.map (·.snapshotOr e)
  tenants := w.tenants.map (·.snapshot)
  wasCleanShutdown := w.wasCleanShutdown

theorem PersistedRequestRecord.snapshotOr_eq {w : PersistedRequestRecord}
    {r : PrefillFabric.PersistedRequestRecord} (h : w.snapshot? = some r)
    (d : PrefillFabric.PersistedRequestRecord) : w.snapshotOr d = r := by
  simp only [snapshot?, Option.bind_eq_bind, Option.bind_eq_some_iff, Option.pure_def,
    Option.some.injEq] at h
  obtain ⟨name, hname, revision, hrevision, relation, hrelation, work, hwork, lifecycle,
    hlifecycle, tokenizer, htokenizer, mode, hmode, latency, hlatency, rfl⟩ := h
  simp only [snapshotOr, hname, hrevision, hrelation, hwork, hlifecycle, htokenizer, hmode,
    hlatency, Option.getD_some]

theorem PersistedWorkerRecord.snapshotOr_eq {w : PersistedWorkerRecord}
    {a : PrefillFabric.PersistedWorkerRecord} (h : w.snapshot? = some a)
    (e : PrefillFabric.PersistedWorkerRecord) : w.snapshotOr e = a := by
  simp only [snapshot?, Option.bind_eq_bind, Option.bind_eq_some_iff, Option.pure_def,
    Option.some.injEq] at h
  obtain ⟨host, hhost, backend, hbackend, state, hstate, rfl⟩ := h
  simp only [snapshotOr, hhost, hbackend, hstate, Option.getD_some]

/-- Where there is a snapshot it is this one, whatever the other is. -/
theorem PersistedState.snapshotOr_eq {w : PersistedState} {st : PrefillFabric.PersistedState}
    (h : w.snapshot? = some st) (d : PrefillFabric.PersistedRequestRecord)
    (e : PrefillFabric.PersistedWorkerRecord) : w.snapshotOr d e = st := by
  simp only [snapshot?, Option.bind_eq_bind, Option.bind_eq_some_iff, Option.pure_def,
    Option.some.injEq] at h
  obtain ⟨requests, hrequests, workers, hworkers, rfl⟩ := h
  rw [snapshotOr,
    map_eq_of_mapM (fun _ _ h => PersistedRequestRecord.snapshotOr_eq h d) hrequests,
    map_eq_of_mapM (fun _ _ h => PersistedWorkerRecord.snapshotOr_eq h e) hworkers]

/-! ### What is read back -/

/-- The record of a request that is in effect: the last one, if there are several. -/
def PersistedState.latest (w : PersistedState) (id : UInt64) : Option PersistedRequestRecord :=
  w.requests.reverse.find? fun rec => decide (rec.requestId = id)

/-- The request is over. -/
def PersistedRequestRecord.IsOver (w : PersistedRequestRecord) : Prop :=
  ∃ l, w.lifecycle.value? = some l ∧ l.isTerminal = true

/-- **The request can go on**: it is queued or under way, and not past its last token, or else of
so many chunks that the index past the last one is that of an earlier one. -/
structure PersistedRequestRecord.CanGoOn (env : Env) (w : PersistedRequestRecord) : Prop where
  lifecycle : w.lifecycle.value? = some .queued ∨ w.lifecycle.value? = some .dispatched ∨
    w.lifecycle.value? = some .running
  chunk : w.nextChunkTokenStart.toNat < w.promptTokenCount.toNat - w.cachedTokens.toNat ∨
    2 ^ 32 ≤ ChunkPlanner.chunksNeeded (w.promptTokenCount.toNat - w.cachedTokens.toNat)
      (max 1 env.cfg.maxTokensPerChunk.toNat)

/-- **The chunk of the request can be searched for**, unless it is past its last token. -/
def PersistedRequestRecord.CanBeFound (env : Env) (w : PersistedRequestRecord) : Prop :=
  w.nextChunkTokenStart.toNat < w.promptTokenCount.toNat - w.cachedTokens.toNat →
    PrefillFabric.PersistedRequestRecord.Searchable env
      (w.promptTokenCount.toNat - w.cachedTokens.toNat) w.nextChunkTokenStart.toNat

theorem PersistedRequestRecord.remaining_snapshotOr (w : PersistedRequestRecord)
    (d : PrefillFabric.PersistedRequestRecord) :
    (w.snapshotOr d).request.remainingPrefillTokens =
      w.promptTokenCount.toNat - w.cachedTokens.toNat :=
  PrefillRequest.remainingPrefillTokens_eq _

/-- All of a snapshot is read back exactly if the chunk of every record can be searched for: also
of one that is over, and of one that a later record stands for. -/
theorem PersistedState.returns_snapshotOr_iff (w : PersistedState)
    (d : PrefillFabric.PersistedRequestRecord) (e : PrefillFabric.PersistedWorkerRecord)
    (env : Env) : (w.snapshotOr d e).Returns env ↔ ∀ rec ∈ w.requests, rec.CanBeFound env := by
  refine List.forall_mem_map.trans (forall₂_congr fun rec _ => ?_)
  rw [PrefillFabric.PersistedRequestRecord.searchEnds_iff,
    PersistedRequestRecord.remaining_snapshotOr]
  rfl

/-- What becomes of a request whose lifecycle is a declared one. -/
theorem PersistedRequestRecord.recovered_snapshotOr_iff {w : PersistedRequestRecord}
    (h : w.lifecycle.Declared) (d : PrefillFabric.PersistedRequestRecord) (env : Env) :
    (((w.snapshotOr d).recovered env).lifecycle.isTerminal = false →
      ((w.snapshotOr d).recovered env).isWaiting = true) ↔ w.IsOver ∨ w.CanGoOn env := by
  obtain ⟨l, hl⟩ := Option.isSome_iff_exists.mp h
  have hlifecycle : (w.snapshotOr d).lifecycle = l := by
    rw [snapshotOr, withValues, hl, Option.getD_some]
  have hremaining := w.remaining_snapshotOr d
  have hlength : ((w.snapshotOr d).recovered env).plan.chunks.length =
      ChunkPlanner.chunksNeeded (w.promptTokenCount.toNat - w.cachedTokens.toNat)
        (max 1 env.cfg.maxTokensPerChunk.toNat) := by
    rw [PrefillFabric.PersistedRequestRecord.recovered_plan, ← hremaining]
    exact ChunkPlanner.length_plan_of_unestimated env _ _ _ rfl rfl
  rw [PrefillFabric.PersistedRequestRecord.recovered_isTerminal,
    PrefillFabric.PersistedRequestRecord.recovered_isWaiting_iff, hlength, hremaining, hlifecycle]
  have hover : w.IsOver ↔ l.isTerminal = true := by
    constructor
    · rintro ⟨l', hl', hterm⟩
      rwa [Option.some.inj (hl.symm.trans hl')]
    · exact fun hterm => ⟨l, hl, hterm⟩
  have hgo : w.CanGoOn env ↔ _ := ⟨fun h => And.intro h.lifecycle h.chunk, fun h => ⟨h.1, h.2⟩⟩
  rw [hover, hgo, hl]
  simp only [Option.some.injEq]
  rw [← Bool.not_eq_true, ← or_iff_not_imp_left]
  rfl

theorem PersistedState.find_snapshotOr (w : PersistedState)
    (d : PrefillFabric.PersistedRequestRecord) (e : PrefillFabric.PersistedWorkerRecord)
    (id : UInt64) :
    ((w.snapshotOr d e).requests.reverse.find? fun rec => decide (rec.requestId = ⟨id.toNat⟩)) =
      (w.latest id).map (·.snapshotOr d) := by
  change ((w.requests.map _).reverse.find? _) = _
  rw [← List.map_reverse, List.find?_map, latest]
  refine congrArg (fun p => (w.requests.reverse.find? p).map (·.snapshotOr d))
    (funext fun rec => ?_)
  refine decide_eq_decide.mpr ⟨fun heq => ?_, fun heq => heq ▸ rfl⟩
  exact UInt64.toNat_inj.mp (congrArg StrongId.value heq)

/-- The lifecycle of a record that is accepted is a declared one. -/
theorem lifecycle_declared_of_latest {w : PersistedState} (h : deserializeState b = .ok w)
    {id : UInt64} {rec : PersistedRequestRecord} (hrec : w.latest id = some rec) :
    rec.lifecycle.Declared := by
  have hmem : rec ∈ w.requests := List.mem_reverse.mp (List.mem_of_find?_eq_some hrec)
  rcases validateRecords_cases w.requests with ⟨-, hsound⟩ | ⟨⟨what, herror⟩, -⟩
  · exact not_not.mp fun hnot => hsound rec hmem (Or.inl hnot)
  · exact absurd ((deserializeState_eq_ok_iff.mp h).2.symm.trans herror) (by simp)

end Wire

/-- **When a snapshot leaves nothing stuck.** Of what is accepted, and whatever stands for what is
no value of an enumeration: all of it is read back, and every request that is not over is queued,
not in flight and has a chunk to execute, exactly if the chunk of every record can be searched for,
and every record in effect is over or can go on. -/
theorem Impl.importState_waiting_iff {b : List UInt8} {w : Wire.PersistedState}
    (h : Wire.deserializeState b = .ok w) (d : PersistedRequestRecord) (e : PersistedWorkerRecord)
    (env : Env) (now : Nanoseconds) (σ : Impl) :
    ((w.snapshotOr d e).Returns env ∧
      ∀ r s, (σ.importState env now (w.snapshotOr d e)).requests.lookup r = some s →
        s.lifecycle.isTerminal = false → s.lifecycle = .queued ∧ s.inFlight = false ∧
          s.nextChunkIndex < s.plan.chunks.length) ↔
    (∀ rec ∈ w.requests, rec.CanBeFound env) ∧
      ∀ id rec, w.latest id = some rec → rec.IsOver ∨ rec.CanGoOn env := by
  refine and_congr (w.returns_snapshotOr_iff d e env) ?_
  simp only [← Rs.isWaiting_iff]
  constructor
  · intro hall id rec hrec
    have hdeclared := Wire.lifecycle_declared_of_latest h hrec
    refine (Wire.PersistedRequestRecord.recovered_snapshotOr_iff hdeclared d env).mp ?_
    refine hall ⟨id.toNat⟩ _ ?_
    rw [lookup_importState, Wire.PersistedState.find_snapshotOr, hrec]
    rfl
  · intro hall r s hs
    rw [lookup_importState] at hs
    obtain ⟨x, hx, rfl⟩ := Option.map_eq_some_iff.mp hs
    -- what is found is the record in effect of some request
    obtain ⟨rec, -, hrec⟩ := List.mem_map.mp (List.mem_reverse.mp (List.mem_of_find?_eq_some hx))
    have hid : r = ⟨rec.requestId.toNat⟩ := by
      have hfound := List.find?_some hx
      rw [← of_decide_eq_true hfound, ← hrec]
      rfl
    rw [hid, Wire.PersistedState.find_snapshotOr] at hx
    obtain ⟨rec', hrec', rfl⟩ := Option.map_eq_some_iff.mp hx
    exact (Wire.PersistedRequestRecord.recovered_snapshotOr_iff
      (Wire.lifecycle_declared_of_latest h hrec') d env).mpr (hall _ rec' hrec')

/-- The request of the sample is dispatched, and has a chunk to execute. -/
theorem Impl.importState_waiting_sampleState :
    (∃ b, Wire.deserializeState b = .ok Wire.sampleState) ∧
      (Wire.sampleState.snapshotOr {} {}).Returns .standard ∧
      ∀ r s, ((fresh .standard).importState .standard 0
          (Wire.sampleState.snapshotOr {} {})).requests.lookup r = some s →
        s.lifecycle.isTerminal = false → s.lifecycle = .queued ∧ s.inFlight = false ∧
          s.nextChunkIndex < s.plan.chunks.length := by
  have hread : Wire.deserializeState (Wire.frame Wire.kPersistenceMagic Wire.kPersistenceVersion 0
      (bytesOf (Wire.writePayload Wire.sampleState))) = .ok Wire.sampleState := by decide +kernel
  refine ⟨⟨_, hread⟩, (importState_waiting_iff hread {} {} .standard 0 (fresh .standard)).mpr
    ⟨fun rec hrec => ?_, fun id rec hrec => ?_⟩⟩
  · obtain rfl := List.mem_singleton.mp hrec
    exact fun _ => Or.inl (by decide)
  · have hmem := List.mem_reverse.mp (List.mem_of_find?_eq_some hrec)
    obtain rfl := List.mem_singleton.mp hmem
    exact Or.inr ⟨Or.inr (Or.inl (by decide)), Or.inl (by decide)⟩

namespace Wire

/-- Two requests that are not over: one that has been submitted, and one that is queued behind its
last token. -/
def stuckState : PersistedState where
  requests :=
    [{ requestId := 1, tenantId := 1, promptTokenCount := 9, cachedTokens := 4, lifecycle := ⟨0⟩ },
      { requestId := 2, tenantId := 1, promptTokenCount := 9, cachedTokens := 4,
        lifecycle := ⟨2⟩, nextChunkTokenStart := 5 }]

/-- The snapshot is accepted. Neither of them waits to be dispatched, and both are counted. -/
theorem stuck_stuckState :
    let τ := (Impl.fresh .standard).importState .standard 0 (stuckState.snapshotOr {} {})
    (∃ b, serializeState stuckState = .ok b ∧ deserializeState b = .ok stuckState) ∧
      (τ.requests.lookup ⟨1⟩).map (fun s => (s.lifecycle, s.hasPendingChunk)) =
        some (.submitted, true) ∧
      (τ.requests.lookup ⟨2⟩).map (fun s => (s.lifecycle, s.hasPendingChunk)) =
        some (.queued, false) ∧
      (τ.tenants.lookup ⟨1⟩).map (·.outstanding) = some 2 := by
  intro τ
  refine ⟨⟨_, rfl, by decide +kernel⟩, by decide +kernel, by decide +kernel, by decide +kernel⟩

end Wire

end PrefillFabric
