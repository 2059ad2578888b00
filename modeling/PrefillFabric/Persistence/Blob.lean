import PrefillFabric.Persistence.Format

/-!
# Blobs

What the persistence format is worth, as a whole.

* What fits is read back as it was, in every field (`Wire.deserialize_serialize`).
* Damage is noticed: a blob that is cut short is rejected as such, wherever it is cut, and a
  blob with one byte of its payload or of its checksum changed is rejected for its checksum
  (`Wire.damage_noticed`).
* The format is not canonical. The flags of the header are not looked at, nor is what comes
  after the payload, and a truth value is any byte. This is all that a blob can differ in
  from the one that would have been written (`Wire.canonical_iff`).
-/

namespace PrefillFabric

open Codec

namespace Wire

variable {st : PersistedState} {b : List UInt8}

/-! ### The round trip -/

theorem length_writeReq (r : PersistedRequestRecord) : (bytesOf (writeReq r)).length =
    r.model.name.length + r.model.revision.length + r.vocab.tokenizer.length + 180 := by
  simp only [writeReq, bytesOf_cons, bytesOf_nil, List.length_append, List.length_nil,
    ByteWriter.length_u64, ByteWriter.length_u32, ByteWriter.length_str, ByteWriter.length_enum,
    ByteWriter.length_bool, ByteWriter.length_i64, ByteWriter.length_f64]
  omega

theorem length_writeWorker (a : PersistedWorkerRecord) :
    (bytesOf (writeWorker a)).length = a.host.length + a.backend.length + 45 := by
  simp only [writeWorker, bytesOf_cons, bytesOf_nil, List.length_append, List.length_nil,
    ByteWriter.length_u64, ByteWriter.length_u32, ByteWriter.length_str, ByteWriter.length_enum]
  omega

theorem length_writeTenant (t : PersistedTenantRecord) : (bytesOf (writeTenant t)).length = 56 := by
  simp [writeTenant]

/-- The payload of a snapshot that fits has a length of 64 bits. -/
theorem length_writePayload (h : st.Fits) : (bytesOf (writePayload st)).length < 2 ^ 64 := by
  have hrequests : (bytesOf (st.requests.flatMap writeReq)).length ≤
      st.requests.length * 2 ^ 34 := by
    refine length_bytesOf_flatMap_le fun r hr => ?_
    have hname := (h.requests r hr).name
    have hrevision := (h.requests r hr).revision
    have htokenizer := (h.requests r hr).tokenizer
    rw [length_writeReq]
    omega
  have hworkers : (bytesOf (st.workers.flatMap writeWorker)).length ≤
      st.workers.length * 2 ^ 34 := by
    refine length_bytesOf_flatMap_le fun a ha => ?_
    have hhost := (h.workers a ha).host
    have hbackend := (h.workers a ha).backend
    rw [length_writeWorker]
    omega
  have htenants : (bytesOf (st.tenants.flatMap writeTenant)).length ≤ st.tenants.length * 56 :=
    length_bytesOf_flatMap_le fun t _ => (length_writeTenant t).le
  have hr := h.requestCount
  have hw := h.workerCount
  have ht := h.tenantCount
  simp only [writePayload, ByteWriter.count, bytesOf_append, bytesOf_cons, bytesOf_nil,
    List.length_append, List.length_nil, ByteWriter.length_u64, ByteWriter.length_bool]
  omega

theorem deserializeState_append (h : Header) (rest : List UInt8) :
    deserializeState (bytesOf (writeHeader h) ++ rest) = deserializeRest h rest := by
  simp only [deserializeState, reads_readHeader h rest]

/-- The blob of a snapshot that fits is read back. -/
theorem deserializeState_of_serializeState (h : st.Fits) (hb : serializeState st = .ok b) :
    deserializeState b = .ok st := by
  have hlen : (UInt64.ofNat (bytesOf (writePayload st)).length).toNat =
      (bytesOf (writePayload st)).length :=
    UInt64.toNat_ofNat_of_lt' (length_writePayload h)
  have hread := reads_readPayload h []
  rw [List.append_nil] at hread
  obtain rfl := Except.ok.inj hb
  rw [frame, deserializeState_append, deserializeRest]
  simp only [h.magic, h.version, hlen, List.take_length, ne_eq, not_true_eq_false, if_false,
    Nat.lt_irrefl]
  rw [h.magic, h.version] at hread
  simp only [hread, not_true_eq_false, if_false, validateRecords_eq_ok h.requests]
  rfl

/-- **The round trip**: a snapshot that fits is written, and read back as it was. -/
theorem deserialize_serialize (h : st.Fits) :
    ∃ b, serializeState st = .ok b ∧ deserializeState b = .ok st :=
  ⟨_, rfl, deserializeState_of_serializeState h rfl⟩

/-- A snapshot with a record of each kind, and numbers below zero. -/
def sampleState : PersistedState where
  epoch := 3
  requests :=
    [{ requestId := 1, model := { name := [109] }, promptTokenCount := 9, cachedTokens := 4,
       lifecycle := ⟨5⟩, priority := -7, deadlineNs := -1, hasDeadline := true }]
  workers := [{ workerId := 2, host := [104, 111], state := ⟨2⟩ }]
  tenants := [{ tenantId := 1, waitTotalNs := -5 }]

theorem deserialize_serialize_sampleState :
    ∃ b, serializeState sampleState = .ok b ∧ deserializeState b = .ok sampleState := by
  refine deserialize_serialize ⟨rfl, rfl, fun r hr => ?_, fun a ha => ?_, ?_, ?_, ?_⟩
  · obtain rfl := List.mem_singleton.mp hr
    exact ⟨by decide, by decide, by decide, by decide, by decide, by decide, by decide,
      by decide, by decide⟩
  · obtain rfl := List.mem_singleton.mp ha
    exact ⟨by decide, by decide, by decide⟩
  · decide
  · decide
  · decide

/-! ### Damage -/

theorem length_writeHeader (h : Header) : (bytesOf (writeHeader h)).length = 28 := by
  simp [writeHeader]

/-- The header of the blob of a snapshot. -/
def headerOf (st : PersistedState) : Header where
  magic := st.magic
  version := st.version
  flags := 0
  payloadLen := .ofNat (bytesOf (writePayload st)).length
  checksum := fnv1a64 checksumSeed (bytesOf (writePayload st))

theorem checksum_headerOf (st : PersistedState) :
    (headerOf st).checksum = fnv1a64 checksumSeed (bytesOf (writePayload st)) := by
  rw [headerOf]

theorem serializeState_eq (st : PersistedState) : serializeState st =
    .ok (bytesOf (writeHeader (headerOf st)) ++ bytesOf (writePayload st)) := rfl

/-- The header but for the checksum. -/
theorem writeHeader_eq (h : Header) : ∃ front : List UInt8, front.length = 20 ∧
    ∀ c, bytesOf (writeHeader { h with checksum := c }) = front ++ leBytes 8 c.toNat := by
  refine ⟨bytesOf [ByteWriter.u32 h.magic, ByteWriter.u32 h.version, ByteWriter.u32 h.flags,
    ByteWriter.u64 h.payloadLen], ?_, fun c => ?_⟩
  · simp
  · simp only [writeHeader, bytesOf_cons, bytesOf_nil, List.append_assoc, List.append_nil]
    rfl

/-- Eight bytes are those of a word. -/
theorem exists_leBytes {cs : List UInt8} (h : cs.length = 8) :
    ∃ c : UInt64, leBytes 8 c.toNat = cs := by
  refine ⟨.ofNat (ofLeBytes cs), ?_⟩
  have hmod : leBytes 8 (ofLeBytes cs % 2 ^ 64) = leBytes 8 (ofLeBytes cs) := leBytes_mod 8 _
  rw [UInt64.toNat_ofNat', hmod, ← h, leBytes_ofLeBytes]

/-- A header with one byte of the checksum changed is the header with another checksum. -/
theorem set_writeHeader (h : Header) {i : ℕ} {v : UInt8} (hlow : 20 ≤ i) (hhigh : i < 28)
    (hne : (bytesOf (writeHeader h))[i]? ≠ some v) :
    ∃ c ≠ h.checksum, (bytesOf (writeHeader h)).set i v =
      bytesOf (writeHeader { h with checksum := c }) := by
  obtain ⟨front, hfront, hbytes⟩ := writeHeader_eq h
  have hself : bytesOf (writeHeader h) = front ++ leBytes 8 h.checksum.toNat :=
    hbytes h.checksum
  rw [hself, List.getElem?_append_right (by omega)] at hne
  have hlength : ((leBytes 8 h.checksum.toNat).set (i - front.length) v).length = 8 := by
    rw [List.length_set, length_leBytes]
  obtain ⟨c, hc⟩ := exists_leBytes hlength
  refine ⟨c, ?_, ?_⟩
  · rintro rfl
    refine hne ?_
    rw [hc, List.getElem?_set_self (by rw [length_leBytes]; omega)]
  · rw [hself, hbytes, hc, List.set_append_right _ _ (by omega)]

section

variable {h : Header} {payload : List UInt8} (hmagic : h.magic = kPersistenceMagic)
  (hversion : h.version = kPersistenceVersion)
include hmagic hversion

/-- A payload of which a part is missing. -/
theorem deserializeState_of_length_lt (hlen : payload.length < h.payloadLen.toNat) :
    deserializeState (bytesOf (writeHeader h) ++ payload) =
      .error ⟨.truncation, "payload length exceeds blob"⟩ := by
  rw [deserializeState_append, deserializeRest, if_neg (not_not.mpr hmagic),
    if_neg (not_not.mpr hversion), if_pos hlen]

/-- A payload that does not go with the checksum. -/
theorem deserializeState_of_checksum_ne (hlen : h.payloadLen.toNat = payload.length)
    (hsum : fnv1a64 checksumSeed payload ≠ h.checksum) :
    deserializeState (bytesOf (writeHeader h) ++ payload) =
      .error ⟨.checksumMismatch, "checksum mismatch"⟩ := by
  rw [deserializeState_append, deserializeRest, if_neg (not_not.mpr hmagic),
    if_neg (not_not.mpr hversion), if_neg (by omega), hlen, List.take_length, if_pos hsum]

end

/-- The beginning of a blob cannot be read. -/
theorem deserializeState_take (hmagic : st.magic = kPersistenceMagic)
    (hversion : st.version = kPersistenceVersion) (hb : serializeState st = .ok b)
    (hsize : (bytesOf (writePayload st)).length < 2 ^ 64) {k : ℕ} (hk : k < b.length) :
    ∃ m, deserializeState (b.take k) = .error ⟨.truncation, m⟩ := by
  obtain rfl := Except.ok.inj (hb.symm.trans (serializeState_eq st))
  have hheader := length_writeHeader (headerOf st)
  have hlen : (headerOf st).payloadLen.toNat = (bytesOf (writePayload st)).length :=
    UInt64.toNat_ofNat_of_lt' hsize
  rw [List.length_append] at hk
  rcases Nat.lt_or_ge k 28 with hlt | hge
  · -- not even the header is complete
    have hshort := (fixed_readHeader (List.take k (bytesOf (writeHeader (headerOf st)) ++
      bytesOf (writePayload st)))).1 (by rw [List.length_take]; omega)
    rw [deserializeState, hshort]
    exact ⟨"truncated persistence blob", rfl⟩
  · rw [List.take_append, List.take_of_length_le (by omega)]
    exact ⟨_, deserializeState_of_length_lt hmagic hversion (by rw [List.length_take]; omega)⟩

/-- **Damage is noticed.** The blob of a snapshot of this format is rejected as truncated
wherever it is cut short, and for its checksum if any one byte of the payload or of the
checksum is replaced by another. A blob is a vector, whose size is a number of 64 bits. -/
theorem damage_noticed (hmagic : st.magic = kPersistenceMagic)
    (hversion : st.version = kPersistenceVersion)
    (hb : serializeState st = .ok b) (hsize : b.length < 2 ^ 64) :
    (∀ k < b.length, ∃ m, deserializeState (b.take k) = .error ⟨.truncation, m⟩) ∧
      ∀ i v, 20 ≤ i → i < b.length → b[i]? ≠ some v →
        deserializeState (b.set i v) = .error ⟨.checksumMismatch, "checksum mismatch"⟩ := by
  have hblob := Except.ok.inj (hb.symm.trans (serializeState_eq st))
  have hheader := length_writeHeader (headerOf st)
  have hpayload : (bytesOf (writePayload st)).length < 2 ^ 64 := by
    rw [hblob, List.length_append] at hsize
    exact lt_of_le_of_lt (Nat.le_add_left _ _) hsize
  have hlen : (headerOf st).payloadLen.toNat = (bytesOf (writePayload st)).length :=
    UInt64.toNat_ofNat_of_lt' hpayload
  refine ⟨fun k hk => deserializeState_take hmagic hversion hb hpayload hk, ?_⟩
  subst hblob
  intro i v hlow hhigh hne
  rw [List.length_append] at hhigh
  rcases Nat.lt_or_ge i 28 with hlt | hge
  · rw [List.getElem?_append_left (by omega)] at hne
    obtain ⟨c, hc, hset⟩ := set_writeHeader _ hlow hlt hne
    rw [List.set_append_left _ _ (by omega), hset]
    rw [checksum_headerOf] at hc
    exact deserializeState_of_checksum_ne hmagic hversion hlen hc.symm
  · have hi : i - 28 < (bytesOf (writePayload st)).length := by omega
    rw [List.getElem?_append_right (by omega), hheader, List.getElem?_eq_getElem hi] at hne
    rw [List.set_append_right _ _ (by omega), hheader]
    refine deserializeState_of_checksum_ne hmagic hversion (by rw [List.length_set, hlen]) ?_
    rw [checksum_headerOf]
    exact fnv1a64_set_ne (List.getElem?_eq_getElem hi) (fun hv => hne (by rw [hv])) _

theorem damage_noticed_sampleState :
    ∃ b, serializeState sampleState = .ok b ∧
      (∃ m, deserializeState (b.take 100) = .error ⟨.truncation, m⟩) ∧
      deserializeState (b.set 25 0) = .error ⟨.checksumMismatch, "checksum mismatch"⟩ ∧
      deserializeState (b.set 60 9) = .error ⟨.checksumMismatch, "checksum mismatch"⟩ := by
  have hdamage := @damage_noticed sampleState _ rfl rfl rfl (by decide +kernel)
  exact ⟨_, rfl, hdamage.1 100 (by decide +kernel),
    hdamage.2 25 0 (by decide) (by decide +kernel) (by decide +kernel),
    hdamage.2 60 9 (by decide) (by decide +kernel) (by decide +kernel)⟩

/-! ### What else is accepted -/

theorem eq_of_readHeader {h : Header} {rest : List UInt8} (hr : readHeader b = .ok (h, rest)) :
    b = bytesOf (writeHeader h) ++ rest :=
  Spells.eq_of_blocks [leBytes 4 h.magic.toNat, leBytes 4 h.version.toNat,
    leBytes 4 h.flags.toNat, leBytes 8 h.payloadLen.toNat, leBytes 8 h.checksum.toNat]
    (parses_readHeader.spells hr)

/-- The magic number and the version are those of the header. -/
theorem yields_readPayload (magic version : UInt32) : Yields (readPayload magic version)
    fun st => st.magic = magic ∧ st.version = version :=
  .bind fun _ => .bind fun _ => .bind fun _ => .bind fun _ => .bind fun _ => .bind fun _ =>
  .bind fun _ => .pure ⟨rfl, rfl⟩

/-- **A blob that can be read**: its header is that of this format, all of its payload is there
and goes with the checksum, and the payload spells a snapshot, and nothing else. -/
def Readable (b : List UInt8) (st : PersistedState) : Prop :=
  ∃ header rest, readHeader b = .ok (header, rest) ∧ header.magic = kPersistenceMagic ∧
    header.version = kPersistenceVersion ∧ header.payloadLen.toNat ≤ rest.length ∧
    fnv1a64 checksumSeed (rest.take header.payloadLen.toNat) = header.checksum ∧
    readPayload header.magic header.version (rest.take header.payloadLen.toNat) = .ok (st, [])

/-- What can be read is then checked, record by record. -/
theorem Readable.deserializeState_eq (h : Readable b st) :
    deserializeState b = (validateRecords st.requests).map fun _ => st := by
  obtain ⟨header, rest, hheader, hmagic, hversion, hlen, hsum, hread⟩ := h
  simp only [deserializeState, hheader, deserializeRest, hmagic, hversion, ne_eq,
    not_true_eq_false, if_false, if_neg (Nat.not_lt.mpr hlen), hsum]
  rw [hmagic, hversion] at hread
  simp only [hread, not_true_eq_false, if_false]

/-- **What is accepted**: what can be read, and passes the checks. -/
theorem deserializeState_eq_ok_iff :
    deserializeState b = .ok st ↔ Readable b st ∧ validateRecords st.requests = .ok () := by
  constructor
  · intro h
    cases hheader : readHeader b with
    | error e => simp [deserializeState, hheader] at h
    | ok p =>
      obtain ⟨header, rest⟩ := p
      simp only [deserializeState, hheader, deserializeRest] at h
      split_ifs at h with hmagic hversion hlen hsum
      cases hread : readPayload header.magic header.version
          (rest.take header.payloadLen.toNat) with
      | error e => simp [hread] at h
      | ok q =>
        obtain ⟨st', left⟩ := q
        simp only [hread] at h
        split_ifs at h with hleft
        obtain rfl := not_not.mp hleft
        cases hvalid : validateRecords st'.requests with
        | error e => simp [hvalid, Except.map] at h
        | ok u =>
          obtain rfl : st' = st := by simpa [hvalid, Except.map] using h
          exact ⟨⟨header, rest, hheader, not_not.mp hmagic, not_not.mp hversion,
            Nat.not_lt.mp hlen, not_not.mp hsum, hread⟩, hvalid⟩
  · rintro ⟨hread, hvalid⟩
    rw [hread.deserializeState_eq, hvalid]
    rfl

/-- **What is known of a blob that is accepted**: its header is that of a snapshot of this
format, up to the flags, and what is announced as its payload spells the snapshot. -/
theorem deserializeState_eq_ok (h : deserializeState b = .ok st) :
    ∃ header rest, readHeader b = .ok (header, rest) ∧ header.magic = st.magic ∧
      header.version = st.version ∧ header.payloadLen.toNat ≤ rest.length ∧
      header.checksum = fnv1a64 checksumSeed (rest.take header.payloadLen.toNat) ∧
      Spells (writePayload st) (rest.take header.payloadLen.toNat) [] := by
  obtain ⟨⟨header, rest, hheader, -, -, hlen, hsum, hread⟩, -⟩ := deserializeState_eq_ok_iff.mp h
  obtain ⟨hm, hv⟩ := yields_readPayload _ _ _ _ _ hread
  exact ⟨header, rest, hheader, hm.symm, hv.symm, hlen, hsum.symm,
    (parses_readPayload _ _).spells hread⟩

/-- **A canonical blob** for a snapshot: its flags are zero, nothing comes after the payload
it announces, and every byte of the payload that is a truth value is zero or one. -/
def Canonical (b : List UInt8) (st : PersistedState) : Prop :=
  ∃ header rest, readHeader b = .ok (header, rest) ∧ header.flags = 0 ∧
    rest.length = header.payloadLen.toNat ∧
    ∀ i : ℕ, (maskOf (writePayload st))[i]? = some true → rest[i]? = some 0 ∨ rest[i]? = some 1

/-- **A blob that is accepted is the one that would have been written** exactly if it is
canonical. -/
theorem canonical_iff (h : deserializeState b = .ok st) :
    serializeState st = .ok b ↔ Canonical b st := by
  obtain ⟨header, rest, hheader, hmagic, hversion, hlen, hsum, hspells⟩ :=
    deserializeState_eq_ok h
  obtain rfl := eq_of_readHeader hheader
  have htake := hspells.length_eq
  rw [List.length_take, Nat.min_eq_left hlen, List.length_nil, Nat.add_zero] at htake
  rw [serializeState_eq, Except.ok.injEq]
  constructor
  · intro heq
    obtain ⟨hhead, hrest⟩ := List.append_inj heq
      ((length_writeHeader _).trans (length_writeHeader _).symm)
    have hself : headerOf st = header := by
      refine (reads_readHeader (headerOf st)).eq_of_eq ?_
      rw [hhead]
      exact reads_readHeader header
    have hlength : rest.length = header.payloadLen.toNat := by rw [htake, hrest]
    rw [← hlength, List.take_length] at hspells
    refine ⟨header, rest, hheader, by rw [← hself]; rfl, hlength, ?_⟩
    exact hspells.eq_bytes_iff.mp hrest.symm
  · rintro ⟨header', rest', hheader', hflags, hlength, hbools⟩
    obtain ⟨rfl, rfl⟩ := Prod.mk.inj (Except.ok.inj (hheader.symm.trans hheader'))
    rw [← hlength, List.take_length] at hspells hsum
    have hrest := hspells.eq_bytes_iff.mpr hbools
    have hself : headerOf st = header := by
      obtain ⟨magic, version, flags, payloadLen, checksum⟩ := header
      subst hmagic hversion hflags hsum
      rw [headerOf, ← hrest, hlength, UInt64.ofNat_toNat]
    rw [hself, ← hrest]

theorem canonical_iff_sampleState :
    ∃ b, deserializeState b = .ok sampleState ∧ Canonical b sampleState :=
  ⟨_, by decide +kernel, (@canonical_iff sampleState _ (by decide +kernel)).mp rfl⟩

/-- Three blobs that would never be written: one with flags, one with a byte after its
payload, and one with a truth value of two. Each is accepted, as the same snapshot. -/
theorem not_canonical :
    let st : PersistedState := { wasCleanShutdown := true }
    let payload := bytesOf (writePayload st)
    let flagged := frame kPersistenceMagic kPersistenceVersion 1 payload
    let trailed := frame kPersistenceMagic kPersistenceVersion 0 payload ++ [7]
    let truer := frame kPersistenceMagic kPersistenceVersion 0 (payload.set 24 2)
    (deserializeState flagged = .ok st ∧ serializeState st ≠ .ok flagged) ∧
      (deserializeState trailed = .ok st ∧ serializeState st ≠ .ok trailed) ∧
      (deserializeState truer = .ok st ∧ serializeState st ≠ .ok truer) := by
  decide +kernel

end Wire

end PrefillFabric
