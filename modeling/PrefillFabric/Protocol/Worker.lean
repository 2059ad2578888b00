import PrefillFabric.Coordinator.State
import PrefillFabric.Protocol.Roundtrip

/-!
# Workers

A worker does not have the prompts. With a group it is sent the tokens of the members, cut out
of the prompts and put one after the other, and the offsets at which one member's end and the
next one's begin; from these it makes a resolver of its own (`DispatchResolver`), which knows
for every request of the group a slice of its prompt and where the slice begins. An executor
asks a resolver for tokens by their position in the prompt, and does not know which one it asks.

So there are two ways for an executor to get at the tokens of a member: by an offset into the
prompt in process, and by an offset into a concatenation on a worker. They give the same
results (`worker_results_eq`).
-/

namespace PrefillFabric

open Codec

/-! ### A dispatch as it is sent -/

instance : Enumeration InputLayout where
  values := [.seqMajor, .batchMajor, .packed, .block]
  mem_values v := by cases v <;> decide
  length_values := by decide

/-- A key as it is hashed. -/
def CompatibilityKey.toWire (k : CompatibilityKey) : Wire.CompatibilityKey where
  model := { name := bytesOfString k.model.name, revision := bytesOfString k.model.revision }
  baseModel := bytesOfString k.baseModel
  relation := .of k.relation
  backend := bytesOfString k.backend
  device := .ofNat k.device.value
  layout := .of k.layout
  numericMode := .of k.numericMode
  vocab := { tokenizer := bytesOfString k.vocab.tokenizer, vocabSize := k.vocab.vocabSize }
  executorFamily := bytesOfString k.executorFamily
  policyFingerprint := bytesOfString k.policyFingerprint

/-- A member as it is sent. -/
def ExecutableMember.toWire (m : ExecutableMember) : Wire.ExecutableMember where
  requestId := .ofNat m.requestId.value
  attemptId := .ofNat m.attemptId.value
  generation := .ofNat m.generation.value
  parentGeneration := .ofNat m.parentGeneration.value
  tokenStart := .ofNat m.tokenStart
  tokenCount := .ofNat m.tokenCount
  workKind := .of m.workKind
  memoryEstimateBytes := m.memoryEstimateBytes
  computeEstimate := m.computeEstimate
  assignedWorker := .ofNat m.assignedWorker.value
  memberIndex := .ofNat m.memberIndex

/-- A group as it is sent. -/
def ExecutionGroup.toWire (g : ExecutionGroup) : Wire.ExecutionGroup where
  groupId := .ofNat g.groupId.value
  key := g.key.toWire
  backend := bytesOfString g.backend
  device := .ofNat g.device.value
  members := g.members.map (·.toWire)
  totalTokenCount := .ofNat g.totalTokenCount
  maxMemoryEstimateBytes := g.maxMemoryEstimateBytes
  sumComputeEstimate := g.sumComputeEstimate

/-- A dispatch as it is sent. -/
def Dispatch.toWire (d : Dispatch) : Wire.Message where
  kind := .dispatch
  group := d.group.toWire
  epoch := .ofNat d.epoch.value
  worker := { bootId := .ofNat d.bootId.value }
  memberTokens := d.memberTokens
  memberTokenOffsets := d.memberTokenOffsets.map .ofNat

/-- The member that has been received, with a kind of work. -/
def Wire.ExecutableMember.withKind (w : Wire.ExecutableMember) (workKind : WorkKind) :
    PrefillFabric.ExecutableMember where
  requestId := ⟨w.requestId.toNat⟩
  attemptId := ⟨w.attemptId.toNat⟩
  generation := ⟨w.generation.toNat⟩
  parentGeneration := ⟨w.parentGeneration.toNat⟩
  tokenStart := w.tokenStart.toNat
  tokenCount := w.tokenCount.toNat
  workKind
  memoryEstimateBytes := w.memoryEstimateBytes
  computeEstimate := w.computeEstimate
  assignedWorker := ⟨w.assignedWorker.toNat⟩
  memberIndex := w.memberIndex.toNat

/-- The member that has been received, if its kind of work is declared. -/
def Wire.ExecutableMember.member? (w : Wire.ExecutableMember) :
    Option PrefillFabric.ExecutableMember :=
  w.workKind.value?.map w.withKind

/-- **A member in range**: its numbers are those of the source. -/
structure ExecutableMember.InRange (m : ExecutableMember) : Prop where
  requestId : IsWord m.requestId.value
  attemptId : IsWord m.attemptId.value
  generation : IsWord m.generation.value
  parentGeneration : IsWord m.parentGeneration.value
  tokenStart : IsWord m.tokenStart
  tokenCount : IsWord m.tokenCount
  assignedWorker : IsWord m.assignedWorker.value
  memberIndex : m.memberIndex < 2 ^ 32

theorem ExecutableMember.InRange.member?_toWire {m : ExecutableMember} (h : m.InRange) :
    m.toWire.member? = some m := by
  have hindex : (UInt32.ofNat m.memberIndex).toNat = m.memberIndex :=
    UInt32.toNat_ofNat_of_lt' h.memberIndex
  simp only [toWire, Wire.ExecutableMember.member?, Wire.ExecutableMember.withKind,
    Coded.value?_of, Option.map_some, h.requestId.toNat_ofNat, h.attemptId.toNat_ofNat,
    h.generation.toNat_ofNat, h.parentGeneration.toNat_ofNat, h.tokenStart.toNat_ofNat,
    h.tokenCount.toNat_ofNat, h.assignedWorker.toNat_ofNat, hindex]

theorem length_encMember (m : Wire.ExecutableMember) :
    (bytesOf (Wire.encMember m)).length = 77 := by
  simp [Wire.encMember]

/-- **The length of a dispatch** is what the coordinator takes it for. -/
theorem Dispatch.length_body (d : Dispatch) :
    2 + (bytesOf (Wire.encPayload d.toWire)).length = d.bodyBytes := by
  have hmembers : (bytesOf ((d.group.members.map (·.toWire)).flatMap Wire.encMember)).length =
      77 * d.group.members.length := by
    rw [length_bytesOf_flatMap fun m _ => length_encMember m, List.length_map, Nat.mul_comm]
  have htokens : (bytesOf (d.memberTokens.flatMap fun t => [ByteWriter.u32 t])).length =
      4 * d.memberTokens.length := by
    rw [length_bytesOf_flatMap (n := 4) fun t _ => by simp, Nat.mul_comm]
  have hoffsets : (bytesOf ((d.memberTokenOffsets.map UInt64.ofNat).flatMap fun o =>
      [ByteWriter.u64 o])).length = 8 * d.memberTokenOffsets.length := by
    rw [length_bytesOf_flatMap (n := 8) fun o _ => by simp, List.length_map, Nat.mul_comm]
  have hbackend : (bytesOfString d.group.backend).length = d.group.backend.utf8ByteSize := rfl
  simp only [toWire, Wire.encPayload, Wire.encGroup, ExecutionGroup.toWire, Wire.encCounted,
    bytesOf_append, bytesOf_cons, bytesOf_nil, List.length_append, List.length_nil,
    ByteWriter.length_u64, ByteWriter.length_u32, ByteWriter.length_str, ByteWriter.length_count,
    hmembers, htokens, hoffsets, hbackend, bodyBytes, groupBytes]
  omega

/-! ### Executors and resolvers -/

/-- The result of one member on the CPU, whatever resolves its tokens. -/
def CpuExecutor.executeWith (resolve : RequestId → ℕ → ℕ → Result (List UInt32))
    (m : ExecutableMember) : MemberResult :=
  let mr : MemberResult :=
    { requestId := m.requestId
      attemptId := m.attemptId
      generation := m.generation
      tokensCompleted := m.tokenCount
      nextTokenStart := (m.tokenStart + m.tokenCount) % 2 ^ 64 }
  if m.tokenCount = 0 then
    { mr with
      outcome := .nonRetryableFailure
      failureCode := .invalidArgument
      message := "zero-token member" }
  else
    match resolve m.requestId m.tokenStart m.tokenCount with
    | .error e =>
      { mr with outcome := .nonRetryableFailure, failureCode := e.code, message := e.message }
    | .ok tok =>
      { mr with
        digest := ffMemberDigest m.requestId m.attemptId m.generation (tok.take m.tokenCount)
          m.tokenStart }

theorem CpuExecutor.executeMember_eq (tokens : InMemoryTokenResolver) (m : ExecutableMember) :
    executeMember tokens m = executeWith tokens.resolveTokens m := rfl

/-- The result depends on the tokens the resolver points at, and on no others. -/
theorem CpuExecutor.executeWith_congr {resolve resolve' : RequestId → ℕ → ℕ → Result (List UInt32)}
    {m : ExecutableMember} {tok tok' : List UInt32}
    (h : resolve m.requestId m.tokenStart m.tokenCount = .ok tok)
    (h' : resolve' m.requestId m.tokenStart m.tokenCount = .ok tok')
    (htok : tok.take m.tokenCount = tok'.take m.tokenCount) :
    executeWith resolve m = executeWith resolve' m := by
  simp only [executeWith, h, h', htok]

/-- A slice of a prompt, and where it begins. -/
structure Slice where
  base : ℕ
  data : List UInt32

/-- The slices that came with a dispatch. -/
abbrev DispatchResolver := Table RequestId Slice

namespace DispatchResolver

/-- The pointer to a range of a request's tokens, which must be within the slice. -/
def resolveTokens (t : DispatchResolver) (r : RequestId) (offset count : ℕ) :
    Result (List UInt32) :=
  match t.lookup r with
  | none => .error ⟨.unknownRequest, "no dispatch slice"⟩
  | some s =>
    if offset < s.base ∨ (s.base + s.data.length) % 2 ^ 64 < (offset + count) % 2 ^ 64 then
      .error ⟨.outOfRange, "dispatch slice range"⟩
    else .ok (s.data.drop (offset - s.base))

/-- Enter the slice of one member, between two offsets. One that ends beyond the tokens is
left out. -/
def enter (memberTokens : List UInt32) (t : DispatchResolver)
    (p : ExecutableMember × ℕ × ℕ) : DispatchResolver :=
  if memberTokens.length < p.2.2 then t
  else t.insert p.1.requestId ⟨p.1.tokenStart, (memberTokens.take p.2.2).drop p.2.1⟩

/-- The slices of the members: those of each are between an offset and the next, and a member
for which there are not two offsets is left out. -/
def rebuild (members : List ExecutableMember) (memberTokens : List UInt32)
    (offsets : List ℕ) : DispatchResolver :=
  (members.zip (offsets.zip offsets.tail)).foldl (enter memberTokens) ∅

end DispatchResolver

/-- The results of the members of a group that a worker has received. -/
def Worker.results (m : Wire.Message) : Option (List MemberResult) := do
  let members ← m.group.members.mapM (·.member?)
  let resolver := DispatchResolver.rebuild members m.memberTokens
    (m.memberTokenOffsets.map (·.toNat))
  pure (members.map (CpuExecutor.executeWith resolver.resolveTokens))

/-! ### How a dispatch is put together -/

/-- Append the tokens of members, one after the other, if they are all stored. -/
def Dispatch.assemble (tokens : Table RequestId (List UInt32)) (d : Dispatch) :
    List ExecutableMember → Option Dispatch
  | [] => some d
  | m :: ms =>
    match (tokens.lookup m.requestId).bind fun tvec =>
        readTokens tvec m.tokenStart m.tokenCount with
    | none => none
    | some slice => (d.push m slice).assemble tokens ms

/-- **The loop of the coordinator assembles a dispatch**, as long as nobody stores tokens in
between. -/
theorem Coordinator.loop_iterate {env : Env} {now : Nanoseconds} {written : Bool}
    {c : Coordinator} {dg : DispatchedGroup} {sock : ConnectionId} {d d' : Dispatch}
    {left : List ExecutableMember} {rest : List DispatchedGroup}
    (hloop : c.loop = .slicing dg sock d left rest) (h : d.assemble c.tokens left = some d') :
    (fun c => (c.scheduleLoop env now written).1)^[left.length] c =
      { c with loop := .slicing dg sock d' [] rest } := by
  induction left generalizing c d with
  | nil =>
    obtain rfl := Option.some.inj h
    rw [List.length_nil, Function.iterate_zero, id_eq, ← hloop]
  | cons m left ih =>
    rw [Dispatch.assemble] at h
    split at h
    · cases h
    · rename_i slice hslice
      have hstep : (c.scheduleLoop env now written).1 =
          { c with loop := .slicing dg sock (d.push m slice) left rest } := by
        rw [scheduleLoop, hloop]
        dsimp only
        rw [Coordinator.slice, hslice]
      rw [List.length_cons, Function.iterate_succ_apply, hstep]
      exact ih rfl h

/-! ### The two ways to a token -/

/-- The tokens of a member, as they stand in its prompt. -/
def ExecutableMember.tokens (store : Table RequestId (List UInt32)) (m : ExecutableMember) :
    List UInt32 :=
  (((store.lookup m.requestId).getD []).drop m.tokenStart).take m.tokenCount

/-- The tokens of a member are stored. -/
def ExecutableMember.Stored (store : Table RequestId (List UInt32)) (m : ExecutableMember) : Prop :=
  ∃ tvec, store.lookup m.requestId = some tvec ∧ m.tokenStart + m.tokenCount ≤ tvec.length ∧
    IsWord tvec.length

namespace ExecutableMember.Stored

variable {store : Table RequestId (List UInt32)} {m : ExecutableMember}

theorem length_tokens (h : m.Stored store) : (m.tokens store).length = m.tokenCount := by
  obtain ⟨tvec, hlookup, hle, -⟩ := h
  rw [tokens, hlookup, Option.getD_some, List.length_take, List.length_drop]
  omega

theorem pointInto_eq {tvec : List UInt32} (hle : m.tokenStart + m.tokenCount ≤ tvec.length)
    (hword : IsWord tvec.length) :
    pointInto tvec m.tokenStart m.tokenCount = some (tvec.drop m.tokenStart) := by
  rw [pointInto, Nat.mod_eq_of_lt (lt_of_le_of_lt hle hword), if_neg (Nat.not_lt.mpr hle)]

/-- The coordinator cuts out the tokens of a member. -/
theorem slice_eq (h : m.Stored store) :
    ((store.lookup m.requestId).bind fun tvec => readTokens tvec m.tokenStart m.tokenCount) =
      some (m.tokens store) := by
  obtain ⟨tvec, hlookup, hle, hword⟩ := h
  rw [tokens, hlookup, Option.bind_some, readTokens, pointInto_eq hle hword, Option.map_some,
    Option.getD_some]

/-- An executor in process is pointed at the tokens of a member. -/
theorem resolveTokens_eq (h : m.Stored store) :
    ∃ tok, InMemoryTokenResolver.resolveTokens store m.requestId m.tokenStart m.tokenCount =
      .ok tok ∧ tok.take m.tokenCount = m.tokens store := by
  obtain ⟨tvec, hlookup, hle, hword⟩ := h
  refine ⟨tvec.drop m.tokenStart, ?_, ?_⟩
  · rw [InMemoryTokenResolver.resolveTokens, hlookup, Option.bind_some, pointInto_eq hle hword]
  · rw [tokens, hlookup, Option.getD_some]

end ExecutableMember.Stored

section

variable {store : Table RequestId (List UInt32)} {ms : List ExecutableMember}

/-- **What a dispatch is assembled to**: the tokens of the members, one after the other, and
the sums of their numbers. -/
theorem Dispatch.assemble_eq (h : ∀ m ∈ ms, m.Stored store) {d : Dispatch} {pre : List ℕ} {a : ℕ}
    (hoffsets : d.memberTokenOffsets = pre ++ [a])
    (hsum : a + (ms.map (·.tokenCount)).sum < 2 ^ 64) :
    d.assemble store ms = some
      { d with
        memberTokens := d.memberTokens ++ ms.flatMap (·.tokens store)
        memberTokenOffsets := pre ++ (ms.map (·.tokenCount)).scanl (· + ·) a } := by
  induction ms generalizing d pre a with
  | nil => simp [assemble, ← hoffsets]
  | cons m ms ih =>
    rw [List.map_cons, List.sum_cons] at hsum
    have hpush : (d.push m (m.tokens store)).memberTokenOffsets =
        (pre ++ [a]) ++ [a + m.tokenCount] := by
      rw [push, hoffsets, List.getLastD_concat, Nat.mod_eq_of_lt (by omega)]
    have htl := ih (fun x hx => h x (List.mem_cons_of_mem m hx)) hpush (by omega)
    rw [assemble, (h m List.mem_cons_self).slice_eq]
    dsimp only
    rw [htl]
    simp [push]

namespace DispatchResolver

/-- Who is not a member has no slice. -/
theorem lookup_foldl_enter_of_ne {r : RequestId} (hr : ∀ m ∈ ms, m.requestId ≠ r)
    (buf : List UInt32) (offsets : List (ℕ × ℕ)) (t : DispatchResolver) :
    ((ms.zip offsets).foldl (enter buf) t).lookup r = t.lookup r := by
  induction ms generalizing offsets t with
  | nil => rfl
  | cons m ms ih =>
    rcases offsets with _ | ⟨p, offsets⟩
    · rfl
    · rw [List.zip_cons_cons, List.foldl_cons, ih fun x hx => hr x (List.mem_cons_of_mem m hx),
        enter]
      split_ifs
      · rfl
      · exact AList.lookup_insert_ne (Ne.symm (hr m List.mem_cons_self))

theorem scanl_eq_cons (a : ℕ) (ns : List ℕ) :
    ns.scanl (· + ·) a = a :: (ns.scanl (· + ·) a).tail := by
  cases ns <;> simp

/-- No sum is more than that of all. -/
theorem le_of_mem_scanl {a o : ℕ} {ns : List ℕ} (h : o ∈ ns.scanl (· + ·) a) : o ≤ a + ns.sum := by
  induction ns generalizing a with
  | nil =>
    rw [List.scanl_nil, List.mem_singleton] at h
    omega
  | cons n ns ih =>
    rw [List.scanl_cons] at h
    rw [List.sum_cons]
    rcases List.mem_cons.mp h with rfl | h
    · omega
    · have hle := ih h
      omega

/-- **Every member has its slice**, if no two are of one request. -/
theorem lookup_foldl_enter (h : ∀ m ∈ ms, m.Stored store)
    (hids : (ms.map (·.requestId)).Nodup) {pre : List UInt32} {a : ℕ} (hpre : pre.length = a)
    (t : DispatchResolver) {m : ExecutableMember} (hm : m ∈ ms) :
    ((ms.zip (((ms.map (·.tokenCount)).scanl (· + ·) a).zip
        ((ms.map (·.tokenCount)).scanl (· + ·) a).tail)).foldl
      (enter (pre ++ ms.flatMap (·.tokens store))) t).lookup m.requestId =
      some ⟨m.tokenStart, m.tokens store⟩ := by
  induction ms generalizing pre a t with
  | nil => cases hm
  | cons x ms ih =>
    have hx := (h x List.mem_cons_self).length_tokens
    obtain ⟨hnot, hnodup⟩ := List.nodup_cons.mp hids
    have hstored (y : ExecutableMember) (hy : y ∈ ms) := h y (List.mem_cons_of_mem x hy)
    -- the first slice is entered, and the rest is as if what is before it were longer
    have hslice : ((pre ++ (x.tokens store ++ ms.flatMap (·.tokens store))).take
        (a + x.tokenCount)).drop a = x.tokens store := by
      rw [← hpre, ← hx, List.take_length_add_append, List.take_left', List.drop_left' rfl]
      rfl
    have henter : enter (pre ++ (x.tokens store ++ ms.flatMap (·.tokens store))) t
        (x, a, a + x.tokenCount) = t.insert x.requestId ⟨x.tokenStart, x.tokens store⟩ := by
      rw [enter, if_neg, hslice]
      simp only [List.length_append, hx, hpre]
      omega
    rw [List.map_cons, List.scanl_cons, List.tail_cons, List.flatMap_cons]
    rw [scanl_eq_cons (a + x.tokenCount), List.zip_cons_cons, List.zip_cons_cons, List.foldl_cons,
      ← scanl_eq_cons, henter, ← List.append_assoc]
    rcases List.mem_cons.mp hm with rfl | hm
    · rw [lookup_foldl_enter_of_ne, AList.lookup_insert]
      intro y hy heq
      exact hnot (List.mem_map.mpr ⟨y, hy, heq⟩)
    · refine ih hstored hnodup ?_ _ hm
      rw [List.length_append, hpre, hx]

/-- The slice of a member is its tokens. -/
theorem lookup_rebuild_of_stored (h : ∀ m ∈ ms, m.Stored store)
    (hids : (ms.map (·.requestId)).Nodup) {m : ExecutableMember} (hm : m ∈ ms) :
    (rebuild ms (ms.flatMap (·.tokens store))
        ((ms.map (·.tokenCount)).scanl (· + ·) 0)).lookup m.requestId =
      some ⟨m.tokenStart, m.tokens store⟩ := by
  have hlookup := lookup_foldl_enter h hids (List.length_nil (α := UInt32)) ∅ hm
  rwa [List.nil_append] at hlookup

/-- An executor on a worker is pointed at the tokens of a member. -/
theorem resolveTokens_rebuild (h : ∀ m ∈ ms, m.Stored store)
    (hids : (ms.map (·.requestId)).Nodup) {m : ExecutableMember} (hm : m ∈ ms) :
    (rebuild ms (ms.flatMap (·.tokens store))
        ((ms.map (·.tokenCount)).scanl (· + ·) 0)).resolveTokens m.requestId m.tokenStart
      m.tokenCount = .ok (m.tokens store) := by
  rw [resolveTokens, lookup_rebuild_of_stored h hids hm]
  dsimp only
  rw [if_neg, Nat.sub_self, List.drop_zero]
  rw [(h m hm).length_tokens]
  omega

end DispatchResolver

end

/-! ### The results -/

/-- **A group in range**, within the limits of a frame. -/
structure ExecutionGroup.InRange (g : ExecutionGroup) : Prop where
  members : ∀ m ∈ g.members, m.InRange
  backend : IsShort g.backend
  memberCount : g.members.length < 2 ^ 20
  tokenCount : (g.members.map (·.tokenCount)).sum ≤ 2 ^ 28

/-- **A dispatch arrives.** The coordinator assembles it from the tokens that are stored, and what
is decoded has the members, their tokens one after the other and the sums of their numbers. -/
theorem Dispatch.decodeFrame_assemble {g : ExecutionGroup} {store : InMemoryTokenResolver}
    (hrange : g.InRange) (hstored : ∀ m ∈ g.members, m.Stored store) (epoch : Epoch)
    (bootId : WorkerBootId) :
    ∃ d body m, Dispatch.assemble store ⟨g, epoch, bootId, [], [0]⟩ g.members = some d ∧
      Wire.encodeFrame d.toWire = .ok body ∧ Wire.decodeFrame body = .ok m ∧
      m.group.members.mapM (·.member?) = some g.members ∧
      m.memberTokens = g.members.flatMap (·.tokens store) ∧
      m.memberTokenOffsets.map (·.toNat) = (g.members.map (·.tokenCount)).scanl (· + ·) 0 := by
  have hsum := hrange.tokenCount
  have hassemble := Dispatch.assemble_eq hstored (d := ⟨g, epoch, bootId, [], [0]⟩)
    (List.nil_append [0]).symm (by omega)
  have htokens : (g.members.flatMap (·.tokens store)).length =
      (g.members.map (·.tokenCount)).sum := by
    rw [List.length_flatMap]
    exact congrArg List.sum (List.map_congr_left fun m hm => (hstored m hm).length_tokens)
  refine ⟨_, _, _, hassemble, Wire.encodeFrame_eq _, Wire.decodeFrame_eq_carried ?_, ?_,
    List.nil_append _, ?_⟩
  · refine ⟨⟨hrange.backend, ?_, ?_⟩, ?_, ?_⟩
    · simp only [Dispatch.toWire, ExecutionGroup.toWire, List.mem_map]
      rintro _ ⟨m, -, rfl⟩
      exact Coded.fits_of m.workKind
    · have hcount := hrange.memberCount
      simp only [Dispatch.toWire, ExecutionGroup.toWire, List.length_map]
      omega
    · simp only [Dispatch.toWire, List.nil_append, htokens]
      exact hsum
    · have hcount := hrange.memberCount
      simp only [Dispatch.toWire, List.nil_append, List.length_map, List.length_scanl]
      omega
  · exact mapM_map fun m hm => (hrange.members m hm).member?_toWire
  · -- no sum of numbers of tokens is too large for a word
    change (((g.members.map (·.tokenCount)).scanl (· + ·) 0).map UInt64.ofNat).map (·.toNat) = _
    rw [List.map_map]
    refine (List.map_congr_left fun o ho => ?_).trans (List.map_id _)
    have hle := DispatchResolver.le_of_mem_scanl ho
    exact UInt64.toNat_ofNat_of_lt' (by rw [UInt64.size]; omega)

/-- **A worker computes what would be computed in process.** For a group of different requests
whose tokens are stored, the coordinator assembles a dispatch, the frame is decoded, and the
results of the CPU executor on the slices that came with it are those on the whole prompts. -/
theorem worker_results_eq {g : ExecutionGroup} {store : InMemoryTokenResolver}
    (hrange : g.InRange) (hids : (g.members.map (·.requestId)).Nodup)
    (hstored : ∀ m ∈ g.members, m.Stored store) (epoch : Epoch) (bootId : WorkerBootId) :
    ∃ d body m r, Dispatch.assemble store ⟨g, epoch, bootId, [], [0]⟩ g.members = some d ∧
      Wire.encodeFrame d.toWire = .ok body ∧ Wire.decodeFrame body = .ok m ∧
      cpuExecutor.execute g store = .ok r ∧ Worker.results m = some r.members := by
  obtain ⟨d, body, m, hassemble, henc, hdec, hmembers, htokens, hoffsets⟩ :=
    Dispatch.decodeFrame_assemble hrange hstored epoch bootId
  refine ⟨d, body, m, _, hassemble, henc, hdec, rfl, ?_⟩
  simp only [Worker.results, hmembers, htokens, hoffsets, Option.bind_eq_bind, Option.bind_some,
    Option.pure_def, Option.some.injEq]
  refine List.map_congr_left fun x hx => ?_
  obtain ⟨tok, htok, htake⟩ := (hstored x hx).resolveTokens_eq
  rw [CpuExecutor.executeMember_eq]
  refine CpuExecutor.executeWith_congr
    (DispatchResolver.resolveTokens_rebuild hstored hids hx) htok ?_
  rw [htake, List.take_of_length_le (hstored x hx).length_tokens.le]

/-- Two members, of which one is not at the beginning of its prompt. -/
def twoMembers : ExecutionGroup where
  members :=
    [{ requestId := ⟨1⟩, tokenStart := 1, tokenCount := 2 }, { requestId := ⟨2⟩, tokenCount := 1 }]

/-- Their prompts. -/
def twoPrompts : InMemoryTokenResolver :=
  AList.insert (⟨2⟩ : RequestId) [5] (AList.insert ⟨1⟩ [7, 8, 9] ∅)

theorem worker_results_eq_twoMembers :
    ∃ d body m r,
      Dispatch.assemble twoPrompts ⟨twoMembers, ⟨1⟩, ⟨1⟩, [], [0]⟩ twoMembers.members = some d ∧
      Wire.encodeFrame d.toWire = .ok body ∧ Wire.decodeFrame body = .ok m ∧
      cpuExecutor.execute twoMembers twoPrompts = .ok r ∧ Worker.results m = some r.members := by
  refine worker_results_eq ⟨?_, by decide, by decide, by decide⟩ (by decide) ?_ ⟨1⟩ ⟨1⟩
  · simp only [twoMembers, List.mem_cons, List.not_mem_nil, or_false]
    rintro m (rfl | rfl) <;> constructor <;> decide
  · simp only [twoMembers, List.mem_cons, List.not_mem_nil, or_false]
    rintro m (rfl | rfl)
    · exact ⟨[7, 8, 9], rfl, by decide, by decide⟩
    · exact ⟨[5], rfl, by decide, by decide⟩

end PrefillFabric
