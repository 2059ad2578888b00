import PrefillFabric.Protocol.Worker

/-!
# Slices

The offsets that come with a dispatch, where its members begin and how many tokens they have are
64-bit numbers that nothing has related to each other or to the tokens. A worker checks some of
it, and this is about what it does not check.

It cuts a slice out of the tokens for every member that has two offsets, if the second one is not
beyond the tokens (`DispatchResolver.copied`). That the first one is not beyond the second is left
to whoever has sent the dispatch. A resolver is then asked for a range of a slice. Both resolvers
compare where the range ends with where the slice does, and both sums are sums of 64 bits: a range
that ends beyond the last number passes if what is left of its end is small enough (`Wraps`).

Nothing else goes wrong (`Wire.Message.slices_inside_iff`). In particular the dispatches of a
coordinator are all right (`Dispatch.inside_assemble`).
-/

namespace PrefillFabric

open Codec

/-! ### Ranges -/

/-- **A range that wraps around**: it begins in the slice or after it and ends beyond the last
number, and the rest of its end is not beyond the end of the slice. -/
structure Wraps (base size offset count : ℕ) : Prop where
  base_le : base ≤ offset
  end_lt : base + size < 2 ^ 64
  le_end : 2 ^ 64 ≤ offset + count
  end_le : offset + count ≤ 2 ^ 64 + (base + size)

/-- **What the comparison of the ends is worth**: a range that passes is within the slice, unless
it wraps around. That the end of the slice wraps around does no harm. -/
theorem le_size_iff_not_wraps {base size offset count : ℕ} (hbase : IsWord base)
    (hsize : IsWord size) (hoffset : IsWord offset) (hcount : IsWord count) :
    (base ≤ offset → (offset + count) % 2 ^ 64 ≤ (base + size) % 2 ^ 64 →
        offset - base + count ≤ size) ↔ ¬Wraps base size offset count := by
  simp only [IsWord] at hbase hsize hoffset hcount
  constructor
  · rintro h ⟨hle, hlt, hend, hrest⟩
    have hin := h hle (by omega)
    omega
  · intro h hle hpass
    by_contra hout
    exact h ⟨hle, by omega, by omega, by omega⟩

/-- What is returned is within what it points into, exactly if whatever passes the check is. -/
theorem forall_ok_iff {α : Type} {found : Option α} {Passes Within : α → Prop}
    {point : α → List UInt32} {result : Result (List UInt32)}
    (h : ∀ tok, result = .ok tok ↔ ∃ a, found = some a ∧ Passes a ∧ tok = point a) :
    (∀ tok, result = .ok tok → ∃ a, found = some a ∧ tok = point a ∧ Within a) ↔
      ∀ a, found = some a → Passes a → Within a := by
  constructor
  · intro hwithin a ha hpass
    obtain ⟨a', ha', -, hin⟩ := hwithin (point a) ((h _).mpr ⟨a, ha, hpass, rfl⟩)
    obtain rfl := Option.some.inj (ha.symm.trans ha')
    exact hin
  · intro hpasses tok htok
    obtain ⟨a, ha, hpass, rfl⟩ := (h tok).mp htok
    exact ⟨a, ha, rfl, hpasses a ha hpass⟩

namespace InMemoryTokenResolver

variable {t : InMemoryTokenResolver} {r : RequestId}

/-- The tokens of every prompt can be counted. -/
def Countable (t : InMemoryTokenResolver) : Prop :=
  ∀ r tokens, t.lookup r = some tokens → IsWord tokens.length

theorem countable_registerRequest {t' : InMemoryTokenResolver} {req : PrefillRequest}
    {tokens : List UInt32} (h : t.Countable) (hreg : t.registerRequest req tokens = .ok t') :
    t'.Countable := by
  rw [registerRequest] at hreg
  split_ifs at hreg with hlen
  obtain rfl := Except.ok.inj hreg
  intro r tokens' hlookup
  rcases eq_or_ne r req.requestId with rfl | hne
  · rw [AList.lookup_insert] at hlookup
    obtain rfl := Option.some.inj hlookup
    rw [not_not.mp hlen]
    exact UInt64.toNat_lt _
  · exact h r tokens' (by rwa [AList.lookup_insert_ne hne] at hlookup)

/-- Where a pointer is returned, the range that was asked for is within the prompt. -/
def Inside (t : InMemoryTokenResolver) (r : RequestId) (offset count : ℕ) : Prop :=
  ∀ tok, t.resolveTokens r offset count = .ok tok → ∃ tokens, t.lookup r = some tokens ∧
    tok = tokens.drop offset ∧ offset + count ≤ tokens.length

theorem resolveTokens_eq_ok_iff {offset count : ℕ} {tok : List UInt32} :
    t.resolveTokens r offset count = .ok tok ↔ ∃ tokens, t.lookup r = some tokens ∧
      (offset + count) % 2 ^ 64 ≤ tokens.length ∧ tok = tokens.drop offset := by
  rw [resolveTokens]
  cases hlookup : t.lookup r with
  | none => simp
  | some tokens =>
    rw [Option.bind_some, pointInto]
    split_ifs with hlt
    · simp only [Option.some.injEq, exists_eq_left', false_iff]
      omega
    · simp only [Except.ok.injEq, Option.some.injEq, exists_eq_left', Nat.not_lt.mp hlt, true_and]
      exact eq_comm

/-- **In process** a range is within the prompt unless it wraps around. -/
theorem inside_iff_not_wraps (h : t.Countable) {offset count : ℕ} (hoffset : IsWord offset)
    (hcount : IsWord count) :
    t.Inside r offset count ↔
      ∀ tokens, t.lookup r = some tokens → ¬Wraps 0 tokens.length offset count := by
  refine (forall_ok_iff fun _ => resolveTokens_eq_ok_iff).trans
    (forall₂_congr fun tokens hlookup => ?_)
  have hword := h r tokens hlookup
  have hin := le_size_iff_not_wraps (Nat.two_pow_pos 64 : IsWord 0) hword hoffset hcount
  simpa only [Nat.zero_le, true_implies, Nat.zero_add, Nat.sub_zero, Nat.mod_eq_of_lt hword]
    using hin

end InMemoryTokenResolver

namespace DispatchResolver

variable {t : DispatchResolver} {r : RequestId}

/-- Where a pointer is returned, the range that was asked for is within the slice. -/
def Inside (t : DispatchResolver) (r : RequestId) (offset count : ℕ) : Prop :=
  ∀ tok, t.resolveTokens r offset count = .ok tok → ∃ s, t.lookup r = some s ∧
    tok = s.data.drop (offset - s.base) ∧ offset - s.base + count ≤ s.data.length

theorem resolveTokens_eq_ok_iff {offset count : ℕ} {tok : List UInt32} :
    t.resolveTokens r offset count = .ok tok ↔ ∃ s, t.lookup r = some s ∧
      (s.base ≤ offset ∧ (offset + count) % 2 ^ 64 ≤ (s.base + s.data.length) % 2 ^ 64) ∧
      tok = s.data.drop (offset - s.base) := by
  rw [resolveTokens]
  cases hlookup : t.lookup r with
  | none => simp
  | some s =>
    dsimp only
    split_ifs with hout
    · simp only [Option.some.injEq, exists_eq_left', false_iff]
      omega
    · obtain ⟨hle, hpass⟩ := not_or.mp hout
      simp only [Except.ok.injEq, Option.some.injEq, exists_eq_left', Nat.not_lt.mp hle,
        Nat.not_lt.mp hpass, and_self, true_and]
      exact eq_comm

/-- **On a worker** a range is within the slice unless it wraps around. -/
theorem inside_iff_not_wraps (h : ∀ s, t.lookup r = some s → IsWord s.base ∧ IsWord s.data.length)
    {offset count : ℕ} (hoffset : IsWord offset) (hcount : IsWord count) :
    t.Inside r offset count ↔
      ∀ s, t.lookup r = some s → ¬Wraps s.base s.data.length offset count := by
  refine (forall_ok_iff fun _ => resolveTokens_eq_ok_iff).trans
    (forall₂_congr fun s hlookup => ?_)
  rw [and_imp]
  exact le_size_iff_not_wraps (h s hlookup).1 (h s hlookup).2 hoffset hcount

/-! ### Copies -/

section

variable {members : List ExecutableMember} {memberTokens : List UInt32} {offsets : List ℕ}

/-- The members of which a slice is copied, each with where it begins and ends. -/
def copied (members : List ExecutableMember) (memberTokens : List UInt32) (offsets : List ℕ) :
    List (ExecutableMember × ℕ × ℕ) :=
  (members.zip (offsets.zip offsets.tail)).filter fun p => p.2.2 ≤ memberTokens.length

/-- The last copy of a request, which is the one that is kept. -/
def kept (copies : List (ExecutableMember × ℕ × ℕ)) (r : RequestId) :
    Option (ExecutableMember × ℕ × ℕ) :=
  copies.reverse.find? fun p => decide (p.1.requestId = r)

/-- The slice of a copy. -/
def sliceOf (memberTokens : List UInt32) (p : ExecutableMember × ℕ × ℕ) : Slice :=
  ⟨p.1.tokenStart, (memberTokens.take p.2.2).drop p.2.1⟩

theorem rebuild_eq_foldl_copied : rebuild members memberTokens offsets =
    (copied members memberTokens offsets).foldl
      (fun t p => t.insert p.1.requestId (sliceOf memberTokens p)) ∅ := by
  rw [rebuild, copied, List.foldl_filter]
  refine congrArg (fun f => List.foldl f ∅ _) (funext fun t => funext fun p => ?_)
  rw [enter]
  rcases Nat.lt_or_ge memberTokens.length p.2.2 with hlt | hle
  · rw [if_pos hlt, if_neg (by simpa using hlt)]
  · rw [if_neg (Nat.not_lt.mpr hle), if_pos (by simpa using hle), sliceOf]

/-- **The slices of a worker** are those of the copies that are kept. -/
theorem lookup_rebuild (r : RequestId) : (rebuild members memberTokens offsets).lookup r =
    (kept (copied members memberTokens offsets) r).map (sliceOf memberTokens) := by
  rw [rebuild_eq_foldl_copied, AList.lookup_foldl_insert_eq_find, AList.lookup_empty,
    Option.or_none]
  rfl

theorem mem_of_kept {copies : List (ExecutableMember × ℕ × ℕ)} {p : ExecutableMember × ℕ × ℕ}
    (h : kept copies r = some p) : p ∈ copies :=
  List.mem_reverse.mp (List.mem_of_find?_eq_some h)

theorem le_length_of_mem_copied {p : ExecutableMember × ℕ × ℕ}
    (h : p ∈ copied members memberTokens offsets) : p.2.2 ≤ memberTokens.length :=
  of_decide_eq_true (List.mem_filter.mp h).2

theorem length_sliceOf {p : ExecutableMember × ℕ × ℕ} (h : p.2.2 ≤ memberTokens.length) :
    (sliceOf memberTokens p).data.length = p.2.2 - p.2.1 := by
  rw [sliceOf, List.length_drop, List.length_take, Nat.min_eq_left h]

/-- A copy by the place of its member. -/
theorem mem_copied_iff {p : ExecutableMember × ℕ × ℕ} :
    p ∈ copied members memberTokens offsets ↔ p.2.2 ≤ memberTokens.length ∧
      ∃ i, members[i]? = some p.1 ∧ offsets[i]? = some p.2.1 ∧ offsets[i + 1]? = some p.2.2 := by
  rw [copied, List.mem_filter, decide_eq_true_eq, List.mem_iff_getElem?, and_comm]
  refine and_congr_right fun _ => exists_congr fun i => ?_
  obtain ⟨m, a, b⟩ := p
  simp [List.getElem?_zip_eq_some, List.getElem?_tail]

end

end DispatchResolver

/-! ### Messages -/

namespace Wire

/-- The member that has been received, with another kind of work in the place of one that is not
declared. -/
def ExecutableMember.memberOr (w : ExecutableMember) (k : WorkKind) :
    PrefillFabric.ExecutableMember :=
  w.withKind (w.workKind.value?.getD k)

theorem ExecutableMember.memberOr_eq {w : ExecutableMember} {x : PrefillFabric.ExecutableMember}
    (h : w.member? = some x) (k : WorkKind) : w.memberOr k = x := by
  obtain ⟨kind, hkind, rfl⟩ := Option.map_eq_some_iff.mp h
  rw [memberOr, hkind, Option.getD_some]

namespace Message

variable {body : List UInt8} {m : Message}

/-- What a worker copies of a dispatch. -/
def copied (m : Message) (k : WorkKind) : List (PrefillFabric.ExecutableMember × ℕ × ℕ) :=
  DispatchResolver.copied (m.group.members.map (·.memberOr k)) m.memberTokens
    (m.memberTokenOffsets.map (·.toNat))

/-- The resolver a worker makes of a dispatch. -/
def resolver (m : Message) (k : WorkKind) : DispatchResolver :=
  DispatchResolver.rebuild (m.group.members.map (·.memberOr k)) m.memberTokens
    (m.memberTokenOffsets.map (·.toNat))

/-- It is the one the results are computed with. -/
theorem results_eq_resolver {members : List PrefillFabric.ExecutableMember}
    (h : m.group.members.mapM (·.member?) = some members) (k : WorkKind) :
    Worker.results m =
      some (members.map (CpuExecutor.executeWith (m.resolver k).resolveTokens)) := by
  rw [resolver, map_eq_of_mapM (fun _ _ hw => ExecutableMember.memberOr_eq hw k) h,
    Worker.results, h]
  rfl

/-- What is accepted has been read from a payload. -/
theorem exists_decPayload (h : decodeFrame body = .ok m) :
    ∃ kind payload rest, decPayload kind payload = .ok (m, rest) := by
  rcases body with _ | ⟨version, _ | ⟨kindByte, payload⟩⟩
  · cases h
  · cases h
  · rw [decodeFrame] at h
    cases hkind : MsgKind.ofByte? kindByte with
    | none =>
      rw [hkind] at h
      cases h
    | some kind =>
      rw [hkind] at h
      dsimp only [decodeBody] at h
      split_ifs at h
      cases hread : decPayload kind payload with
      | error e =>
        rw [hread] at h
        cases h
      | ok p =>
        rw [hread] at h
        obtain rfl := Except.ok.inj h
        exact ⟨kind, payload, p.2, hread⟩

/-- No message brings more tokens than the limit. -/
theorem yields_memberTokens (kind : MsgKind) :
    Yields (decPayload kind) fun m => m.memberTokens.length ≤ 2 ^ 28 := by
  cases kind
  case dispatch =>
    exact .bind fun _ => (ByteReader.length_counted_le _ _ _).bind_of fun _ hlen =>
      .bind fun _ => .bind fun _ => .bind fun _ => .pure hlen
  all_goals
    repeat refine .bind fun _ => ?_
    exact .pure (Nat.zero_le _)

theorem length_memberTokens_le (h : decodeFrame body = .ok m) :
    m.memberTokens.length ≤ 2 ^ 28 := by
  obtain ⟨kind, payload, rest, hread⟩ := exists_decPayload h
  exact yields_memberTokens kind payload m rest hread

/-- **The offsets ascend** from where a slice begins to where it ends, if there are tokens up to
there. -/
def Ascending (m : Message) : Prop :=
  ∀ (i : ℕ) (first last : UInt64), i < m.group.members.length →
    m.memberTokenOffsets[i]? = some first → m.memberTokenOffsets[i + 1]? = some last →
    last.toNat ≤ m.memberTokens.length → first ≤ last

theorem ascending_iff_copied (k : WorkKind) : m.Ascending ↔ ∀ p ∈ m.copied k, p.2.1 ≤ p.2.2 := by
  constructor
  · intro h p hp
    obtain ⟨hle, i, hmember, hfirst, hlast⟩ := DispatchResolver.mem_copied_iff.mp hp
    rw [List.getElem?_map, Option.map_eq_some_iff] at hmember hfirst hlast
    obtain ⟨x, hx, -⟩ := hmember
    obtain ⟨first, hfirst, hfirst'⟩ := hfirst
    obtain ⟨last, hlast, hlast'⟩ := hlast
    rw [← hlast'] at hle
    rw [← hfirst', ← hlast']
    exact UInt64.le_iff_toNat_le.mp
      (h i first last (List.getElem?_eq_some_iff.mp hx).1 hfirst hlast hle)
  · intro h i first last hi hfirst hlast hle
    have hp : ((m.group.members[i]).memberOr k, first.toNat, last.toNat) ∈ m.copied k := by
      refine DispatchResolver.mem_copied_iff.mpr ⟨hle, i, ?_, ?_, ?_⟩
      · rw [List.getElem?_map, List.getElem?_eq_getElem hi, Option.map_some]
      · rw [List.getElem?_map, hfirst, Option.map_some]
      · rw [List.getElem?_map, hlast, Option.map_some]
    exact UInt64.le_iff_toNat_le.mpr (h _ hp)

/-- What is copied begins at a number of 64 bits. -/
theorem isWord_tokenStart_of_mem_copied {k : WorkKind}
    {p : PrefillFabric.ExecutableMember × ℕ × ℕ} (h : p ∈ m.copied k) :
    IsWord p.1.tokenStart := by
  obtain ⟨-, i, hmember, -⟩ := DispatchResolver.mem_copied_iff.mp h
  rw [List.getElem?_map, Option.map_eq_some_iff] at hmember
  obtain ⟨x, -, hx⟩ := hmember
  rw [← hx]
  exact UInt64.toNat_lt _

/-- The resolver of a dispatch that has been accepted: a range is within its slice unless it
wraps around. -/
theorem inside_resolver_iff (h : decodeFrame body = .ok m) (k : WorkKind) (r : RequestId)
    {offset count : ℕ} (hoffset : IsWord offset) (hcount : IsWord count) :
    (m.resolver k).Inside r offset count ↔
      ∀ p, DispatchResolver.kept (m.copied k) r = some p →
        ¬Wraps p.1.tokenStart (p.2.2 - p.2.1) offset count := by
  have hlen := length_memberTokens_le h
  have hlookup : (m.resolver k).lookup r = _ := DispatchResolver.lookup_rebuild r
  -- a slice is one that has been copied
  have hslice (p : PrefillFabric.ExecutableMember × ℕ × ℕ)
      (hp : DispatchResolver.kept (m.copied k) r = some p) :
      IsWord (DispatchResolver.sliceOf m.memberTokens p).base ∧
        (DispatchResolver.sliceOf m.memberTokens p).data.length = p.2.2 - p.2.1 ∧
        p.2.2 ≤ m.memberTokens.length := by
    have hmem := DispatchResolver.mem_of_kept hp
    have hle := DispatchResolver.le_length_of_mem_copied hmem
    exact ⟨isWord_tokenStart_of_mem_copied hmem, DispatchResolver.length_sliceOf hle, hle⟩
  rw [DispatchResolver.inside_iff_not_wraps _ hoffset hcount]
  · rw [hlookup]
    simp only [Option.map_eq_some_iff, forall_exists_index, and_imp, forall_apply_eq_imp_iff₂]
    refine forall₂_congr fun p hp => ?_
    rw [(hslice p hp).2.1]
    rfl
  · rw [hlookup]
    simp only [Option.map_eq_some_iff, forall_exists_index, and_imp, forall_apply_eq_imp_iff₂]
    intro p hp
    obtain ⟨hbase, hdata, hle⟩ := hslice p hp
    refine ⟨hbase, ?_⟩
    rw [hdata, IsWord]
    omega

/-- **What a worker reads is there**, for every message that is accepted and every range: slices
are copied from within the tokens and pointers are to ranges within the slices if and only if the
offsets ascend and the range does not wrap around. The same is true of a pointer in process. -/
theorem slices_inside_iff (h : decodeFrame body = .ok m) (k : WorkKind)
    {store : InMemoryTokenResolver} (hstore : store.Countable) (r : RequestId)
    (offset count : UInt64) :
    ((∀ p ∈ m.copied k, p.2.1 ≤ p.2.2 ∧ p.2.2 ≤ m.memberTokens.length) ∧
        (m.resolver k).Inside r offset.toNat count.toNat ∧
        store.Inside r offset.toNat count.toNat) ↔
      m.Ascending ∧
        (∀ p, DispatchResolver.kept (m.copied k) r = some p →
          ¬Wraps p.1.tokenStart (p.2.2 - p.2.1) offset.toNat count.toNat) ∧
        ∀ tokens, store.lookup r = some tokens →
          ¬Wraps 0 tokens.length offset.toNat count.toNat := by
  rw [inside_resolver_iff h k r (UInt64.toNat_lt _) (UInt64.toNat_lt _),
    InMemoryTokenResolver.inside_iff_not_wraps hstore (UInt64.toNat_lt _) (UInt64.toNat_lt _),
    ascending_iff_copied k]
  refine and_congr_left fun _ => forall₂_congr fun p hp => ?_
  exact and_iff_left (DispatchResolver.le_length_of_mem_copied hp)

end Message

/-- A dispatch with one member. -/
def dispatchOf (x : ExecutableMember) (tokens : List UInt32) (offsets : List UInt64) : Message where
  kind := .dispatch
  group := { members := [x] }
  memberTokens := tokens
  memberTokenOffsets := offsets

theorem decodeFrame_dispatchOf (x : ExecutableMember) (tokens : List UInt32)
    (offsets : List UInt64) (hkind : x.workKind.Fits) (htokens : tokens.length ≤ 2 ^ 28)
    (hoffsets : offsets.length ≤ 2 ^ 20) :
    ∃ body, encodeFrame (dispatchOf x tokens offsets) = .ok body ∧
      decodeFrame body = .ok (dispatchOf x tokens offsets).carried := by
  have hfits : (dispatchOf x tokens offsets).Fits :=
    ⟨⟨(by decide : ({} : ExecutionGroup).backend.length ≤ 2 ^ 32),
      fun y hy => List.mem_singleton.mp hy ▸ hkind, (by decide : 1 < 2 ^ 32)⟩, htokens, hoffsets⟩
  exact ⟨_, encodeFrame_eq _, decodeFrame_eq_carried hfits⟩

/-- A member whose slice is as long as it should be. -/
def fairDispatch : Message :=
  dispatchOf { requestId := 1, tokenStart := 1, tokenCount := 2 } [7, 8] [0, 2]

/-- A member whose slice ends before it begins. -/
def backwardDispatch : Message := dispatchOf { requestId := 1, tokenCount := 1 } [7, 8] [2, 1]

/-- A member that is said to have as many tokens as there are numbers, less one. -/
def endlessDispatch : Message :=
  dispatchOf { requestId := 1, tokenStart := 1, tokenCount := 2 ^ 64 - 1 } [7] [0, 1]

/-- A prompt of one token. -/
def oneToken : InMemoryTokenResolver := AList.insert (⟨1⟩ : RequestId) [7] ∅

theorem slices_inside_fairDispatch :
    ∃ body m, encodeFrame fairDispatch = .ok body ∧ decodeFrame body = .ok m ∧
      (∀ p ∈ m.copied .fullPrompt, p.2.1 ≤ p.2.2 ∧ p.2.2 ≤ m.memberTokens.length) ∧
      (m.resolver .fullPrompt).Inside ⟨1⟩ 1 2 ∧ oneToken.Inside ⟨1⟩ 1 2 := by
  obtain ⟨body, henc, hdec⟩ := decodeFrame_dispatchOf
    { requestId := 1, tokenStart := 1, tokenCount := 2 } [7, 8] [0, 2]
    (by decide) (by decide) (by decide)
  have hreg : InMemoryTokenResolver.registerRequest ∅
      { requestId := ⟨1⟩, promptTokenCount := 1 } [7] = .ok oneToken := rfl
  have hstore : oneToken.Countable := InMemoryTokenResolver.countable_registerRequest
    (by simp [InMemoryTokenResolver.Countable]) hreg
  refine ⟨body, _, henc, hdec,
    (Message.slices_inside_iff hdec .fullPrompt hstore ⟨1⟩ 1 2).mpr ⟨?_, ?_, ?_⟩⟩
  · rw [Message.ascending_iff_copied .fullPrompt]
    decide
  · exact fun p _ hwraps => absurd hwraps.le_end (by decide)
  · exact fun tokens _ hwraps => absurd hwraps.le_end (by decide)

/-- **Reading what is not there.** Both dispatches are accepted. Of the first one a slice is copied
that begins after its end; of the second one there is a slice of one token, and a pointer to it is
returned for `2 ^ 64 - 1` of them. In process it is the same. -/
theorem outside_backwardDispatch_endlessDispatch :
    (∃ body m, encodeFrame backwardDispatch = .ok body ∧ decodeFrame body = .ok m ∧
      ∃ p ∈ m.copied .fullPrompt, p.2.2 < p.2.1) ∧
    (∃ body m, encodeFrame endlessDispatch = .ok body ∧ decodeFrame body = .ok m ∧
      (m.resolver .fullPrompt).lookup ⟨1⟩ = some ⟨1, [7]⟩ ∧
      (m.resolver .fullPrompt).resolveTokens ⟨1⟩ 1 (2 ^ 64 - 1) = .ok [7]) ∧
    oneToken.lookup ⟨1⟩ = some [7] ∧ oneToken.resolveTokens ⟨1⟩ 1 (2 ^ 64 - 1) = .ok [] := by
  obtain ⟨body, henc, hdec⟩ := decodeFrame_dispatchOf
    { requestId := 1, tokenCount := 1 } [7, 8] [2, 1] (by decide) (by decide) (by decide)
  obtain ⟨body', henc', hdec'⟩ := decodeFrame_dispatchOf
    { requestId := 1, tokenStart := 1, tokenCount := 2 ^ 64 - 1 } [7] [0, 1]
    (by decide) (by decide) (by decide)
  refine ⟨⟨body, _, henc, hdec, ?_⟩, ⟨body', _, henc', hdec', rfl, rfl⟩, rfl, rfl⟩
  exact ⟨_, List.mem_cons_self, by decide⟩

end Wire

/-! ### The dispatches of a coordinator -/

/-- **A coordinator sends what is there**: for a group of different requests whose tokens are
stored the offsets ascend, and every member is within its slice. -/
theorem Dispatch.inside_assemble {g : ExecutionGroup} {store : InMemoryTokenResolver}
    (hrange : g.InRange) (hids : (g.members.map (·.requestId)).Nodup)
    (hstored : ∀ m ∈ g.members, m.Stored store) (epoch : Epoch) (bootId : WorkerBootId)
    (k : WorkKind) :
    ∃ d body m, Dispatch.assemble store ⟨g, epoch, bootId, [], [0]⟩ g.members = some d ∧
      Wire.encodeFrame d.toWire = .ok body ∧ Wire.decodeFrame body = .ok m ∧ m.Ascending ∧
      ∀ x ∈ g.members, (m.resolver k).Inside x.requestId x.tokenStart x.tokenCount := by
  obtain ⟨d, body, m, hassemble, henc, hdec, hmembers, htokens, hoffsets⟩ :=
    Dispatch.decodeFrame_assemble hrange hstored epoch bootId
  have hmap := map_eq_of_mapM (fun _ _ hw => Wire.ExecutableMember.memberOr_eq hw k) hmembers
  refine ⟨d, body, m, hassemble, henc, hdec, ?_, fun x hx tok htok => ?_⟩
  · rw [Wire.Message.ascending_iff_copied k]
    intro p hp
    rw [Wire.Message.copied, hoffsets] at hp
    obtain ⟨-, i, -, hfirst, hlast⟩ := DispatchResolver.mem_copied_iff.mp hp
    -- every sum is the one before it and something more
    rw [List.getElem?_succ_scanl, hfirst, Option.bind_some, Option.map_eq_some_iff] at hlast
    obtain ⟨n, -, hn⟩ := hlast
    exact hn ▸ Nat.le_add_right _ _
  · rw [Wire.Message.resolver, hmap, htokens, hoffsets] at htok ⊢
    have hok := DispatchResolver.resolveTokens_rebuild hstored hids hx
    obtain rfl := Except.ok.inj (htok.symm.trans hok)
    refine ⟨_, DispatchResolver.lookup_rebuild_of_stored hstored hids hx, ?_, ?_⟩
    · simp
    · simp [(hstored x hx).length_tokens]

end PrefillFabric
