import PrefillFabric.Lib.Checksum
import PrefillFabric.Lib.Codec
import PrefillFabric.Request

/-!
# Bytes

The byte writer and the byte reader that the persistence format and the protocol share: words
are little-endian, signed numbers are written by their bits, doubles too, a string is preceded
by its length, and so is a list, which the reader refuses if it is too long.

An enumeration is written as one byte, of which nothing checks that it is one of the
declared values; and on the side of the source a value of an enumeration is any number of
its underlying type. So an enumeration is a `Coded` number here. It survives exactly if it
fits in a byte. In some places of the protocol it is written as a word of 32 bits, and then it
always survives. A truth value is written as `0` or `1`, and read as whatever is not `0`.

For each of these there are three facts: what is written is read back (`reads_u64` and the
like), what is accepted is what would have been written, up to the byte of a truth value
(`parses_u64` and the like), and what is accepted is settled by the bytes taken
(`decisive_u64` and the like).
-/

namespace PrefillFabric

open Codec

/-! ### Enumerations -/

/-- A value of an enumeration, by its number, whether declared or not. -/
structure Coded (κ : Type) where
  code : Int32 := 0
deriving DecidableEq, Repr

namespace Coded

variable {κ : Type}

/-- The byte a value is written as: its lowest. -/
def toByte (c : Coded κ) : UInt8 := c.code.toUInt32.toUInt8

/-- The value a byte is read as. -/
def ofByte (b : UInt8) : Coded κ := ⟨b.toUInt32.toInt32⟩

/-- The number fits in a byte. -/
def Fits (c : Coded κ) : Prop := 0 ≤ c.code ∧ c.code < 256

instance (c : Coded κ) : Decidable c.Fits := inferInstanceAs (Decidable (_ ∧ _))

theorem fits_iff_toInt {c : Coded κ} : c.Fits ↔ 0 ≤ c.code.toInt ∧ c.code.toInt < 256 := by
  rw [Fits, Int32.le_iff_toInt_le, Int32.lt_iff_toInt_lt, show (0 : Int32).toInt = 0 by decide,
    show (256 : Int32).toInt = 256 by decide]

theorem Fits.toNat_lt {c : Coded κ} (h : c.Fits) : c.code.toUInt32.toNat < 256 := by
  obtain ⟨hlow, hhigh⟩ := fits_iff_toInt.mp h
  have hcond : c.code.toInt = _ := BitVec.toInt_eq_toNat_cond c.code.toBitVec
  change c.code.toBitVec.toNat < 256
  split_ifs at hcond <;> omega

@[simp] theorem toByte_ofByte (b : UInt8) : (ofByte b : Coded κ).toByte = b := by
  simp [ofByte, toByte]

theorem toInt_code_ofByte (b : UInt8) : (ofByte b : Coded κ).code.toInt = b.toNat := by
  have hb := b.toNat_lt
  have hcond : (ofByte b : Coded κ).code.toInt = _ :=
    BitVec.toInt_eq_toNat_of_lt (x := b.toUInt32.toBitVec) ?_
  · exact hcond.trans (congrArg _ (UInt8.toNat_toUInt32 b))
  · change 2 * b.toUInt32.toNat < 2 ^ 32
    rw [UInt8.toNat_toUInt32]
    omega

theorem fits_ofByte (b : UInt8) : (ofByte b : Coded κ).Fits := by
  have hb := b.toNat_lt
  rw [fits_iff_toInt, toInt_code_ofByte]
  omega

theorem ofByte_toByte {c : Coded κ} (h : c.Fits) : ofByte c.toByte = c := by
  have hword : c.code.toUInt32.toUInt8.toUInt32 = c.code.toUInt32 := by
    refine UInt32.toNat_inj.mp ?_
    rw [UInt8.toNat_toUInt32, UInt32.toNat_toUInt8]
    exact Nat.mod_eq_of_lt h.toNat_lt
  rw [ofByte, toByte, hword, Int32.toInt32_toUInt32]

end Coded

/-! ### Writing -/

namespace ByteWriter

/-- One byte. -/
def u8 (v : UInt8) : Item := .block [v]

/-- A word of 32 bits. -/
def u32 (v : UInt32) : Item := .block (leBytes 4 v.toNat)

/-- A word of 64 bits. -/
def u64 (v : UInt64) : Item := .block (leBytes 8 v.toNat)

/-- A signed word of 64 bits. -/
def i64 (v : Int64) : Item := u64 v.toUInt64

/-- A double, by its bits. -/
def f64 (v : Double) : Item := u64 v.bits

/-- A string, preceded by its length. -/
def str (s : List UInt8) : Item := .block (leBytes 8 (UInt64.ofNat s.length).toNat ++ s)

/-- A truth value. -/
def bool (b : Bool) : Item := .flag b

/-- A value of an enumeration. -/
def enum {κ : Type} (c : Coded κ) : Item := u8 c.toByte

/-- A value of an enumeration, in full. -/
def code {κ : Type} (c : Coded κ) : Item := u32 c.code.toUInt32

/-- A length. -/
def count (n : ℕ) : Item := u64 (.ofNat n)

@[simp] theorem length_u8 (v : UInt8) : (u8 v).bytes.length = 1 := rfl

@[simp] theorem length_u32 (v : UInt32) : (u32 v).bytes.length = 4 := length_leBytes 4 _

@[simp] theorem length_u64 (v : UInt64) : (u64 v).bytes.length = 8 := length_leBytes 8 _

@[simp] theorem length_i64 (v : Int64) : (i64 v).bytes.length = 8 := length_leBytes 8 _

@[simp] theorem length_f64 (v : Double) : (f64 v).bytes.length = 8 := length_leBytes 8 _

@[simp] theorem length_str (s : List UInt8) : (str s).bytes.length = 8 + s.length := by
  simp only [str, Item.bytes, List.length_append, length_leBytes]

@[simp] theorem length_bool (b : Bool) : (bool b).bytes.length = 1 := rfl

@[simp] theorem length_enum {κ : Type} (c : Coded κ) : (enum c).bytes.length = 1 := rfl

@[simp] theorem length_code {κ : Type} (c : Coded κ) : (code c).bytes.length = 4 := length_u32 _

@[simp] theorem length_count (n : ℕ) : (count n).bytes.length = 8 := length_u64 _

end ByteWriter

/-! ### Reading -/

/-- There are not enough bytes. -/
def errTrunc : ErrorInfo := ⟨.truncation, "truncated persistence blob"⟩

/-- A reader that fails as the runtime does. -/
abbrev ByteReader (α : Type) := Reader ErrorInfo α

namespace ByteReader

/-- One byte. -/
def u8 : ByteReader UInt8 := UInt8.ofNat <$> word errTrunc 1

/-- A word of 32 bits. -/
def u32 : ByteReader UInt32 := UInt32.ofNat <$> word errTrunc 4

/-- A word of 64 bits. -/
def u64 : ByteReader UInt64 := UInt64.ofNat <$> word errTrunc 8

/-- A signed word of 64 bits. -/
def i64 : ByteReader Int64 := UInt64.toInt64 <$> u64

/-- A double, by its bits. -/
def f64 : ByteReader Double := Double.mk <$> u64

/-- The bytes of a string: there must be so many, and not too many. -/
def strBody (n : ℕ) : ByteReader (List UInt8) := fun bs =>
  if bs.length < n then .error errTrunc
  else if 2 ^ 32 < n then .error ⟨.corruptState, "string length unreasonable"⟩
  else take errTrunc n bs

/-- A string, preceded by its length. -/
def str : ByteReader (List UInt8) := do
  let n ← u64
  strBody n.toNat

/-- A truth value: anything but zero is true. -/
def bool : ByteReader Bool := (· != 0) <$> u8

/-- A value of an enumeration, declared or not. -/
def enum {κ : Type} : ByteReader (Coded κ) := Coded.ofByte <$> u8

/-- A value of an enumeration, in full. -/
def code {κ : Type} : ByteReader (Coded κ) := (fun v => ⟨v.toInt32⟩) <$> u32

/-- A list that is preceded by its length, which must not exceed a limit. -/
def counted {α : Type} (limit : ℕ) (e : ErrorInfo) (r : ByteReader α) : ByteReader (List α) := do
  let n ← u64
  if limit < n.toNat then fail e else many r n.toNat

/-! ### What is written is read back -/

theorem reads_u8 (v : UInt8) : Reads u8 (ByteWriter.u8 v).bytes v := by
  have h := (Reads.word errTrunc (k := 1) v.toNat_lt).map UInt8.ofNat
  simp only [leBytes, UInt8.ofNat_toNat] at h
  exact h

theorem reads_u32 (v : UInt32) : Reads u32 (ByteWriter.u32 v).bytes v := by
  have h := (Reads.word errTrunc (k := 4) v.toNat_lt).map UInt32.ofNat
  rwa [UInt32.ofNat_toNat] at h

theorem reads_u64 (v : UInt64) : Reads u64 (ByteWriter.u64 v).bytes v := by
  have h := (Reads.word errTrunc (k := 8) v.toNat_lt).map UInt64.ofNat
  rwa [UInt64.ofNat_toNat] at h

theorem reads_i64 (v : Int64) : Reads i64 (ByteWriter.i64 v).bytes v := by
  have h := (reads_u64 v.toUInt64).map UInt64.toInt64
  rwa [Int64.toInt64_toUInt64] at h

theorem reads_f64 (v : Double) : Reads f64 (ByteWriter.f64 v).bytes v :=
  (reads_u64 v.bits).map Double.mk

theorem reads_str {s : List UInt8} (h : s.length ≤ 2 ^ 32) :
    Reads str (ByteWriter.str s).bytes s := by
  have hlen : (UInt64.ofNat s.length).toNat = s.length :=
    UInt64.toNat_ofNat_of_lt' (by rw [UInt64.size]; omega)
  refine (reads_u64 (UInt64.ofNat s.length)).bind fun rest => ?_
  rw [hlen, strBody, if_neg (by simp), if_neg (Nat.not_lt.mpr h)]
  exact Reads.take errTrunc s rest

theorem reads_bool (b : Bool) : Reads bool (ByteWriter.bool b).bytes b := by
  have h := (reads_u8 (flagByte b)).map (· != 0)
  cases b <;> exact h

theorem reads_enum {κ : Type} {c : Coded κ} (h : c.Fits) :
    Reads enum (ByteWriter.enum c).bytes c := by
  have hread := (reads_u8 c.toByte).map (Coded.ofByte (κ := κ))
  rwa [Coded.ofByte_toByte h] at hread

theorem reads_code {κ : Type} (c : Coded κ) : Reads code (ByteWriter.code c).bytes c := by
  have hread := (reads_u32 c.code.toUInt32).map fun v => (⟨v.toInt32⟩ : Coded κ)
  rwa [Int32.toInt32_toUInt32] at hread

theorem reads_counted_map {α β : Type} {limit : ℕ} (hlimit : limit < 2 ^ 64) (e : ErrorInfo)
    {r : ByteReader α} {L : β → List Item} {g : β → α} {xs : List β}
    (h : ∀ x ∈ xs, Reads r (bytesOf (L x)) (g x)) (hlen : xs.length ≤ limit) :
    Reads (counted limit e r) (bytesOf (ByteWriter.count xs.length :: xs.flatMap L))
      (xs.map g) := by
  have hcount : (UInt64.ofNat xs.length).toNat = xs.length :=
    UInt64.toNat_ofNat_of_lt' (lt_of_le_of_lt hlen hlimit)
  rw [bytesOf_cons]
  refine (reads_u64 (.ofNat xs.length)).bind ?_
  rw [hcount, if_neg (Nat.not_lt.mpr hlen)]
  exact Reads.many_map h

theorem reads_counted {α : Type} {limit : ℕ} (hlimit : limit < 2 ^ 64) (e : ErrorInfo)
    {r : ByteReader α} {L : α → List Item} {as : List α}
    (h : ∀ a ∈ as, Reads r (bytesOf (L a)) a) (hlen : as.length ≤ limit) :
    Reads (counted limit e r) (bytesOf (ByteWriter.count as.length :: as.flatMap L)) as := by
  have hmap := reads_counted_map hlimit e (g := id) h hlen
  rwa [List.map_id] at hmap

/-! ### What is accepted would have been written -/

theorem parses_u8 : Parses u8 [] fun v => [ByteWriter.u8 v] :=
  Parses.map (Parses.word errTrunc 1)

theorem parses_u32 : Parses u32 [] fun v => [ByteWriter.u32 v] := by
  have hmod : ∀ n, leBytes 4 (n % 2 ^ 32) = leBytes 4 n := leBytes_mod 4
  refine Parses.map ?_
  simp only [ByteWriter.u32, UInt32.toNat_ofNat', hmod]
  exact Parses.word errTrunc 4

theorem parses_u64 : Parses u64 [] fun v => [ByteWriter.u64 v] := by
  have hmod : ∀ n, leBytes 8 (n % 2 ^ 64) = leBytes 8 n := leBytes_mod 8
  refine Parses.map ?_
  simp only [ByteWriter.u64, UInt64.toNat_ofNat', hmod]
  exact Parses.word errTrunc 8

theorem parses_i64 : Parses i64 [] fun v => [ByteWriter.i64 v] := by
  refine Parses.map ?_
  simpa only [ByteWriter.i64, UInt64.toUInt64_toInt64] using parses_u64

theorem parses_f64 : Parses f64 [] fun v => [ByteWriter.f64 v] := Parses.map parses_u64

theorem parses_str : Parses str [] fun s => [ByteWriter.str s] := by
  intro bs s rest h
  obtain ⟨n, mid, hn, hbody⟩ := bind_eq_ok.mp h
  obtain rfl := (parses_u64.spells hn).eq_of_block
  simp only [strBody] at hbody
  split_ifs at hbody
  obtain ⟨hlen, rfl⟩ := take_eq_ok.mp hbody
  refine ⟨_, rfl, ?_⟩
  rw [ByteWriter.str, hlen, UInt64.ofNat_toNat, ← List.append_assoc]
  exact .block _ (.nil rest)

theorem parses_bool : Parses bool [] fun b => [ByteWriter.bool b] := by
  intro bs b rest h
  obtain ⟨x, hx, rfl⟩ := map_eq_ok.mp h
  obtain rfl := (parses_u8.spells hx).eq_of_block
  exact ⟨_, rfl, .flag x (.nil rest)⟩

theorem parses_enum {κ : Type} : Parses (enum (κ := κ)) [] fun c => [ByteWriter.enum c] := by
  refine Parses.map ?_
  simpa only [ByteWriter.enum, Coded.toByte_ofByte] using parses_u8

theorem parses_counted {α : Type} (limit : ℕ) (e : ErrorInfo) {r : ByteReader α}
    {L : α → List Item} (h : Parses r [] L) :
    Parses (counted limit e r) [] fun as => ByteWriter.count as.length :: as.flatMap L := by
  refine .bind parses_u64 fun n => .ite (.fail _) ?_
  have hmany := Parses.many h (fun n => [ByteWriter.count n]) n.toNat
  rwa [ByteWriter.count, UInt64.ofNat_toNat] at hmany

/-! ### What is accepted is settled by the bytes taken -/

theorem decisive_u8 : Decisive u8 := (Decisive.word errTrunc 1).map _

theorem decisive_u32 : Decisive u32 := (Decisive.word errTrunc 4).map _

theorem decisive_u64 : Decisive u64 := (Decisive.word errTrunc 8).map _

theorem decisive_i64 : Decisive i64 := decisive_u64.map _

theorem decisive_f64 : Decisive f64 := decisive_u64.map _

theorem decisive_bool : Decisive bool := decisive_u8.map _

theorem decisive_enum {κ : Type} : Decisive (enum (κ := κ)) := decisive_u8.map _

theorem decisive_code {κ : Type} : Decisive (code (κ := κ)) := decisive_u32.map _

/-- The two checks before the bytes of a string are taken do not change what is accepted, but
for strings that are never accepted. -/
theorem strBody_eq_ok {n : ℕ} {bs s rest : List UInt8} :
    strBody n bs = .ok (s, rest) ↔ n ≤ 2 ^ 32 ∧ take errTrunc n bs = .ok (s, rest) := by
  rw [strBody]
  constructor
  · intro h
    split_ifs at h with hshort hlong
    exact ⟨Nat.not_lt.mp hlong, h⟩
  · rintro ⟨hlen, h⟩
    obtain ⟨rfl, rfl⟩ := take_eq_ok.mp h
    rw [if_neg (by simp), if_neg (Nat.not_lt.mpr hlen)]
    exact h

theorem decisive_str : Decisive str := by
  refine decisive_u64.bind fun n bs s rest h => ?_
  obtain ⟨hlen, htake⟩ := strBody_eq_ok.mp h
  obtain ⟨cs, rfl, hreads, hshort⟩ := Decisive.take errTrunc _ bs s rest htake
  refine ⟨cs, rfl, fun tail => strBody_eq_ok.mpr ⟨hlen, hreads tail⟩, ?_⟩
  intro ds hds hne b left hok
  exact hshort ds hds hne b left (strBody_eq_ok.mp hok).2

theorem decisive_counted {α : Type} (limit : ℕ) (e : ErrorInfo) {r : ByteReader α}
    (h : Decisive r) : Decisive (counted limit e r) :=
  decisive_u64.bind fun n => .ite (.fail e) (h.many n.toNat)

/-! ### What is returned -/

/-- No string that is read is longer than the limit. -/
theorem yields_str : Yields str fun s => s.length ≤ 2 ^ 32 := by
  refine .bind fun n bs s rest h => ?_
  obtain ⟨hlen, htake⟩ := strBody_eq_ok.mp h
  rw [(take_eq_ok.mp htake).1]
  exact hlen

/-- What is read from a byte fits in one. -/
theorem yields_enum {κ : Type} : Yields (enum (κ := κ)) Coded.Fits :=
  Yields.map fun _ b _ _ => Coded.fits_ofByte b

theorem yields_counted {α : Type} (limit : ℕ) (e : ErrorInfo) {r : ByteReader α} {Q : α → Prop}
    (h : Yields r Q) : Yields (counted limit e r) fun as => ∀ a ∈ as, Q a :=
  .bind fun n => .ite (.fail e) (h.many n.toNat)

/-- No list that is read is longer than the limit. -/
theorem length_counted_le {α : Type} (limit : ℕ) (e : ErrorInfo) (r : ByteReader α) :
    Yields (counted limit e r) fun as => as.length ≤ limit := by
  refine .bind fun n => ?_
  split_ifs with hn
  · exact .fail e
  · intro bs as rest h
    rw [Yields.length_many r n.toNat bs as rest h]
    exact Nat.not_lt.mp hn

theorem fixed_u32 : Fixed u32 4 errTrunc := (Fixed.word errTrunc 4).map _

theorem fixed_u64 : Fixed u64 8 errTrunc := (Fixed.word errTrunc 8).map _

end ByteReader

/-! ### The checksum -/

/-- One byte more: FNV-1a in 64 bits. -/
def fnv1a64Step (h : UInt64) (b : UInt8) : UInt64 := (h ^^^ b.toUInt64) * 1099511628211

/-- FNV-1a over a sequence of bytes. -/
def fnv1a64 (h : UInt64) (data : List UInt8) : UInt64 := data.foldl fnv1a64Step h

/-- The multiplier is odd, so multiplication with it can be undone. -/
theorem mul_fnvPrime_injective : Function.Injective fun h : UInt64 => h * 1099511628211 := by
  have hinv : (1099511628211 : UInt64) * 14886173955864302971 = 1 := by decide
  intro h h' heq
  have hmul := congrArg (· * (14886173955864302971 : UInt64)) heq
  simpa only [UInt64.mul_assoc, hinv, UInt64.mul_one] using hmul

theorem xor_injective (b : UInt64) : Function.Injective fun h : UInt64 => h ^^^ b := by
  intro h h' heq
  have hxor := congrArg (· ^^^ b) heq
  simpa only [UInt64.xor_assoc, UInt64.xor_self, UInt64.xor_zero] using hxor

/-- **One different byte is noticed.** -/
theorem fnv1a64_set_ne {data : List UInt8} {i : ℕ} {a b : UInt8} (hi : data[i]? = some a)
    (hne : b ≠ a) (h : UInt64) : fnv1a64 h (data.set i b) ≠ fnv1a64 h data := by
  refine Checksum.foldl_set_ne (fun a => ?_) (fun h => ?_) hi hne h
  · exact mul_fnvPrime_injective.comp (xor_injective a.toUInt64)
  · intro x y heq
    have hxor := mul_fnvPrime_injective heq
    simp only [UInt64.xor_comm h] at hxor
    exact UInt8.toUInt64_inj.mp (xor_injective h hxor)

end PrefillFabric
