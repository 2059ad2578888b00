import Mathlib.Data.List.Basic
import Mathlib.Data.Nat.Basic
import Mathlib.Tactic.Ring

/-!
# Reading back what was written

A writer lays a value out as a sequence of items: blocks of bytes, and flags of one byte
each. A reader takes bytes off the front of what is left and fails with an error or gives a
value. Five laws say how a reader goes with a layout, and each comes with rules for the
ways readers are put together, so that a reader of a record is treated field by field.

* `Reads r bs a`: the bytes `bs`, whatever comes after them, are read as `a`. With the bytes
  of the layout of `a` this is the round trip.
* `Parses r acc L`: whatever `r` accepts, what it has consumed *spells* the layout of what
  it returns (`Spells`). A block is spelt by itself only; a flag is spelt by zero if it is
  down and by any other byte if it is up, and this is the only freedom there is
  (`Spells.eq_bytes_iff`). The layout is built up field by field in `acc`.
* `Yields r P`: whatever `r` returns satisfies `P`.
* `Fixed r n e`: the reader takes `n` bytes and fails, with the error `e`, only if there are
  fewer.
* `Decisive r`: what `r` accepts is settled by the bytes it takes. What comes after them makes
  no difference, and if any of them is missing it fails. A reader that goes on with a default
  where it cannot read (`orDefault`) has the round trip, but is not decisive.
-/

namespace Codec

/-! ### Words -/

/-- The lowest `k` bytes of a number, the lowest first. -/
def leBytes : ℕ → ℕ → List UInt8
  | 0, _ => []
  | k + 1, v => .ofNat v :: leBytes k (v / 256)

/-- The number given by bytes, the lowest first. -/
def ofLeBytes : List UInt8 → ℕ
  | [] => 0
  | b :: bs => b.toNat + 256 * ofLeBytes bs

@[simp] theorem length_leBytes (k v : ℕ) : (leBytes k v).length = k := by
  induction k generalizing v with
  | zero => rfl
  | succ k ih => simp [leBytes, ih]

theorem ofLeBytes_leBytes {k v : ℕ} (h : v < 256 ^ k) : ofLeBytes (leBytes k v) = v := by
  induction k generalizing v with
  | zero =>
    simp only [pow_zero, Nat.lt_one_iff] at h
    simp [leBytes, ofLeBytes, h]
  | succ k ih =>
    have hdiv : v / 256 < 256 ^ k := Nat.div_lt_of_lt_mul (by rwa [pow_succ, mul_comm] at h)
    simp only [leBytes, ofLeBytes, ih hdiv, UInt8.toNat_ofNat']
    omega

@[simp] theorem leBytes_ofLeBytes (bs : List UInt8) : leBytes bs.length (ofLeBytes bs) = bs := by
  induction bs with
  | nil => rfl
  | cons b bs ih =>
    have hb := b.toNat_lt
    have hlow : UInt8.ofNat (b.toNat + 256 * ofLeBytes bs) = b := by
      refine UInt8.toNat_inj.mp ?_
      rw [UInt8.toNat_ofNat']
      omega
    have hhigh : (b.toNat + 256 * ofLeBytes bs) / 256 = ofLeBytes bs := by omega
    simp only [List.length_cons, leBytes, ofLeBytes, hlow, hhigh, ih]

/-- Only the lowest bytes of a number matter. -/
theorem leBytes_mod (k v : ℕ) : leBytes k (v % 256 ^ k) = leBytes k v := by
  induction k generalizing v with
  | zero => rfl
  | succ k ih =>
    have hlow : UInt8.ofNat (v % 256 ^ (k + 1)) = UInt8.ofNat v := by
      refine UInt8.toNat_inj.mp ?_
      rw [UInt8.toNat_ofNat', UInt8.toNat_ofNat', pow_succ']
      exact Nat.mod_mul_right_mod v 256 _
    have hhigh : v % 256 ^ (k + 1) / 256 = v / 256 % 256 ^ k := by
      rw [pow_succ']
      exact Nat.mod_mul_right_div_self v 256 _
    simp only [leBytes, hlow, hhigh, ih]

/-! ### Layouts -/

/-- An item of a layout. -/
inductive Item
  /-- Bytes that stand for themselves. -/
  | block (bs : List UInt8)
  /-- One byte, of which only matters whether it is zero. -/
  | flag (b : Bool)

/-- The byte a flag is written as. -/
def flagByte (b : Bool) : UInt8 := if b then 1 else 0

/-- The bytes of an item. -/
def Item.bytes : Item → List UInt8
  | block bs => bs
  | flag b => [flagByte b]

/-- Which of the bytes of an item are flags. -/
def Item.mask : Item → List Bool
  | block bs => bs.map fun _ => false
  | flag _ => [true]

/-- The bytes of a layout. -/
def bytesOf (is : List Item) : List UInt8 := is.flatMap Item.bytes

/-- Which of the bytes of a layout are flags. -/
def maskOf (is : List Item) : List Bool := is.flatMap Item.mask

@[simp] theorem bytesOf_nil : bytesOf [] = [] := rfl

@[simp] theorem bytesOf_cons (i : Item) (is : List Item) :
    bytesOf (i :: is) = i.bytes ++ bytesOf is := List.flatMap_cons

@[simp] theorem bytesOf_append (is js : List Item) :
    bytesOf (is ++ js) = bytesOf is ++ bytesOf js := List.flatMap_append

@[simp] theorem maskOf_nil : maskOf [] = [] := rfl

@[simp] theorem maskOf_cons (i : Item) (is : List Item) :
    maskOf (i :: is) = i.mask ++ maskOf is := List.flatMap_cons

/-- A list of records of a bounded size. -/
theorem length_bytesOf_flatMap_le {α : Type} {L : α → List Item} {as : List α} {n : ℕ}
    (h : ∀ a ∈ as, (bytesOf (L a)).length ≤ n) :
    (bytesOf (as.flatMap L)).length ≤ as.length * n := by
  induction as with
  | nil => simp
  | cons a as ih =>
    have hhd := h a List.mem_cons_self
    have htl := ih fun x hx => h x (List.mem_cons_of_mem a hx)
    rw [List.flatMap_cons, bytesOf_append, List.length_append, List.length_cons, Nat.succ_mul]
    omega

/-- A list of records of one size. -/
theorem length_bytesOf_flatMap {α : Type} {L : α → List Item} {as : List α} {n : ℕ}
    (h : ∀ a ∈ as, (bytesOf (L a)).length = n) :
    (bytesOf (as.flatMap L)).length = as.length * n := by
  induction as with
  | nil => simp
  | cons a as ih =>
    have hhd := h a List.mem_cons_self
    have htl := ih fun x hx => h x (List.mem_cons_of_mem a hx)
    rw [List.flatMap_cons, bytesOf_append, List.length_append, List.length_cons, Nat.succ_mul]
    omega

/-- The bytes up to a rest spell a layout. -/
inductive Spells : List Item → List UInt8 → List UInt8 → Prop
  | nil (bs : List UInt8) : Spells [] bs bs
  | block (cs : List UInt8) {is : List Item} {bs rest : List UInt8} (h : Spells is bs rest) :
      Spells (.block cs :: is) (cs ++ bs) rest
  | flag (x : UInt8) {is : List Item} {bs rest : List UInt8} (h : Spells is bs rest) :
      Spells (.flag (x != 0) :: is) (x :: bs) rest

namespace Spells

variable {is js : List Item} {bs mid rest : List UInt8}

theorem append (h : Spells is bs mid) (h' : Spells js mid rest) : Spells (is ++ js) bs rest := by
  induction h with
  | nil => exact h'
  | block cs _ ih => exact .block cs (ih h')
  | flag x _ ih => exact .flag x (ih h')

/-- Blocks are spelt by themselves only. -/
theorem eq_of_blocks (css : List (List UInt8)) (h : Spells (css.map .block) bs rest) :
    bs = bytesOf (css.map .block) ++ rest := by
  induction css generalizing bs with
  | nil =>
    cases h with
    | nil => rfl
  | cons cs css ih =>
    cases h with
    | block _ h =>
      rw [ih h, List.map_cons, bytesOf_cons, List.append_assoc]
      rfl

theorem eq_of_block {cs : List UInt8} (h : Spells [.block cs] bs rest) : bs = cs ++ rest := by
  have hblocks := eq_of_blocks [cs] h
  simpa [Item.bytes] using hblocks

theorem length_eq (h : Spells is bs rest) : bs.length = (bytesOf is).length + rest.length := by
  induction h with
  | nil => simp
  | block cs _ ih => simp [Item.bytes, ih, Nat.add_assoc]
  | flag x _ ih =>
    simp only [List.length_cons, bytesOf_cons, Item.bytes, List.length_append, List.length_nil, ih]
    omega

/-- A byte is what the flag it spells is written as exactly if it is zero or one. -/
theorem eq_flagByte_iff (x : UInt8) : x = flagByte (x != 0) ↔ x = 0 ∨ x = 1 := by
  by_cases h : x = 0
  · simp [h, flagByte]
  · simp [h, flagByte, bne_iff_ne.mpr h]

/-- **What spells a layout is the bytes of the layout** exactly if it has a zero or a one
wherever there is a flag. -/
theorem eq_bytes_iff (h : Spells is bs []) :
    bs = bytesOf is ↔
      ∀ i : ℕ, (maskOf is)[i]? = some true → bs[i]? = some 0 ∨ bs[i]? = some 1 := by
  generalize hrest : ([] : List UInt8) = rest at h
  induction h with
  | nil bs => simp [← hrest]
  | @block cs is bs rest h ih =>
    have ih := ih hrest
    rw [bytesOf_cons, Item.bytes, List.append_cancel_left_eq, ih]
    simp only [maskOf_cons, Item.mask]
    constructor
    · intro hall i hi
      rcases Nat.lt_or_ge i cs.length with hlt | hge
      · rw [List.getElem?_append_left (by simpa using hlt)] at hi
        simp [hlt] at hi
      · rw [List.getElem?_append_right (by simpa using hge), List.length_map] at hi
        rw [List.getElem?_append_right hge]
        exact hall _ hi
    · intro hall i hi
      have hshift := hall (cs.length + i)
      rw [List.getElem?_append_right (by simp), List.getElem?_append_right (by simp),
        List.length_map, Nat.add_sub_cancel_left] at hshift
      exact hshift hi
  | @flag x is bs rest h ih =>
    have ih := ih hrest
    rw [bytesOf_cons, Item.bytes, List.singleton_append, List.cons.injEq, eq_flagByte_iff, ih]
    simp only [maskOf_cons, Item.mask, List.singleton_append]
    constructor
    · rintro ⟨hx, hall⟩ i hi
      cases i with
      | zero => simpa using hx
      | succ i => simpa using hall i (by simpa using hi)
    · intro hall
      refine ⟨by simpa using hall 0 (by simp), fun i hi => ?_⟩
      simpa using hall (i + 1) (by simpa using hi)

end Spells

/-! ### Readers -/

/-- A reader: from the bytes left to a value and the bytes left then. -/
abbrev Reader (ε α : Type) := StateT (List UInt8) (Except ε) α

variable {ε α β : Type}

/-- Take a number of bytes. -/
def take (e : ε) (n : ℕ) : Reader ε (List UInt8) := fun bs =>
  if bs.length < n then .error e else .ok (bs.take n, bs.drop n)

/-- Take a word of a number of bytes. -/
def word (e : ε) (k : ℕ) : Reader ε ℕ := ofLeBytes <$> take e k

/-- Fail. -/
def fail (e : ε) : Reader ε α := fun _ => .error e

/-- Read a value, or take nothing and go on with a default. -/
def orDefault (r : Reader ε α) (a : α) : Reader ε α := fun bs =>
  match r bs with
  | .ok p => .ok p
  | .error _ => .ok (a, bs)

/-- Read a number of values, one after the other. -/
def many (r : Reader ε α) : ℕ → Reader ε (List α)
  | 0 => pure []
  | n + 1 => do
    let a ← r
    let as ← many r n
    pure (a :: as)

theorem bind_apply (r : Reader ε α) (f : α → Reader ε β) (bs : List UInt8) :
    (r >>= f) bs = match r bs with
      | .ok (a, rest) => f a rest
      | .error e => .error e := by
  change Except.bind (r bs) _ = _
  cases r bs <;> rfl

theorem map_apply (g : α → β) (r : Reader ε α) (bs : List UInt8) :
    (g <$> r) bs = match r bs with
      | .ok (a, rest) => .ok (g a, rest)
      | .error e => .error e := by
  change Except.bind (r bs) _ = _
  cases r bs <;> rfl

/-- A reader that is put together succeeds if its parts do. -/
theorem bind_eq_ok {r : Reader ε α} {f : α → Reader ε β} {bs rest : List UInt8} {b : β} :
    (r >>= f) bs = .ok (b, rest) ↔ ∃ a mid, r bs = .ok (a, mid) ∧ f a mid = .ok (b, rest) := by
  rw [bind_apply]
  constructor
  · intro h
    cases hr : r bs with
    | error e => simp [hr] at h
    | ok p => exact ⟨p.1, p.2, rfl, by simpa [hr] using h⟩
  · rintro ⟨a, mid, hr, hf⟩
    rw [hr]
    exact hf

theorem map_eq_ok {g : α → β} {r : Reader ε α} {bs rest : List UInt8} {b : β} :
    (g <$> r) bs = .ok (b, rest) ↔ ∃ a, r bs = .ok (a, rest) ∧ g a = b := by
  rw [map_apply]
  constructor
  · intro h
    cases hr : r bs with
    | error e => simp [hr] at h
    | ok p =>
      obtain ⟨a, mid⟩ := p
      simp only [hr, Except.ok.injEq, Prod.mk.injEq] at h
      exact ⟨a, by rw [h.2], h.1⟩
  · rintro ⟨a, hr, rfl⟩
    rw [hr]

theorem pure_eq_ok {a b : α} {bs rest : List UInt8} :
    (pure a : Reader ε α) bs = .ok (b, rest) ↔ a = b ∧ bs = rest := by
  change Except.ok (a, bs) = _ ↔ _
  rw [Except.ok.injEq, Prod.mk.injEq]

theorem take_eq_ok {e : ε} {n : ℕ} {bs cs rest : List UInt8} :
    take e n bs = .ok (cs, rest) ↔ cs.length = n ∧ bs = cs ++ rest := by
  simp only [take]
  constructor
  · intro h
    split_ifs at h with hlt
    obtain ⟨rfl, rfl⟩ := Prod.mk.inj (Except.ok.inj h)
    exact ⟨by rw [List.length_take]; omega, (List.take_append_drop n bs).symm⟩
  · rintro ⟨rfl, rfl⟩
    simp

/-! ### The round trip -/

/-- The bytes, whatever comes after them, are read as the value. -/
def Reads (r : Reader ε α) (bs : List UInt8) (a : α) : Prop :=
  ∀ rest, r (bs ++ rest) = .ok (a, rest)

namespace Reads

variable {r : Reader ε α} {bs cs : List UInt8} {a : α} {b : β}

theorem pure (a : α) : Reads (pure a : Reader ε α) [] a := fun _ => rfl

theorem bind {f : α → Reader ε β} (h : Reads r bs a) (hf : Reads (f a) cs b) :
    Reads (r >>= f) (bs ++ cs) b := by
  intro rest
  rw [List.append_assoc]
  exact bind_eq_ok.mpr ⟨a, cs ++ rest, h _, hf rest⟩

/-- The last field. -/
theorem bind_pure (h : Reads r bs a) (g : α → β) :
    Reads (r >>= fun a => Pure.pure (g a)) bs (g a) := by
  have hbind := h.bind (f := fun a => Pure.pure (g a)) (.pure (g a))
  rwa [List.append_nil] at hbind

/-- What is read back determines what was written. -/
theorem eq_of_eq {a' : α} (h : Reads r bs a) (h' : Reads r bs a') : a = a' := by
  have heq := (h []).symm.trans (h' [])
  exact (Prod.mk.inj (Except.ok.inj heq)).1

theorem map (g : α → β) (h : Reads r bs a) : Reads (g <$> r) bs (g a) := fun rest =>
  map_eq_ok.mpr ⟨a, h rest, rfl⟩

theorem take (e : ε) (bs : List UInt8) : Reads (take e bs.length) bs bs := fun _ =>
  take_eq_ok.mpr ⟨rfl, rfl⟩

theorem orDefault (h : Reads r bs a) (d : α) : Reads (orDefault r d) bs a := by
  intro rest
  rw [Codec.orDefault, h rest]

theorem word (e : ε) {k v : ℕ} (h : v < 256 ^ k) : Reads (word e k) (leBytes k v) v := by
  have htake := take e (leBytes k v)
  rw [length_leBytes] at htake
  have hmap := htake.map ofLeBytes
  rwa [ofLeBytes_leBytes h] at hmap

/-- A list of records of which each is read as something. -/
theorem many_map {L : β → List Item} {g : β → α} {xs : List β}
    (h : ∀ x ∈ xs, Reads r (bytesOf (L x)) (g x)) :
    Reads (many r xs.length) (bytesOf (xs.flatMap L)) (xs.map g) := by
  induction xs with
  | nil => exact .pure []
  | cons x xs ih =>
    have htl := ih fun y hy => h y (List.mem_cons_of_mem x hy)
    rw [List.flatMap_cons, bytesOf_append]
    exact (h x List.mem_cons_self).bind (htl.bind_pure (g x :: ·))

theorem many {L : α → List Item} {as : List α} (h : ∀ a ∈ as, Reads r (bytesOf (L a)) a) :
    Reads (many r as.length) (bytesOf (as.flatMap L)) as := by
  have hmap := many_map (g := id) h
  rwa [List.map_id] at hmap

end Reads

/-! ### What is accepted -/

/-- Whatever the reader accepts, the layout of what it returns is what has been read before
followed by what the bytes it has consumed spell. -/
def Parses (r : Reader ε β) (acc : List Item) (L : β → List Item) : Prop :=
  ∀ bs b rest, r bs = .ok (b, rest) → ∃ is, L b = acc ++ is ∧ Spells is bs rest

namespace Parses

variable {r : Reader ε α} {acc : List Item} {L : β → List Item} {K : α → List Item}

theorem spells (h : Parses r [] K) {bs rest : List UInt8} {a : α} (hr : r bs = .ok (a, rest)) :
    Spells (K a) bs rest := by
  obtain ⟨is, heq, his⟩ := h bs a rest hr
  rwa [heq]

theorem pure {b : β} (h : L b = acc) : Parses (pure b : Reader ε β) acc L := by
  intro bs b' rest hr
  obtain ⟨rfl, rfl⟩ := pure_eq_ok.mp hr
  exact ⟨[], by rw [h, List.append_nil], .nil bs⟩

/-- **One field after the other.** -/
theorem bind {f : α → Reader ε β} (hr : Parses r [] K) (hf : ∀ a, Parses (f a) (acc ++ K a) L) :
    Parses (r >>= f) acc L := by
  intro bs b rest h
  obtain ⟨a, mid, ha, hb⟩ := bind_eq_ok.mp h
  obtain ⟨is, heq, his⟩ := hf a mid b rest hb
  exact ⟨K a ++ is, by rw [heq, List.append_assoc], (hr.spells ha).append his⟩

theorem map {g : α → β} (hr : Parses r [] fun a => L (g a)) : Parses (g <$> r) [] L := by
  intro bs b rest h
  obtain ⟨a, ha, rfl⟩ := map_eq_ok.mp h
  exact ⟨_, rfl, hr.spells ha⟩

theorem fail (e : ε) : Parses (fail e : Reader ε β) acc L := by
  intro bs b rest h
  simp [Codec.fail] at h

theorem ite {p : Prop} [Decidable p] {r r' : Reader ε β} (h : Parses r acc L)
    (h' : Parses r' acc L) : Parses (if p then r else r') acc L := by
  split_ifs
  · exact h
  · exact h'

theorem word (e : ε) (k : ℕ) : Parses (word e k) [] fun v => [.block (leBytes k v)] := by
  refine map fun bs cs rest h => ?_
  obtain ⟨rfl, rfl⟩ := take_eq_ok.mp h
  refine ⟨[.block cs], ?_, .block cs (.nil rest)⟩
  simp only [leBytes_ofLeBytes, List.nil_append]

/-- A list that is preceded by its length. -/
theorem many (hr : Parses r [] K) (C : ℕ → List Item) (n : ℕ) :
    Parses (many r n) (C n) fun as => C as.length ++ as.flatMap K := by
  intro bs as rest h
  have hall : as.length = n ∧ Spells (as.flatMap K) bs rest := by
    induction n generalizing bs as with
    | zero =>
      obtain ⟨rfl, rfl⟩ := pure_eq_ok.mp h
      exact ⟨rfl, .nil _⟩
    | succ n ih =>
      obtain ⟨a, mid, ha, htl⟩ := bind_eq_ok.mp h
      obtain ⟨as', mid', has', hpure⟩ := bind_eq_ok.mp htl
      obtain ⟨rfl, rfl⟩ := pure_eq_ok.mp hpure
      obtain ⟨hlen, hspell⟩ := ih mid as' has'
      refine ⟨by rw [List.length_cons, hlen], ?_⟩
      rw [List.flatMap_cons]
      exact (hr.spells ha).append hspell
  exact ⟨_, by simp only [hall.1], hall.2⟩

end Parses

/-! ### What is returned -/

/-- Whatever the reader returns satisfies a condition. -/
def Yields (r : Reader ε α) (P : α → Prop) : Prop :=
  ∀ bs a rest, r bs = .ok (a, rest) → P a

namespace Yields

variable {r : Reader ε α} {P : β → Prop}

theorem pure {b : β} (h : P b) : Yields (pure b : Reader ε β) P := by
  intro bs b' rest hr
  obtain ⟨rfl, -⟩ := pure_eq_ok.mp hr
  exact h

theorem bind {f : α → Reader ε β} (hf : ∀ a, Yields (f a) P) : Yields (r >>= f) P := by
  intro bs b rest h
  obtain ⟨a, mid, -, hb⟩ := bind_eq_ok.mp h
  exact hf a mid b rest hb

/-- One field after the other, with what is known of each. -/
theorem bind_of {Q : α → Prop} {f : α → Reader ε β} (hr : Yields r Q)
    (hf : ∀ a, Q a → Yields (f a) P) : Yields (r >>= f) P := by
  intro bs b rest h
  obtain ⟨a, mid, ha, hb⟩ := bind_eq_ok.mp h
  exact hf a (hr bs a mid ha) mid b rest hb

theorem map {g : α → β} (hr : Yields r fun a => P (g a)) : Yields (g <$> r) P := by
  intro bs b rest h
  obtain ⟨a, ha, rfl⟩ := map_eq_ok.mp h
  exact hr bs a rest ha

theorem fail (e : ε) : Yields (fail e : Reader ε β) P := by
  intro bs b rest h
  simp [Codec.fail] at h

theorem ite {p : Prop} [Decidable p] {r r' : Reader ε β} (h : Yields r P) (h' : Yields r' P) :
    Yields (if p then r else r') P := by
  split_ifs
  · exact h
  · exact h'

theorem many {Q : α → Prop} (hr : Yields r Q) (n : ℕ) :
    Yields (many r n) fun as => ∀ a ∈ as, Q a := by
  induction n with
  | zero => exact .pure fun _ h => absurd h List.not_mem_nil
  | succ n ih =>
    refine hr.bind_of fun a ha => ih.bind_of fun as has => .pure ?_
    rintro x (_ | ⟨_, hx⟩)
    · exact ha
    · exact has x hx

theorem length_many (r : Reader ε α) (n : ℕ) :
    Yields (Codec.many r n) fun as => as.length = n := by
  induction n with
  | zero => exact .pure rfl
  | succ n ih =>
    refine .bind fun a => ih.bind_of fun as has => .pure ?_
    rw [List.length_cons, has]

end Yields

/-! ### Readers of a fixed number of bytes -/

/-- The reader takes a number of bytes, and fails, with a given error, only if there are
fewer. -/
def Fixed (r : Reader ε α) (n : ℕ) (e : ε) : Prop :=
  ∀ bs, (bs.length < n → r bs = .error e) ∧
    (n ≤ bs.length → ∃ a, r bs = .ok (a, bs.drop n))

namespace Fixed

variable {r : Reader ε α} {n m : ℕ} {e : ε}

theorem pure (a : α) (e : ε) : Fixed (pure a : Reader ε α) 0 e := fun _ =>
  ⟨fun h => absurd h (Nat.not_lt_zero _), fun _ => ⟨a, rfl⟩⟩

theorem bind {f : α → Reader ε β} (hr : Fixed r m e) (hf : ∀ a, Fixed (f a) n e) :
    Fixed (r >>= f) (m + n) e := by
  intro bs
  rw [bind_apply]
  constructor
  · intro hshort
    rcases Nat.lt_or_ge bs.length m with hlt | hge
    · rw [(hr bs).1 hlt]
    · obtain ⟨a, ha⟩ := (hr bs).2 hge
      rw [ha]
      exact (hf a _).1 (by rw [List.length_drop]; omega)
  · intro hlong
    obtain ⟨a, ha⟩ := (hr bs).2 (by omega)
    obtain ⟨b, hb⟩ := (hf a (bs.drop m)).2 (by rw [List.length_drop]; omega)
    rw [ha]
    exact ⟨b, by rw [← List.drop_drop]; exact hb⟩

theorem map (g : α → β) (hr : Fixed r n e) : Fixed (g <$> r) n e := by
  intro bs
  rw [map_apply]
  constructor
  · intro hshort
    rw [(hr bs).1 hshort]
  · intro hlong
    obtain ⟨a, ha⟩ := (hr bs).2 hlong
    rw [ha]
    exact ⟨g a, rfl⟩

theorem take (e : ε) (n : ℕ) : Fixed (take e n) n e := fun bs =>
  ⟨fun h => if_pos h, fun h => ⟨bs.take n, if_neg (Nat.not_lt.mpr h)⟩⟩

theorem word (e : ε) (k : ℕ) : Fixed (word e k) k e := (take e k).map ofLeBytes

end Fixed

/-! ### Readers that the bytes they take decide -/

/-- Whatever the reader accepts, it would accept the bytes it has taken with anything after
them, and no proper prefix of them. -/
def Decisive (r : Reader ε α) : Prop :=
  ∀ bs a rest, r bs = .ok (a, rest) → ∃ cs, bs = cs ++ rest ∧ Reads r cs a ∧
    ∀ ds, ds <+: cs → ds ≠ cs → ∀ b left, r ds ≠ .ok (b, left)

namespace Decisive

variable {r : Reader ε α}

theorem pure (a : α) : Decisive (pure a : Reader ε α) := by
  intro bs b rest h
  obtain ⟨rfl, rfl⟩ := pure_eq_ok.mp h
  refine ⟨[], rfl, .pure a, fun ds hds hne => ?_⟩
  exact absurd (List.prefix_nil.mp hds) hne

/-- **One field after the other.** A proper prefix of both breaks off in the first field, or
has all of it and breaks off in the second. -/
theorem bind {f : α → Reader ε β} (hr : Decisive r) (hf : ∀ a, Decisive (f a)) :
    Decisive (r >>= f) := by
  intro bs b rest h
  obtain ⟨a, mid, ha, hb⟩ := bind_eq_ok.mp h
  obtain ⟨cs, rfl, hreads, hshort⟩ := hr bs a mid ha
  obtain ⟨cs', rfl, hreads', hshort'⟩ := hf a mid b rest hb
  refine ⟨cs ++ cs', by rw [List.append_assoc], hreads.bind hreads', ?_⟩
  intro ds hds hne b' left hok
  obtain ⟨a', mid', ha', hb'⟩ := bind_eq_ok.mp hok
  rcases List.prefix_or_prefix_of_prefix hds (List.prefix_append cs cs') with hin | ⟨ds', rfl⟩
  · rcases eq_or_ne ds cs with rfl | hcs
    · -- the second field is missing altogether
      have hread := hreads []
      rw [List.append_nil] at hread
      obtain ⟨rfl, rfl⟩ := Prod.mk.inj (Except.ok.inj (ha'.symm.trans hread))
      refine hshort' [] List.nil_prefix (fun hnil => ?_) b' left hb'
      exact hne (by rw [← hnil, List.append_nil])
    · exact hshort ds hin hcs a' mid' ha'
  · obtain ⟨rfl, rfl⟩ := Prod.mk.inj (Except.ok.inj (ha'.symm.trans (hreads ds')))
    have hds' : mid' <+: cs' := (List.prefix_append_right_inj cs).mp hds
    exact hshort' mid' hds' (fun hc => hne (by rw [hc])) b' left hb'

theorem map (g : α → β) (hr : Decisive r) : Decisive (g <$> r) := by
  intro bs b rest h
  obtain ⟨a, ha, rfl⟩ := map_eq_ok.mp h
  obtain ⟨cs, rfl, hreads, hshort⟩ := hr bs a rest ha
  refine ⟨cs, rfl, hreads.map g, fun ds hds hne b left hok => ?_⟩
  obtain ⟨a', ha', -⟩ := map_eq_ok.mp hok
  exact hshort ds hds hne a' left ha'

theorem fail (e : ε) : Decisive (fail e : Reader ε α) := by
  intro bs a rest h
  simp [Codec.fail] at h

theorem ite {p : Prop} [Decidable p] {r r' : Reader ε α} (h : Decisive r) (h' : Decisive r') :
    Decisive (if p then r else r') := by
  split_ifs
  · exact h
  · exact h'

theorem take (e : ε) (n : ℕ) : Decisive (take e n) := by
  intro bs cs rest h
  obtain ⟨rfl, rfl⟩ := take_eq_ok.mp h
  refine ⟨cs, rfl, .take e cs, fun ds hds hne b left hok => ?_⟩
  obtain ⟨hlen, rfl⟩ := take_eq_ok.mp hok
  refine hne (hds.eq_of_length_le ?_)
  rw [List.length_append]
  omega

theorem word (e : ε) (k : ℕ) : Decisive (word e k) := (take e k).map ofLeBytes

theorem many (hr : Decisive r) (n : ℕ) : Decisive (many r n) := by
  induction n with
  | zero => exact .pure []
  | succ n ih => exact hr.bind fun a => ih.bind fun as => .pure (a :: as)

end Decisive

end Codec
