import Mathlib.Algebra.BigOperators.Group.List.Basic
import Mathlib.Algebra.GroupWithZero.Nat
import Mathlib.Data.List.AList

/-!
# Finite tables

Association lists with distinct keys, as `Mathlib.Data.List.AList` has them, and
the two things a program does to such a table that are not there: change the
value under a key that may be absent, and add up a weight over all entries.

The order of the entries is the order in which an iteration visits them. Nothing
is promised about it: writing under a key moves that key to the front.
-/

/-- A finite table from `κ` to `ν`. -/
abbrev Table (κ ν : Type) := AList fun _ : κ => ν

namespace AList

variable {κ ν : Type} [DecidableEq κ]

/-! ### Looking up after a write -/

theorem lookup_insert_eq_ite (t : Table κ ν) (a k : κ) (v : ν) :
    (t.insert a v).lookup k = if k = a then some v else t.lookup k := by
  by_cases h : k = a
  · rw [if_pos h, h, lookup_insert]
  · rw [if_neg h, lookup_insert_ne h]

theorem lookup_erase_eq_ite (t : Table κ ν) (a k : κ) :
    (t.erase a).lookup k = if k = a then none else t.lookup k := by
  by_cases h : k = a
  · rw [if_pos h, h, lookup_erase]
  · rw [if_neg h, lookup_erase_ne h]

/-- Change the value under a key, if there is one. -/
def modify (a : κ) (f : ν → ν) (t : Table κ ν) : Table κ ν :=
  match t.lookup a with
  | some v => t.insert a (f v)
  | none => t

theorem lookup_modify (t : Table κ ν) (a k : κ) (f : ν → ν) :
    (modify a f t).lookup k = if k = a then (t.lookup a).map f else t.lookup k := by
  rw [modify]
  cases h : t.lookup a with
  | some v => exact lookup_insert_eq_ite t a k (f v)
  | none =>
    by_cases hk : k = a
    · rw [if_pos hk, hk, h, Option.map_none]
    · rw [if_neg hk]

/-- A change that `g` does not see is not seen in the table either. -/
theorem map_lookup_modify {μ : Type} (t : Table κ ν) (a k : κ) {f : ν → ν} {g : ν → μ}
    (h : ∀ v, g (f v) = g v) : ((modify a f t).lookup k).map g = (t.lookup k).map g := by
  rw [lookup_modify]
  by_cases hk : k = a
  · rw [if_pos hk, hk, Option.map_map]
    exact congrArg (fun u => Option.map u (t.lookup a)) (funext h)
  · rw [if_neg hk]

/-! ### Tables as functions -/

theorem lookup_insert_fun (t : Table κ ν) (a : κ) (v : ν) :
    (t.insert a v).lookup = Function.update t.lookup a (some v) :=
  funext fun k => by rw [lookup_insert_eq_ite, Function.update_apply]

theorem lookup_erase_fun (t : Table κ ν) (a : κ) :
    (t.erase a).lookup = Function.update t.lookup a none :=
  funext fun k => by rw [lookup_erase_eq_ite, Function.update_apply]

theorem lookup_modify_fun (t : Table κ ν) (a : κ) (f : ν → ν) :
    (modify a f t).lookup = Function.update t.lookup a ((t.lookup a).map f) :=
  funext fun k => by rw [lookup_modify, Function.update_apply]

/-- Two tables are the same function exactly if they differ in the order of their entries at
most. -/
theorem lookup_eq_iff_perm {t t' : Table κ ν} :
    t.lookup = t'.lookup ↔ t.entries.Perm t'.entries := by
  refine ⟨fun h => List.lookup_ext t.nodupKeys t'.nodupKeys fun k v => ?_,
    fun h => funext fun k => perm_lookup h⟩
  have hk : t.lookup k = t'.lookup k := congrFun h k
  exact iff_of_eq (congrArg (v ∈ ·) hk)

/-- Two tables that agree up to a function of key and value have the same images of entries, but
for their order. -/
theorem perm_map_entries {μ : Type} (f : κ → ν → μ) {t t' : Table κ ν}
    (h : ∀ k, (t.lookup k).map (f k) = (t'.lookup k).map (f k)) :
    (t.entries.map fun e => f e.1 e.2).Perm (t'.entries.map fun e => f e.1 e.2) := by
  have hkeys : ∀ u : Table κ ν,
      (u.entries.map (Sigma.map id f) : List (Sigma fun _ : κ => μ)).NodupKeys := by
    intro u
    rw [List.NodupKeys, List.keys, List.map_map]
    exact u.nodupKeys
  have hperm := List.lookup_ext (hkeys t) (hkeys t') fun k v => by
    rw [List.dlookup_map₂, List.dlookup_map₂]
    exact iff_of_eq (congrArg (v ∈ ·) (h k))
  have hmap := hperm.map Sigma.snd
  rwa [List.map_map, List.map_map] at hmap

/-! ### Folds -/

/-- Writing a list of entries with distinct keys, one after the other. -/
theorem lookup_foldl_insert {μ : Type} (f : κ → μ → ν) (l : List (Sigma fun _ : κ => μ))
    (hl : l.NodupKeys) (t : Table κ ν) (k : κ) :
    (l.foldl (fun t e => t.insert e.1 (f e.1 e.2)) t).lookup k =
      ((l.dlookup k).map (f k)).or (t.lookup k) := by
  induction l generalizing t with
  | nil => rfl
  | cons e l ih =>
    obtain ⟨a, m⟩ := e
    obtain ⟨hnot, htl⟩ := List.nodupKeys_cons.mp hl
    rw [List.foldl_cons, ih htl, lookup_insert_eq_ite]
    by_cases h : k = a
    · subst h
      rw [if_pos rfl, List.dlookup_cons_eq, List.dlookup_eq_none.mpr hnot]
      rfl
    · have hd : List.dlookup k (Sigma.mk (β := fun _ => μ) a m :: l) = List.dlookup k l :=
        List.dlookup_cons_ne l _ h
      rw [if_neg h, hd]

/-- Writing a list of entries, one after the other: of those under one key the last one counts. -/
theorem lookup_foldl_insert_eq_find {μ : Type} (key : μ → κ) (f : μ → ν) (l : List μ)
    (t : Table κ ν) (k : κ) :
    (l.foldl (fun t m => t.insert (key m) (f m)) t).lookup k =
      ((l.reverse.find? fun m => decide (key m = k)).map f).or (t.lookup k) := by
  induction l generalizing t with
  | nil => rfl
  | cons m l ih =>
    rw [List.foldl_cons, ih, lookup_insert_eq_ite, List.reverse_cons, List.find?_append]
    cases l.reverse.find? fun m => decide (key m = k) with
    | some x => rfl
    | none =>
      rcases eq_or_ne k (key m) with rfl | hk
      · simp
      · simp [hk, hk.symm]

/-! ### Changing every value -/

section mapValues

variable {μ : Type}

omit [DecidableEq κ] in
theorem keys_map_mk (f : ν → μ) (l : List (Sigma fun _ : κ => ν)) :
    (l.map fun e => (⟨e.1, f e.2⟩ : Sigma fun _ : κ => μ)).keys = l.keys := by
  rw [List.keys, List.map_map]
  rfl

omit [DecidableEq κ] in
/-- The table with a function applied to every value. -/
def mapValues (f : ν → μ) (t : Table κ ν) : Table κ μ where
  entries := t.entries.map fun e => ⟨e.1, f e.2⟩
  nodupKeys := by
    rw [List.NodupKeys, keys_map_mk]
    exact t.nodupKeys

theorem lookup_mapValues (f : ν → μ) (t : Table κ ν) (k : κ) :
    (mapValues f t).lookup k = (t.lookup k).map f :=
  List.dlookup_map₂ (f := fun _ => f) k

theorem map_kerase (f : ν → μ) (a : κ) (l : List (Sigma fun _ : κ => ν)) :
    (l.kerase a).map (fun e => (⟨e.1, f e.2⟩ : Sigma fun _ : κ => μ)) =
      (l.map fun e => ⟨e.1, f e.2⟩).kerase a := by
  induction l with
  | nil => rfl
  | cons e l ih =>
    rcases eq_or_ne a e.1 with rfl | hne
    · simp
    · have hne' : a ≠ (⟨e.1, f e.2⟩ : Sigma fun _ : κ => μ).1 := hne
      rw [List.kerase_cons_ne hne, List.map_cons, List.map_cons, List.kerase_cons_ne hne', ih]

theorem mapValues_insert (f : ν → μ) (t : Table κ ν) (a : κ) (v : ν) :
    mapValues f (t.insert a v) = (mapValues f t).insert a (f v) := by
  refine AList.ext ?_
  simp only [mapValues, entries_insert, List.map_cons, map_kerase]

end mapValues

/-! ### Keys -/

theorem mem_keys_iff_lookup {t : Table κ ν} {a : κ} : a ∈ t.keys ↔ ∃ v, t.lookup a = some v := by
  rw [← mem_keys, ← lookup_isSome, Option.isSome_iff_exists]

/-- A table with a single key. -/
theorem entries_eq_singleton {t : Table κ ν} {a : κ} {v : ν} (h : t.lookup a = some v)
    (hne : ∀ k, k ≠ a → t.lookup k = none) : t.entries = [⟨a, v⟩] := by
  refine List.perm_singleton.mp ((List.perm_ext_iff_of_nodup t.nodupKeys.nodup
    (List.nodup_singleton _)).mpr fun e => ?_)
  obtain ⟨k, u⟩ := e
  rw [← mem_lookup_iff, List.mem_singleton]
  by_cases hk : k = a
  · subst hk
    simp [h, eq_comm]
  · simp [hne k hk, hk]

/-- The number of entries. -/
def size (t : Table κ ν) : ℕ := t.keys.length

/-! ### Adding up a weight over a table -/

/-- The sum of a weight over all entries. -/
def total (w : κ → ν → ℕ) (t : Table κ ν) : ℕ := (t.entries.map fun e => w e.1 e.2).sum

omit [DecidableEq κ] in
theorem total_mapValues {μ : Type} (f : ν → μ) (w : κ → μ → ℕ) (t : Table κ ν) :
    total w (mapValues f t) = total (fun a v => w a (f v)) t := by
  rw [total, mapValues, List.map_map]
  rfl

/-- Taking out an entry lowers the sum by its weight. -/
theorem total_erase (w : κ → ν → ℕ) (t : Table κ ν) (a : κ) :
    total w t = total w (t.erase a) + (t.lookup a).elim 0 (w a) := by
  obtain ⟨l, hl⟩ := t
  change (l.map fun e => w e.1 e.2).sum =
    ((l.kerase a).map fun e => w e.1 e.2).sum + (l.dlookup a).elim 0 (w a)
  induction l with
  | nil => rfl
  | cons e l ih =>
    obtain ⟨k, v⟩ := e
    have htl := (List.nodupKeys_cons.mp hl).2
    by_cases h : k = a
    · subst h
      simp only [List.kerase_cons_eq, List.dlookup_cons_eq, List.map_cons, List.sum_cons,
        Option.elim_some]
      omega
    · have hne : a ≠ k := fun hc => h hc.symm
      have hk : List.kerase a (Sigma.mk (β := fun _ => ν) k v :: l) = ⟨k, v⟩ :: List.kerase a l :=
        List.kerase_cons_ne hne
      have hd : List.dlookup a (Sigma.mk (β := fun _ => ν) k v :: l) = List.dlookup a l :=
        List.dlookup_cons_ne l _ hne
      rw [hk, hd, List.map_cons, List.map_cons, List.sum_cons, List.sum_cons, ih htl]
      omega

/-- Writing an entry replaces the weight it had by the weight it gets. -/
theorem total_insert (w : κ → ν → ℕ) (t : Table κ ν) (a : κ) (v : ν) :
    total w (t.insert a v) + (t.lookup a).elim 0 (w a) = total w t + w a v := by
  have herase : (t.insert a v).erase a = t.erase a := by
    refine AList.ext ?_
    change List.kerase a (t.insert a v).entries = List.kerase a t.entries
    rw [entries_insert]
    exact List.kerase_cons_eq rfl
  have h1 := total_erase w (t.insert a v) a
  have h2 := total_erase w t a
  rw [herase, lookup_insert, Option.elim_some] at h1
  omega

/-- Every entry weighs at most the whole table. -/
theorem le_total {w : κ → ν → ℕ} {t : Table κ ν} {a : κ} {v : ν} (h : t.lookup a = some v) :
    w a v ≤ total w t := by
  rw [total_erase w t a, h, Option.elim_some]
  omega

/-- A weight that sees only `f` of an entry has the same sum over two tables that show the same
`f` under every key. -/
theorem total_congr {μ : Type} {f : ν → μ} (u : κ → μ → ℕ) {t t' : Table κ ν}
    (h : ∀ k, (t.lookup k).map f = (t'.lookup k).map f) :
    total (fun a v => u a (f v)) t = total (fun a v => u a (f v)) t' := by
  have hmem : ∀ (t : Table κ ν) (k : κ) (m : μ),
      (k, m) ∈ t.entries.map (fun e => (e.1, f e.2)) ↔ (t.lookup k).map f = some m := by
    intro t k m
    rw [List.mem_map, Option.map_eq_some_iff]
    constructor
    · rintro ⟨⟨a, v⟩, he, heq⟩
      obtain ⟨rfl, rfl⟩ := Prod.mk.inj heq
      exact ⟨v, AList.mem_lookup_iff.mpr he, rfl⟩
    · rintro ⟨v, hv, rfl⟩
      exact ⟨⟨k, v⟩, AList.mem_lookup_iff.mp hv, rfl⟩
  have hnodup : ∀ t : Table κ ν, (t.entries.map fun e => (e.1, f e.2)).Nodup := by
    intro t
    refine List.Nodup.of_map Prod.fst ?_
    rw [List.map_map]
    exact t.nodupKeys
  have hperm : (t.entries.map fun e => (e.1, f e.2)).Perm
      (t'.entries.map fun e => (e.1, f e.2)) := by
    refine (List.perm_ext_iff_of_nodup (hnodup t) (hnodup t')).mpr fun x => ?_
    obtain ⟨k, m⟩ := x
    rw [hmem, hmem, h k]
  have hsum := (hperm.map fun p => u p.1 p.2).sum_eq
  simpa only [total, List.map_map, Function.comp_def] using hsum

/-- A list of keys of a table is no longer than a sum that counts each key as often as the list
has it. -/
theorem length_le_total {w : κ → ν → ℕ} {t : Table κ ν} {l : List κ}
    (hkeys : ∀ k ∈ l, ∃ v, t.lookup k = some v)
    (hcount : ∀ k v, t.lookup k = some v → l.count k ≤ w k v) : l.length ≤ total w t := by
  have hlist : ∀ (es : List (Sigma fun _ : κ => ν)) (l : List κ),
      (∀ k ∈ l, ∃ e ∈ es, e.1 = k) → (∀ e ∈ es, l.count e.1 ≤ w e.1 e.2) →
      l.length ≤ (es.map fun e => w e.1 e.2).sum := by
    intro es
    induction es with
    | nil =>
      intro l hkeys _
      have hnil : l = [] := List.eq_nil_iff_forall_not_mem.mpr fun k hk => by
        simpa using hkeys k hk
      rw [hnil]
      exact Nat.zero_le _
    | cons e es ih =>
      intro l hkeys hcount
      -- take the first key out of the list
      have hrest : (l.filter (· != e.1)).length ≤ (es.map fun e => w e.1 e.2).sum := by
        refine ih _ (fun k hk => ?_) fun x hx => ?_
        · obtain ⟨hk, hne⟩ := List.mem_filter.mp hk
          obtain ⟨x, hx, rfl⟩ := hkeys k hk
          rcases List.mem_cons.mp hx with rfl | hx
          · simp at hne
          · exact ⟨x, hx, rfl⟩
        · exact (List.Sublist.count_le x.1 List.filter_sublist).trans
            (hcount x (List.mem_cons_of_mem e hx))
      have hsplit : l.length = l.count e.1 + (l.filter (· != e.1)).length := by
        rw [List.count, ← List.countP_eq_length_filter,
          List.length_eq_countP_add_countP (· == e.1)]
        refine congrArg (_ + ·) (List.countP_congr fun k _ => ?_)
        rw [decide_eq_true_iff, bne, Bool.not_eq_true', Bool.not_eq_true]
      have hfirst := hcount e List.mem_cons_self
      rw [List.map_cons, List.sum_cons]
      omega
  refine hlist t.entries l (fun k hk => ?_) fun e he => hcount e.1 e.2 (mem_lookup_iff.mpr he)
  obtain ⟨v, hv⟩ := hkeys k hk
  exact ⟨⟨k, v⟩, mem_lookup_iff.mp hv, rfl⟩

omit [DecidableEq κ] in
theorem total_one (t : Table κ ν) : total (fun _ _ => 1) t = size t := by
  rw [total, List.map_const', List.sum_replicate_nat, Nat.mul_one, size, keys,
    List.keys, List.length_map]

omit [DecidableEq κ] in
/-- The sum of a weight over the entries that are counted. -/
theorem total_ite (p : κ → ν → Bool) (w : κ → ν → ℕ) (t : Table κ ν) :
    total (fun a v => if p a v then w a v else 0) t =
      ((t.entries.filter fun e => p e.1 e.2).map fun e => w e.1 e.2).sum := by
  rw [total]
  induction t.entries with
  | nil => rfl
  | cons e l ih =>
    rw [List.map_cons, List.sum_cons, ih, List.filter_cons]
    by_cases h : p e.1 e.2 = true
    · rw [if_pos h, if_pos h, List.map_cons, List.sum_cons]
    · rw [if_neg h, if_neg h, Nat.zero_add]

omit [DecidableEq κ] in
/-- The number of entries that are counted. -/
theorem total_indicator (p : κ → ν → Bool) (t : Table κ ν) :
    total (fun a v => if p a v then 1 else 0) t = (t.entries.filter fun e => p e.1 e.2).length := by
  rw [total_ite, List.map_const', List.sum_replicate_nat, Nat.mul_one]

theorem mem_filter_entries {p : κ → ν → Bool} {t : Table κ ν} {a : κ} {v : ν} :
    (⟨a, v⟩ : Sigma fun _ : κ => ν) ∈ t.entries.filter (fun e => p e.1 e.2) ↔
      t.lookup a = some v ∧ p a v = true := by
  rw [List.mem_filter, ← AList.mem_lookup_iff]
  rfl

/-- **Matching tables**: when the counted entries of one table are matched with those
of another, by a key the former hold, and weigh the same, the sums are the same. -/
theorem total_eq_of_matching {κ' ν' : Type} [DecidableEq κ'] {p : κ → ν → Bool} {w : κ → ν → ℕ}
    {q : κ' → ν' → Bool} {u : κ' → ν' → ℕ} {t : Table κ ν} {t' : Table κ' ν'} (f : ν → κ')
    (hto : ∀ a v, t.lookup a = some v → p a v = true →
      ∃ v', t'.lookup (f v) = some v' ∧ q (f v) v' = true ∧ u (f v) v' = w a v)
    (hfrom : ∀ a' v', t'.lookup a' = some v' → q a' v' = true →
      ∃ a v, t.lookup a = some v ∧ p a v = true ∧ f v = a')
    (hinj : ∀ a v b v', t.lookup a = some v → p a v = true → t.lookup b = some v' →
      p b v' = true → f v = f v' → a = b) :
    total (fun a v => if p a v then w a v else 0) t =
      total (fun a v => if q a v then u a v else 0) t' := by
  have hperm : ((t.entries.filter fun e => p e.1 e.2).map fun e => (f e.2, w e.1 e.2)).Perm
      ((t'.entries.filter fun e => q e.1 e.2).map fun e => (e.1, u e.1 e.2)) := by
    refine (List.perm_ext_iff_of_nodup ?_ ?_).mpr fun x => ?_
    · refine List.Nodup.map_on ?_ (t.nodupKeys.nodup.filter _)
      rintro ⟨a, v⟩ ha ⟨b, v'⟩ hb heq
      obtain ⟨hav, hp⟩ := mem_filter_entries.mp ha
      obtain ⟨hbv, hp'⟩ := mem_filter_entries.mp hb
      obtain rfl := hinj a v b v' hav hp hbv hp' (Prod.mk.inj heq).1
      obtain rfl := Option.some.inj (hav.symm.trans hbv)
      rfl
    · refine List.Nodup.map_on ?_ (t'.nodupKeys.nodup.filter _)
      rintro ⟨a, v⟩ ha ⟨b, v'⟩ hb heq
      obtain ⟨hav, -⟩ := mem_filter_entries.mp ha
      obtain ⟨hbv, -⟩ := mem_filter_entries.mp hb
      obtain rfl : a = b := (Prod.mk.inj heq).1
      obtain rfl := Option.some.inj (hav.symm.trans hbv)
      rfl
    · constructor
      · intro hx
        obtain ⟨⟨a, v⟩, ha, rfl⟩ := List.mem_map.mp hx
        obtain ⟨hav, hp⟩ := mem_filter_entries.mp ha
        obtain ⟨v', hv', hq, hw⟩ := hto a v hav hp
        exact List.mem_map.mpr ⟨⟨f v, v'⟩, mem_filter_entries.mpr ⟨hv', hq⟩, by rw [hw]⟩
      · intro hx
        obtain ⟨⟨a', v'⟩, ha, rfl⟩ := List.mem_map.mp hx
        obtain ⟨hav', hq⟩ := mem_filter_entries.mp ha
        obtain ⟨a, v, hav, hp, rfl⟩ := hfrom a' v' hav' hq
        obtain ⟨v'', hv'', -, hw⟩ := hto a v hav hp
        obtain rfl := Option.some.inj (hv''.symm.trans hav')
        exact List.mem_map.mpr ⟨⟨a, v⟩, mem_filter_entries.mpr ⟨hav, hp⟩, by rw [hw]⟩
  have hsum := (hperm.map Prod.snd).sum_eq
  rw [total_ite, total_ite]
  simpa only [List.map_map, Function.comp_def] using hsum

end AList
