import Mathlib.Data.List.Basic

/-!
# Interleaved writers

Several writers append to one log. Each writes units, one after the other, and a unit is a
sequence of bytes that it may append in pieces. The log keeps for each byte who wrote it.

A log is *whole* if it is a sequence of units. If it is, then at any byte of it every *other*
writer is between two units (`own_of_split`): a unit that has been begun cannot be interrupted.
-/

namespace Interleaving

variable {ι α β : Type} [DecidableEq ι]

/-- What one writer has contributed. -/
def own (t : ι) (log : List (ι × β)) : List β := (log.filter (·.1 = t)).map (·.2)

/-- The bytes of a unit, as its writer's. -/
def tagged (f : α → List β) (p : ι × α) : List (ι × β) := (f p.2).map (p.1, ·)

@[simp] theorem own_nil (t : ι) : own t ([] : List (ι × β)) = [] := rfl

theorem mem_own {p : ι × β} {log : List (ι × β)} (h : p ∈ log) : p.2 ∈ own p.1 log :=
  List.mem_map.mpr ⟨p, List.mem_filter.mpr ⟨h, decide_eq_true rfl⟩, rfl⟩

@[simp] theorem own_append (t : ι) (l l' : List (ι × β)) :
    own t (l ++ l') = own t l ++ own t l' := by
  simp [own]

@[simp] theorem own_cons_self (t : ι) (b : β) (l : List (ι × β)) :
    own t ((t, b) :: l) = b :: own t l := by
  simp [own]

theorem own_cons_of_ne {t u : ι} (h : u ≠ t) (b : β) (l : List (ι × β)) :
    own t ((u, b) :: l) = own t l := by
  simp [own, h]

@[simp] theorem own_map_self (t : ι) (bs : List β) : own t (bs.map (t, ·)) = bs := by
  induction bs with
  | nil => rfl
  | cons b bs ih => simp [ih]

theorem own_map_of_ne {t u : ι} (h : u ≠ t) (bs : List β) : own t (bs.map (u, ·)) = [] := by
  induction bs with
  | nil => rfl
  | cons b bs ih => simp [own_cons_of_ne h, ih]

omit [DecidableEq ι] in
theorem map_snd_tagged (f : α → List β) (p : ι × α) : (tagged f p).map (·.2) = f p.2 := by
  rw [tagged, List.map_map]
  exact List.map_id _

/-- **A whole log is not interrupted.** Where one writer's byte stands, what another writer has
written before is a number of its units. -/
theorem own_of_split (f : α → List β) {done : List (ι × α)} {before after : List (ι × β)}
    {t u : ι} {b : β} (hsplit : done.flatMap (tagged f) = before ++ (t, b) :: after)
    (hne : t ≠ u) : ∃ k, own u before = ((own u done).take k).flatMap f := by
  induction done generalizing before with
  | nil => simp at hsplit
  | cons p done ih =>
    obtain ⟨v, a⟩ := p
    rw [List.flatMap_cons, tagged] at hsplit
    have hcases : (∃ rest, before = (f a).map (v, ·) ++ rest ∧
          done.flatMap (tagged f) = rest ++ (t, b) :: after) ∨
        ∃ rest, (f a).map (v, ·) = before ++ (t, b) :: rest := by
      rcases List.append_eq_append_iff.mp hsplit with ⟨rest, hb, hr⟩ | ⟨_ | ⟨p, rest⟩, hb, hr⟩
      · exact .inl ⟨rest, hb, hr⟩
      · exact .inl ⟨[], by rw [hb, List.append_nil, List.append_nil], hr.symm⟩
      · obtain ⟨rfl, -⟩ := List.cons.inj hr
        exact .inr ⟨rest, hb⟩
    rcases hcases with ⟨rest, rfl, hrest⟩ | ⟨rest, hunit⟩
    · obtain ⟨k, hk⟩ := ih hrest
      rcases eq_or_ne v u with rfl | hv
      · exact ⟨k + 1, by simp [hk]⟩
      · exact ⟨k, by simp [own_map_of_ne hv, own_cons_of_ne hv, hk]⟩
    · -- within the first unit there is nothing of another writer
      obtain ⟨l, l', -, rfl, hl'⟩ := List.map_eq_append_iff.mp hunit
      obtain ⟨_, -, -, hhead, -⟩ := List.map_eq_cons_iff.mp hl'
      obtain ⟨rfl, -⟩ := Prod.mk.inj hhead
      exact ⟨0, own_map_of_ne hne l⟩

/-- A number of units is not some units and a part of the next. -/
theorem flatMap_take_ne (f : α → List β) {as bs : List α} {a : α} {w v : List β}
    (hunit : w ++ v = f a) (hw : w ≠ []) (hv : v ≠ []) (k : ℕ) :
    ((as ++ a :: bs).take k).flatMap f ≠ as.flatMap f ++ w := by
  intro heq
  have hw := List.length_pos_of_ne_nil hw
  have hv := List.length_pos_of_ne_nil hv
  have hlen := congrArg List.length heq
  rcases Nat.lt_or_ge as.length k with hlt | hge
  · -- all of the next unit is there
    obtain ⟨j, rfl⟩ := Nat.exists_eq_add_of_lt hlt
    rw [Nat.add_assoc, List.take_length_add_append, List.take_succ_cons, List.flatMap_append,
      List.flatMap_cons, ← hunit] at hlen
    simp only [List.length_append] at hlen
    omega
  · rw [List.take_append_of_le_length hge] at hlen
    have hsplit := congrArg (List.flatMap f) (List.take_append_drop k as)
    rw [List.flatMap_append] at hsplit
    rw [← hsplit] at hlen
    simp only [List.length_append] at hlen
    omega

end Interleaving
