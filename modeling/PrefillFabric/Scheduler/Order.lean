import Mathlib.Data.Prod.Lex
import PrefillFabric.Scheduler.Cycle

/-!
# The order of service

Candidates are compared by eight criteria, one after the other: who is urgent, the deadline,
the priority, the latency class, the service the tenant has had, the cycles waited, the time
of admission and the identity. The criteria are put together into one `Impl.precedence` in a
lexicographic product of linear orders, and what the source computes is the strict order of
precedences (`Impl.precedes_iff`).

The one criterion that may spoil this is the service ratio, a quotient of doubles: with a NaN
among the ratios two candidates may each be neither equal to the other nor before it. Where
there is none (`Impl.Comparable`), the comparison is a strict total order
(`Impl.isStrictTotalOrder_precedes`), and the order of service depends on nothing but who the
candidates are (`Impl.sortedCandidates_eq`).
-/

namespace PrefillFabric

namespace Double

variable {a b : Double}

theorem eq_iff (ha : a.isNaN = false) (hb : b.isNaN = false) :
    a.eq b = true ↔ a.signed = b.signed := by
  simp [eq, ha, hb]

theorem lt_iff (ha : a.isNaN = false) (hb : b.isNaN = false) :
    a.lt b = true ↔ a.signed < b.signed := by
  simp [lt, ha, hb]

end Double

theorem LatencyClass.rank_injective : Function.Injective LatencyClass.rank := by
  rintro (_ | _) (_ | _) h <;> simp_all [rank]

/-- The eight criteria. -/
abbrev Precedence := Bool ×ₗ ℤ ×ₗ ℤᵒᵈ ×ₗ ℕᵒᵈ ×ₗ ℤ ×ₗ ℕᵒᵈ ×ₗ ℤ ×ₗ ℕ

namespace Impl

variable {env : Env} {now : Nanoseconds} {σ τ : Impl} {a b : RequestId}

/-- Where a request stands among the candidates; the least precedence is served first. -/
def precedence (env : Env) (now : Nanoseconds) (σ : Impl) (a : RequestId) : Precedence :=
  let s := (σ.requests.lookup a).getD {}
  toLex (!s.isUrgent env now, toLex (s.deadlineOrMax, toLex (.toDual s.request.priority,
    toLex (.toDual s.request.latencyClass.rank, toLex ((serviceRatio env σ s).signed,
      toLex (.toDual s.agingCycles, toLex (s.admitTime, a.value)))))))

/-- No tenant's service ratio is a NaN. -/
def Comparable (env : Env) (σ : Impl) : Prop := ∀ s, (serviceRatio env σ s).isNaN = false

theorem precedence_injective : Function.Injective (precedence env now σ) := by
  intro a b h
  simp only [precedence, EmbeddingLike.apply_eq_iff_eq, Prod.mk.injEq] at h
  exact congrArg StrongId.mk h.2.2.2.2.2.2.2

/-- One criterion: it decides where it differs, and leaves the decision to the next where it
does not. -/
theorem criterion_iff {α : Type} [LinearOrder α] {x y : α} {p : Prop} [Decidable p]
    {first rest : Bool} {q : Prop} (hp : p ↔ x ≠ y) (hfirst : p → (first = true ↔ x < y))
    (hrest : rest = true ↔ q) : (if p then first else rest) = true ↔ x < y ∨ x = y ∧ q := by
  by_cases h : p
  · rw [if_pos h, hfirst h]
    exact ⟨Or.inl, fun hor => hor.resolve_right fun heq => hp.mp h heq.1⟩
  · have heq : x = y := not_not.mp fun hne => h (hp.mpr hne)
    rw [if_neg h, hrest, heq]
    exact ⟨fun hq => Or.inr ⟨rfl, hq⟩, fun hor => (hor.resolve_left (lt_irrefl y)).2⟩

/-- **The comparison of the source is the order of precedences.** -/
theorem precedes_iff (h : Comparable env σ) :
    precedes env now σ a b = true ↔ precedence env now σ a < precedence env now σ b := by
  simp only [precedes, precedence, Prod.Lex.toLex_lt_toLex]
  generalize (σ.requests.lookup a).getD {} = sa
  generalize (σ.requests.lookup b).getD {} = sb
  refine criterion_iff ?_ (fun hne => ?_) <| criterion_iff Iff.rfl (fun _ => decide_eq_true_iff) <|
    criterion_iff ?_ (fun _ => decide_eq_true_iff) <|
    criterion_iff ?_ (fun _ => decide_eq_true_iff) <|
    criterion_iff ?_ (fun _ => Double.lt_iff (h sa) (h sb)) <|
    criterion_iff ?_ (fun _ => decide_eq_true_iff) <|
    criterion_iff Iff.rfl (fun _ => decide_eq_true_iff) decide_eq_true_iff
  · cases sa.isUrgent env now <;> cases sb.isUrgent env now <;> simp
  · revert hne
    cases sa.isUrgent env now <;> cases sb.isUrgent env now <;> simp
  · exact OrderDual.toDual_inj.not.symm
  · exact (OrderDual.toDual_inj.trans LatencyClass.rank_injective.eq_iff).not.symm
  · rw [Bool.not_eq_true', ← Bool.not_eq_true, Double.eq_iff (h sa) (h sb)]
  · exact OrderDual.toDual_inj.not.symm

/-- **The comparison is a strict total order.** -/
theorem isStrictTotalOrder_precedes (h : Comparable env σ) (now : Nanoseconds) :
    IsStrictTotalOrder RequestId fun a b => precedes env now σ a b = true where
  irrefl a hlt := lt_irrefl _ ((precedes_iff h).mp hlt)
  trans a b c hab hbc :=
    (precedes_iff h).mpr (((precedes_iff h).mp hab).trans ((precedes_iff h).mp hbc))
  trichotomous a b hab hba := by
    rw [precedes_iff h] at hab hba
    exact precedence_injective (le_antisymm (not_lt.mp hba) (not_lt.mp hab))

/-! ### The candidates in order -/

/-- The candidates are those who wait. -/
theorem mem_candidates : a ∈ σ.candidates ↔
    ∃ s, σ.requests.lookup a = some s ∧ s.isWaiting = true := by
  simp only [candidates, List.mem_map, List.mem_filter]
  constructor
  · rintro ⟨⟨r, s⟩, ⟨he, hwait⟩, rfl⟩
    exact ⟨s, AList.mem_lookup_iff.mpr he, hwait⟩
  · rintro ⟨s, hs, hwait⟩
    exact ⟨⟨a, s⟩, ⟨AList.mem_lookup_iff.mp hs, hwait⟩, rfl⟩

theorem mem_sortedCandidates : a ∈ σ.sortedCandidates env now ↔ a ∈ σ.candidates :=
  List.mem_insertionSort _

/-- Whoever stands earlier in the order of service has the lesser precedence. -/
theorem pairwise_sortedCandidates (h : Comparable env σ) (now : Nanoseconds) :
    (σ.sortedCandidates env now).Pairwise fun a b =>
      precedence env now σ a ≤ precedence env now σ b := by
  have hle : ∀ a b, (!precedes env now σ b a) = true ↔
      precedence env now σ a ≤ precedence env now σ b := by
    intro a b
    rw [Bool.not_eq_true', ← Bool.not_eq_true, precedes_iff h, not_lt]
  have : Std.Total fun a b => (!precedes env now σ b a) = true :=
    ⟨fun a b => by rw [hle, hle]; exact le_total ..⟩
  have : IsTrans RequestId fun a b => (!precedes env now σ b a) = true :=
    ⟨fun a b c hab hbc => (hle a c).mpr (((hle a b).mp hab).trans ((hle b c).mp hbc))⟩
  exact (List.pairwise_insertionSort _ σ.candidates).imp fun hab => (hle _ _).mp hab

/-- **The order of service is determined by the candidates and their precedences.** -/
theorem sortedCandidates_eq (h : Comparable env σ) (h' : Comparable env τ)
    (hcands : σ.candidates.Perm τ.candidates)
    (hprecedence : precedence env now σ = precedence env now τ) :
    σ.sortedCandidates env now = τ.sortedCandidates env now := by
  have : Std.Antisymm fun a b => precedence env now σ a ≤ precedence env now σ b :=
    ⟨fun a b hab hba => precedence_injective (le_antisymm hab hba)⟩
  have hsorted := pairwise_sortedCandidates h' now
  rw [← hprecedence] at hsorted
  refine List.Perm.eq_of_pairwise' (pairwise_sortedCandidates h now) hsorted ?_
  exact (List.perm_insertionSort ..).trans (hcands.trans (List.perm_insertionSort ..).symm)

/-- Of two candidates the one that precedes the other is served first. -/
theorem idxOf_lt_iff (h : Comparable env σ) (ha : a ∈ σ.candidates) (hb : b ∈ σ.candidates) :
    (σ.sortedCandidates env now).idxOf a < (σ.sortedCandidates env now).idxOf b ↔
      precedes env now σ a b = true := by
  have hmem : ∀ x ∈ σ.candidates, x ∈ σ.sortedCandidates env now := fun _ hx =>
    mem_sortedCandidates.mpr hx
  have hle : ∀ x ∈ σ.candidates, ∀ y ∈ σ.candidates,
      (σ.sortedCandidates env now).idxOf x < (σ.sortedCandidates env now).idxOf y →
      precedence env now σ x ≤ precedence env now σ y := by
    intro x hx y hy hlt
    have hx' := List.idxOf_lt_length_of_mem (hmem x hx)
    have hy' := List.idxOf_lt_length_of_mem (hmem y hy)
    have hpair := List.pairwise_iff_getElem.mp (pairwise_sortedCandidates h now) _ _ hx' hy' hlt
    rwa [List.getElem_idxOf, List.getElem_idxOf] at hpair
  rw [precedes_iff h]
  constructor
  · intro hlt
    refine lt_of_le_of_ne (hle a ha b hb hlt) fun heq => ?_
    rw [precedence_injective heq] at hlt
    exact absurd hlt (Nat.lt_irrefl _)
  · intro hlt
    by_contra hnot
    rcases (Nat.not_lt.mp hnot).lt_or_eq with hgt | heq
    · exact absurd (hle b hb a ha hgt) (not_le.mpr hlt)
    · have hab : b = a := (List.idxOf_inj (hmem b hb)).mp heq
      exact absurd hlt (hab ▸ lt_irrefl _)

end Impl

end PrefillFabric
