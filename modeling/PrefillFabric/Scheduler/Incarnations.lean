import PrefillFabric.Scheduler.Lifetime

/-!
# Incarnations of a worker

A worker that restarts registers again, under another boot number: it is another
incarnation of the same worker. A completion should be accepted from the incarnation the
chunk was handed out to and from nobody else. `Life.accepted_iff` says when it is.

Three things come between. The nil identity is that of the local worker and also stands for
no worker at all, and the check against the worker the chunk was sent to is made for any
other only. A completion with neither a worker nor a boot number passes without any check of
either. And the boot number is compared with the one the worker is registered under *now*:
if it has registered again while the chunk was under way, the new incarnation is believed
and the one that has the chunk is not.
-/

namespace PrefillFabric

/-- The boot number a worker is registered under. -/
def Impl.bootOf (σ : Impl) (w : WorkerId) : Option WorkerBootId :=
  (σ.workers.lookup w).map (·.desc.bootId)

namespace Life

variable {ℓ : Life} {n k : ℕ} {r : RequestId} {m : ExecutableMember} {result : MemberResult}

/-- The chunk of a request that is in flight before turn number `n` was handed out by turn
number `k`, as the member `m`. -/
structure Dispatched (ℓ : Life) (n : ℕ) (r : RequestId) (k : ℕ) (m : ExecutableMember) : Prop where
  lt : k < n
  emitted : m ∈ ℓ.emitted k
  requestId : m.requestId = r
  since : ∀ j, k < j → j ≤ n → (ℓ.stateAt j).Awaits m

/-- The member was handed out to the worker on record. -/
theorem Dispatched.worker_eq {s : Rs} (h : ℓ.Dispatched n r k m)
    (hs : (ℓ.stateAt n).view.req r = some s) : s.dispatchedWorker = m.assignedWorker := by
  obtain ⟨t, ht, hm⟩ := Impl.view_awaits.mpr (h.since n h.lt le_rfl)
  rw [h.requestId] at ht
  obtain rfl := Option.some.inj (ht.symm.trans hs)
  exact hm.worker

theorem exists_dispatched {s : Rs} (hs : (ℓ.stateAt n).view.Accepts result s) :
    ∃ k m, ℓ.Dispatched n result.requestId k m := by
  let m₀ : ExecutableMember :=
    { requestId := result.requestId
      attemptId := result.attemptId
      generation := result.generation
      assignedWorker := s.dispatchedWorker }
  have hm₀ : (ℓ.stateAt n).Awaits m₀ := Impl.view_awaits.mp
    ⟨s, hs.req, ⟨hs.inFlight, hs.lifecycle, hs.attempt.symm, hs.generation.symm, rfl⟩⟩
  obtain ⟨k, m, hk, hm, hticket, hsince⟩ := exists_dispatch hm₀
  exact ⟨k, m, hk, hm, congrArg Prod.fst hticket, hsince⟩

/-- **Whose completions are accepted.** What an accepted completion answers has been handed out
by some turn of the same life. It names the worker that got it, under the boot number it
was registered under then, exactly if

* it names a worker, unless that is the local one;
* if it names neither a worker nor a boot number, the local worker has the nil boot number;
  and otherwise the worker that got the chunk is still registered as it was. -/
theorem accepted_iff (ℓ : Life) (n : ℕ) (now : Nanoseconds) (result : MemberResult)
    (hok : isOk ((ℓ.stateAt n).reportCompletion ℓ.env now result).2 = true) :
    (∃ k m, ℓ.Dispatched n result.requestId k m) ∧
    ∀ k m, ℓ.Dispatched n result.requestId k m →
      ((result.worker = m.assignedWorker ∧
          (ℓ.stateAt k).bootOf m.assignedWorker = some result.boot) ↔
        (result.worker = .nil → m.assignedWorker = .nil) ∧
          if result.worker = .nil ∧ result.boot = .nil then
            (ℓ.stateAt k).bootOf .nil = some .nil
          else
            (ℓ.stateAt n).bootOf m.assignedWorker = (ℓ.stateAt k).bootOf m.assignedWorker) := by
  obtain ⟨s, hs⟩ := Impl.isOk_reportCompletion_iff.mp hok
  refine ⟨exists_dispatched hs, fun k m hm => ?_⟩
  have hworker : result.worker = .nil ∨ result.worker = m.assignedWorker := by
    rw [← hm.worker_eq hs.req]
    exact hs.worker
  have hboot : (result.worker = .nil ∧ result.boot = .nil) ∨
      (ℓ.stateAt n).bootOf result.worker = some result.boot := hs.boot
  generalize ℓ.stateAt k = σ
  constructor
  · rintro ⟨heq, hthen⟩
    refine ⟨fun hnil => heq ▸ hnil, ?_⟩
    split_ifs with hnone
    · rw [← hnone.1, ← hnone.2, ← hthen, heq]
    · rw [hthen, ← hboot.resolve_left hnone, heq]
  · rintro ⟨hlocal, hsame⟩
    have heq : result.worker = m.assignedWorker := by
      rcases hworker with hnil | heq
      · rw [hnil, hlocal hnil]
      · exact heq
    refine ⟨heq, ?_⟩
    split_ifs at hsame with hnone
    · rw [← heq, hnone.1, hnone.2, hsame]
    · rw [← hsame, ← heq]
      exact hboot.resolve_left hnone

/-- A chunk is handed out to a worker; then the worker registers again. -/
def rebootedTurns : List Turn :=
  [.call ⟨0, .registerWorker { workerId := ⟨7⟩, bootId := ⟨3⟩, backend := "gpu" }⟩,
    .call ⟨0, .submitWithTokens { Run.plainRequest 1 2 with backend := "gpu" } [5, 6]⟩,
    .call ⟨0, .runCycle⟩,
    .call ⟨0, .registerWorker { workerId := ⟨7⟩, bootId := ⟨4⟩, backend := "gpu" }⟩]

/-- The completion of the chunk, from a worker under a boot number. -/
def completionFrom (w : WorkerId) (b : WorkerBootId) : MemberResult :=
  { requestId := ⟨1⟩, attemptId := ⟨1⟩, generation := ⟨1⟩, outcome := .success, epoch := ⟨1⟩,
    worker := w, boot := b }

/-- The chunk is in the hands of worker 7, as booted under number 3. Before that worker
registers again, a completion from nobody and one from the local worker are accepted; after
it has, one from its new incarnation is, and the one from the incarnation that has the chunk
is not. -/
theorem accepted_rebootedTurns :
    let ℓ : Life := ⟨.standard, rebootedTurns⟩
    (ℓ.emitted 2).map (fun m => (m.requestId, m.assignedWorker)) = [(⟨1⟩, ⟨7⟩)] ∧
      (ℓ.stateAt 2).bootOf ⟨7⟩ = some ⟨3⟩ ∧
      isOk ((ℓ.stateAt 3).reportCompletion ℓ.env 0 (completionFrom .nil .nil)).2 = true ∧
      isOk ((ℓ.stateAt 3).reportCompletion ℓ.env 0 (completionFrom .nil ⟨1⟩)).2 = true ∧
      isOk ((ℓ.stateAt 4).reportCompletion ℓ.env 0 (completionFrom ⟨7⟩ ⟨4⟩)).2 = true ∧
      isOk ((ℓ.stateAt 4).reportCompletion ℓ.env 0 (completionFrom ⟨7⟩ ⟨3⟩)).2 = false := by
  decide +kernel

/-- What is accepted before the worker registers again is judged by the worker it names. -/
theorem accepted_iff_rebootedTurns :
    let ℓ : Life := ⟨.standard, rebootedTurns⟩
    (∃ k m, ℓ.Dispatched 3 ⟨1⟩ k m) ∧
    ∀ k m, ℓ.Dispatched 3 ⟨1⟩ k m →
      ((⟨7⟩ = m.assignedWorker ∧ (ℓ.stateAt k).bootOf m.assignedWorker = some ⟨3⟩) ↔
        ((⟨7⟩ : WorkerId) = .nil → m.assignedWorker = .nil) ∧
          if (⟨7⟩ : WorkerId) = .nil ∧ (⟨3⟩ : WorkerBootId) = .nil then
            (ℓ.stateAt k).bootOf .nil = some .nil
          else
            (ℓ.stateAt 3).bootOf m.assignedWorker = (ℓ.stateAt k).bootOf m.assignedWorker) :=
  accepted_iff ⟨.standard, rebootedTurns⟩ 3 0 (completionFrom ⟨7⟩ ⟨3⟩) (by decide +kernel)

end Life

end PrefillFabric
