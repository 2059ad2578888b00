import PrefillFabric.Scheduler.Progress

/-!
# The tokens that are read

Which positions of a prompt are read for a request that completes? Each accepted
completion of its last attempt stands for a member that was handed out, and an executor
reads the range of the member. `Run.acceptedMembers` are these members. Along a run they
are exactly the chunks of the plan that are done (`Rs.Tracks`), so that for a completed
request their ranges are the whole plan.

The plan tiles the *remaining* tokens counted from zero, and a range is looked up in the
buffer of the whole prompt. So what is read are the first tokens of the prompt, as many as
are not cached; these are the tokens after the reusable prefix only when there is no
prefix, or nothing after it (`Run.reads_perm_iff`).
-/

namespace PrefillFabric

variable {env : Env} {v v' : View} {l : Label} {L : Label → Prop} {r : RequestId} {s s' : Rs}

/-! ### Attempts -/

/-- Attempts are drawn from a counter. -/
def View.AttemptsDrawn (v : View) : Prop := v.Each fun v s => s.attempt.value < v.nextAttempt

theorem Effect.nextAttempt_le (h : Effect env v l v') : v.nextAttempt ≤ v'.nextAttempt := by
  cases h with
  | idle h => exact h.nextAttempt.ge
  | enter => exact Nat.le_succ _
  | launch h => exact h.nextAttempt.ge
  | finish =>
    dsimp only
    split_ifs
    · exact Nat.le_succ _
    · exact le_rfl
  | retry => exact Nat.le_succ _
  | lose h => exact h.nextAttempt.ge
  | _ => exact le_rfl

theorem Rs.finished_attempt (env : Env) (o : MemberOutcome) (a : AttemptId) (s : Rs) :
    (s.finished env o a).attempt = if s.retriesAfter o then a else s.attempt := by
  have hadv : ∀ t : Rs, t.advanced.attempt = t.attempt := by
    intro t
    unfold Rs.advanced
    split_ifs <;> rfl
  refine (Rs.dropReservation_attempt _).trans ?_
  cases o with
  | success => exact hadv _
  | needsNextChunk => exact hadv _
  | retryableFailure =>
    unfold Rs.settled Rs.retriesAfter
    dsimp only
    by_cases hbudget : s.retriesUsed < s.request.maxRetries
    · rw [if_pos (show (s.landed env).retriesUsed < (s.landed env).request.maxRetries from hbudget),
        decide_eq_true hbudget]
      rfl
    · rw [if_neg (show ¬(s.landed env).retriesUsed < (s.landed env).request.maxRetries from
        hbudget), decide_eq_false hbudget]
      rfl
  | _ => rfl

/-- A request keeps its attempt, or is given a new one from the counter, which moves on. -/
theorem Effect.attempt_cases (h : Effect env v l v') (hs : v.req r = some s)
    (hfate : Fate env v r s l s') :
    s'.attempt = s.attempt ∨
      (s'.attempt = ⟨v.nextAttempt⟩ ∧ v'.nextAttempt = v.nextAttempt + 1) := by
  cases hfate with
  | keep => exact Or.inl rfl
  | expire => exact Or.inl s.dropReservation_attempt
  | launch => exact Or.inl rfl
  | finish o =>
    rw [Rs.finished_attempt]
    cases h with
    | finish _ hs₀ =>
      obtain rfl := Option.some.inj (hs₀.symm.trans hs)
      split_ifs
      · exact Or.inr ⟨rfl, rfl⟩
      · exact Or.inl rfl
  | flag => exact Or.inl rfl
  | cancel => exact Or.inl s.dropReservation_attempt
  | withdraw => exact Or.inl s.dropReservation_attempt
  | retry =>
    cases h with
    | retry => exact Or.inr ⟨rfl, rfl⟩
  | recover => exact Or.inl s.dropReservation_attempt

theorem Effect.attemptsDrawn (h : Effect env v l v') (hv : v.AttemptsDrawn) : v'.AttemptsDrawn := by
  refine h.each (fun now req _ hl => ?_) (fun r s s' hs hfate hlt => ?_) hv
  · cases h with
    | enter => exact Nat.lt_succ_self _
    | _ => exact Label.noConfusion hl
  · rcases h.attempt_cases hs hfate with heq | ⟨heq, hnext⟩
    · rw [heq]
      exact lt_of_lt_of_le hlt h.nextAttempt_le
    · rw [heq, hnext]
      exact Nat.lt_succ_self _

/-! ### Members carry the chunks in flight -/

/-- Everything in flight is in flight as one of the members, which carries its next
chunk. -/
def View.CarriedBy (ms : List ExecutableMember) (v : View) : Prop :=
  ∀ r s, v.req r = some s → s.isLive = true →
    ∃ m ∈ ms, m.requestId = r ∧ s.Awaits m ∧ m.Carries s

theorem Effect.carriedBy {ms : List ExecutableMember} (h : Effect env v l v')
    (hv : v.CarriedBy ms) : v'.CarriedBy (ms ++ l.members) := by
  intro r s' hs' hlive
  obtain ⟨hflight, hterm⟩ := Rs.isLive_iff.mp hlive
  rcases h.origin hs' with ⟨now, req, -, -, -, rfl⟩ | ⟨s, hr, hfate⟩
  · exact Bool.noConfusion hflight
  · have hold : s.isLive = true → s'.nextChunk = s.nextChunk →
        (∀ m, s.Awaits m → s'.Awaits m) →
        ∃ m ∈ ms ++ l.members, m.requestId = r ∧ s'.Awaits m ∧ m.Carries s' := by
      intro hslive hchunk hawaits
      obtain ⟨m, hm, hid, hsm, hcarries⟩ := hv r s hr hslive
      have htm := hawaits m hsm
      exact ⟨m, List.mem_append_left _ hm, hid, htm, htm.attempt.symm,
        hcarries.start.trans (congrArg PrefillChunk.tokenStart hchunk.symm),
        hcarries.count.trans (congrArg PrefillChunk.tokenCount hchunk.symm)⟩
    cases hfate with
    | keep => exact hold hlive rfl fun _ hm => hm
    | expire => exact Bool.noConfusion hterm
    | @launch _ m _ _ _ hm hid _ hcarries =>
      exact ⟨m, List.mem_append_right _ hm, hid, ⟨rfl, rfl, hcarries.attempt.symm, rfl, rfl⟩,
        hcarries.attempt, hcarries.start, hcarries.count⟩
    | finish o => exact Bool.noConfusion (hflight.symm.trans (s.finished_inFlight env o _))
    | flag => exact hold hlive rfl fun _ hm => ⟨hm.1, hm.2, hm.3, hm.4, hm.5⟩
    | cancel => exact Bool.noConfusion hterm
    | withdraw => exact Bool.noConfusion hflight
    | retry => exact Bool.noConfusion (hflight.symm.trans (s.retried_inFlight env _))
    | recover => exact Bool.noConfusion hflight

theorem Effects.carriedBy {ms ms' : List ExecutableMember} (h : Effects env L v ms' v')
    (hv : v.CarriedBy ms) : v'.CarriedBy (ms ++ ms') := by
  induction h with
  | refl => rwa [List.append_nil]
  | tail _ hl _ ih =>
    rw [← List.append_assoc]
    exact hl.carriedBy ih

/-! ### What is done of a plan -/

/-- The range of tokens of a member. -/
def ExecutableMember.range (m : ExecutableMember) : ℕ × ℕ := (m.tokenStart, m.tokenCount)

/-- **The ranges done are the chunks done**: those before the next one while the request
waits or is in flight, all of them once it is complete. The chunk index is a 32-bit
number, and a plan of `2 ^ 32` chunks or more never comes to its end. -/
structure Rs.Tracks (s : Rs) (done : List (ℕ × ℕ)) : Prop where
  ongoing : s.lifecycle = .queued ∨ s.isLive = true → s.plan.chunks.length < 2 ^ 32 →
    done = (s.plan.chunks.take s.nextChunkIndex).map (·.range)
  completed : s.lifecycle = .completed → done = s.plan.chunks.map (·.range)

namespace Rs

variable {d : List (ℕ × ℕ)}

theorem retriesAfter_of_advances {o : MemberOutcome} (h : o.advances = true) (s : Rs) :
    s.retriesAfter o = false := by
  cases o with
  | success => rfl
  | needsNextChunk => rfl
  | _ => exact Bool.noConfusion h

/-- Nothing is asked of a request that is over but not complete, or stranded. -/
theorem tracks_of_ne (hqueued : s.lifecycle ≠ .queued) (hlive : s.isLive = false)
    (hcompleted : s.lifecycle ≠ .completed) : s.Tracks d where
  ongoing h := (h.elim hqueued fun hl => Bool.noConfusion (hlive.symm.trans hl)).elim
  completed h := (hcompleted h).elim

/-- A request that waits or is in flight stays on track as long as its plan and its
next chunk are the same. -/
theorem Tracks.same (h : s.Tracks d) (hs : s.lifecycle = .queued ∨ s.isLive = true)
    (hplan : s'.plan = s.plan) (hidx : s'.nextChunkIndex = s.nextChunkIndex)
    (hcompleted : s'.lifecycle ≠ .completed) : s'.Tracks d where
  ongoing _ hlt := by
    rw [hplan, hidx]
    exact h.ongoing hs (hplan ▸ hlt)
  completed hc := absurd hc hcompleted

theorem tracks_beginAttempt (a : AttemptId) : (s.beginAttempt env a).Tracks [] where
  ongoing _ _ := rfl
  completed h := Lifecycle.noConfusion h

/-- One more chunk is done. -/
theorem Tracks.advanced (h : s.Tracks d) (hon : s.lifecycle = .queued ∨ s.isLive = true)
    (hpending : s.nextChunkIndex < s.plan.chunks.length) (hplan : s'.plan = s.plan)
    (hidx : s'.nextChunkIndex = s.nextChunkIndex) :
    s'.advanced.Tracks (d ++ [s.nextChunk.range]) := by
  have hstep : s.plan.chunks.length < 2 ^ 32 → d ++ [s.nextChunk.range] =
      (s.plan.chunks.take (s.nextChunkIndex + 1)).map (·.range) := by
    intro hlt
    have hnext : s.nextChunk = s.plan.chunks[s.nextChunkIndex] := by
      rw [nextChunk, List.getD_eq_getElem?_getD, List.getElem?_eq_getElem hpending,
        Option.getD_some]
    rw [h.ongoing hon hlt, List.take_add_one, List.getElem?_eq_getElem hpending,
      Option.toList_some, List.map_append, hnext]
    rfl
  unfold Rs.advanced
  rw [hplan, hidx]
  split_ifs with hcancel hmore
  · exact tracks_of_ne Lifecycle.noConfusion (Bool.and_false _) Lifecycle.noConfusion
  · refine ⟨fun _ hlt => ?_, fun hc => Lifecycle.noConfusion hc⟩
    have hlt' : s.plan.chunks.length < 2 ^ 32 := hlt
    have hmod : (s.nextChunkIndex + 1) % 2 ^ 32 = s.nextChunkIndex + 1 :=
      Nat.mod_eq_of_lt (by omega)
    dsimp only
    rw [hmod]
    exact hstep hlt'
  · refine ⟨fun hc => ?_, fun _ => ?_⟩
    · rcases hc with hc | hc
      · exact Lifecycle.noConfusion hc
      · rw [Rs.isLive] at hc
        exact Bool.noConfusion ((Bool.and_false _).symm.trans hc)
    · -- the last chunk is reached only if the index has not wrapped around
      have hlt : s.plan.chunks.length < 2 ^ 32 := by
        have := Nat.mod_lt (s.nextChunkIndex + 1) (show 0 < 2 ^ 32 by decide)
        omega
      have hmod : (s.nextChunkIndex + 1) % 2 ^ 32 = s.nextChunkIndex + 1 :=
        Nat.mod_eq_of_lt (by omega)
      rw [hmod] at hmore
      dsimp only
      rw [hstep hlt, List.take_of_length_le (by omega)]

theorem Tracks.dropped (h : s.Tracks d) (g : GroupId) :
    ({ s.dropReservation with currentGroup := g } : Rs).Tracks d := by
  rw [dropReservation_eq]
  exact ⟨h.ongoing, h.completed⟩

/-- An accepted completion that reports a success does one more chunk, one that starts over
has done none; of any other nothing is asked. -/
theorem Tracks.finished {d' : List (ℕ × ℕ)} (h : s.Tracks d) (hsane : s.Sane env)
    (hflight : s.inFlight = true) (hlive : s.lifecycle.isTerminal = false) {o : MemberOutcome}
    (a : AttemptId) (hdone : o.advances = true → d' = d ++ [s.nextChunk.range])
    (hover : s.retriesAfter o = true → d' = []) : (s.finished env o a).Tracks d' := by
  have hon : s.lifecycle = .queued ∨ s.isLive = true := Or.inr (isLive_iff.mpr ⟨hflight, hlive⟩)
  have hadv : d' = d ++ [s.nextChunk.range] → (s.landed env).advanced.Tracks d' := by
    rintro rfl
    exact h.advanced hon (hsane.pending hlive) rfl rfl
  refine Tracks.dropped ?_ .nil
  cases o with
  | success => exact hadv (hdone rfl)
  | needsNextChunk => exact hadv (hdone rfl)
  | retryableFailure =>
    unfold Rs.settled
    unfold Rs.retriesAfter at hover
    dsimp only
    by_cases hbudget : s.retriesUsed < s.request.maxRetries
    · rw [if_pos (show (s.landed env).retriesUsed < (s.landed env).request.maxRetries from hbudget),
        hover (by rw [decide_eq_true hbudget]; rfl)]
      exact tracks_beginAttempt a
    · rw [if_neg
        (show ¬(s.landed env).retriesUsed < (s.landed env).request.maxRetries from hbudget)]
      exact tracks_of_ne Lifecycle.noConfusion rfl Lifecycle.noConfusion
  | staleRejected =>
    have hdisp : s.lifecycle = .dispatched := hsane.dispatched hflight hlive
    refine tracks_of_ne (fun hc => ?_) rfl fun hc => ?_
    · exact Lifecycle.noConfusion (hdisp.symm.trans hc)
    · exact Lifecycle.noConfusion (hdisp.symm.trans hc)
  | _ => exact tracks_of_ne Lifecycle.noConfusion rfl Lifecycle.noConfusion

end Rs

/-- A history of ranges done: by request and attempt. -/
abbrev DoneRanges := RequestId → AttemptId → List (ℕ × ℕ)

/-- Without a completion nothing more is done. -/
theorem Fate.tracks {H : DoneRanges} (h : Fate env v r s l s') (hl : ∀ x o, l ≠ .finish x o)
    (hsane : s.Sane env) (hnew : H r ⟨v.nextAttempt⟩ = []) (hs : s.Tracks (H r s.attempt)) :
    s'.Tracks (H r s'.attempt) := by
  cases h with
  | keep => exact hs
  | expire =>
    exact Rs.tracks_of_ne Lifecycle.noConfusion (Bool.and_false _) Lifecycle.noConfusion
  | launch _ _ hwait =>
    exact hs.same (Or.inl (Rs.isWaiting_iff.mp hwait).1) rfl rfl Lifecycle.noConfusion
  | finish o => exact absurd rfl (hl r o)
  | flag hflight hlive =>
    refine hs.same (Or.inr (Rs.isLive_iff.mpr ⟨hflight, hlive⟩)) rfl rfl fun hc => ?_
    rw [show s.lifecycle = .completed from hc] at hlive
    exact Bool.noConfusion hlive
  | cancel =>
    exact Rs.tracks_of_ne Lifecycle.noConfusion (Bool.and_false _) Lifecycle.noConfusion
  | withdraw hflight hlive =>
    have hdisp : s.withdrawn.lifecycle = .dispatched :=
      s.dropReservation_lifecycle.trans (hsane.dispatched hflight hlive)
    refine Rs.tracks_of_ne (fun hc => ?_) rfl fun hc => ?_
    · exact Lifecycle.noConfusion (hdisp.symm.trans hc)
    · exact Lifecycle.noConfusion (hdisp.symm.trans hc)
  | retry =>
    change (Rs.retried env ⟨v.nextAttempt⟩ s).Tracks (H r ⟨v.nextAttempt⟩)
    rw [hnew]
    exact Rs.tracks_beginAttempt _
  | recover _ hflight hdisp =>
    have hlive : s.isLive = true := Rs.isLive_iff.mpr ⟨hflight, by rw [hdisp]; rfl⟩
    have hattempt : s.recovered.attempt = s.attempt := s.dropReservation_attempt
    rw [hattempt]
    exact hs.same (Or.inr hlive) s.dropReservation_plan s.dropReservation_nextChunkIndex
      Lifecycle.noConfusion

/-- **On track**: the records are sane, and each has done what the history says; attempts
that have not been drawn have done nothing. -/
structure View.OnTrack (env : Env) (H : DoneRanges) (v : View) : Prop where
  sane : v.Each fun _ s => s.Sane env
  drawn : v.AttemptsDrawn
  tracks : ∀ r s, v.req r = some s → s.Tracks (H r s.attempt)
  fresh : ∀ r a, v.nextAttempt ≤ a.value → H r a = []

theorem Rs.tracks_admitted (now : Nanoseconds) (req : PrefillRequest) (a : AttemptId) :
    (Rs.admitted env now req a).Tracks [] where
  ongoing _ _ := rfl
  completed h := by
    have hzero : req.remainingPrefillTokens = 0 := by
      by_contra hc
      rw [Rs.admitted, if_neg hc] at h
      exact Lifecycle.noConfusion h
    change [] = (ChunkPlanner.plan env req a .nil).chunks.map (·.range)
    rw [ChunkPlanner.plan_chunks_eq_nil env req a .nil hzero]
    rfl

/-- What happens without a completion keeps a view on track. -/
theorem Effect.onTrack {H : DoneRanges} (h : Effect env v l v') (hl : ∀ x o, l ≠ .finish x o)
    (hv : v.OnTrack env H) : v'.OnTrack env H where
  sane := h.each (fun now req _ _ => Rs.sane_admitted now req _)
    (fun _ _ _ _ hfate hs => hfate.sane hs) hv.sane
  drawn := h.attemptsDrawn hv.drawn
  tracks r s' hs' := by
    rcases h.origin hs' with ⟨now, req, -, -, -, rfl⟩ | ⟨s, hr, hfate⟩
    · change (Rs.admitted env now req ⟨v.nextAttempt⟩).Tracks (H r ⟨v.nextAttempt⟩)
      rw [hv.fresh r ⟨v.nextAttempt⟩ le_rfl]
      exact Rs.tracks_admitted now req _
    · exact hfate.tracks hl (hv.sane r s hr) (hv.fresh r _ le_rfl) (hv.tracks r s hr)
  fresh r a ha := hv.fresh r a (h.nextAttempt_le.trans ha)

/-- An accepted completion keeps a view on track, once the chunk in flight has been added
to the history of its attempt if it was a success. -/
theorem Effect.onTrack_finish {H H' : DoneRanges} {o : MemberOutcome}
    (h : Effect env v (.finish r o) v') (hs : v.req r = some s)
    (hdone : o.advances = true → H' r s.attempt = H r s.attempt ++ [s.nextChunk.range])
    (hother : ∀ x a, ¬(x = r ∧ a = s.attempt) → H' x a = H x a) (hv : v.OnTrack env H) :
    v'.OnTrack env H' where
  sane := h.each (fun now req _ _ => Rs.sane_admitted now req _)
    (fun _ _ _ _ hfate hs => hfate.sane hs) hv.sane
  drawn := h.attemptsDrawn hv.drawn
  tracks x t ht := by
    have hlt := hv.drawn r s hs
    have hnew : H' r ⟨v.nextAttempt⟩ = [] := by
      rw [hother r _ fun hc => (ne_of_gt hlt) (congrArg StrongId.value hc.2)]
      exact hv.fresh r _ le_rfl
    cases h with
    | finish _ hs₀ hflight hlive =>
      obtain rfl := Option.some.inj (hs.symm.trans hs₀)
      change Function.update v.req r (some (s.finished env o ⟨v.nextAttempt⟩)) x = some t at ht
      by_cases hx : x = r
      · subst hx
        rw [Function.update_self] at ht
        obtain rfl := Option.some.inj ht
        refine (hv.tracks x _ hs).finished (hv.sane x _ hs) hflight hlive _ (fun ho => ?_)
          fun hretry => ?_
        · -- a success keeps the attempt
          rw [Rs.finished_attempt, Rs.retriesAfter_of_advances ho, if_neg Bool.false_ne_true]
          exact hdone ho
        · rw [Rs.finished_attempt, if_pos hretry]
          exact hnew
      · rw [Function.update_of_ne hx] at ht
        rw [hother x _ fun hc => hx hc.1]
        exact hv.tracks x t ht
  fresh x a ha := by
    have hle := h.nextAttempt_le.trans ha
    rw [hother x a ?_]
    · exact hv.fresh x a hle
    · rintro ⟨-, rfl⟩
      exact absurd (hv.drawn r s hs) (Nat.not_lt.mpr hle)

theorem Op.exists_reportCompletion_of_causes_finish {op : Op} {x : RequestId} {o : MemberOutcome}
    (h : op.Causes (.finish x o)) : ∃ result, op = .reportCompletion result := by
  cases op with
  | reportCompletion result => exact ⟨result, rfl⟩
  | _ => exact h.elim

/-! ### Along a run -/

namespace Run

variable {ρ : Run} {env : Env} {calls : List Call} {n : ℕ}

/-- The members handed out before call number `n`. -/
def handedOut (ρ : Run) (n : ℕ) : List ExecutableMember := (List.range n).flatMap ρ.emitted

/-- The member that call number `j` reports, if the call reports a completion and the
completion is accepted. -/
def answered (ρ : Run) (j : ℕ) : Option ExecutableMember :=
  match ρ.calls[j]? with
  | some ⟨now, .reportCompletion result⟩ =>
    if isOk ((ρ.stateAt j).reportCompletion ρ.env now result).2 then
      (ρ.handedOut j).find? fun m => m.requestId = result.requestId ∧
        m.attemptId = result.attemptId ∧ m.generation = result.generation
    else none
  | _ => none

/-- The members of an attempt of a request whose completion has been accepted before call
number `n`, in the order of their acceptance. -/
def acceptedMembers (ρ : Run) (n : ℕ) (r : RequestId) (a : AttemptId) : List ExecutableMember :=
  ((List.range n).filterMap ρ.answered).filter fun m => m.requestId = r ∧ m.attemptId = a

/-- The positions of the prompt that the executors read for these members. -/
def reads (ρ : Run) (n : ℕ) (r : RequestId) (a : AttemptId) (promptLength : ℕ) : List ℕ :=
  (ρ.acceptedMembers n r a).flatMap (·.positions promptLength)

/-- The member that call number `j` reports as done: a completion that is accepted, with an
outcome that reports a success. -/
def succeeded (ρ : Run) (j : ℕ) : Option ExecutableMember :=
  match ρ.calls[j]? with
  | some ⟨_, .reportCompletion result⟩ =>
    if result.outcome.advances then ρ.answered j else none
  | _ => none

/-- The members of an attempt of a request that have been accepted as done before call number
`n`, in the order of their acceptance. -/
def successes (ρ : Run) (n : ℕ) (r : RequestId) (a : AttemptId) : List ExecutableMember :=
  ((List.range n).filterMap ρ.succeeded).filter fun m => m.requestId = r ∧ m.attemptId = a

/-- The ranges done before call number `n`. -/
def done (ρ : Run) (n : ℕ) : DoneRanges := fun r a => (ρ.acceptedMembers n r a).map (·.range)

/-- The ranges recorded before call number `n`, where call number `j` records at most one
member, `f j`. -/
def recorded (f : ℕ → Option ExecutableMember) (n : ℕ) : DoneRanges := fun r a =>
  (((List.range n).filterMap f).filter fun m => m.requestId = r ∧ m.attemptId = a).map (·.range)

/-- A record of the completions accepted that leaves no success out. -/
structure Records (ρ : Run) (f : ℕ → Option ExecutableMember) : Prop where
  answered : ∀ j m, f j = some m → ρ.answered j = some m
  success : ∀ j now result, ρ.calls[j]? = some ⟨now, .reportCompletion result⟩ →
    result.outcome.advances = true → f j = ρ.answered j

theorem records_answered (ρ : Run) : ρ.Records ρ.answered := ⟨fun _ _ h => h, fun _ _ _ _ _ => rfl⟩

theorem records_succeeded (ρ : Run) : ρ.Records ρ.succeeded where
  answered j m h := by
    unfold succeeded at h
    split at h
    · split_ifs at h
      exact h
    · exact absurd h.symm (Option.some_ne_none m)
  success j now result hc ho := by
    unfold succeeded
    rw [hc]
    exact if_pos ho

theorem handedOut_succ (ρ : Run) (n : ℕ) : ρ.handedOut (n + 1) = ρ.handedOut n ++ ρ.emitted n := by
  rw [handedOut, List.range_succ, List.flatMap_append, List.flatMap_singleton]
  rfl

theorem mem_handedOut {m : ExecutableMember} :
    m ∈ ρ.handedOut n ↔ ∃ i < n, m ∈ ρ.emitted i := by
  simp only [handedOut, List.mem_flatMap, List.mem_range]

section

variable {f : ℕ → Option ExecutableMember}

theorem recorded_succ_of_none (h : f n = none) : recorded f (n + 1) = recorded f n := by
  funext r a
  rw [recorded, List.range_succ, List.filterMap_append, List.filterMap_cons_none h,
    List.filterMap_nil, List.append_nil]
  rfl

theorem recorded_succ_of_some {m : ExecutableMember} (h : f n = some m) (r : RequestId)
    (a : AttemptId) : recorded f (n + 1) r a =
      recorded f n r a ++ if m.requestId = r ∧ m.attemptId = a then [m.range] else [] := by
  rw [recorded, List.range_succ, List.filterMap_append, List.filterMap_cons_some h,
    List.filterMap_nil, List.filter_append, List.filter_singleton, List.map_append]
  by_cases hm : m.requestId = r ∧ m.attemptId = a
  · rw [if_pos hm, decide_eq_true hm]
    rfl
  · rw [if_neg hm, decide_eq_false hm]
    rfl

end

theorem carriedBy_succ (hwf : ρ.start.view.Wf)
    (h : (ρ.stateAt n).view.CarriedBy (ρ.handedOut n)) :
    (ρ.stateAt (n + 1)).view.CarriedBy (ρ.handedOut (n + 1)) := by
  rw [handedOut_succ]
  cases hc : ρ.calls[n]? with
  | none => rwa [stateAt_succ_of_none hc, emitted_of_none hc, List.append_nil]
  | some c => exact (effects hwf hc).carriedBy h

/-- What an accepted completion reports is the chunk in flight. -/
theorem exists_answered (hwf : ρ.start.view.Wf)
    (hcarried : (ρ.stateAt n).view.CarriedBy (ρ.handedOut n)) {now : Nanoseconds}
    {result : MemberResult} (hc : ρ.calls[n]? = some ⟨now, .reportCompletion result⟩) {s : Rs}
    (hs : (ρ.stateAt n).view.Accepts result s) :
    ∃ m, ρ.answered n = some m ∧ m.requestId = result.requestId ∧ m.attemptId = s.attempt ∧
      m.range = s.nextChunk.range := by
  have hlive : s.isLive = true := Rs.isLive_iff.mpr ⟨hs.inFlight, hs.lifecycle⟩
  obtain ⟨m, hm, hid, hawaits, hcarries⟩ := hcarried _ s hs.req hlive
  have hgen : m.generation = result.generation := hawaits.generation.symm.trans hs.generation.symm
  refine ⟨m, ?_, hid, hcarries.attempt, Prod.ext hcarries.start hcarries.count⟩
  rw [answered, hc]
  dsimp only
  rw [if_pos (Impl.isOk_reportCompletion_iff.mpr ⟨s, hs⟩)]
  obtain ⟨m', hfind⟩ : ∃ m', (ρ.handedOut n).find? (fun m => m.requestId = result.requestId ∧
      m.attemptId = result.attemptId ∧ m.generation = result.generation) = some m' := by
    refine Option.isSome_iff_exists.mp (List.find?_isSome.mpr ⟨m, hm, decide_eq_true ?_⟩)
    exact ⟨hid, hcarries.attempt.trans hs.attempt.symm, hgen⟩
  -- generations are not used twice, so that no other member is found
  obtain ⟨i, -, hi⟩ := mem_handedOut.mp hm
  obtain ⟨j, -, hj⟩ := mem_handedOut.mp (List.mem_of_find?_eq_some hfind)
  have hfound := List.find?_some hfind
  have hgen' : m'.generation = result.generation := (of_decide_eq_true hfound).2.2
  rw [hfind, (emitted_unique hwf hi hj (hgen.trans hgen'.symm)).2]

theorem Records.eq_none {f : ℕ → Option ExecutableMember} (hf : ρ.Records f)
    (h : ρ.answered n = none) : f n = none := by
  cases hm : f n with
  | none => rfl
  | some m => exact absurd ((hf.answered n m hm).symm.trans h) (Option.some_ne_none m)

/-- **Every call keeps the requests on track**, whichever record is kept. -/
theorem onTrack_succ {f : ℕ → Option ExecutableMember} (hf : ρ.Records f)
    (hwf : ρ.start.view.Wf) (hcarried : (ρ.stateAt n).view.CarriedBy (ρ.handedOut n))
    (h : (ρ.stateAt n).view.OnTrack ρ.env (recorded f n)) :
    (ρ.stateAt (n + 1)).view.OnTrack ρ.env (recorded f (n + 1)) := by
  have hquiet : ∀ c, ρ.calls[n]? = some c → (∀ result, c.op ≠ .reportCompletion result) →
      (ρ.stateAt (n + 1)).view.OnTrack ρ.env (recorded f (n + 1)) := by
    intro c hc hop
    have hnone : ρ.answered n = none := by
      obtain ⟨now, op⟩ := c
      rw [answered, hc]
      cases op with
      | reportCompletion result => exact absurd rfl (hop result)
      | _ => rfl
    rw [recorded_succ_of_none (hf.eq_none hnone)]
    refine (effects hwf hc).invariant (fun v l v' hl hL hv => hl.onTrack (fun x o heq => ?_) hv) h
    obtain ⟨result, hresult⟩ := Op.exists_reportCompletion_of_causes_finish (heq ▸ hL)
    exact hop result hresult
  cases hc : ρ.calls[n]? with
  | none =>
    have hnone : ρ.answered n = none := by rw [answered, hc]
    rwa [recorded_succ_of_none (hf.eq_none hnone), stateAt_succ_of_none hc]
  | some c =>
    obtain ⟨now, op⟩ := c
    cases op with
    | reportCompletion result =>
      rcases Impl.effect_reportCompletion ρ.env now result (wf hwf n) with
        ⟨hrefused, hview⟩ | ⟨hok, heffect⟩
      · have hnone : ρ.answered n = none := by
          rw [answered, hc]
          exact if_neg (Bool.eq_false_iff.mp hrefused)
        rw [recorded_succ_of_none (hf.eq_none hnone), stateAt_succ hc]
        exact hview ▸ h
      · obtain ⟨s, hs⟩ := Impl.isOk_reportCompletion_iff.mp hok
        obtain ⟨m, hm, hid, hattempt, hrange⟩ := exists_answered hwf hcarried hc hs
        rw [stateAt_succ hc]
        refine heffect.onTrack_finish hs.req (fun ho => ?_) (fun x a hne => ?_) h
        · rw [recorded_succ_of_some ((hf.success n now result hc ho).trans hm),
            if_pos ⟨hid, hattempt⟩, hrange]
        · cases hrec : f n with
          | none => rw [recorded_succ_of_none hrec]
          | some m' =>
            obtain rfl := Option.some.inj ((hf.answered n m' hrec).symm.trans hm)
            rw [recorded_succ_of_some hrec, if_neg, List.append_nil]
            rintro ⟨rfl, rfl⟩
            exact hne ⟨hid, hattempt⟩
    | _ => exact hquiet _ hc fun _ => Op.noConfusion

theorem fresh_carriedBy (env : Env) (calls : List Call) (n : ℕ) :
    ((fresh env calls).stateAt n).view.CarriedBy ((fresh env calls).handedOut n) := by
  induction n with
  | zero => exact fun r s hs => absurd hs (Option.some_ne_none s).symm
  | succ n ih => exact carriedBy_succ (fresh_wf env calls) ih

/-- In a run from the construction on, every request is on track with every record. -/
theorem fresh_onTrack {f : ℕ → Option ExecutableMember} (hf : (fresh env calls).Records f) (n : ℕ) :
    ((fresh env calls).stateAt n).view.OnTrack env (recorded f n) := by
  induction n with
  | zero =>
    have hnone : ∀ r s, ((fresh env calls).stateAt 0).view.req r ≠ some s :=
      fun r s h => absurd h (Option.some_ne_none s).symm
    exact ⟨fun r s hs => (hnone r s hs).elim, fun r s hs => (hnone r s hs).elim,
      fun r s hs => (hnone r s hs).elim, fun _ _ _ => rfl⟩
  | succ n ih => exact onTrack_succ hf (fresh_wf env calls) (fresh_carriedBy env calls n) ih

/-- **What a completed request has done is its plan**, by every record; and the plan tiles
the tokens that remained. -/
theorem recorded_eq_plan {f : ℕ → Option ExecutableMember} (hf : (fresh env calls).Records f)
    {r : RequestId} {s : Rs} (hs : ((fresh env calls).stateAt n).requests.lookup r = some s)
    (hcompleted : s.lifecycle = .completed) :
    recorded f n r s.attempt = s.plan.chunks.map (·.range) ∧
      Tiles 0 s.request.remainingPrefillTokens (s.plan.chunks.map (·.range)) := by
  have htrack := fresh_onTrack hf n
  have hreq := Impl.view_req hs
  have hplan : s.plan = ChunkPlanner.plan env s.request s.attempt .nil :=
    (htrack.sane r s.core hreq).plan_eq
  refine ⟨(htrack.tracks r s.core hreq).completed hcompleted, ?_⟩
  rw [hplan]
  exact ChunkPlanner.tiles_plan env s.request s.attempt .nil

/-- **A request completes by one success for each chunk of its plan, in order**, under its
last attempt; and the chunks partition the tokens that remained to be prefilled. -/
theorem successes_eq_plan (env : Env) (calls : List Call) (n : ℕ) {r : RequestId} {s : Rs}
    (hs : ((fresh env calls).stateAt n).requests.lookup r = some s)
    (hcompleted : s.lifecycle = .completed) :
    ((fresh env calls).successes n r s.attempt).map (·.range) = s.plan.chunks.map (·.range) ∧
      Tiles 0 s.request.remainingPrefillTokens
        (((fresh env calls).successes n r s.attempt).map (·.range)) := by
  obtain ⟨heq, htiles⟩ := recorded_eq_plan (records_succeeded _) hs hcompleted
  rw [← heq] at htiles
  exact ⟨heq, htiles⟩

/-- A scheduler whose chunks have one token. -/
def tokenwise : Env := { Env.standard with cfg := { maxTokensPerChunk := 1 } }

/-- A request of two tokens whose second chunk fails once, and whose worker is lost during
the second attempt. -/
def retriedCalls : List Call :=
  let completion (a g : ℕ) (o : MemberOutcome) : Call :=
    ⟨0, .reportCompletion
      { requestId := ⟨1⟩, attemptId := ⟨a⟩, generation := ⟨g⟩, epoch := ⟨1⟩, outcome := o }⟩
  [⟨0, .submitWithTokens (plainRequest 1 2) [5, 6]⟩, ⟨0, .runCycle⟩, completion 1 1 .success,
    ⟨0, .runCycle⟩, completion 1 2 .retryableFailure, ⟨0, .runCycle⟩,
    completion 2 3 .needsNextChunk, ⟨0, .runCycle⟩, ⟨0, .workerLost .nil⟩,
    ⟨0, .attachExecutor none ""⟩, ⟨0, .runCycle⟩, completion 2 5 .success]

theorem successes_eq_plan_retriedCalls :
    ∃ s, ((fresh tokenwise retriedCalls).stateAt 12).requests.lookup ⟨1⟩ = some s ∧
      s.lifecycle = .completed ∧
      ((fresh tokenwise retriedCalls).successes 12 ⟨1⟩ s.attempt).map (·.range) =
        s.plan.chunks.map (·.range) ∧
      Tiles 0 s.request.remainingPrefillTokens
        (((fresh tokenwise retriedCalls).successes 12 ⟨1⟩ s.attempt).map (·.range)) := by
  have hdone : ∃ s, ((fresh tokenwise retriedCalls).stateAt 12).requests.lookup ⟨1⟩ = some s ∧
      s.lifecycle = .completed := ⟨_, rfl, by decide +kernel⟩
  obtain ⟨s, hs, hcompleted⟩ := hdone
  exact ⟨s, hs, hcompleted, successes_eq_plan tokenwise retriedCalls 12 hs hcompleted⟩

/-- Whatever is known has been validated. -/
theorem fresh_validate (env : Env) (calls : List Call) (n : ℕ) :
    ((fresh env calls).stateAt n).view.Each fun _ s => s.request.validate.code = .ok := by
  refine Impl.view_invariant
    (P := View.Each fun _ s => s.request.validate.code = .ok) (fresh_wf env calls)
    (fun r s hs => absurd hs (Option.some_ne_none s).symm) (fun v l v' _ h hv => ?_) n
  refine h.each (fun now req hvalid _ => hvalid) (fun r s s' _ hfate hs => ?_) hv
  rwa [hfate.request_eq]

/-- **What is read are the first tokens of the prompt**, as many as are not cached. -/
theorem reads_eq_range {s : Rs} {r : RequestId}
    (hs : ((fresh env calls).stateAt n).requests.lookup r = some s)
    (hcompleted : s.lifecycle = .completed) :
    (fresh env calls).reads n r s.attempt s.request.promptTokenCount.toNat =
      List.range' 0 s.request.remainingPrefillTokens := by
  obtain ⟨hranges, htiles⟩ := recorded_eq_plan (records_answered _) hs hcompleted
  change (fresh env calls).done n r s.attempt = _ at hranges
  rw [← hranges, done] at htiles
  have hle := s.request.remainingPrefillTokens_eq
  have hpositions : ∀ m ∈ (fresh env calls).acceptedMembers n r s.attempt,
      m.positions s.request.promptTokenCount.toNat = List.range' m.range.1 m.range.2 := by
    intro m hm
    have hmem := htiles.le_of_mem (List.mem_map_of_mem hm)
    exact m.positions_eq (by simp only [ExecutableMember.range] at hmem; omega)
      s.request.promptTokenCount.toNat_lt
  rw [reads, List.flatMap_congr hpositions]
  have hvisit := htiles.flatMap_range'
  rwa [List.flatMap_map, Nat.sub_zero] at hvisit

/-- **The tokens after the reusable prefix are read, each once, only when there is no
prefix or nothing after it.** -/
theorem reads_perm_iff (env : Env) (calls : List Call) (n : ℕ) {r : RequestId} {s : Rs}
    (hs : ((fresh env calls).stateAt n).requests.lookup r = some s)
    (hcompleted : s.lifecycle = .completed) :
    ((fresh env calls).reads n r s.attempt s.request.promptTokenCount.toNat).Perm
        (List.range' s.request.reusablePrefix.tokenCount.toNat
          (s.request.promptTokenCount.toNat - s.request.reusablePrefix.tokenCount.toNat)) ↔
      s.request.reusablePrefix.tokenCount = 0 ∨
        s.request.reusablePrefix.tokenCount = s.request.promptTokenCount := by
  have hvalid : s.request.validate.code = .ok :=
    fresh_validate env calls n r s.core (Impl.view_req hs)
  have hle := PrefillRequest.reusablePrefix_le_of_validate hvalid
  rw [reads_eq_range hs hcompleted, s.request.remainingPrefillTokens_eq]
  constructor
  · intro hperm
    by_contra hc
    obtain ⟨hzero, hfull⟩ := not_or.mp hc
    have hzero' : s.request.reusablePrefix.tokenCount.toNat ≠ 0 :=
      fun h => hzero (UInt64.toNat_inj.mp h)
    have hfull' : s.request.reusablePrefix.tokenCount.toNat ≠ s.request.promptTokenCount.toNat :=
      fun h => hfull (UInt64.toNat_inj.mp h)
    -- position zero is read, and it lies in the prefix
    have hread := hperm.mem_iff.mp (List.mem_range'_1.mpr ⟨le_rfl, by omega⟩)
    have := (List.mem_range'_1.mp hread).1
    omega
  · rintro (h | h)
    · rw [h]
      exact List.Perm.refl _
    · rw [h, Nat.sub_self]
      exact List.Perm.refl _

/-- One request of two tokens with the given prefix, executed in one chunk. -/
def completedCalls (cached : ReusablePrefixMetadata) : List Call :=
  [⟨0, .submitWithTokens { plainRequest 1 2 with reusablePrefix := cached } [5, 6]⟩,
    ⟨0, .runCycle⟩,
    ⟨0, .reportCompletion { requestId := ⟨1⟩, attemptId := ⟨1⟩, generation := ⟨1⟩, epoch := ⟨1⟩ }⟩]

/-- Without a prefix both tokens are read. -/
theorem reads_perm_iff_completedCalls :
    ∃ s, ((fresh .standard (completedCalls {})).stateAt 3).requests.lookup ⟨1⟩ = some s ∧
      s.lifecycle = .completed ∧
      ((fresh .standard (completedCalls {})).reads 3 ⟨1⟩ s.attempt
        s.request.promptTokenCount.toNat).Perm
        (List.range' s.request.reusablePrefix.tokenCount.toNat
          (s.request.promptTokenCount.toNat - s.request.reusablePrefix.tokenCount.toNat)) := by
  have hdone : ∃ s, ((fresh .standard (completedCalls {})).stateAt 3).requests.lookup ⟨1⟩ = some s ∧
      s.lifecycle = .completed ∧ s.request.reusablePrefix.tokenCount = 0 :=
    ⟨_, rfl, by decide +kernel, by decide +kernel⟩
  obtain ⟨s, hs, hcompleted, hcached⟩ := hdone
  exact ⟨s, hs, hcompleted, (reads_perm_iff .standard (completedCalls {}) 3 hs hcompleted).mpr
    (Or.inl hcached)⟩

/-- With the first token cached, the request completes, and the token that is read is the
cached one, not the other. -/
theorem reads_not_perm_completedCalls :
    ((((fresh .standard (completedCalls ⟨1, "p", true⟩)).stateAt 3).requests.lookup ⟨1⟩).map
        fun s => (s.lifecycle, s.attempt)) = some (.completed, ⟨1⟩) ∧
      (fresh .standard (completedCalls ⟨1, "p", true⟩)).reads 3 ⟨1⟩ ⟨1⟩ 2 = [0] ∧
      ¬((fresh .standard (completedCalls ⟨1, "p", true⟩)).reads 3 ⟨1⟩ ⟨1⟩ 2).Perm
        (List.range' 1 (2 - 1)) := by
  decide +kernel

/-! ### Prefixes that nobody has validated -/

/-- **All of a prompt is computed only if it claims no prefix.** Whether the prefix is marked as
validated is not looked at: the accepted completions of a completed request cover its prompt, and
the work planned for it is as long as the prompt, exactly if the prefix it claims is empty. -/
theorem covers_prompt_iff (env : Env) (calls : List Call) (n : ℕ) {r : RequestId} {s : Rs}
    (hs : ((fresh env calls).stateAt n).requests.lookup r = some s)
    (hcompleted : s.lifecycle = .completed) :
    ((∀ x < s.request.promptTokenCount.toNat, ∃ m ∈ (fresh env calls).successes n r s.attempt,
        m.tokenStart ≤ x ∧ x < m.tokenStart + m.tokenCount) ↔
      s.request.reusablePrefix.tokenCount = 0) ∧
    (s.plan.totalChunkTokens = s.request.promptTokenCount.toNat ↔
      s.request.reusablePrefix.tokenCount = 0) := by
  have hvalid : s.request.validate.code = .ok :=
    fresh_validate env calls n r s.core (Impl.view_req hs)
  have hle := PrefillRequest.reusablePrefix_le_of_validate hvalid
  have hpos := PrefillRequest.promptTokenCount_pos_of_validate hvalid
  have hplan : s.plan = ChunkPlanner.plan env s.request s.attempt .nil :=
    ((fresh_onTrack (records_succeeded _) n).sane r s.core (Impl.view_req hs)).plan_eq
  obtain ⟨hranges, htiles⟩ := recorded_eq_plan (records_succeeded _) hs hcompleted
  rw [← hranges] at htiles
  have hrem := s.request.remainingPrefillTokens_eq
  have hzero : s.request.reusablePrefix.tokenCount = 0 ↔
      s.request.remainingPrefillTokens = s.request.promptTokenCount.toNat := by
    rw [← UInt64.toNat_inj]
    exact ⟨fun h => by rw [hrem, h]; rfl, fun h => by change _ = 0; omega⟩
  rw [hzero, hplan, ChunkPlanner.totalChunkTokens_plan]
  refine ⟨⟨fun hcover => ?_, fun heq x hx => ?_⟩, Iff.rfl⟩
  · -- the last token of the prompt lies in a range, and the ranges end with what remained
    obtain ⟨m, hm, -, hlt⟩ := hcover (s.request.promptTokenCount.toNat - 1) (by omega)
    have hend := (htiles.le_of_mem (List.mem_map_of_mem hm)).2
    simp only [ExecutableMember.range] at hend
    omega
  · obtain ⟨p, hp, hcover⟩ := htiles.exists_mem (Nat.zero_le x) (heq ▸ hx)
    obtain ⟨m, hm, rfl⟩ := List.mem_map.mp hp
    exact ⟨m, hm, hcover⟩

theorem covers_prompt_iff_completedCalls :
    ∃ s, ((fresh .standard (completedCalls {})).stateAt 3).requests.lookup ⟨1⟩ = some s ∧
      s.request.reusablePrefix.validated = false ∧ s.lifecycle = .completed ∧
      ∀ x < s.request.promptTokenCount.toNat,
        ∃ m ∈ (fresh .standard (completedCalls {})).successes 3 ⟨1⟩ s.attempt,
          m.tokenStart ≤ x ∧ x < m.tokenStart + m.tokenCount := by
  have hdone : ∃ s, ((fresh .standard (completedCalls {})).stateAt 3).requests.lookup ⟨1⟩ = some s ∧
      s.request.reusablePrefix.validated = false ∧ s.lifecycle = .completed ∧
      s.request.reusablePrefix.tokenCount = 0 :=
    ⟨_, rfl, by decide +kernel, by decide +kernel, by decide +kernel⟩
  obtain ⟨s, hs, hflag, hcompleted, hcached⟩ := hdone
  exact ⟨s, hs, hflag, hcompleted,
    (covers_prompt_iff .standard (completedCalls {}) 3 hs hcompleted).1.mpr hcached⟩

/-- A prompt of two tokens that claims both as its prefix, without a validation: it is admitted
and complete, and nothing has been computed. -/
theorem completed_unvalidated :
    (((fresh .standard (completedCalls ⟨2, "", false⟩)).stateAt 1).requests.lookup ⟨1⟩).map
        (fun s => (s.lifecycle, s.request.reusablePrefix.validated,
          s.request.promptTokenCount.toNat, s.plan.totalChunkTokens)) =
      some (.completed, false, 2, 0) ∧
    (fresh .standard (completedCalls ⟨2, "", false⟩)).successes 1 ⟨1⟩ ⟨1⟩ = [] := by
  decide +kernel

end Run

end PrefillFabric
