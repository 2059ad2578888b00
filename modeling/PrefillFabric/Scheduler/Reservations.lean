import PrefillFabric.Scheduler.Groups

/-!
# Reservations

What the memory governor holds is exactly what is in flight. `View.Reserving` says so
for a view: each request in flight holds an active reservation in its name and for its
bytes, every active reservation is held by the request it names, and nothing else
holds one. Every effect keeps it, without any condition: a reservation is given back on
every way out of flight, once.

In the terms of the state this is `Impl.ReservationsBalance`, which holds throughout
every run (`Run.reservationsBalance`): the running total of the governor is the sum over
the requests in flight, so it is within the budget, and zero when nothing is in flight.
-/

namespace PrefillFabric

variable {env : Env} {v v' : View} {l : Label} {r : RequestId} {s s' : Rs}

/-- **What is held is what is in flight.** -/
structure View.Reserving (v : View) : Prop where
  sound : v.mem.Sound
  /-- What is in flight holds a reservation. -/
  holds : ∀ r s, v.req r = some s → s.isLive = true →
    s.reservation ≠ .nil ∧ v.mem.held s.reservation = some (r, s.reservedBytes)
  /-- What is held is held by a request in flight. -/
  held : ∀ id r b, v.mem.held id = some (r, b) →
    ∃ s, v.req r = some s ∧ s.isLive = true ∧ s.reservation = id ∧ s.reservedBytes = b
  /-- What is not in flight holds nothing. -/
  only : ∀ r s, v.req r = some s → s.reservation ≠ .nil → s.isLive = true

namespace View

/-- A reservation has one holder. -/
theorem Reserving.eq_of_reservation_eq (hv : v.Reserving) {x : RequestId} {t : Rs}
    (hs : v.req r = some s) (hlive : s.isLive = true) (ht : v.req x = some t)
    (htlive : t.isLive = true) (heq : t.reservation = s.reservation) : x = r := by
  have h := (hv.holds r s hs hlive).2
  have h' := (hv.holds x t ht htlive).2
  rw [heq, h] at h'
  exact (Prod.mk.inj (Option.some.inj h')).1.symm

/-- Releasing the reservation of a request keeps the books straight. -/
theorem Reserving.sound_releaseIf (hv : v.Reserving) (hs : v.req r = some s) :
    (v.mem.releaseIf s.reservation).Sound := by
  unfold MemoryGovernor.releaseIf
  split_ifs with hnil
  · exact hv.sound
  · have hne : s.reservation ≠ .nil := fun hc => hnil (StrongId.isNil_eq_true.mpr hc)
    exact hv.sound.release (hv.holds r s hs (hv.only r s hs hne)).2

/-- **Giving back**: a request that goes out of flight and gives its reservation back
leaves everything else as it was. -/
theorem Reserving.giveBack (hv : v.Reserving) (hs : v.req r = some s)
    (hreq : v'.req = Function.update v.req r (some s'))
    (hmem : v'.mem = v.mem.releaseIf s.reservation) (hlive' : s'.isLive = false)
    (hres' : s'.reservation = .nil) : v'.Reserving := by
  have hother : ∀ x t, x ≠ r → (v'.req x = some t ↔ v.req x = some t) := by
    intro x t hx
    rw [hreq, Function.update_of_ne hx]
  have hself : v'.req r = some s' := by rw [hreq, Function.update_self]
  refine ⟨hmem ▸ hv.sound_releaseIf hs, fun x t ht hlive => ?_, fun id x b hheld => ?_,
    fun x t ht hne => ?_⟩
  · have hx : x ≠ r := by
      rintro rfl
      obtain rfl := Option.some.inj (hself.symm.trans ht)
      exact Bool.noConfusion (hlive'.symm.trans hlive)
    have ht₀ := (hother x t hx).mp ht
    obtain ⟨hne, hheld⟩ := hv.holds x t ht₀ hlive
    refine ⟨hne, ?_⟩
    rw [hmem, MemoryGovernor.held_releaseIf, if_neg, hheld]
    rintro ⟨heq, hne'⟩
    exact hx (hv.eq_of_reservation_eq hs (hv.only r s hs hne') ht₀ hlive heq)
  · rw [hmem, MemoryGovernor.held_releaseIf] at hheld
    split_ifs at hheld with hid
    obtain ⟨t, ht, hlive, hres, hb⟩ := hv.held id x b hheld
    refine ⟨t, (hother x t ?_).mpr ht, hlive, hres, hb⟩
    rintro rfl
    obtain rfl := Option.some.inj (ht.symm.trans hs)
    exact hid ⟨hres.symm, (hv.holds x t ht hlive).1⟩
  · by_cases hx : x = r
    · subst hx
      obtain rfl := Option.some.inj (hself.symm.trans ht)
      exact absurd hres' hne
    · exact hv.only x t ((hother x t hx).mp ht) hne

theorem Reserving.launch {now : Nanoseconds} {gid : GroupId} {w : WorkerId}
    {ms : List ExecutableMember} (hwf : v.Wf) (hv : v.Reserving)
    (h : View.Launch now gid w ms v v') : v'.Reserving := by
  have hold : ∀ id p, v.mem.held id = some p → v'.mem.held id = some p := by
    intro id p hp
    rw [h.held id (Or.inl (hwf.held_lt id p hp)), hp]
  have hcases : ∀ x t, v'.req x = some t → v.req x = some t ∨ (t.isLive = true ∧
      t.reservation ≠ .nil ∧ v'.mem.held t.reservation = some (x, t.reservedBytes)) := by
    intro x t ht
    by_cases hx : ∃ m ∈ ms, m.requestId = x
    · obtain ⟨m, hm, rfl⟩ := hx
      obtain ⟨i, hi⟩ := List.mem_iff_getElem?.mp hm
      obtain ⟨-, -, t₀, -, -, -, hreq, hheld⟩ := h.member i m hi
      obtain rfl := Option.some.inj (hreq.symm.trans ht)
      refine Or.inr ⟨rfl, StrongId.ne_nil_of_pos ?_, hheld⟩
      exact Nat.add_pos_left hwf.nextReservation_pos i
    · rw [h.others x fun m hm hc => hx ⟨m, hm, hc⟩] at ht
      exact Or.inl ht
  refine ⟨h.sound hv.sound, fun x t ht hlive => ?_, fun id x b hheld => ?_, fun x t ht hne => ?_⟩
  · rcases hcases x t ht with ht₀ | ⟨-, hne, hheld⟩
    · obtain ⟨hne, hheld⟩ := hv.holds x t ht₀ hlive
      exact ⟨hne, hold _ _ hheld⟩
    · exact ⟨hne, hheld⟩
  · by_cases hid : v.nextReservation ≤ id.value ∧ id.value < v.nextReservation + ms.length
    · -- a new reservation, of the member it was made for
      obtain ⟨i, hi⟩ := Nat.exists_eq_add_of_le hid.1
      have hlt : i < ms.length := by omega
      obtain ⟨-, -, t, -, -, -, hreq, hheld'⟩ := h.member i _ (List.getElem?_eq_getElem hlt)
      obtain rfl : id = ⟨v.nextReservation + i⟩ := by
        cases id
        exact congrArg StrongId.mk hi
      obtain ⟨rfl, rfl⟩ := Prod.mk.inj (Option.some.inj (hheld'.symm.trans hheld))
      exact ⟨_, hreq, rfl, rfl, rfl⟩
    · rw [h.held id (by omega)] at hheld
      obtain ⟨t, ht, hlive, hrest⟩ := hv.held id x b hheld
      exact ⟨t, h.req_of_live ht hlive, hlive, hrest⟩
  · rcases hcases x t ht with ht₀ | ⟨hlive, -, -⟩
    · exact hv.only x t ht₀ hne
    · exact hlive

end View

/-- Releasing reservations that are not nil. -/
theorem MemoryGovernor.foldl_releaseIf_eq {α : Type} {f : α → ReservationId} {l : List α}
    (h : ∀ a ∈ l, f a ≠ .nil) (g : MemoryGovernor) :
    l.foldl (fun m a => m.releaseIf (f a)) g = l.foldl (fun m a => m.release (f a)) g := by
  induction l generalizing g with
  | nil => rfl
  | cons a l ih =>
    have ha : (f a).isNil = false := StrongId.isNil_eq_false.mpr (h a List.mem_cons_self)
    rw [List.foldl_cons, List.foldl_cons, ih fun b hb => h b (List.mem_cons_of_mem a hb),
      MemoryGovernor.releaseIf, ha, if_neg Bool.false_ne_true]

theorem View.Reserving.lose {w : WorkerId} (hv : v.Reserving) (h : View.Lose w v v') :
    v'.Reserving := by
  obtain ⟨rs, hnodup, hlost, hmem⟩ := h.mem
  -- what is lost is in flight, and holds what it gives back
  have hholder : ∀ x ∈ rs, ∃ t, v.req x = some t ∧ t.isLive = true ∧
      v.reservationOf x = t.reservation := by
    intro x hx
    obtain ⟨-, -, t, -, -, ht, hflight, hdisp⟩ := (hlost x).mp hx
    refine ⟨t, ht, Rs.isLive_iff.mpr ⟨hflight, by rw [hdisp]; rfl⟩, ?_⟩
    rw [View.reservationOf, ht]
    rfl
  have hne : ∀ x ∈ rs, v.reservationOf x ≠ .nil := by
    intro x hx
    obtain ⟨t, ht, hlive, hres⟩ := hholder x hx
    rw [hres]
    exact (hv.holds x t ht hlive).1
  rw [MemoryGovernor.foldl_releaseIf_eq hne] at hmem
  have hheldEq : ∀ id, v'.mem.held id =
      if id ∈ rs.map v.reservationOf then none else v.mem.held id := by
    intro id
    rw [hmem, MemoryGovernor.held_foldl_release]
  have hgone : ∀ x t, v'.req x = some t → t.isLive = true → ¬v.Lost w x ∧ v.req x = some t := by
    intro x t ht hlive
    by_cases hx : v.Lost w x
    · obtain ⟨-, -, t₀, -, -, ht₀, -⟩ := id hx
      obtain rfl := Option.some.inj ((h.lost x t₀ hx ht₀).symm.trans ht)
      exact Bool.noConfusion hlive
    · exact ⟨hx, h.kept x hx ▸ ht⟩
  refine ⟨?_, fun x t ht hlive => ?_, fun id x b hheld => ?_, fun x t ht hres => ?_⟩
  · rw [hmem]
    refine hv.sound.foldl_release (List.Nodup.map_on (fun x hx y hy heq => ?_) hnodup)
      fun x hx => ?_
    · obtain ⟨t, ht, hlive, hres⟩ := hholder x hx
      obtain ⟨u, hu, hulive, hures⟩ := hholder y hy
      exact hv.eq_of_reservation_eq hu hulive ht hlive (hres.symm.trans (heq.trans hures))
    · obtain ⟨t, ht, hlive, hres⟩ := hholder x hx
      rw [hres]
      exact ⟨_, (hv.holds x t ht hlive).2⟩
  · obtain ⟨hx, ht₀⟩ := hgone x t ht hlive
    obtain ⟨hnil, hheld⟩ := hv.holds x t ht₀ hlive
    refine ⟨hnil, ?_⟩
    rw [hheldEq, if_neg, hheld]
    intro hc
    obtain ⟨y, hy, heq⟩ := List.mem_map.mp hc
    obtain ⟨u, hu, hulive, hures⟩ := hholder y hy
    have hxy := hv.eq_of_reservation_eq hu hulive ht₀ hlive (heq.symm.trans hures)
    exact hx (hxy ▸ (hlost y).mp hy)
  · rw [hheldEq] at hheld
    split_ifs at hheld with hid
    obtain ⟨t, ht, hlive, hres, hb⟩ := hv.held id x b hheld
    refine ⟨t, ?_, hlive, hres, hb⟩
    rw [h.kept x, ht]
    intro hx
    refine hid (List.mem_map.mpr ⟨x, (hlost x).mpr hx, ?_⟩)
    rw [View.reservationOf, ht]
    exact hres
  · by_cases hx : v.Lost w x
    · obtain ⟨-, -, t₀, -, -, ht₀, -⟩ := id hx
      obtain rfl := Option.some.inj ((h.lost x t₀ hx ht₀).symm.trans ht)
      exact absurd t₀.dropReservation_reservation hres
    · exact hv.only x t (h.kept x hx ▸ ht) hres

/-- **Every effect keeps what is held and what is in flight the same.** -/
theorem Effect.reserving (h : Effect env v l v') (hwf : v.Wf) (hv : v.Reserving) :
    v'.Reserving := by
  cases h with
  | idle h =>
    refine ⟨h.sound hv.sound, fun x t ht hlive => ?_, fun id x b hheld => ?_, fun x t ht => ?_⟩
    · rw [h.held]
      exact hv.holds x t (h.req ▸ ht) hlive
    · rw [h.held] at hheld
      rw [h.req]
      exact hv.held id x b hheld
    · exact hv.only x t (h.req ▸ ht)
  | @enter now req hnew _ =>
    have hcases : ∀ x t, Function.update v.req req.requestId
        (some (.admitted env now req ⟨v.nextAttempt⟩)) x = some t →
        v.req x = some t ∨ (t.isLive = false ∧ t.reservation = .nil) := by
      intro x t ht
      rw [Function.update_apply] at ht
      split_ifs at ht
      · obtain rfl := Option.some.inj ht
        exact Or.inr ⟨rfl, rfl⟩
      · exact Or.inl ht
    refine ⟨hv.sound, fun x t ht hlive => ?_, fun id x b hheld => ?_, fun x t ht hne => ?_⟩
    · rcases hcases x t ht with ht₀ | ⟨hnot, -⟩
      · exact hv.holds x t ht₀ hlive
      · exact Bool.noConfusion (hnot.symm.trans hlive)
    · obtain ⟨t, ht, hrest⟩ := hv.held id x b hheld
      refine ⟨t, (Function.update_of_ne ?_ ..).trans ht, hrest⟩
      rintro rfl
      exact absurd (hnew.symm.trans ht) (Option.some_ne_none t).symm
    · rcases hcases x t ht with ht₀ | ⟨-, hnil⟩
      · exact hv.only x t ht₀ hne
      · exact absurd hnil hne
  | @expire r s hs _ =>
    refine hv.giveBack hs rfl rfl ?_ s.dropReservation_reservation
    exact Bool.and_false s.expired.inFlight
  | launch h => exact hv.launch hwf h
  | @finish r s o hs _ _ =>
    refine hv.giveBack hs rfl rfl ?_ (Rs.dropReservation_reservation _)
    rw [Rs.isLive, s.finished_inFlight env o, Bool.false_and]
  | @flag r s hs hflight hlive =>
    have hl : s.isLive = true := Rs.isLive_iff.mpr ⟨hflight, hlive⟩
    have hreq : ∀ x t, (v.setReq r s.flagged).req x = some t →
        ∃ t₀, v.req x = some t₀ ∧ t₀.isLive = t.isLive ∧ t₀.reservation = t.reservation ∧
          t₀.reservedBytes = t.reservedBytes := by
      intro x t ht
      change Function.update v.req r (some s.flagged) x = some t at ht
      rw [Function.update_apply] at ht
      split_ifs at ht with hx
      · subst hx
        obtain rfl := Option.some.inj ht
        exact ⟨s, hs, rfl, rfl, rfl⟩
      · exact ⟨t, ht, rfl, rfl, rfl⟩
    refine ⟨hv.sound, fun x t ht htlive => ?_, fun id x b hheld => ?_, fun x t ht hne => ?_⟩
    · obtain ⟨t₀, ht₀, hl₀, hres, hbytes⟩ := hreq x t ht
      rw [← hres, ← hbytes]
      exact hv.holds x t₀ ht₀ (hl₀.trans htlive)
    · obtain ⟨t, ht, hrest⟩ := hv.held id x b hheld
      by_cases hx : x = r
      · subst hx
        obtain rfl := Option.some.inj (ht.symm.trans hs)
        exact ⟨t.flagged, Function.update_self .., hrest⟩
      · exact ⟨t, (Function.update_of_ne hx ..).trans ht, hrest⟩
    · obtain ⟨t₀, ht₀, hl₀, hres, -⟩ := hreq x t ht
      exact hl₀.symm.trans (hv.only x t₀ ht₀ (hres ▸ hne))
  | @cancel r s hs _ _ =>
    refine hv.giveBack hs rfl rfl ?_ s.dropReservation_reservation
    exact Bool.and_false s.cancelled.inFlight
  | @withdraw r s hs _ _ _ => exact hv.giveBack hs rfl rfl rfl s.dropReservation_reservation
  | @retry r s hs hlive _ =>
    -- a request that is not in flight has nothing to give back
    have hres : (if s.inFlight then s.reservation else .nil) = s.reservation := by
      split_ifs with hflight
      · rfl
      · exact ((hwf.holds r s hs).reservation_eq (Bool.eq_false_iff.mpr hflight)).symm
    refine hv.giveBack hs rfl (congrArg v.mem.releaseIf hres) ?_ ?_
    · rw [Rs.isLive, s.retried_inFlight env, Bool.false_and]
    · rw [Rs.retried]
      split_ifs with hflight
      · exact s.dropReservation_reservation
      · exact (hwf.holds r s hs).reservation_eq (Bool.eq_false_iff.mpr hflight)
  | boot w b => exact ⟨hv.sound, hv.holds, hv.held, hv.only⟩
  | lose h => exact hv.lose h
  | roll => exact ⟨hv.sound, hv.holds, hv.held, hv.only⟩

/-- **Every call keeps what is reserved to what is in flight.** -/
theorem Impl.reserving_step {σ : Impl} (hwf : σ.view.Wf) (hv : σ.view.Reserving) (c : Call) :
    (σ.step env c).1.view.Reserving :=
  ((effects_step env hwf c).invariant (P := fun v => v.Wf ∧ v.Reserving)
    (fun _ _ _ hl _ h => ⟨hl.wf h.1, hl.reserving h.1 h.2⟩) ⟨hwf, hv⟩).2

/-! ### Balanced states -/

/-- **The reservations balance.** A request holds a reservation exactly while it is
dispatched and in flight; the reservations held are distinct, they are the active
records of the governor, and the record of each is in the name of its request and for
its bytes. So the governor's total is the sum over what is in flight: within the budget,
and nothing when nothing is in flight. Nothing was released twice, and the guard against
underflow has not fired. -/
structure Impl.ReservationsBalance (σ : Impl) : Prop where
  holds_iff : ∀ r s, σ.requests.lookup r = some s →
    (s.reservation ≠ .nil ↔ s.lifecycle = .dispatched ∧ s.inFlight = true)
  distinct : ∀ r s r' s', σ.requests.lookup r = some s → σ.requests.lookup r' = some s' →
    s.reservation ≠ .nil → s.reservation = s'.reservation → r = r'
  active_iff : ∀ id, σ.mem.isActive id = true ↔
    id ≠ .nil ∧ ∃ r s, σ.requests.lookup r = some s ∧ s.reservation = id
  record : ∀ r s, σ.requests.lookup r = some s → s.reservation ≠ .nil →
    ∃ rec, σ.mem.records.lookup s.reservation = some rec ∧ rec.active = true ∧
      rec.requestId = r ∧ rec.bytes = s.reservedBytes
  reserved_eq : σ.mem.reserved =
    AList.total (fun _ s => if s.isLive then s.reservedBytes else 0) σ.requests
  reserved_le : σ.mem.reserved ≤ σ.mem.budget
  reserved_eq_zero : (∀ r s, σ.requests.lookup r = some s → s.isLive = false) →
    σ.mem.reserved = 0
  doubleReleases_eq : σ.mem.doubleReleases = 0
  underflowHappened_eq : σ.mem.underflowHappened = false

theorem MemoryGovernor.held_eq_some {g : MemoryGovernor} {id : ReservationId} {b : ℕ} :
    g.held id = some (r, b) ↔
      ∃ rec, g.records.lookup id = some rec ∧ rec.active = true ∧ rec.requestId = r ∧
        rec.bytes = b := by
  rw [held, Option.bind_eq_some_iff]
  refine exists_congr fun rec => and_congr_right fun _ => ?_
  by_cases h : rec.active = true
  · rw [if_pos h, Option.some_inj, Prod.mk.injEq]
    simp only [h, true_and]
  · rw [if_neg h]
    simp only [h, false_and, reduceCtorEq]

/-- What holds of the view, in the terms of the state. -/
theorem Impl.reservationsBalance_of_reserving {σ : Impl}
    (hsane : σ.view.Each fun _ s => s.Sane env) (hv : σ.view.Reserving) :
    σ.ReservationsBalance := by
  have hholds : ∀ r s, σ.requests.lookup r = some s → s.isLive = true →
      s.reservation ≠ .nil ∧ σ.mem.held s.reservation = some (r, s.reservedBytes) :=
    fun r s hs hlive => hv.holds r s.core (view_req hs) hlive
  have honly : ∀ r s, σ.requests.lookup r = some s → s.reservation ≠ .nil → s.isLive = true :=
    fun r s hs hne => hv.only r s.core (view_req hs) hne
  have hheld : ∀ id r b, σ.mem.held id = some (r, b) → ∃ s, σ.requests.lookup r = some s ∧
      s.isLive = true ∧ s.reservation = id := by
    intro id r b h
    obtain ⟨t, ht, hlive, hres, -⟩ := hv.held id r b h
    obtain ⟨s, hs, rfl⟩ := exists_of_view_req ht
    exact ⟨s, hs, hlive, hres⟩
  have hdistinct : ∀ r s r' s', σ.requests.lookup r = some s → σ.requests.lookup r' = some s' →
      s.isLive = true → s'.isLive = true → s.reservation = s'.reservation → r = r' :=
    fun r s r' s' hs hs' hlive hlive' heq =>
      hv.eq_of_reservation_eq (view_req hs') hlive' (view_req hs) hlive heq
  have htotal : σ.mem.reserved =
      AList.total (fun _ s => if s.isLive then s.reservedBytes else 0) σ.requests := by
    refine hv.sound.reserved_eq.trans (Eq.symm (AList.total_eq_of_matching
      (p := fun _ s => s.isLive)
      (q := fun (_ : ReservationId) (rec : ReservationRecord) => rec.active)
      (fun s : Rs => s.reservation) ?_ ?_ ?_))
    · intro r s hs hlive
      obtain ⟨rec, hrec, hactive, -, hbytes⟩ :=
        MemoryGovernor.held_eq_some.mp (hholds r s hs hlive).2
      exact ⟨rec, hrec, hactive, hbytes⟩
    · intro id rec hrec hactive
      obtain ⟨s, hs, hlive, hres⟩ := hheld id rec.requestId rec.bytes
        (MemoryGovernor.held_eq_some.mpr ⟨rec, hrec, hactive, rfl, rfl⟩)
      exact ⟨_, s, hs, hlive, hres⟩
    · exact fun r s r' s' hs hlive hs' hlive' heq => hdistinct r s r' s' hs hs' hlive hlive' heq
  refine
    { holds_iff := fun r s hs => ⟨fun hne => ?_, fun h => ?_⟩
      distinct := fun r s r' s' hs hs' hne heq => hdistinct r s r' s' hs hs' (honly r s hs hne)
        (honly r' s' hs' (heq ▸ hne)) heq
      active_iff := fun id => ?_
      record := fun r s hs hne =>
        MemoryGovernor.held_eq_some.mp (hholds r s hs (honly r s hs hne)).2
      reserved_eq := htotal
      reserved_le := hv.sound.reserved_le
      reserved_eq_zero := fun hnone => ?_
      doubleReleases_eq := hv.sound.doubleReleases_eq
      underflowHappened_eq := hv.sound.underflowHappened_eq }
  · have hlive := honly r s hs hne
    exact ⟨dispatched_of_sane hsane r s.core (view_req hs) hlive, (Rs.isLive_iff.mp hlive).1⟩
  · exact (hholds r s hs (Rs.isLive_iff.mpr ⟨h.2, by rw [h.1]; rfl⟩)).1
  · rw [MemoryGovernor.isActive_eq_isSome_held, Option.isSome_iff_exists]
    constructor
    · rintro ⟨⟨r, b⟩, h⟩
      obtain ⟨s, hs, hlive, rfl⟩ := hheld id r b h
      exact ⟨(hholds r s hs hlive).1, r, s, hs, rfl⟩
    · rintro ⟨hne, r, s, hs, rfl⟩
      exact ⟨_, (hholds r s hs (honly r s hs hne)).2⟩
  · rw [htotal, AList.total]
    refine List.sum_eq_zero fun n hn => ?_
    obtain ⟨⟨r, s⟩, he, rfl⟩ := List.mem_map.mp hn
    rw [hnone r s (AList.mem_lookup_iff.mpr he), if_neg Bool.false_ne_true]

theorem Impl.reserving_fresh (env : Env) : (Impl.fresh env).view.Reserving where
  sound := ⟨rfl, Nat.zero_le _, rfl, rfl⟩
  holds _ s h := absurd h (Option.some_ne_none s).symm
  held _ _ _ h := absurd h (Option.some_ne_none _).symm
  only _ s h := absurd h (Option.some_ne_none s).symm

/-- **The reservations balance throughout every run** of a new scheduler, whatever is
called. -/
theorem Run.reservationsBalance (env : Env) (calls : List Call) (n : ℕ) :
    ((fresh env calls).stateAt n).ReservationsBalance := by
  have hwf := fresh_wf env calls
  refine Impl.reservationsBalance_of_reserving
    (sane hwf (fun _ s h => absurd h (Option.some_ne_none s).symm) n) ?_
  exact Impl.view_invariant hwf (Impl.reserving_fresh env)
    (fun _ _ _ hu h hv => h.reserving hu hv) n

end PrefillFabric
