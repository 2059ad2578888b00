import PrefillFabric.Scheduler.History

/-!
# Places in groups

A group lists the requests it waits for. A place in a group belongs to a request that is in
flight and names the group as its own, and no group is empty: this is `View.Attached`, and
every effect keeps it, without any condition (`Effect.attached`).

A request leaves the groups by being taken out of its own, or because that one is dropped
altogether; either way it is in no group any more (`View.Attached.depart`). The converse, that
everything in flight has a place, is another matter, since a group that is dropped may have
other members.
-/

namespace PrefillFabric

variable {v v' : View} {l : Label} {r : RequestId} {s s' : Rs}

/-- **The places in groups are taken by requests in flight** that say so. -/
structure View.Attached (v : View) : Prop where
  outstanding : ∀ g w out r, v.grp g = some (w, out) → r ∈ out →
    ∃ s, v.req r = some s ∧ s.isLive = true ∧ s.currentGroup = g
  ne_nil : ∀ g w out, v.grp g = some (w, out) → out ≠ []
  grp_nil : v.grp .nil = none

namespace View

/-! ### Taking a request out of a group -/

/-- A group that is left behind by one request. -/
theorem leaveGroup_eq_some {w w' : WorkerId} {out out' : List RequestId} :
    leaveGroup r (w, out) = some (w', out') ↔
      w' = w ∧ out' = eraseOutstanding r out ∧ out' ≠ [] := by
  unfold leaveGroup
  dsimp only
  split_ifs with h
  · rw [List.isEmpty_iff] at h
    constructor
    · exact False.elim
    · rintro ⟨-, rfl, hne⟩
      exact absurd h hne
  · rw [List.isEmpty_iff] at h
    constructor
    · intro heq
      obtain ⟨rfl, rfl⟩ := Prod.mk.inj (Option.some.inj heq)
      exact ⟨rfl, rfl, h⟩
    · rintro ⟨rfl, rfl, -⟩
      rfl

/-- The groups after a request has left one. -/
theorem detachIf_grp (v : View) (b : Bool) (g x : GroupId) (r : RequestId) :
    (v.detachIf b g r).grp x =
      if b = true ∧ x = g then (v.grp g).bind (leaveGroup r) else v.grp x := by
  cases b with
  | false => rw [if_neg fun hc => Bool.noConfusion hc.1]; rfl
  | true =>
    change Function.update v.grp g ((v.grp g).bind (leaveGroup r)) x = _
    rw [Function.update_apply]
    simp only [true_and]

/-- Where the groups after a request has left one come from. -/
theorem exists_of_detachIf_grp {b : Bool} {g x : GroupId} {w : WorkerId} {out' : List RequestId}
    (h : (v.detachIf b g r).grp x = some (w, out')) :
    ∃ out, v.grp x = some (w, out) ∧
      ((b = true ∧ x = g ∧ out' = eraseOutstanding r out ∧ out' ≠ []) ∨
        (¬(b = true ∧ x = g) ∧ out' = out)) := by
  rw [detachIf_grp] at h
  split_ifs at h with hx
  · obtain ⟨⟨w₁, out⟩, hout, hleave⟩ := Option.bind_eq_some_iff.mp h
    obtain ⟨rfl, hout', hne⟩ := leaveGroup_eq_some.mp hleave
    exact ⟨out, hx.2 ▸ hout, Or.inl ⟨hx.1, hx.2, hout', hne⟩⟩
  · exact ⟨out', h, Or.inr ⟨hx, rfl⟩⟩

/-! ### Requests that leave -/

/-- Groups may lose members, and the records of those that stay are as they were. -/
theorem Attached.shrink (hv : v.Attached)
    (h : ∀ g w out', v'.grp g = some (w, out') → out' ≠ [] ∧
      ∃ out, v.grp g = some (w, out) ∧ ∀ x ∈ out', x ∈ out ∧ v'.req x = v.req x) :
    v'.Attached where
  outstanding g w out' r hgrp hr := by
    obtain ⟨-, out, hold, hmem⟩ := h g w out' hgrp
    obtain ⟨hout, hreq⟩ := hmem r hr
    rw [hreq]
    exact hv.outstanding g w out r hold hout
  ne_nil g w out' hgrp := (h g w out' hgrp).1
  grp_nil := by
    rw [Option.eq_none_iff_forall_ne_some]
    intro p hp
    obtain ⟨-, out, hold, -⟩ := h .nil p.1 p.2 hp
    exact absurd (hold.symm.trans hv.grp_nil) (Option.some_ne_none _)

/-- Groups stay as they are, and so do the requests in flight as far as their groups go. -/
theorem Attached.same (hv : v.Attached) (hgrp : v'.grp = v.grp)
    (hreq : ∀ x t, v.req x = some t →
      ∃ t', v'.req x = some t' ∧ t'.isLive = t.isLive ∧ t'.currentGroup = t.currentGroup) :
    v'.Attached where
  outstanding g w out r hg hr := by
    obtain ⟨t, ht, hlive, hcur⟩ := hv.outstanding g w out r (hgrp ▸ hg) hr
    obtain ⟨t', ht', hlive', hcur'⟩ := hreq r t ht
    exact ⟨t', ht', hlive'.trans hlive, hcur'.trans hcur⟩
  ne_nil g w out hg := hv.ne_nil g w out (hgrp ▸ hg)
  grp_nil := hgrp ▸ hv.grp_nil

/-- **A request leaves**, whatever becomes of it: it is in no group any more if it is out of the
one it was in. -/
theorem Attached.depart (hv : v.Attached) (hs : v.req r = some s)
    (hreq : v'.req = Function.update v.req r (some s'))
    (hgrp : ∀ g w out', v'.grp g = some (w, out') → out' ≠ [] ∧
      ∃ out, v.grp g = some (w, out) ∧ (∀ x ∈ out', x ∈ out) ∧
        (s.isLive = true → g = s.currentGroup → r ∉ out')) : v'.Attached := by
  refine hv.shrink fun g w out' hg => ?_
  obtain ⟨hne, out, hold, hsub, hleft⟩ := hgrp g w out' hg
  refine ⟨hne, out, hold, fun x hx => ⟨hsub x hx, ?_⟩⟩
  rw [hreq, Function.update_of_ne]
  rintro rfl
  -- in that group it would have to be in flight, with the group as its own
  obtain ⟨t, ht, hlive, hcur⟩ := hv.outstanding g w out x hold (hsub x hx)
  obtain rfl := Option.some.inj (ht.symm.trans hs)
  exact hleft hlive hcur.symm hx

/-- A request that is taken out of its group leaves. -/
theorem Attached.detach (hv : v.Attached) (hs : v.req r = some s) {b : Bool}
    (hb : s.isLive = true → s.currentGroup ≠ .nil → b = true)
    (hreq : v'.req = Function.update v.req r (some s'))
    (hgrp : v'.grp = (v.detachIf b s.currentGroup r).grp) : v'.Attached := by
  refine hv.depart hs hreq fun g w out' hg => ?_
  rw [hgrp] at hg
  obtain ⟨out, hold, ⟨-, -, rfl, hne⟩ | ⟨hother, rfl⟩⟩ := exists_of_detachIf_grp hg
  · refine ⟨hne, out, hold, fun x hx => (mem_eraseOutstanding.mp hx).1, fun _ _ hr => ?_⟩
    exact (mem_eraseOutstanding.mp hr).2 rfl
  · refine ⟨hv.ne_nil g w _ hold, _, hold, fun x hx => hx, fun hlive hcur _ => ?_⟩
    refine hother ⟨hb hlive fun hnil => ?_, hcur⟩
    rw [hcur, hnil, hv.grp_nil] at hold
    exact absurd hold.symm (Option.some_ne_none _)

/-- A request whose group is dropped leaves. -/
theorem Attached.drop (hv : v.Attached) (hs : v.req r = some s) {b : Bool}
    (hb : s.isLive = true → s.currentGroup ≠ .nil → b = true)
    (hreq : v'.req = Function.update v.req r (some s'))
    (hgrp : v'.grp = (v.dropGrpIf b s.currentGroup).grp) : v'.Attached := by
  refine hv.depart hs hreq fun g w out hg => ?_
  rw [hgrp] at hg
  have hold : v.grp g = some (w, out) ∧ ¬(b = true ∧ g = s.currentGroup) := by
    cases b with
    | false => exact ⟨hg, fun hc => Bool.noConfusion hc.1⟩
    | true =>
      change Function.update v.grp s.currentGroup none g = some (w, out) at hg
      rw [Function.update_apply] at hg
      split_ifs at hg with hcur
      exact ⟨hg, fun hc => hcur hc.2⟩
  refine ⟨hv.ne_nil g w out hold.1, out, hold.1, fun x hx => hx, fun hlive hcur _ => ?_⟩
  refine hold.2 ⟨hb hlive fun hnil => ?_, hcur⟩
  have hnone := hold.1
  rw [hcur, hnil, hv.grp_nil] at hnone
  exact absurd hnone.symm (Option.some_ne_none _)

theorem Attached.launch {now : Nanoseconds} {gid : GroupId} {w : WorkerId}
    {ms : List ExecutableMember} (hv : v.Attached) (h : View.Launch now gid w ms v v') :
    v'.Attached := by
  obtain ⟨out, hgrp, hout⟩ := h.grp
  have hcases : ∀ g w' out', v'.grp g = some (w', out') →
      (g = gid ∧ out' = out) ∨ v.grp g = some (w', out') := by
    intro g w' out' hg
    rw [hgrp, Function.update_apply] at hg
    split_ifs at hg with hgid
    · exact Or.inl ⟨hgid, (congrArg Prod.snd (Option.some.inj hg)).symm⟩
    · exact Or.inr hg
  refine ⟨fun g w' out' x hg hx => ?_, fun g w' out' hg => ?_, ?_⟩
  · rcases hcases g w' out' hg with ⟨rfl, rfl⟩ | hold
    · obtain ⟨m, hm, rfl⟩ := (hout x).mp hx
      obtain ⟨t, res, -, -, -, hreq⟩ := h.exists_of_mem hm
      exact ⟨_, hreq, rfl, rfl⟩
    · obtain ⟨t, ht, hlive, hcur⟩ := hv.outstanding g w' out' x hold hx
      exact ⟨t, h.req_of_live ht hlive, hlive, hcur⟩
  · rcases hcases g w' out' hg with ⟨rfl, rfl⟩ | hold
    · obtain ⟨m, hm⟩ := List.exists_mem_of_ne_nil ms h.ne_nil
      exact List.ne_nil_of_mem ((hout _).mpr ⟨m, hm, rfl⟩)
    · exact hv.ne_nil g w' out' hold
  · rw [hgrp, Function.update_of_ne h.gid_ne_nil.symm]
    exact hv.grp_nil

theorem Attached.lose {w : WorkerId} (hv : v.Attached) (h : View.Lose w v v') : v'.Attached := by
  refine hv.shrink fun g w' out hg => ?_
  rw [h.grp, Option.bind_eq_some_iff] at hg
  obtain ⟨p, hp, hkeep⟩ := hg
  split_ifs at hkeep with hw
  obtain rfl := Option.some.inj hkeep
  refine ⟨hv.ne_nil g w' out hp, out, hp, fun x hx => ⟨hx, h.kept x ?_⟩⟩
  -- a request has a place in one group only, and this one is on another worker
  rintro ⟨g', out', t, hg', hx', -⟩
  obtain ⟨u, hu, -, hcur⟩ := hv.outstanding g w' out x hp hx
  obtain ⟨u', hu', -, hcur'⟩ := hv.outstanding g' w out' x hg' hx'
  obtain rfl := Option.some.inj (hu.symm.trans hu')
  rw [← hcur', hcur, hp] at hg'
  exact hw (congrArg Prod.fst (Option.some.inj hg'))

end View

/-- **Every effect leaves the places in groups to requests in flight.** -/
theorem Effect.attached {env : Env} (h : Effect env v l v') (hv : v.Attached) : v'.Attached := by
  cases h with
  | idle h => exact hv.same h.grp fun x t ht => ⟨t, by rw [h.req, ht], rfl, rfl⟩
  | @enter now req hnew _ =>
    refine hv.same rfl fun x t ht => ⟨t, (Function.update_of_ne ?_ ..).trans ht, rfl, rfl⟩
    rintro rfl
    exact absurd (hnew.symm.trans ht) (Option.some_ne_none t).symm
  | expire hs _ => exact hv.detach hs (fun hlive _ => (Rs.isLive_iff.mp hlive).1) rfl rfl
  | launch h => exact hv.launch h
  | finish o hs _ _ =>
    refine hv.detach hs (fun _ hne => ?_) rfl rfl
    rw [StrongId.isNil_eq_false.mpr hne, Bool.not_false]
  | @flag r s hs _ _ =>
    refine hv.same rfl fun x t ht => ?_
    by_cases hx : x = r
    · subst hx
      obtain rfl := Option.some.inj (hs.symm.trans ht)
      exact ⟨_, Function.update_self .., rfl, rfl⟩
    · exact ⟨t, (Function.update_of_ne hx ..).trans ht, rfl, rfl⟩
  | cancel hs hflight _ =>
    refine hv.detach hs (fun hlive _ => ?_) rfl rfl
    exact Bool.noConfusion ((Rs.isLive_iff.mp hlive).1.symm.trans hflight)
  | withdraw hs _ _ _ =>
    refine hv.drop hs (fun _ hne => ?_) rfl rfl
    rw [StrongId.isNil_eq_false.mpr hne, Bool.not_false]
  | retry hs _ _ =>
    refine hv.drop hs (fun hlive hne => ?_) rfl rfl
    rw [StrongId.isNil_eq_false.mpr hne, (Rs.isLive_iff.mp hlive).1, Bool.not_false, Bool.and_true]
  | boot w b => exact hv.same rfl fun x t ht => ⟨t, ht, rfl, rfl⟩
  | lose h => exact hv.lose h
  | roll => exact hv.same rfl fun x t ht => ⟨t, ht, rfl, rfl⟩

end PrefillFabric
