import LayeredConfig.Proofs.Resolver.Account

/-!
# What a session has settled cannot be told

Without alternatives no failure is caught, so a path is settled only by work
that asked for nothing but settled paths.  Such work can be done again from
the entries before it, in any session that is not at work on one of them.  A
session with a history then gives the outcomes of one without.
-/

namespace LayeredConfig.Resolver

/-- Looks a path up among settled ones, and does no work. -/
def reread (settled : List (Path × Option Value)) (path : Path) : Action (Option Value) :=
  match settled.lookup path with
  | some found => pure found
  | none => Action.exhausted

/-- Every entry can be worked out again from the ones before it. -/
def Replayable (task : Task) : List (Path × Option Value) → Prop
  | [] => True
  | (path, found) :: older =>
    older.lookup path = none ∧
      (∀ s, ∃ t, (compute task (reread older) path).runIn s = some (.ok found, t)) ∧
        Replayable task older

section Replay

variable {task : Task} {α : Type} {act : (Path → Action (Option Value)) → Action α}

theorem reread_runIn {settled : List (Path × Option Value)} {path : Path}
    {found : Option Value} (h : settled.lookup path = some found) (s : Session) :
    (reread settled path).runIn s = some (.ok found, s) := by
  simp [reread, h]

theorem reread_cases {settled : List (Path × Option Value)} {path : Path} {s t : Session}
    {r : Except Fault (Option Value)} (h : (reread settled path).runIn s = some (r, t)) :
    ∃ found, settled.lookup path = some found ∧ r = .ok found ∧ t = s := by
  unfold reread at h
  cases hlookup : settled.lookup path with
  | none => simp [hlookup] at h
  | some found =>
      simp only [hlookup, Action.runIn_pure, Option.some.injEq, Prod.mk.injEq] at h
      exact ⟨found, rfl, h.1.symm, h.2.symm⟩

/-- What has succeeded can be done again from what is settled by then. -/
theorem Consults.replays {asked : Path → Prop} (h : Consults False asked act) {depth : Nat}
    {s t : Session} {a : α} (hrun : (act (lookupWithin task depth)).runIn s = some (.ok a, t))
    {settled : List (Path × Option Value)} (hcarries : Carries t.settled settled)
    (s' : Session) : ∃ t', (act (reread settled)).runIn s' = some (.ok a, t') := by
  induction h generalizing s t s' with
  | pure b =>
      cases hrun
      exact ⟨s', rfl⟩
  | throw f _ => cases hrun
  | record e =>
      cases hrun
      exact ⟨s'.record e, rfl⟩
  | lookup hp => exact ⟨s', reread_runIn (hcarries _ _ (lookupWithin_settles task hrun)) s'⟩
  | bind hx hf ihx ihf =>
      obtain ⟨b, u, hb, hrest⟩ := runIn_bind_ok_cases hrun
      have hextends := (hf b).moves .refl (fun _ _ _ ↦ .trans) .record
        (fun p _ ↦ lookupWithin_extends task depth p) _ _ _ hrest
      obtain ⟨u', hu'⟩ := ihx hb (hextends.carries.trans hcarries) s'
      obtain ⟨t', ht'⟩ := ihf b hrest hcarries u'
      exact ⟨t', (Action.runIn_bind_ok hu').trans ht'⟩
  | outcome hcatches _ _ => exact hcatches.elim

theorem compute_consults_only (halt : task.root.lacksAlternatives = true) (path : Path) :
    Consults False (fun _ ↦ True) fun lookup ↦ compute task lookup path :=
  compute_consults task path (fun _ _ ↦ trivial) (Or.inl halt)

theorem Reaches.replayable (halt : task.root.lacksAlternatives = true) {s t : Session}
    (h : Reaches task s t) (hs : Replayable task s.settled) : Replayable task t.settled :=
  h.keeps (fun _ hfresh hrun holder ↦
    ⟨hfresh, (compute_consults_only halt _).replays hrun (.refl _), holder⟩) hs

section Again

variable {older settled : List (Path × Option Value)} {pending : List Path} {path : Path}
  {found : Option Value} {depth : Nat}

/-- Any session at work on the pending paths, if it agrees with the entries,
finds the path as they have it. -/
def FoundAgain (task : Task) (settled : List (Path × Option Value)) (pending : List Path)
    (depth : Nat) (path : Path) (found : Option Value) : Prop :=
  ∀ s, Carries s.settled settled → s.pending = pending →
    ∃ t, (lookupWithin task depth path).runIn s = some (.ok found, t) ∧
      Carries t.settled settled ∧ t.pending = pending

/-- Rereading is followed by lookups that find the entries again. -/
theorem reread_follows
    (hagain : ∀ p led, older.lookup p = some led → FoundAgain task settled pending depth p led)
    (p : Path) :
    Follows (fun _ u ↦ Carries u.settled settled ∧ u.pending = pending) (reread older p)
      (lookupWithin task depth p) := by
  rintro a b ⟨hb, hpending⟩ r a' hrun
  obtain ⟨led, hled, rfl, rfl⟩ := reread_cases hrun
  exact hagain p led hled b hb hpending

/-- Work that asks for older entries only is done again once these are found
again. -/
theorem foundAgain_of_replay (halt : task.root.lacksAlternatives = true)
    (hreplay : ∀ s, ∃ t, (compute task (reread older) path).runIn s = some (.ok found, t))
    (hsettled : settled.lookup path = some found) (hnotin : path ∉ pending)
    (hagain : ∀ p led, older.lookup p = some led →
      FoundAgain task settled (path :: pending) depth p led) :
    FoundAgain task settled pending (depth + 1) path found := by
  rintro s hs rfl
  cases hpath : s.settled? path with
  | some led =>
      have hled : led = found := Option.some.inj ((hs path led hpath).symm.trans hsettled)
      subst hled
      exact ⟨s, visit_of_settled hpath _, hs, rfl⟩
  | none =>
      have hfollows : Follows
          (fun _ u ↦ Carries u.settled settled ∧ u.pending = path :: s.pending)
          (compute task (reread older) path) (compute task (lookupWithin task depth) path) :=
        (compute_consults_only halt path).follows (fun _ _ _ ↦ id) fun p _ ↦
          reread_follows hagain p
      obtain ⟨t, ht⟩ := hreplay (s.enter path)
      obtain ⟨u, hu, hcarries, hpending⟩ := hfollows _ (s.enter path) ⟨hs, rfl⟩ _ _ ht
      refine ⟨u.close path (.ok found), visit_of_fresh hpath hnotin hu,
        hcarries.cons_left hsettled, ?_⟩
      rw [Session.pending_close, hpending, List.tail_cons]

/-- A path that can be replayed is found again, unless the session is at work
on one of the entries. -/
theorem Replayable.foundAgain (halt : task.root.lacksAlternatives = true)
    (h : Replayable task older) (holder : Carries older settled)
    (hpath : older.lookup path = some found) (hdepth : older.length ≤ depth)
    (hpending : ∀ q ∈ pending, older.lookup q = none) :
    FoundAgain task settled pending depth path found := by
  induction older generalizing path found depth pending with
  | nil => simp at hpath
  | cons entry older ih =>
      obtain ⟨q, v⟩ := entry
      obtain ⟨hfresh, hreplay, h⟩ := h
      have hcarries : Carries older settled := (carries_cons hfresh v).trans holder
      have hidle : ∀ p ∈ pending, older.lookup p = none := by
        intro p hp
        have hnone := hpending p hp
        rw [List.lookup_cons] at hnone
        split at hnone
        · cases hnone
        · exact hnone
      by_cases heq : path = q
      · subst heq
        have hsettled : settled.lookup path = some found := holder _ _ hpath
        have hnotin : path ∉ pending := by
          intro hmem
          simp [hpending path hmem] at hpath
        obtain rfl : v = found := by simpa using hpath
        cases depth with
        | zero => simp at hdepth
        | succ depth =>
            refine foundAgain_of_replay halt hreplay hsettled hnotin fun p led hled ↦
              ih h hcarries hled (Nat.le_of_succ_le_succ hdepth) ?_
            intro p' hp'
            rcases List.mem_cons.mp hp' with rfl | hp'
            · exact hfresh
            · exact hidle p' hp'
      · rw [List.lookup_cons, beq_false_of_ne heq] at hpath
        exact ih h hcarries hpath (Nat.le_of_succ_le hdepth) hidle

end Again

end Replay

/-! ## Two sessions side by side -/

/-- The second session is at the same work as the first, and has settled all
that the first has. -/
structure Session.Shadows (task : Task) (s t : Session) : Prop where
  pending : s.pending = t.pending
  carries : Carries s.settled t.settled
  replayable : Replayable task t.settled
  idle : ∀ q ∈ t.pending, t.settled? q = none

namespace Session.Shadows

variable {task : Task} {s t : Session} {path : Path}

theorem record (h : s.Shadows task t) (e : Event) : (s.record e).Shadows task (t.record e) :=
  ⟨h.pending, h.carries, h.replayable, h.idle⟩

theorem settled?_none (h : s.Shadows task t) (hpath : t.settled? path = none) :
    s.settled? path = none := by
  cases hs : s.settled? path with
  | none => rfl
  | some found =>
      have ht : t.settled? path = some found := h.carries path found hs
      rw [hpath] at ht
      cases ht

theorem enter (h : s.Shadows task t) (hpath : t.settled? path = none) :
    (s.enter path).Shadows task (t.enter path) := by
  refine ⟨by simp [h.pending], h.carries, h.replayable, ?_⟩
  intro q hq
  rcases List.mem_cons.mp hq with rfl | hq
  · exact hpath
  · exact h.idle q hq

/-- The end of the same work in both sessions. -/
theorem close {older : List Path} {found : Option Value} (h : s.Shadows task t)
    (hpending : t.pending = path :: older) (hpath : path ∉ older)
    (hreplay : ∀ u, ∃ u', (compute task (reread t.settled) path).runIn u = some (.ok found, u')) :
    (s.close path (.ok found)).Shadows task (t.close path (.ok found)) := by
  have hfresh : t.settled? path = none := h.idle path (by simp [hpending])
  refine ⟨by simp [h.pending], h.carries.cons_cons path found,
    ⟨hfresh, hreplay, h.replayable⟩, ?_⟩
  intro q hq
  rw [pending_close, hpending, List.tail_cons] at hq
  have hne : q ≠ path := fun heq ↦ hpath (heq ▸ hq)
  simp [Session.close, settled?_settle, hne, h.idle q (by simp [hpending, hq])]

theorem leave (h : s.Shadows task t) : s.leave.Shadows task t.leave :=
  ⟨by simp [h.pending], h.carries, h.replayable,
    fun q hq ↦ h.idle q (List.mem_of_mem_tail hq)⟩

end Session.Shadows

section Simulation

variable {task : Task}

theorem lookupWithin_follows_shadow (halt : task.root.lacksAlternatives = true) (depth : Nat)
    (path : Path) :
    Follows (Session.Shadows task) (lookupWithin task depth path)
      (lookupWithin task depth path) := by
  induction depth generalizing path with
  | zero =>
      intro s t _ r s' hrun
      simp [lookupWithin] at hrun
  | succ depth ih =>
      intro s t hst r s' hrun
      cases ht : t.settled? path with
      | some found =>
          -- The first session may have the work before it, which comes to the same.
          have hidle : ∀ q ∈ s.pending, t.settled.lookup q = none := by
            rw [hst.pending]
            exact hst.idle
          obtain ⟨u, hu, hcarries, hpending⟩ := hst.replayable.foundAgain halt (.refl _) ht
            (Nat.le_max_left _ (depth + 1)) hidle s hst.carries rfl
          have hdeep := lookupWithin_eq_of_le (Nat.le_max_right t.settled.length _) hrun
          obtain ⟨rfl, rfl⟩ : r = .ok found ∧ s' = u := by
            simpa using hdeep.symm.trans hu
          refine ⟨t, visit_of_settled ht _, ?_⟩
          exact ⟨hpending.trans hst.pending, hcarries, hst.replayable, hst.idle⟩
      | none =>
          refine visit_beside hst (ht.trans (hst.settled?_none ht).symm) hst.pending.symm
            (fun _ hpending u hu ↦ ?_) hrun
          rw [hst.pending] at hpending
          obtain ⟨u', hu', hshadows⟩ :=
            (compute_consults_only halt path).follows (fun _ _ e h ↦ h.record e)
              (fun p _ ↦ ih p) _ _ (hst.enter ht) r u hu
          refine ⟨u', hu', ?_⟩
          cases r with
          | error fault => exact hshadows.leave
          | ok found =>
              have hextends :=
                compute_extends task (lookupWithin_extends task depth) path _ _ _ hu'
              exact hshadows.close hextends.pending hpending
                ((compute_consults_only halt path).replays hu' (.refl _))

theorem Reaches.shadows (halt : task.root.lacksAlternatives = true) {s : Session}
    (h : Reaches task .empty s) : Session.empty.Shadows task s := by
  have hpending : s.pending = [] := h.extends.pending
  refine ⟨hpending.symm, ?_, h.replayable halt trivial, ?_⟩
  · intro path found hfound
    cases hfound
  · simp [hpending]

/-- In a document without alternatives a session with a history gives every
outcome that one without a history gives. -/
theorem resolve_transparent (halt : task.root.lacksAlternatives = true) {s : Session}
    (hs : Reaches task .empty s) :
    (∀ depth path r t, (resolvePath task depth path).runIn .empty = some (r, t) →
      ∃ u, (resolvePath task depth path).runIn s = some (r, u)) ∧
    ∀ depth r t, (resolveDocument task depth).runIn .empty = some (r, t) →
      ∃ u, (resolveDocument task depth).runIn s = some (r, u) := by
  have hshadows := hs.shadows halt
  constructor
  · intro depth path r t hrun
    obtain ⟨u, hu, _⟩ := lookupWithin_follows_shadow halt depth _ _ _ hshadows r t hrun
    exact ⟨u, hu⟩
  · intro depth r t hrun
    have hconsults : Consults False (fun _ ↦ True) fun lookup ↦
        resolveNode task.lenient lookup task.root (some []) :=
      resolveNode_consults task.root (some []) (fun _ _ ↦ trivial) (Or.inl halt)
    unfold resolveDocument at hrun ⊢
    rw [resolveRoot_runIn] at hrun ⊢
    obtain ⟨⟨q, t'⟩, ht', hq⟩ := Option.map_eq_some_iff.mp hrun
    cases hq
    obtain ⟨u, hu, _⟩ := hconsults.follows (fun _ _ e h ↦ h.record e)
      (fun p _ ↦ lookupWithin_follows_shadow halt depth p) _ _ hshadows q t' ht'
    exact ⟨u.finish q, by rw [hu]; rfl⟩

/-- Two members that refer to each other, beside one that does not. -/
def mutualPair : Members Text Value :=
  [(⟨"a", false⟩, .substitution ⟨"b", false⟩), (⟨"b", false⟩, .substitution ⟨"a", false⟩),
    (⟨"c", false⟩, .object [(⟨"d", false⟩, .int 1)])]

theorem resolve_transparent_mutualPair :
    ∃ found s u, (resolvePath ⟨.object mutualPair, false⟩ 2 "c").runIn .empty =
        some (.ok found, s) ∧
      (resolvePath ⟨.object mutualPair, false⟩ 3 "a").runIn s =
        some (.error (.cyclic "a" ["a", "b"]), u) := by
  obtain ⟨found, s, hs⟩ : ∃ found s,
      (resolvePath ⟨.object mutualPair, false⟩ 2 "c").runIn .empty = some (.ok found, s) :=
    ⟨_, _, rfl⟩
  obtain ⟨t, ht⟩ : ∃ t, (resolvePath ⟨.object mutualPair, false⟩ 3 "a").runIn .empty =
      some (.error (.cyclic "a" ["a", "b"]), t) := ⟨_, rfl⟩
  obtain ⟨u, hu⟩ := (resolve_transparent rfl (.path .refl hs)).1 _ _ _ _ ht
  exact ⟨found, s, u, hs, hu⟩

end Simulation

end LayeredConfig.Resolver
