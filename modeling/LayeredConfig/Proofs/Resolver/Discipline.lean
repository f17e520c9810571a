import LayeredConfig.Proofs.Resolver.Calls

/-!
# Sessions while visits are under way

In the session of every call, and in every session that a call leaves, no path is
pending twice and no pending path is settled.  A call leaves the pending paths as
it found them, whether it returns or fails, and an entry that is settled once
stays as it is.
-/

namespace LayeredConfig.Resolver

/-- No path is pending twice, and no path is both pending and settled. -/
structure Session.Orderly (s : Session) : Prop where
  nodup : s.pending.Nodup
  apart : ∀ path ∈ s.pending, s.settled? path = none

section

variable {task : Task} {f g : Frame} {s t : Session}

theorem Session.Orderly.empty : Session.empty.Orderly := ⟨List.nodup_nil, by simp [Session.empty]⟩

theorem Session.Orderly.extends (hs : s.Orderly) (h : s.Extends t) : t.Orderly := by
  refine ⟨h.pending ▸ hs.nodup, fun path hpath ↦ ?_⟩
  rw [h.pending] at hpath
  exact h.settled?_none_of_pending hpath (hs.apart path hpath)

theorem Session.Orderly.enter (hs : s.Orderly) {path : Path} (hsettled : s.settled? path = none)
    (hpending : path ∉ s.pending) : (s.enter path).Orderly := by
  refine ⟨List.nodup_cons.mpr ⟨hpending, hs.nodup⟩, fun p hp ↦ ?_⟩
  rcases List.mem_cons.mp hp with rfl | hp
  · exact hsettled
  · exact hs.apart p hp

theorem Calls.orderly (h : Calls task f g) (hf : f.session.Orderly) : g.session.Orderly := by
  rcases h.session_cases with ⟨path, hsettled, hpending, hsession⟩ | hextends
  · rw [hsession]
    exact hf.enter hsettled hpending
  · exact hf.extends hextends

/-- The calls of any number of steps on one document. -/
inductive Made (task : Task) : Frame → Prop
  | document {depth : Nat} {s : Session} (hs : Reaches task .empty s) :
      Made task ⟨depth, .document, s⟩
  | path {depth : Nat} {s : Session} (path : String) (hs : Reaches task .empty s) :
      Made task ⟨depth, .visit (Path.ofText path), s⟩
  | call {f g : Frame} (hf : Made task f) (h : Calls task f g) : Made task g

theorem Reaches.orderly (h : Reaches task .empty s) : s.Orderly := .extends .empty h.extends

theorem Made.orderly (h : Made task f) : f.session.Orderly := by
  induction h with
  | document hs => exact hs.orderly
  | path _ hs => exact hs.orderly
  | call _ hcall ih => exact hcall.orderly ih

end

/-- The discipline of sessions.  Between steps no path is pending.  Where a call
of any step is made and where it ends, by a result or by a fault, no path is
pending twice or pending and settled, and the end has the pending paths of the
start.  What a path has come to stays: from step to step, from a call to the
calls that it makes, from their ends to its own, and from the end of a call to
whatever is called after it. -/
theorem sessions_disciplined (task : Task) :
    (∀ s, Reaches task .empty s → s.pending = []) ∧
    (∀ f, Made task f → f.session.Orderly ∧
      ∀ t, f.Leaves task t → t.Orderly ∧ t.pending = f.session.pending) ∧
    (∀ s t, Reaches task s t → Carries s.settled t.settled) ∧
    (∀ (f : Frame) (t : Session), f.Leaves task t → Carries f.session.settled t.settled) ∧
    (∀ f g, Within task f g → Carries f.session.settled g.session.settled ∧
      ∀ t, f.Leaves task t → ∃ u, g.Leaves task u ∧ Carries u.settled t.settled) ∧
    ∀ f g h, Within task f g → Within task f h →
      Within task g h ∨ Within task h g ∨ Precedes task g h ∨ Precedes task h g := by
  refine ⟨fun s hs ↦ hs.extends.pending, fun f hf ↦ ⟨hf.orderly, fun t ht ↦ ?_⟩,
    fun s t hst ↦ hst.extends.carries, fun f t ht ↦ ht.extends.carries, fun f g hfg ↦ ?_,
    fun f g h hg hh ↦ Within.nested_or_in_turn hg hh⟩
  · exact ⟨hf.orderly.extends ht.extends, ht.extends.pending⟩
  · exact ⟨Within.carries hfg, fun t ht ↦ Within.leaves hfg ht⟩

/-- Two members, each of which overrides the other one. -/
def rivals : Task where
  root := .object [(⟨"a", false⟩, .alternative (.int 1) ⟨"b", false⟩),
    (⟨"b", false⟩, .alternative (.int 2) ⟨"a", false⟩)]
  lenient := false

/-- The visit of the second member, within that of the first one. -/
def rivalsInner : Frame where
  depth := 2
  call := .node (.alternative (.int 2) ⟨"a", false⟩) (some ["b"])
  session := (Session.empty.enter ["a"]).enter ["b"]

theorem rivalsInner_made : Made rivals rivalsInner := by
  have hstart : Made rivals ⟨4, .visit ["a"], .empty⟩ := .path "a" .refl
  have houter : Made rivals
      ⟨3, .node (.alternative (.int 1) ⟨"b", false⟩) (some ["a"]), Session.empty.enter ["a"]⟩ :=
    (hstart.call (.work rfl (by decide))).call (.found rfl)
  have hvisit : Made rivals ⟨3, .visit ["b"], Session.empty.enter ["a"]⟩ :=
    ((houter.call .override).call .tried).call .followed
  exact (hvisit.call (.work rfl (by decide))).call (.found rfl)

/-- The way back to the first member closes a cycle, and then the default of the
second one stands in. -/
theorem sessions_disciplined_rivals : ∃ s t back default u,
    (Reaches rivals .empty s ∧ s.pending = []) ∧
    (Reaches rivals s t ∧ Carries s.settled t.settled) ∧
    (Made rivals back ∧ back.session.pending = [["b"], ["a"]] ∧ back.session.Orderly) ∧
    (back.Leaves rivals u ∧ u.Orderly ∧ u.pending = [["b"], ["a"]] ∧
      Carries back.session.settled u.settled) ∧
    (Within rivals rivalsInner back ∧
      Carries rivalsInner.session.settled back.session.settled ∧
      ∃ w, rivalsInner.Leaves rivals w ∧
        ∃ u, back.Leaves rivals u ∧ Carries u.settled w.settled) ∧
    Within rivals rivalsInner default ∧
      (Within rivals back default ∨ Within rivals default back ∨
        Precedes rivals back default ∨ Precedes rivals default back) := by
  obtain ⟨hsteps, hmade, hreach, hleaves, hwithin, hturn⟩ := sessions_disciplined rivals
  obtain ⟨s, hs⟩ : ∃ s, (resolvePath rivals 4 "a").runIn .empty =
      some (.ok (some (.int 2)), s) := ⟨_, rfl⟩
  obtain ⟨r, t, ht⟩ : ∃ r t, (resolveDocument rivals 4).runIn s = some (r, t) := by
    cases hs
    exact ⟨_, _, rfl⟩
  have hs_reached : Reaches rivals .empty s := .path .refl hs
  have ht_reached : Reaches rivals s t := .document .refl ht
  -- The failure of the way back is caught, and the default goes on from there.
  obtain ⟨u, hu⟩ : ∃ u, (followOverride false (lookupWithin rivals 2) ⟨"a", false⟩).runIn
      rivalsInner.session = some (.ok none, u) := ⟨_, rfl⟩
  have hback : Within rivals rivalsInner ⟨2, .visit ["a"], rivalsInner.session⟩ :=
    .tail (.tail (.single .override) .tried) .followed
  have hdefault : Within rivals rivalsInner ⟨2, .node (.int 2) none, u⟩ :=
    .single (.default hu)
  have hback_made : Made rivals ⟨2, .visit ["a"], rivalsInner.session⟩ :=
    ((rivalsInner_made.call .override).call .tried).call .followed
  have hcycle : Frame.Leaves rivals ⟨2, .visit ["a"], rivalsInner.session⟩
      rivalsInner.session := ⟨_, visit_of_pending rfl (by decide) _⟩
  obtain ⟨w, hw⟩ : ∃ w, rivalsInner.Leaves rivals w := ⟨_, _, rfl⟩
  obtain ⟨horderly, hend⟩ := hmade _ hback_made
  exact ⟨s, t, _, _, _, ⟨hs_reached, hsteps s hs_reached⟩, ⟨ht_reached, hreach s t ht_reached⟩,
    ⟨hback_made, rfl, horderly⟩,
    ⟨hcycle, (hend _ hcycle).1, (hend _ hcycle).2, hleaves _ _ hcycle⟩,
    ⟨hback, (hwithin _ _ hback).1, w, hw, (hwithin _ _ hback).2 w hw⟩,
    hdefault, hturn _ _ _ hback hdefault⟩

end LayeredConfig.Resolver
