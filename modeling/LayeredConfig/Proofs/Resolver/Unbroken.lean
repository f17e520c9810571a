import LayeredConfig.Proofs.Resolver.Calls

/-!
# Runs that no missing reference breaks off

A required reference that leads nowhere makes strict resolving fail, and the
failure ends every visit on its way to a value with an alternative.  Lenient
resolving goes on, and settles the paths of these visits.  A run in which no
visit is ended like this is the same for both, cycles and all.
-/

namespace LayeredConfig.Resolver

/-- The action, without an outcome where a missing reference makes it fail. -/
def unbroken {α : Type} (act : Action α) : Action α := do
  match ← Action.outcome act with
  | .ok a => return a
  | .error (.unresolved _) => Action.exhausted
  | .error fault => throw fault

/-- Visits a path as `lookupWithin` does, and has no outcome where a missing
reference ends a visit. -/
def lookupUnbroken (task : Task) : (depth : Nat) → Path → Action (Option Value)
  | 0, _ => Action.exhausted
  | depth + 1, path => unbroken (visit path (compute task (lookupUnbroken task depth) path))

/-- The document is resolved, and no visit is ended by a missing reference. -/
def RunsUnbroken (task : Task) (depth : Nat) : Prop :=
  ∃ out, (resolveRoot task (lookupUnbroken task depth)).runIn .empty = some out

section Outcomes

variable {α β : Type} {x y : Action α} {S : Session → Session → Prop} {s t : Session}

theorem unbroken_runIn (act : Action α) (s : Session) :
    (unbroken act).runIn s =
      match act.runIn s with
      | some (.error (.unresolved _), _) => none
      | out => out := by
  unfold unbroken
  rw [Action.runIn_bind, Action.runIn_outcome]
  rcases act.runIn s with _ | ⟨fault | a, t⟩
  · rfl
  · cases fault <;> rfl
  · rfl

theorem unbroken_runIn_eq (h : ∀ m t, x.runIn s ≠ some (.error (.unresolved m), t)) :
    (unbroken x).runIn s = x.runIn s := by
  rw [unbroken_runIn]
  split
  · exact absurd ‹_› (h _ _)
  · rfl

/-- An unbroken run is a run that does not end with a missing reference. -/
theorem unbroken_runIn_iff {r : Except Fault α} :
    (unbroken x).runIn s = some (r, t) ↔
      x.runIn s = some (r, t) ∧ ∀ m, r ≠ .error (.unresolved m) := by
  constructor
  · intro h
    rw [unbroken_runIn] at h
    split at h
    · cases h
    · rename_i hother
      exact ⟨h, fun m hm ↦ hother m t (hm ▸ h)⟩
  · rintro ⟨h, hr⟩
    rw [unbroken_runIn_eq, h]
    intro m u hu
    rw [h, Option.some.injEq, Prod.mk.injEq] at hu
    exact hr m hu.1

theorem unbroken_follows (h : Follows S x y) : Follows S (unbroken x) y := by
  intro s t hst r s' hrun
  exact h s t hst r s' (unbroken_runIn_iff.mp hrun).1

/-- Actions in a row: only the failure of the whole is left out. -/
theorem unbroken_bind_follows {f g : α → Action β} (hx : Follows S (unbroken x) y)
    (hf : ∀ a, Follows S (unbroken (f a)) (g a)) :
    Follows S (unbroken (x >>= f)) (y >>= g) := by
  intro s t hst r s' hrun
  obtain ⟨hrun, hr⟩ := unbroken_runIn_iff.mp hrun
  rcases Action.runIn_bind_cases hrun with ⟨fault, hfault, rfl⟩ | ⟨a, u, ha, hrest⟩
  · have hsame : ∀ m, (.error fault : Except Fault α) ≠ .error (.unresolved m) :=
      fun m hm ↦ hr m (by cases hm; rfl)
    obtain ⟨t', hy, ht'⟩ := hx s t hst _ _ (unbroken_runIn_iff.mpr ⟨hfault, hsame⟩)
    exact ⟨t', Action.runIn_bind_error hy, ht'⟩
  · obtain ⟨u', hy, hu'⟩ := hx s t hst _ _ (unbroken_runIn_iff.mpr ⟨ha, nofun⟩)
    obtain ⟨t', hg, ht'⟩ := hf a u u' hu' r s' (unbroken_runIn_iff.mpr ⟨hrest, hr⟩)
    exact ⟨t', (Action.runIn_bind_ok hy).trans hg, ht'⟩

theorem unbroken_throw_follows (m : String) :
    Follows S (unbroken (throw (.unresolved m) : Action α)) y := by
  intro s t _ r s' hrun
  obtain ⟨hthrow, hr⟩ := unbroken_runIn_iff.mp hrun
  cases hthrow
  exact absurd rfl (hr m)

end Outcomes

/-! ## The same run -/

theorem lookupUnbroken_follows (task : Task) (depth : Nat) (path : Path) :
    Follows Eq (lookupUnbroken task depth path) (lookupWithin task depth path) := by
  induction depth generalizing path with
  | zero =>
      intro s t _ r s' hrun
      simp [lookupUnbroken] at hrun
  | succ depth ih =>
      refine unbroken_follows (visit_follows_self path ?_)
      refine (compute_consults_any task path).follows ?_ fun p _ ↦ ih p
      rintro s _ e rfl
      rfl

theorem lookupUnbroken_not_missing {task : Task} {depth : Nat} {path : Path} {s t : Session}
    (m : String) :
    (lookupUnbroken task depth path).runIn s ≠ some (.error (.unresolved m), t) := by
  intro hrun
  cases depth with
  | zero => simp [lookupUnbroken] at hrun
  | succ depth => exact (unbroken_runIn_iff.mp hrun).2 m rfl

section Calls

variable {task : Task} {depth : Nat}

theorem lookupUnbroken_eq_of_visits {path : Path} {s : Session}
    (h : ∀ d p u, Within task ⟨depth, .visit path, s⟩ ⟨d, .visit p, u⟩ →
      ∀ m t, (lookupWithin task d p).runIn u ≠ some (.error (.unresolved m), t)) :
    (lookupUnbroken task depth path).runIn s = (lookupWithin task depth path).runIn s := by
  induction depth generalizing path s with
  | zero => rfl
  | succ depth ih =>
      have hvisit : (visit path (compute task (lookupUnbroken task depth) path)).runIn s =
          (lookupWithin task (depth + 1) path).runIn s := by
        rw [lookupWithin, visit_runIn, visit_runIn]
        cases hsettled : s.settled? path with
        | some found => rfl
        | none =>
            by_cases hpending : path ∈ s.pending
            · simp only [if_pos hpending]
            · simp only [if_neg hpending]
              congr 1
              refine Call.uses (.work path) _ fun p u hp ↦ ih fun d q w hq ↦ ?_
              exact h d q w (.head (.work hsettled hpending) (hp.trans hq))
      rw [lookupUnbroken, unbroken_runIn_eq, hvisit]
      rw [hvisit]
      exact h _ _ _ .refl

/-- A run is unbroken if none of the visits that are made in it ends with a
missing reference. -/
theorem runsUnbroken_of_visits {out : Except Fault Value × Session}
    (hrun : (resolveDocument task depth).runIn .empty = some out)
    (h : ∀ d p s, Within task ⟨depth, .document, .empty⟩ ⟨d, .visit p, s⟩ →
      ∀ m t, (lookupWithin task d p).runIn s ≠ some (.error (.unresolved m), t)) :
    RunsUnbroken task depth := by
  refine ⟨out, .trans (Call.uses .document _ fun p u hp ↦ ?_) hrun⟩
  exact lookupUnbroken_eq_of_visits fun d q w hq ↦ h d q w (hp.trans hq)

end Calls

/-! ## Runs without long cycles -/

section Straight

variable {task : Task} {P : Value → Prop} {depth : Nat} {path : Path}

/-- Where everything that paths can name comes to a result, no path is followed to
a missing reference. -/
theorem PlacesCome.not_missing (h : PlacesCome task P) {visitor : Option Path}
    (hpath : path.Written) {r : Except Fault (Option Value)}
    (hr : Comes (lookupFreely task depth visitor path) r) (m : String) :
    r ≠ .error (.unresolved m) := by
  rintro rfl
  induction depth generalizing visitor path with
  | zero =>
      obtain ⟨t, ht⟩ := hr .empty
      cases ht
  | succ depth ih =>
      by_cases hvisitor : visitor = some path
      · rw [hvisitor, lookupFreely_visitor] at hr
        cases hr.unique (comes_throw _)
      · have hcomputed := hr
        rw [lookupFreely_succ hvisitor,
          comes_compute_iff (lookupFreely_steady task depth (some path))] at hcomputed
        cases hd : task.demand path with
        | node w =>
            obtain ⟨depth', found, hfound, -⟩ := h path w hpath.1 (located_of_demand hpath hd)
            rw [lookupFreely_of_ne hvisitor] at hr
            cases lookupFreely_unique hr hfound
        | redirect target =>
            rw [hd] at hcomputed
            obtain ⟨members, -, -, hd⟩ := Task.demand_cases hd (by simp)
            exact ih (Value.written_of_redirect hd hpath) hcomputed
        | through place rest =>
            rw [hd] at hcomputed
            obtain ⟨led, hled, hbeyond⟩ := hcomputed
            obtain ⟨members, -, -, hd⟩ := Task.demand_cases hd (by simp)
            cases led with
            | error fault =>
                cases hbeyond
                exact ih (Value.written_of_through hd hpath) hled
            | ok led =>
                rcases beyond_error_cases hbeyond.symm with ⟨_, _, -, -, hfault⟩ |
                  ⟨_, -, -, hfault⟩ <;> cases hfault
        | absent | blocked b =>
            rw [hd] at hcomputed
            cases hcomputed

theorem lookupStraight_follows_unbroken (h : PlacesCome task P) (pending : List Path)
    (hpath : path.Written) :
    Follows (fun s t ↦ s = t ∧ s.Tracks task pending) (lookupStraight task depth path)
      (lookupUnbroken task depth path) := by
  induction depth generalizing path pending with
  | zero =>
      intro s t _ r s' hrun
      simp [lookupStraight] at hrun
  | succ depth ih =>
      rintro s _ ⟨rfl, hs⟩ r s' hrun
      obtain ⟨htracks, d, hcomes⟩ := lookupStraight_recurs (depth + 1) pending hs hrun
      refine ⟨s', ?_, rfl, htracks⟩
      rw [lookupUnbroken, unbroken_runIn_iff]
      refine ⟨?_, h.not_missing hpath hcomes⟩
      rw [lookupStraight_runIn] at hrun
      split at hrun
      · cases hrun
      · have hconsults : Consults True Path.Written fun lookup ↦ compute task lookup path :=
          compute_consults task path (task.asks_written hpath.2) (Or.inr trivial)
        have hwork (hnone : s.settled? path = none) (u : Session)
            (hu : (compute task (lookupStraight task depth) path).runIn (s.enter path) =
              some (r, u)) :
            (compute task (lookupUnbroken task depth) path).runIn (s.enter path) = some (r, u) := by
          obtain ⟨_, hu', rfl, -⟩ := hconsults.follows
            (S := fun s t ↦ s = t ∧ s.Tracks task (path :: pending))
            (fun _ _ e h ↦ ⟨h.1 ▸ rfl, h.2.record e⟩) (fun p hp ↦ ih (path :: pending) hp)
            _ _ ⟨rfl, hs.enter hnone⟩ r u hu
          exact hu'
        obtain ⟨_, hvisit, rfl⟩ :=
          visit_beside (R := Eq) rfl rfl rfl (fun hnone _ u hu ↦ ⟨u, hwork hnone u hu, rfl⟩) hrun
        exact hvisit

/-- A document that is resolved without closing a cycle of several visits is
resolved without a visit that a missing reference ends. -/
theorem RunsStraight.unbroken {found : Value} {t : Session} (h : RunsStraight task depth)
    (hrun : (resolveDocument task depth).runIn .empty = some (.ok found, t)) :
    RunsUnbroken task depth := by
  obtain ⟨d, q, -, hcomes⟩ := h.recurs hrun
  have hplaces : PlacesCome task fun _ ↦ True :=
    placesCome_of_comes (fun _ _ _ _ ↦ trivial) (fun _ _ ↦ trivial) hcomes
  obtain ⟨⟨r, u⟩, hu⟩ := h
  rw [resolveRoot_runIn] at hu
  obtain ⟨⟨q', v⟩, hv, -⟩ := Option.map_eq_some_iff.mp hu
  have hconsults : Consults True Path.Written fun lookup ↦
      resolveNode task.lenient lookup task.root (some []) :=
    resolveNode_consults task.root (some [])
      (Value.asks_written task.root (some []) (by simp)) (Or.inr trivial)
  obtain ⟨_, hv', -⟩ := hconsults.follows (S := fun s t ↦ s = t ∧ s.Tracks task [])
    (fun _ _ e h ↦ ⟨h.1 ▸ rfl, h.2.record e⟩)
    (fun p hp ↦ lookupStraight_follows_unbroken hplaces [] hp)
    _ _ ⟨rfl, .empty task⟩ q' v hv
  exact ⟨_, by rw [resolveRoot_runIn, hv']; rfl⟩

end Straight

end LayeredConfig.Resolver
