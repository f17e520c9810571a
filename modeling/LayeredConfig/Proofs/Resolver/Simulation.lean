import LayeredConfig.Proofs.Resolver.Consultation

/-!
# Properties carried from lookups to actions

Three properties of actions pass from the lookups to whatever consults them:
that one action follows another with the same outcome, that every outcome
moves the session along a preorder, and that there is an outcome at all.
-/

namespace LayeredConfig.Resolver

variable {α β : Type} {catches : Prop} {asked : Path → Prop}
  {act : (Path → Action (Option Value)) → Action α}

/-- Whenever the first action ends, the second one ends with the same outcome,
and the sessions stay related. -/
def Follows (S : Session → Session → Prop) (x y : Action α) : Prop :=
  ∀ s t, S s t → ∀ r s', x.runIn s = some (r, s') → ∃ t', y.runIn t = some (r, t') ∧ S s' t'

/-- Every outcome leaves a session that is related to the one before. -/
def Moves (G : Session → Session → Prop) (x : Action α) : Prop :=
  ∀ s r t, x.runIn s = some (r, t) → G s t

/-- There is an outcome from every session of a kind, and it leaves one of the
same kind. -/
def Ends (I : Session → Prop) (x : Action α) : Prop :=
  ∀ s, I s → ∃ r t, x.runIn s = some (r, t) ∧ I t

namespace Follows

variable {S : Session → Session → Prop}

theorem bind {x y : Action α} {f g : α → Action β} (hx : Follows S x y)
    (hf : ∀ a, Follows S (f a) (g a)) : Follows S (x >>= f) (y >>= g) := by
  intro s t hst r s' hrun
  rcases Action.runIn_bind_cases hrun with ⟨e, hxe, rfl⟩ | ⟨a, u, hxa, hfa⟩
  · obtain ⟨t', hye, ht'⟩ := hx s t hst _ _ hxe
    exact ⟨t', Action.runIn_bind_error hye, ht'⟩
  · obtain ⟨u', hya, hu'⟩ := hx s t hst _ _ hxa
    obtain ⟨t', hga, ht'⟩ := hf a u u' hu' _ _ hfa
    exact ⟨t', (Action.runIn_bind_ok hya).trans hga, ht'⟩

theorem outcome {x y : Action α} (hx : Follows S x y) :
    Follows S (Action.outcome x) (Action.outcome y) := by
  intro s t hst r s' hrun
  obtain ⟨q, hxq, rfl⟩ := Action.runIn_outcome_cases hrun
  obtain ⟨t', hyq, ht'⟩ := hx s t hst _ _ hxq
  exact ⟨t', by rw [Action.runIn_outcome, hyq]; rfl, ht'⟩

end Follows

/-- Lookups that follow each other make actions that follow each other. -/
theorem Consults.follows {S : Session → Session → Prop} {l₁ l₂ : Path → Action (Option Value)}
    (h : Consults catches asked act)
    (hrecord : ∀ s t e, S s t → S (s.record e) (t.record e))
    (hlookup : ∀ p, asked p → Follows S (l₁ p) (l₂ p)) : Follows S (act l₁) (act l₂) := by
  induction h with
  | pure a =>
      rintro s t hst r s' hrun
      cases hrun
      exact ⟨t, rfl, hst⟩
  | throw f _ =>
      rintro s t hst r s' hrun
      cases hrun
      exact ⟨t, rfl, hst⟩
  | record e =>
      rintro s t hst r s' hrun
      cases hrun
      exact ⟨t.record e, rfl, hrecord s t e hst⟩
  | lookup hp => exact hlookup _ hp
  | bind _ _ ihx ihf => exact ihx.bind ihf
  | outcome _ _ ihx => exact ihx.outcome

/-- Lookups that move the session along a preorder make actions that do. -/
theorem Consults.moves {G : Session → Session → Prop} {l : Path → Action (Option Value)}
    (h : Consults catches asked act) (hrefl : ∀ s, G s s)
    (htrans : ∀ s t u, G s t → G t u → G s u) (hrecord : ∀ s e, G s (s.record e))
    (hlookup : ∀ p, asked p → Moves G (l p)) : Moves G (act l) := by
  intro s₀ r t hrun
  -- The diagonal of a simulation, restricted to what `s₀` may have become.
  have hfollows : Follows (fun s t ↦ s = t ∧ G s₀ s) (act l) (act l) := by
    refine h.follows ?_ ?_
    · rintro s _ e ⟨rfl, hs⟩
      exact ⟨rfl, htrans _ _ _ hs (hrecord s e)⟩
    · rintro p hp s _ ⟨rfl, hs⟩ q s' hq
      exact ⟨s', hq, rfl, htrans _ _ _ hs (hlookup p hp s q s' hq)⟩
  obtain ⟨_, _, _, ht⟩ := hfollows s₀ s₀ ⟨rfl, hrefl s₀⟩ r t hrun
  exact ht

/-- Lookups that end make actions that end. -/
theorem Consults.ends {I : Session → Prop} {l : Path → Action (Option Value)}
    (h : Consults catches asked act) (hrecord : ∀ s e, I s → I (s.record e))
    (hlookup : ∀ p, asked p → Ends I (l p)) : Ends I (act l) := by
  induction h with
  | pure a => exact fun s hs ↦ ⟨.ok a, s, rfl, hs⟩
  | throw f _ => exact fun s hs ↦ ⟨.error f, s, rfl, hs⟩
  | record e => exact fun s hs ↦ ⟨.ok (), s.record e, rfl, hrecord s e hs⟩
  | lookup hp => exact hlookup _ hp
  | bind _ _ ihx ihf =>
      intro s hs
      obtain ⟨q, t, hq, ht⟩ := ihx s hs
      cases q with
      | error e => exact ⟨.error e, t, Action.runIn_bind_error hq, ht⟩
      | ok a =>
          obtain ⟨r, u, hr, hu⟩ := ihf a t ht
          exact ⟨r, u, (Action.runIn_bind_ok hq).trans hr, hu⟩
  | outcome _ _ ihx =>
      intro s hs
      obtain ⟨q, t, hq, ht⟩ := ihx s hs
      exact ⟨.ok q, t, by rw [Action.runIn_outcome, hq]; rfl, ht⟩

/-! ## Visits -/

/-- Where two sessions hold the same of a path and have the same paths pending, their
visits of it go side by side if the work does. -/
theorem visit_beside {R : Session → Session → Prop} {path : Path} {x y : Action (Option Value)}
    {s t s' : Session} {r : Except Fault (Option Value)} (hst : R s t)
    (hsettled : t.settled? path = s.settled? path) (hpending : t.pending = s.pending)
    (hwork : s.settled? path = none → path ∉ s.pending → ∀ u,
      x.runIn (s.enter path) = some (r, u) →
        ∃ u', y.runIn (t.enter path) = some (r, u') ∧ R (u.close path r) (u'.close path r))
    (hrun : (visit path x).runIn s = some (r, s')) :
    ∃ t', (visit path y).runIn t = some (r, t') ∧ R s' t' := by
  cases hs : s.settled? path with
  | some found =>
      rw [visit_of_settled hs] at hrun
      cases hrun
      exact ⟨t, visit_of_settled (hsettled.trans hs) y, hst⟩
  | none =>
      rcases visit_cases hrun with ⟨_, hsome, -, -⟩ | ⟨hmem, rfl, rfl⟩ |
        ⟨-, hnotin, u, hu, rfl⟩
      · cases hs.symm.trans hsome
      · refine ⟨t, ?_, hst⟩
        rw [Session.chainFrom, ← hpending]
        exact visit_of_pending (hsettled.trans hs) (hpending ▸ hmem) y
      · obtain ⟨u', hu', hclose⟩ := hwork hs hnotin u hu
        exact ⟨_, visit_of_fresh (hsettled.trans hs) (hpending ▸ hnotin) hu', hclose⟩

theorem visit_follows_self {x y : Action (Option Value)} (path : Path)
    (h : Follows Eq x y) : Follows Eq (visit path x) (visit path y) := by
  rintro s _ rfl r s' hrun
  refine visit_beside rfl rfl rfl (fun _ _ u hu ↦ ?_) hrun
  obtain ⟨_, hy, rfl⟩ := h _ _ rfl _ _ hu
  exact ⟨u, hy, rfl⟩

/-! ## Depth -/

/-- A greater depth changes no outcome. -/
theorem lookupWithin_mono (task : Task) {depth depth' : Nat} (hdepth : depth ≤ depth')
    (path : Path) : Follows Eq (lookupWithin task depth path) (lookupWithin task depth' path) := by
  induction depth generalizing depth' path with
  | zero =>
      intro s t _ r s' hrun
      simp [lookupWithin] at hrun
  | succ depth ih =>
      obtain ⟨deeper, rfl⟩ : ∃ k, depth' = k + 1 := ⟨depth' - 1, by omega⟩
      refine visit_follows_self path ?_
      refine (compute_consults_any task path).follows ?_ fun p _ ↦ ih (by omega) p
      rintro s _ e rfl
      rfl

theorem lookupWithin_eq_of_le {task : Task} {depth depth' : Nat} (hdepth : depth ≤ depth')
    {path : Path} {s t : Session} {r : Except Fault (Option Value)}
    (h : (lookupWithin task depth path).runIn s = some (r, t)) :
    (lookupWithin task depth' path).runIn s = some (r, t) := by
  obtain ⟨_, hrun, rfl⟩ := lookupWithin_mono task hdepth path s s rfl r t h
  exact hrun

/-! ## The root -/

/-- What is left of a session after its document is resolved. -/
def Session.finish {α : Type} (s : Session) : Except Fault α → Session
  | .ok _ => s.record (.documentResolved s.settled.length)
  | .error _ => s

theorem resolveRoot_runIn (task : Task) (lookup : Path → Action (Option Value)) (s : Session) :
    (resolveRoot task lookup).runIn s =
      ((resolveNode task.lenient lookup task.root (some [])).runIn s).map fun out ↦
        (out.1.map (·.getD .null), out.2.finish out.1) := by
  unfold resolveRoot
  rw [Action.runIn_bind]
  cases (resolveNode task.lenient lookup task.root (some [])).runIn s with
  | none => rfl
  | some out =>
      obtain ⟨r, t⟩ := out
      cases r <;> rfl

end LayeredConfig.Resolver
