import LayeredConfig.Proofs.Resolver.Amount

/-!
# Values with an alternative

The reference of an alternative is followed first.  A value that is no reference
is used; a value that is one, the absence of a value, and every failure but one
leave the node to its default.  The failure to join fragments is the one that
is passed on.
-/

namespace LayeredConfig.Resolver

section Override

variable {lenient : Bool} {lookup : Path → Action (Option Value)} {r : Reference}
  {s t : Session}

theorem followOverride_of_value {v : Value} (hv : v.isReference = false)
    (h : (followReference lenient lookup r).runIn s = some (.ok (some v), t)) :
    (followOverride lenient lookup r).runIn s = some (.ok (some v), t) := by
  have houtcome : (Action.outcome (followReference lenient lookup r)).runIn s =
      some (.ok (.ok (some v)), t) := by rw [Action.runIn_outcome, h]; rfl
  rw [followOverride, Action.runIn_bind_ok houtcome]
  simp [hv]

/-- What leaves a node to its default: nothing, a reference, and a failure that
yields. -/
def LeavesDefault : Except Fault (Option Value) → Prop
  | .ok none => True
  | .ok (some v) => v.isReference = true
  | .error fault => fault.yieldsToDefault = true

theorem followOverride_of_leaves {result : Except Fault (Option Value)}
    (hleaves : LeavesDefault result)
    (h : (followReference lenient lookup r).runIn s = some (result, t)) :
    ∃ u, t.Logged u ∧ (followOverride lenient lookup r).runIn s = some (.ok none, u) := by
  have houtcome : (Action.outcome (followReference lenient lookup r)).runIn s =
      some (.ok result, t) := by rw [Action.runIn_outcome, h]; rfl
  rw [followOverride, Action.runIn_bind_ok houtcome]
  rcases result with fault | _ | v
  · have hyields : fault.yieldsToDefault = true := hleaves
    dsimp only
    rw [if_pos hyields, Action.runIn_bind_ok (Action.runIn_record _ t)]
    exact ⟨_, Or.inr ⟨_, rfl⟩, rfl⟩
  · exact ⟨t, Or.inl rfl, rfl⟩
  · have hreference : v.isReference = true := hleaves
    simp only [hreference, if_true]
    exact ⟨t, Or.inl rfl, rfl⟩

theorem followOverride_of_unjoinable {f : Fragments.Fault}
    (h : (followReference lenient lookup r).runIn s = some (.error (.unjoinable f), t)) :
    (followOverride lenient lookup r).runIn s = some (.error (.unjoinable f), t) := by
  have houtcome : (Action.outcome (followReference lenient lookup r)).runIn s =
      some (.ok (.error (.unjoinable f)), t) := by rw [Action.runIn_outcome, h]; rfl
  rw [followOverride, Action.runIn_bind_ok houtcome]
  rfl

end Override

theorem Session.Logged.pending_eq {s t : Session} (h : s.Logged t) : t.pending = s.pending :=
  h.lift (G := fun s t ↦ t.pending = s.pending) (fun _ ↦ rfl) fun _ _ ↦ rfl

/-- A value with an alternative, by what its reference comes to. -/
theorem resolveNode_alternative (task : Task) (depth : Nat) (default : Value)
    (override : Reference) (place : Option Path) {s t : Session}
    {result : Except Fault (Option Value)}
    (h : (followReference task.lenient (lookupWithin task depth) override).runIn s =
      some (result, t)) :
    t.pending = s.pending ∧
    (∀ v, result = .ok (some v) → v.isReference = false →
      (resolveNode task.lenient (lookupWithin task depth) (.alternative default override)
        place).runIn s = some (.ok (some v), t)) ∧
    (LeavesDefault result → ∃ u, u.pending = s.pending ∧ u.settled = t.settled ∧
      (resolveNode task.lenient (lookupWithin task depth) (.alternative default override)
        place).runIn s =
          (resolveNode task.lenient (lookupWithin task depth) default none).runIn u) ∧
    ∀ f, result = .error (.unjoinable f) →
      (resolveNode task.lenient (lookupWithin task depth) (.alternative default override)
        place).runIn s = some (.error (.unjoinable f), t) := by
  have hconsults : Consults True (fun _ ↦ True) fun lookup ↦
      followReference task.lenient lookup override := followReference_consults override trivial
  have hpending : t.pending = s.pending := (resolve_extends _ hconsults s result t h).pending
  refine ⟨hpending, ?_, ?_, ?_⟩
  · rintro v rfl hv
    rw [resolveNode, Action.runIn_bind_ok (followOverride_of_value hv h)]
    rfl
  · intro hleaves
    obtain ⟨u, hlogged, hu⟩ := followOverride_of_leaves hleaves h
    refine ⟨u, hlogged.pending_eq.trans hpending, ?_, ?_⟩
    · exact hlogged.lift (G := fun t u ↦ u.settled = t.settled) (fun _ ↦ rfl) fun _ _ ↦ rfl
    · rw [resolveNode, Action.runIn_bind_ok hu]
  · rintro f rfl
    rw [resolveNode, Action.runIn_bind_error (followOverride_of_unjoinable h)]

/-- A member whose override is a text beside an object. -/
def misjoined : Members Text Value :=
  [(⟨"o", false⟩, .object [(⟨"a", false⟩, .int 1)]),
    (⟨"s", false⟩, .concatenation [.substitution ⟨"o", false⟩, .string ⟨"x", false⟩]),
    (⟨"v", false⟩, .alternative (.int 1) ⟨"s", false⟩)]

theorem resolveNode_alternative_misjoined :
    ∃ t, (resolveNode false (lookupWithin ⟨.object misjoined, false⟩ 3)
      (.alternative (.int 1) ⟨"s", false⟩) none).runIn .empty =
        some (.error (.unjoinable (.mixed "x" .string)), t) := by
  obtain ⟨t, ht⟩ : ∃ t, (followReference false (lookupWithin ⟨.object misjoined, false⟩ 3)
      ⟨"s", false⟩).runIn .empty = some (.error (.unjoinable (.mixed "x" .string)), t) := ⟨_, rfl⟩
  obtain ⟨-, -, -, hpassed⟩ :=
    resolveNode_alternative ⟨.object misjoined, false⟩ 3 (.int 1) ⟨"s", false⟩ none ht
  exact ⟨t, hpassed _ rfl⟩

/-- The default of an alternative does not stand in for fragments that cannot
be joined. -/
theorem resolvePath_misjoined :
    ∃ t, (resolvePath ⟨.object misjoined, false⟩ 4 "v").runIn .empty =
      some (.error (.unjoinable (.mixed "x" .string)), t) := ⟨_, rfl⟩

end LayeredConfig.Resolver
