import LayeredConfig.Proofs.Resolver.Recursion
import LayeredConfig.Proofs.Tree

/-!
# The rules of resolving

With lookups whose outcome does not depend on the session, a node is resolved
by rules on outcomes alone.  Each rule says when a node comes to a result, by
what its parts and the paths it asks for come to.
-/

namespace LayeredConfig.Resolver

theorem comes_pure_iff {α : Type} {a b : α} : Comes (pure a) (.ok b) ↔ a = b :=
  ⟨fun h ↦ Except.ok.inj ((comes_pure a).unique h), fun h ↦ h ▸ comes_pure a⟩

theorem comes_ofExcept {α : Type} (r : Except Fault α) :
    Comes (MonadExcept.ofExcept r : Action α) r := by
  cases r with
  | ok a => exact comes_pure a
  | error fault => exact comes_throw fault

variable {lenient : Bool} {lookup : Path → Action (Option Value)}

/-! ## References -/

/-- A lookup has an outcome where its reference is followed to one. -/
theorem followReference_runs {r : Reference} {s t : Session} {q : Except Fault (Option Value)}
    (h : (followReference lenient lookup r).runIn s = some (q, t)) :
    ∃ led u, (lookup (Path.ofText r.path)).runIn s = some (led, u) := by
  unfold followReference at h
  rcases Action.runIn_bind_cases h with ⟨e, he, -⟩ | ⟨led, u, hled, -⟩
  · exact ⟨.error e, t, he⟩
  · exact ⟨.ok led, u, hled⟩

theorem comes_followReference {r : Reference} {led found : Option Value}
    (hled : Comes (lookup (Path.ofText r.path)) (.ok led)) (h : Answers lenient r led found) :
    Comes (followReference lenient lookup r) (.ok found) := by
  unfold followReference
  refine hled.bind ?_
  cases h with
  | found v => exact (comes_record _).bind (comes_pure _)
  | absent hoptional =>
      simp only [hoptional, if_true]
      exact comes_pure none
  | left hoptional hlenient =>
      simp only [hoptional, hlenient, if_true, if_false, Bool.false_eq_true]
      exact (comes_record _).bind (comes_pure _)

theorem comes_followReference_unresolved {r : Reference} (hoptional : r.optional = false)
    (hled : Comes (lookup (Path.ofText r.path)) (.ok none)) :
    Comes (followReference false lookup r) (.error (.unresolved r.path)) := by
  unfold followReference
  refine hled.bind ?_
  simp only [hoptional, if_false, Bool.false_eq_true]
  exact comes_throw _

/-- The value that overrides a default, by what the path of the override comes
to.  It is the same whether references may stay or not. -/
def chosen : Except Fault (Option Value) → Except Fault (Option Value)
  | .ok (some v) => .ok (if v.isReference then none else some v)
  | .ok none => .ok none
  | .error fault => if fault.yieldsToDefault then .ok none else .error fault

theorem comes_followOverride {r : Reference} {led : Except Fault (Option Value)}
    (h : Comes (lookup (Path.ofText r.path)) led) :
    Comes (followOverride lenient lookup r) (chosen led) := by
  unfold followOverride
  rcases led with fault | _ | v
  · refine (h.bind_error : Comes (followReference lenient lookup r) (.error fault)).outcome.bind ?_
    dsimp only [chosen]
    split
    · exact (comes_record _).bind (comes_pure _)
    · exact comes_throw fault
  · -- A reference to nothing fails or stays; the default stands in either way.
    cases hoptional : r.optional with
    | true =>
        exact (comes_followReference h (.absent hoptional)).outcome.bind (comes_pure none)
    | false =>
        cases lenient with
        | true =>
            exact (comes_followReference h (.left hoptional rfl)).outcome.bind (comes_pure none)
        | false =>
            refine (comes_followReference_unresolved hoptional h).outcome.bind ?_
            exact (comes_record _).bind (comes_pure none)
  · refine (comes_followReference h (.found v)).outcome.bind ?_
    exact comes_pure _

theorem comes_joinFragments {fragments : List Value} {found : Option Value}
    (h : Joined fragments found) : Comes (joinFragments fragments) (.ok found) := by
  unfold joinFragments
  cases h with
  | nothing => exact comes_pure none
  | kept hreference =>
      have hsome : fragments.isEmpty = false := by
        cases fragments with
        | nil => cases hreference
        | cons => rfl
      simp only [hsome, hreference, if_true, if_false, Bool.false_eq_true]
      exact comes_pure _
  | @joined _ v hreference hv =>
      have hsome : fragments.isEmpty = false := by
        cases fragments with
        | nil => cases hv
        | cons => rfl
      simp only [hsome, hreference, hv, if_false, Bool.false_eq_true]
      split
      · exact (comes_record _).bind (comes_pure _)
      · exact comes_pure _

/-! ## Nodes -/

theorem comes_collect {ι α : Type} {resolve : ι → Action (Option α)} {miss : ι → Action Unit}
    (hmiss : ∀ item, Comes (miss item) (.ok ())) {items : List ι} {out : List α}
    (h : Collected (fun item found ↦ Comes (resolve item) (.ok found)) items out) :
    Comes (collect resolve miss items) (.ok out) := by
  induction h with
  | nil => exact comes_pure []
  | @cons item _ found _ hfound _ ih =>
      refine hfound.bind ?_
      cases found with
      | none => exact (hmiss item).bind ih
      | some a => exact ih.bind (comes_pure _)

section Nodes

variable (hlookup : ∀ p, Steady (lookup p))

include hlookup

theorem comes_followReference_iff {r : Reference} {found : Option Value} :
    Comes (followReference lenient lookup r) (.ok found) ↔
      ∃ led, Comes (lookup (Path.ofText r.path)) (.ok led) ∧ Answers lenient r led found := by
  constructor
  · intro h
    obtain ⟨s, hs⟩ := h .empty
    obtain ⟨led, u, hled, -, hanswers⟩ := followReference_ok hs
    exact ⟨led, (hlookup _).comes hled, hanswers⟩
  · rintro ⟨led, hled, hanswers⟩
    exact comes_followReference hled hanswers

theorem comes_followOverride_iff {r : Reference} {used : Option Value} :
    Comes (followOverride lenient lookup r) (.ok used) ↔
      ∃ led, Comes (lookup (Path.ofText r.path)) led ∧ chosen led = .ok used := by
  constructor
  · intro h
    obtain ⟨s, hs⟩ := h .empty
    obtain ⟨_, u, houtcome, -⟩ := runIn_bind_ok_cases hs
    obtain ⟨q, hq, -⟩ := Action.runIn_outcome_cases houtcome
    obtain ⟨led, u', hled⟩ := followReference_runs hq
    have hcomes := (hlookup _).comes hled
    exact ⟨led, hcomes, (comes_followOverride hcomes).unique h⟩
  · rintro ⟨led, hled, hchosen⟩
    rw [← hchosen]
    exact comes_followOverride hled

theorem resolveMember_steady (lenient : Bool) (place : Option Path) (key : Text) (child : Value) :
    Steady (resolveMember lenient lookup place key child) :=
  (resolveMember_consults_any place key child).steady fun p _ ↦ hlookup p

theorem resolveMembers_steady (lenient : Bool) (place : Option Path)
    (members : List (Text × Value)) : Steady (resolveMembers lenient lookup place members) :=
  (resolveMembers_consults_any place members).steady fun p _ ↦ hlookup p

theorem comes_members_iff {place : Option Path} {members out : List (Text × Value)} :
    Comes (resolveMembers lenient lookup place members) (.ok out) ↔
      Collected (Keyed fun entry found ↦
        Comes (resolveMember lenient lookup place entry.1 entry.2) (.ok found)) members out := by
  constructor
  · intro h
    obtain ⟨s, hs⟩ := h .empty
    refine collectedMembers_of_run (I := fun _ ↦ True) (fun _ _ ↦ id) ?_ hs trivial
    intro entry _ _ _ found hfound _
    exact ⟨trivial, (resolveMember_steady hlookup lenient place entry.1 entry.2).comes hfound⟩
  · intro h
    rw [resolveMembers_eq]
    apply comes_collect fun _ ↦ comes_record _
    refine h.imp fun entry _ found _ hkeyed ↦ ?_
    obtain ⟨led, hled, rfl⟩ := hkeyed
    exact hled.bind (comes_pure _)

theorem comes_object_iff {place : Option Path} {members : List (Text × Value)}
    {found : Option Value} :
    Comes (resolveNode lenient lookup (.object members) place) (.ok found) ↔
      ∃ out, Collected (Keyed fun entry found ↦
        Comes (resolveMember lenient lookup place entry.1 entry.2) (.ok found)) members out ∧
          found = some (.object out) := by
  constructor
  · intro h
    obtain ⟨s, hs⟩ := h .empty
    rw [resolveNode] at hs
    obtain ⟨out, u, hout, hpure⟩ := runIn_bind_ok_cases hs
    cases hpure
    have hmembers := (resolveMembers_steady hlookup lenient place members).comes hout
    exact ⟨out, (comes_members_iff hlookup).mp hmembers, rfl⟩
  · rintro ⟨out, hout, rfl⟩
    rw [resolveNode]
    exact ((comes_members_iff hlookup).mpr hout).bind (comes_pure _)

theorem comes_array_iff {place : Option Path} {elements : List Value} {found : Option Value} :
    Comes (resolveNode lenient lookup (.array elements) place) (.ok found) ↔
      ∃ out, Collected (fun v found ↦ Comes (resolveNode lenient lookup v none) (.ok found))
        elements out ∧ found = some (.array out) := by
  constructor
  · intro h
    obtain ⟨s, hs⟩ := h .empty
    rw [resolveNode] at hs
    obtain ⟨out, u, hout, hpure⟩ := runIn_bind_ok_cases hs
    cases hpure
    refine ⟨out, collectedElements_of_run (I := fun _ ↦ True) (fun _ _ ↦ id) ?_ hout trivial, rfl⟩
    intro v _ _ _ found hfound _
    exact ⟨trivial, (resolveNode_steady hlookup lenient v none).comes hfound⟩
  · rintro ⟨out, hout, rfl⟩
    rw [resolveNode, resolveElements_eq]
    exact (comes_collect (fun _ ↦ comes_record _) hout).bind (comes_pure _)

theorem comes_fragments_iff {fragments out : List Value} :
    Comes (resolveFragments lenient lookup fragments) (.ok out) ↔
      Collected (fun v found ↦ Comes (resolveNode lenient lookup v none) (.ok found))
        fragments out := by
  constructor
  · intro h
    obtain ⟨s, hs⟩ := h .empty
    refine collectedFragments_of_run (I := fun _ ↦ True) ?_ hs trivial
    intro v _ _ _ found hfound _
    exact ⟨trivial, (resolveNode_steady hlookup lenient v none).comes hfound⟩
  · intro h
    rw [resolveFragments_eq]
    exact comes_collect (fun _ ↦ comes_pure _) h

theorem comes_concatenation_iff {place : Option Path} {fragments : List Value}
    {found : Option Value} :
    Comes (resolveNode lenient lookup (.concatenation fragments) place) (.ok found) ↔
      ∃ out, Collected (fun v found ↦ Comes (resolveNode lenient lookup v none) (.ok found))
        fragments out ∧ Joined out found := by
  constructor
  · intro h
    obtain ⟨s, hs⟩ := h .empty
    rw [resolveNode] at hs
    obtain ⟨out, u, hout, hjoin⟩ := runIn_bind_ok_cases hs
    have hfragments : Comes (resolveFragments lenient lookup fragments) (.ok out) :=
      ((resolveFragments_consults_any fragments).steady fun p _ ↦ hlookup p).comes hout
    exact ⟨out, (comes_fragments_iff hlookup).mp hfragments, (joinFragments_ok hjoin).2⟩
  · rintro ⟨out, hout, hjoined⟩
    rw [resolveNode]
    exact ((comes_fragments_iff hlookup).mpr hout).bind (comes_joinFragments hjoined)

theorem comes_alternative_iff {place : Option Path} {default : Value} {override : Reference}
    {found : Option Value} :
    Comes (resolveNode lenient lookup (.alternative default override) place) (.ok found) ↔
      ∃ led, Comes (lookup (Path.ofText override.path)) led ∧
        ((∃ v, chosen led = .ok (some v) ∧ found = some v) ∨
          (chosen led = .ok none ∧
            Comes (resolveNode lenient lookup default none) (.ok found))) := by
  constructor
  · intro h
    obtain ⟨s, hs⟩ := h .empty
    rw [resolveNode] at hs
    obtain ⟨used, u, hused, hrest⟩ := runIn_bind_ok_cases hs
    have hsteady : Steady (followOverride lenient lookup override) := by
      have hconsults : Consults True (fun _ ↦ True) fun lookup ↦
          followOverride lenient lookup override := followOverride_consults trivial override trivial
      exact hconsults.steady fun p _ ↦ hlookup p
    obtain ⟨led, hled, hchosen⟩ := (comes_followOverride_iff hlookup).mp (hsteady.comes hused)
    refine ⟨led, hled, ?_⟩
    cases used with
    | some v =>
        cases hrest
        exact Or.inl ⟨v, hchosen, rfl⟩
    | none =>
        exact Or.inr ⟨hchosen, (resolveNode_steady hlookup lenient default none).comes hrest⟩
  · rintro ⟨led, hled, ⟨v, hchosen, rfl⟩ | ⟨hchosen, hdefault⟩⟩
    · rw [resolveNode]
      exact ((comes_followOverride_iff hlookup).mpr ⟨led, hled, hchosen⟩).bind (comes_pure _)
    · rw [resolveNode]
      exact ((comes_followOverride_iff hlookup).mpr ⟨led, hled, hchosen⟩).bind hdefault

end Nodes

theorem comes_scalar_iff {place : Option Path} {v : Value} (hv : v.isScalar = true)
    {found : Option Value} :
    Comes (resolveNode lenient lookup v place) (.ok found) ↔ found = some v := by
  rw [resolveNode_scalar hv, comes_pure_iff, eq_comm]

/-! ## Visits -/

section Visits

variable {task : Task} {path : Path} {r : Except Fault (Option Value)}

theorem comes_compute_iff (hlookup : ∀ p, Steady (lookup p)) :
    Comes (compute task lookup path) r ↔
      match task.demand path with
      | .absent => r = .ok none
      | .node v => Comes (resolveNode task.lenient lookup v (some path)) r
      | .redirect target => Comes (lookup target) r
      | .blocked b => r = .error (.traversal ⟨Path.text path, Path.text b.place, b.kind⟩)
      | .through place rest =>
        ∃ led, Comes (lookup place) led ∧ r = led.bind (beyond path place rest) := by
  rw [compute_eq]
  cases task.demand path with
  | absent => exact ⟨fun h ↦ h.unique (comes_pure none), fun h ↦ h ▸ comes_pure none⟩
  | node | redirect => exact Iff.rfl
  | blocked b => exact ⟨fun h ↦ h.unique (comes_throw _), fun h ↦ h ▸ comes_throw _⟩
  | through place rest =>
      have hgiven : ∀ led, Comes (lookup place) led →
          Comes (lookup place >>= fun led ↦ MonadExcept.ofExcept (beyond path place rest led))
            (led.bind (beyond path place rest)) := by
        rintro (fault | led) hled
        · exact hled.bind_error
        · exact hled.bind (comes_ofExcept _)
      constructor
      · intro h
        obtain ⟨s, hs⟩ := h .empty
        rcases Action.runIn_bind_cases hs with ⟨fault, hfault, rfl⟩ | ⟨led, u, hled, -⟩
        · exact ⟨.error fault, (hlookup place).comes hfault, rfl⟩
        · have hcomes := (hlookup place).comes hled
          exact ⟨.ok led, hcomes, h.unique (hgiven _ hcomes)⟩
      · rintro ⟨led, hled, rfl⟩
        exact hgiven led hled

end Visits

end LayeredConfig.Resolver
