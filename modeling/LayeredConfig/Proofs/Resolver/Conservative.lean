import LayeredConfig.Proofs.Resolver.Unbroken

/-!
# From strict to lenient

Lenient resolving leaves a required reference in place where strict resolving fails.
In a run that no missing reference breaks off, the failure is caught by the
alternative that holds the reference, and such an alternative is not used where the
reference is left.  The two runs then go side by side, and only their logs differ.
-/

namespace LayeredConfig.Resolver

/-- The sessions differ in what is logged at most. -/
structure Session.Matches (s t : Session) : Prop where
  settled : s.settled = t.settled
  pending : s.pending = t.pending

namespace Session.Matches

variable {s t : Session}

theorem refl (s : Session) : s.Matches s := ⟨rfl, rfl⟩

theorem record (h : s.Matches t) (e e' : Event) : (s.record e).Matches (t.record e') :=
  ⟨h.settled, h.pending⟩

theorem enter (h : s.Matches t) (path : Path) : (s.enter path).Matches (t.enter path) :=
  ⟨h.settled, congrArg (path :: ·) h.pending⟩

theorem close (h : s.Matches t) (path : Path) (r : Except Fault (Option Value)) :
    (s.close path r).Matches (t.close path r) := by
  have hpending : (s.close path r).pending = (t.close path r).pending := by simp [h.pending]
  cases r with
  | error fault => exact ⟨h.settled, hpending⟩
  | ok found => exact ⟨congrArg ((path, found) :: ·) h.settled, hpending⟩

end Session.Matches

section Kept

variable {α : Type} {strict lenient : Path → Action (Option Value)}
  (hlookup : ∀ p, Follows Session.Matches (strict p) (lenient p))
  (hfound : ∀ p s m t, (strict p).runIn s ≠ some (.error (.unresolved m), t))

theorem follows_self {x : Action α} (h : Consults True (fun _ ↦ False) fun _ ↦ x) :
    Follows Session.Matches x x := by
  have hnone : ∀ p : Path, False → Follows Session.Matches
      (Action.exhausted : Action (Option Value)) Action.exhausted := nofun
  exact h.follows (fun _ _ e h ↦ h.record e e) hnone

theorem collect_follows_unbroken {ι : Type} {resolve resolve' : ι → Action (Option α)}
    {miss : ι → Action Unit} {items : List ι}
    (h : ∀ item ∈ items, Follows Session.Matches (unbroken (resolve item)) (resolve' item))
    (hmiss : ∀ item, Follows Session.Matches (miss item) (miss item)) :
    Follows Session.Matches (unbroken (collect resolve miss items))
      (collect resolve' miss items) := by
  induction items with
  | nil => exact unbroken_follows (follows_self (.pure _))
  | cons item rest ih =>
      rw [List.forall_mem_cons] at h
      refine unbroken_bind_follows h.1 fun found ↦ ?_
      cases found with
      | some a =>
          exact unbroken_bind_follows (ih h.2) fun _ ↦ unbroken_follows (follows_self (.pure _))
      | none => exact unbroken_bind_follows (unbroken_follows (hmiss item)) fun _ ↦ ih h.2

include hlookup

theorem followReference_follows_unbroken (r : Reference) :
    Follows Session.Matches (unbroken (followReference false strict r))
      (followReference true lenient r) := by
  unfold followReference
  refine unbroken_bind_follows (unbroken_follows (hlookup _)) fun found ↦ ?_
  cases found with
  | some v => exact unbroken_follows (follows_self (.bind (.record _) fun _ ↦ .pure _))
  | none =>
      dsimp only
      by_cases hoptional : r.optional = true
      · rw [if_pos hoptional, if_pos hoptional]
        exact unbroken_follows (follows_self (.pure _))
      · rw [if_neg hoptional, if_neg hoptional]
        exact unbroken_throw_follows _

include hfound

omit hlookup in
theorem followReference_missing {r : Reference} {m : String} {s u : Session}
    (h : (followReference false strict r).runIn s = some (.error (.unresolved m), u)) :
    r.optional = false ∧ (strict (Path.ofText r.path)).runIn s = some (.ok none, u) := by
  unfold followReference at h
  rcases Action.runIn_bind_cases h with ⟨fault, hfault, ⟨⟩⟩ | ⟨found, w, hlookup, hrest⟩
  · exact absurd hfault (hfound _ _ _ _)
  · cases found with
    | some v => cases hrest
    | none =>
        dsimp only at hrest
        by_cases hoptional : r.optional = true
        · rw [if_pos hoptional] at hrest
          cases hrest
        · rw [if_neg hoptional] at hrest
          cases hrest
          exact ⟨Bool.not_eq_true _ ▸ hoptional, hlookup⟩

omit hlookup hfound in
theorem followReference_left {r : Reference} (hrequired : r.optional = false) {t u : Session}
    (h : (lenient (Path.ofText r.path)).runIn t = some (.ok none, u)) :
    (followReference true lenient r).runIn t =
      some (.ok (some (.substitution r)), u.record (.leftUnresolved r)) := by
  unfold followReference
  rw [Action.runIn_bind_ok h]
  dsimp only
  rw [if_neg (by simp [hrequired]), if_pos rfl]
  rfl

/-- An override whose own path leads nowhere is not used, whether the failure is
caught or the reference is left. -/
theorem followOverride_follows (r : Reference) :
    Follows Session.Matches (followOverride false strict r) (followOverride true lenient r) := by
  intro s t hst q s' hrun
  unfold followOverride at hrun ⊢
  rcases Action.runIn_bind_cases hrun with ⟨fault, hfault, -⟩ | ⟨result, u, hresult, hrest⟩
  · obtain ⟨_, -, hok⟩ := Action.runIn_outcome_cases hfault
    cases hok
  · obtain ⟨_, hfollow, ⟨⟩⟩ := Action.runIn_outcome_cases hresult
    by_cases hmissing : ∃ m, result = .error (.unresolved m)
    · obtain ⟨m, rfl⟩ := hmissing
      obtain ⟨hrequired, hnone⟩ := followReference_missing hfound hfollow
      obtain ⟨u', hu', hmatches⟩ := hlookup _ s t hst _ _ hnone
      have hleft := followReference_left hrequired hu'
      cases hrest
      refine ⟨u'.record (.leftUnresolved r), ?_, hmatches.record _ _⟩
      rw [Action.runIn_bind_ok (by rw [Action.runIn_outcome, hleft]; rfl)]
      rfl
    · obtain ⟨u', hu', hmatches⟩ := followReference_follows_unbroken hlookup r s t hst result u
        (unbroken_runIn_iff.mpr ⟨hfollow, fun m hm ↦ hmissing ⟨m, hm⟩⟩)
      rw [Action.runIn_bind_ok (by rw [Action.runIn_outcome, hu']; rfl)]
      refine follows_self ?_ u u' hmatches q s' hrest
      rcases result with fault | _ | v
      · dsimp only
        split
        · exact .bind (.record _) fun _ ↦ .pure _
        · exact .throw _ (by cases fault <;> simp_all [Fault.yieldsToDefault, Fault.isCyclic])
      · exact .pure _
      · exact .pure _

/-- What a node comes to where references may not stay, it comes to where they may. -/
theorem resolveNode_follows_unbroken (v : Value) (place : Option Path) :
    Follows Session.Matches (unbroken (resolveNode false strict v place))
      (resolveNode true lenient v place) := by
  induction v using Value.tree_induction generalizing place with
  | object members ih =>
      rw [resolveNode, resolveNode, resolveMembers_eq, resolveMembers_eq]
      refine unbroken_bind_follows (collect_follows_unbroken (fun entry hentry ↦ ?_)
        fun _ ↦ follows_self (.record _)) fun _ ↦ unbroken_follows (follows_self (.pure _))
      refine unbroken_bind_follows ?_ fun _ ↦ unbroken_follows (follows_self (.pure _))
      rcases named_or_inPlace place entry.1.content with ⟨path, rfl, hkey⟩ | hinplace
      · rw [resolveMember_plain _ _ hkey, resolveMember_plain _ _ hkey]
        exact unbroken_follows (hlookup _)
      · rw [resolveMember_inPlace _ _ hinplace, resolveMember_inPlace _ _ hinplace]
        exact ih entry hentry none
  | array elements ih =>
      rw [resolveNode, resolveNode, resolveElements_eq, resolveElements_eq]
      exact unbroken_bind_follows (collect_follows_unbroken (fun v hv ↦ ih v hv none)
        fun _ ↦ follows_self (.record _)) fun _ ↦ unbroken_follows (follows_self (.pure _))
  | substitution r =>
      rw [resolveNode, resolveNode]
      exact followReference_follows_unbroken hlookup r
  | concatenation fragments ih =>
      rw [resolveNode, resolveNode, resolveFragments_eq, resolveFragments_eq]
      exact unbroken_bind_follows (collect_follows_unbroken (fun v hv ↦ ih v hv none)
        fun _ ↦ follows_self (.pure _)) fun out ↦
          unbroken_follows (follows_self (joinFragments_consults out))
  | alternative default override ih =>
      rw [resolveNode, resolveNode]
      refine unbroken_bind_follows (unbroken_follows (followOverride_follows hlookup hfound _))
        fun used ↦ ?_
      cases used with
      | some v => exact unbroken_follows (follows_self (.pure _))
      | none => exact ih none
  | scalar v hscalar =>
      rw [resolveNode_scalar hscalar, resolveNode_scalar hscalar]
      exact unbroken_follows (follows_self (.pure _))

theorem compute_follows_unbroken (root : Value) (path : Path) :
    Follows Session.Matches (unbroken (compute ⟨root, false⟩ strict path))
      (compute ⟨root, true⟩ lenient path) := by
  have hdemand : Task.demand ⟨root, true⟩ path = Task.demand ⟨root, false⟩ path := rfl
  rw [compute_eq, compute_eq, hdemand]
  cases Task.demand ⟨root, false⟩ path with
  | absent => exact unbroken_follows (follows_self (.pure _))
  | node v => exact resolveNode_follows_unbroken hlookup hfound v (some path)
  | redirect target => exact unbroken_follows (hlookup target)
  | blocked b => exact unbroken_follows (follows_self (.throw _ rfl))
  | through place rest =>
      refine unbroken_bind_follows (unbroken_follows (hlookup place)) fun led ↦ ?_
      apply unbroken_follows
      rintro s t hst r s' hrun
      rw [runIn_ofExcept] at hrun ⊢
      cases hrun
      exact ⟨t, rfl, hst⟩

end Kept

theorem visit_follows_unbroken {path : Path} {x y : Action (Option Value)}
    (h : Follows Session.Matches (unbroken x) y) :
    Follows Session.Matches (unbroken (visit path x)) (visit path y) := by
  intro s t hst r s' hrun
  obtain ⟨hrun, hr⟩ := unbroken_runIn_iff.mp hrun
  have hsettled : t.settled? path = s.settled? path := by
    rw [Session.settled?, ← hst.settled, Session.settled?]
  refine visit_beside hst hsettled hst.pending.symm (fun _ _ u hu ↦ ?_) hrun
  obtain ⟨u', hu', hmatches⟩ := h _ _ (hst.enter path) r u (unbroken_runIn_iff.mpr ⟨hu, hr⟩)
  exact ⟨u', hu', hmatches.close path r⟩

/-- A lookup that no missing reference breaks off comes to the same where references may
stay. -/
theorem lookupUnbroken_follows_lenient (root : Value) {depth depth' : Nat} (hdepth : depth ≤ depth')
    (path : Path) : Follows Session.Matches (lookupUnbroken ⟨root, false⟩ depth path)
      (lookupWithin ⟨root, true⟩ depth' path) := by
  induction depth generalizing depth' path with
  | zero =>
      intro s t _ r s' hrun
      simp [lookupUnbroken] at hrun
  | succ depth ih =>
      obtain ⟨deeper, rfl⟩ : ∃ k, depth' = k + 1 := ⟨depth' - 1, by omega⟩
      exact visit_follows_unbroken (compute_follows_unbroken (fun p ↦ ih (by omega) p)
        (fun _ _ m _ ↦ lookupUnbroken_not_missing m) root path)

/-- What strict resolving gives with no visit ended by a missing reference, lenient
resolving gives, and it settles the same. -/
theorem resolveDocument_conservative {root found : Value} {depth : Nat} {t : Session}
    (hrun : (resolveDocument ⟨root, false⟩ depth).runIn .empty = some (.ok found, t))
    (hunbroken : RunsUnbroken ⟨root, false⟩ depth) :
    ∀ depth', depth ≤ depth' →
      ∃ u, (resolveDocument ⟨root, true⟩ depth').runIn .empty = some (.ok found, u) ∧
        u.settled = t.settled := by
  intro depth' hdepth
  obtain ⟨⟨r, w⟩, hw⟩ := hunbroken
  rw [resolveRoot_runIn] at hw
  obtain ⟨⟨q, v⟩, hv, -⟩ := Option.map_eq_some_iff.mp hw
  have hsame : Follows Eq (resolveNode false (lookupUnbroken ⟨root, false⟩ depth) root (some []))
      (resolveNode false (lookupWithin ⟨root, false⟩ depth) root (some [])) :=
    (resolveNode_consults_any root (some [])).follows (fun _ _ _ h ↦ by rw [h])
      fun p _ ↦ lookupUnbroken_follows ⟨root, false⟩ depth p
  obtain ⟨_, hstrict, rfl⟩ := hsame _ _ rfl q v hv
  rw [resolveDocument, resolveRoot_runIn, hstrict, Option.map_some, Option.some.injEq,
    Prod.mk.injEq] at hrun
  obtain ⟨hfound, rfl⟩ := hrun
  cases q with
  | error fault => cases hfound
  | ok led =>
      obtain ⟨u, hu, hmatches⟩ := resolveNode_follows_unbroken
        (fun p ↦ lookupUnbroken_follows_lenient root hdepth p)
        (fun _ _ m _ ↦ lookupUnbroken_not_missing m) root (some []) _ _ (.refl .empty) _ _
        (unbroken_runIn_iff.mpr ⟨hv, by simp⟩)
      refine ⟨u.finish (.ok led), ?_, hmatches.settled.symm⟩
      rw [resolveDocument, resolveRoot_runIn, hu, ← hfound]
      rfl

/-- Two members that override each other, and one whose override leads nowhere. -/
def mutualOverrides : Members Text Value :=
  [(⟨"a", false⟩, .alternative (.int 1) ⟨"b", false⟩),
    (⟨"b", false⟩, .alternative (.int 2) ⟨"a", false⟩),
    (⟨"c", false⟩, .alternative (.substitution ⟨"a", false⟩) ⟨"missing", false⟩)]

theorem resolveDocument_conservative_mutualOverrides :
    ∃ found t, (resolveDocument ⟨.object mutualOverrides, false⟩ 4).runIn .empty =
        some (.ok found, t) ∧
      RunsUnbroken ⟨.object mutualOverrides, false⟩ 4 ∧ ∀ depth, 4 ≤ depth →
        ∃ u, (resolveDocument ⟨.object mutualOverrides, true⟩ depth).runIn .empty =
          some (.ok found, u) ∧ u.settled = t.settled := by
  obtain ⟨found, t, hrun⟩ : ∃ found t,
      (resolveDocument ⟨.object mutualOverrides, false⟩ 4).runIn .empty = some (.ok found, t) :=
    ⟨_, _, rfl⟩
  have hunbroken : RunsUnbroken ⟨.object mutualOverrides, false⟩ 4 := ⟨_, rfl⟩
  exact ⟨found, t, hrun, hunbroken, resolveDocument_conservative hrun hunbroken⟩

/-- Two members that override each other, one with a missing default. -/
def eachOther : Members Text Value :=
  [(⟨"a", false⟩, .alternative (.int 1) ⟨"b", false⟩),
    (⟨"b", false⟩, .alternative (.substitution ⟨"missing", false⟩) ⟨"a", false⟩)]

/-- Where the reference may stay, it is settled while the cycle is open. -/
theorem resolveDocument_lenient_eachOther : ¬ ∀ root found : Value, ∀ depth t,
    (resolveDocument ⟨root, false⟩ depth).runIn .empty = some (.ok found, t) →
      ∃ enough, ∀ depth, enough ≤ depth →
        ∃ u, (resolveDocument ⟨root, true⟩ depth).runIn .empty = some (.ok found, u) := by
  intro hall
  obtain ⟨t, ht⟩ : ∃ t, (resolveDocument ⟨.object eachOther, false⟩ 4).runIn .empty =
      some (.ok (.object [(⟨"a", false⟩, .int 1), (⟨"b", false⟩, .int 1)]), t) := ⟨_, rfl⟩
  obtain ⟨enough, hlenient⟩ := hall _ _ _ _ ht
  obtain ⟨u, hu⟩ := hlenient (enough + 4) (by omega)
  have hdepth : ∀ n, ∃ u, (resolveDocument ⟨.object eachOther, true⟩ (n + 4)).runIn .empty =
      some (.ok (.object [(⟨"a", false⟩, .int 1),
        (⟨"b", false⟩, .substitution ⟨"missing", false⟩)]), u) := fun n ↦ ⟨_, rfl⟩
  obtain ⟨u', hu'⟩ := hdepth enough
  rw [hu] at hu'
  simp at hu'

end LayeredConfig.Resolver
