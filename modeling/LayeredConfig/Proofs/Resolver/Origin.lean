import LayeredConfig.Proofs.Resolver.Calls

/-!
# Where a path cannot be followed

A path that cannot be followed makes one call fail, and with it the calls around
that one, as far as an override.  From a call that fails like this, the calls that
pass the failure on lead down to the one call in which it arose.
-/

namespace LayeredConfig

/-- The place of the failure is on the way of its path, before its end. -/
def Traversal.isProper (t : Traversal) : Prop :=
  ∃ rest, rest ≠ [] ∧ Path.ofText t.path = Path.ofText t.place ++ rest

theorem Traversal.isProper_of_append {place rest : Path} (hplace : place ≠ []) (hrest : rest ≠ [])
    (hpath : (place ++ rest).Written) (kind : Kind) :
    Traversal.isProper ⟨Path.text (place ++ rest), Path.text place, kind⟩ := by
  refine ⟨rest, hrest, ?_⟩
  rw [Path.ofText_text hpath, Path.ofText_text (hpath.of_append_left hplace)]

theorem Value.isProper_of_find {members : Members Text Value} {path : Path} {t : Traversal}
    (hpath : path.Written) (h : find members path = .error t) : t.isProper := by
  unfold find at h
  split at h
  · cases h
  · cases hwalk : walk members path with
    | ok found =>
        rw [hwalk] at h
        cases h
    | error b =>
        rw [hwalk] at h
        cases h
        obtain ⟨rest, -, hplace, hrest, rfl, -⟩ := walk_error_cases hwalk
        exact Traversal.isProper_of_append hplace hrest hpath b.kind

namespace Resolver

/-! ## Calls within calls -/

/-- A visit is the least of the calls of one depth, and its work the greatest. -/
def Call.rank : Call → Nat
  | .document => 3
  | .work _ => 2
  | .visit _ => 0
  | _ => 1

section

variable {task : Task} {f g : Frame}

/-- The call fails, and leaves the session `t`. -/
def Frame.Fails (task : Task) (f : Frame) (fault : Fault) (t : Session) : Prop :=
  (f.call.act task (lookupWithin task f.depth)).runIn f.session = some (.error fault, t)

/-- The first call makes the second one, and both fail alike.  A failed call is the
last one that is made, unless the failure is caught, so the first one fails because
the second one does. -/
def PassesOn (task : Task) (fault : Fault) (f g : Frame) : Prop :=
  Calls task f g ∧ (∃ t, f.Fails task fault t) ∧ ∃ t, g.Fails task fault t

/-- The call is the work of a visit that cannot follow its path, and leaves the
session `t`. -/
inductive Origin (task : Task) : Frame → Traversal → Session → Prop
  /-- A value of the document bars the path. -/
  | blocked {depth : Nat} {s : Session} {path : Path} {b : Blocked}
      (hd : task.demand path = .blocked b) :
      Origin task ⟨depth, .work path, s⟩ ⟨Path.text path, Path.text b.place, b.kind⟩ s
  /-- What a value on the way came to bars the path. -/
  | barred {depth : Nat} {s t : Session} {path place rest : Path} {v : Value}
      (hd : task.demand path = .through place rest)
      (hled : (lookupWithin task depth place).runIn s = some (.ok (some v), t))
      (hv : v.isObject = false) :
      Origin task ⟨depth, .work path, s⟩ ⟨Path.text path, Path.text place, v.kind⟩ t
  /-- What a value on the way came to is an object, and the path cannot be followed
  in it. -/
  | inside {depth : Nat} {s t : Session} {path place rest : Path} {inner : Members Text Value}
      {b : Traversal} (hd : task.demand path = .through place rest)
      (hled : (lookupWithin task depth place).runIn s = some (.ok (some (.object inner)), t))
      (hfind : Value.find inner rest = .error b) :
      Origin task ⟨depth, .work path, s⟩ b t

section Parts

variable {lenient : Bool} {lookup : Path → Action (Option Value)} {s t : Session}

theorem followReference_error {r : Reference} {fault : Fault}
    (h : (followReference lenient lookup r).runIn s = some (.error fault, t)) :
    (lookup (Path.ofText r.path)).runIn s = some (.error fault, t) ∨
      fault = .unresolved r.path := by
  unfold followReference at h
  rcases Action.runIn_bind_cases h with ⟨_, hlookup, ⟨⟩⟩ | ⟨found, u, -, hrest⟩
  · exact Or.inl hlookup
  · cases found with
    | some v => cases hrest
    | none =>
        dsimp only at hrest
        split at hrest
        · cases hrest
        · split at hrest
          · cases hrest
          · cases hrest
            exact Or.inr rfl

/-- What an override catches does not get out of it. -/
theorem followOverride_error {r : Reference} {fault : Fault}
    (h : (followOverride lenient lookup r).runIn s = some (.error fault, t)) :
    fault.yieldsToDefault = false := by
  unfold followOverride at h
  rcases Action.runIn_bind_cases h with ⟨_, houtcome, ⟨⟩⟩ | ⟨result, u, -, hrest⟩
  · obtain ⟨_, -, hok⟩ := Action.runIn_outcome_cases houtcome
    cases hok
  · rcases result with fault' | _ | v
    · dsimp only at hrest
      split at hrest
      · cases hrest
      · rename_i hyields
        cases hrest
        exact Bool.not_eq_true _ ▸ hyields
    · cases hrest
    · cases hrest

theorem joinFragments_error {fragments : List Value} {fault : Fault}
    (h : (joinFragments fragments).runIn s = some (.error fault, t)) :
    ∃ f, fault = .unjoinable f := by
  unfold joinFragments at h
  split at h
  · cases h
  · split at h
    · cases h
    · split at h
      · cases h
        exact ⟨_, rfl⟩
      · split at h <;> cases h

end Parts

/-! ## One call down -/

/-- A call that it makes fails alike, with the same paths settled at the end. -/
def Frame.FailsBelow (task : Task) (f : Frame) (fault : Fault) (t : Session) : Prop :=
  ∃ g w, Calls task f g ∧ g.Fails task fault w ∧ w.settled = t.settled

section Below

variable {depth : Nat} {s u : Session} {b : Traversal}

theorem document_failsBelow
    (h : (resolveRoot task (lookupWithin task depth)).runIn s = some (.error (.traversal b), u)) :
    Frame.FailsBelow task ⟨depth, .document, s⟩ (.traversal b) u := by
  rw [resolveRoot_runIn] at h
  obtain ⟨⟨q, w⟩, hw, hq⟩ := Option.map_eq_some_iff.mp h
  cases q with
  | ok found => cases hq
  | error fault =>
      cases hq
      exact ⟨_, w, .root, hw, rfl⟩

theorem visit_failsBelow {path : Path}
    (h : (lookupWithin task depth path).runIn s = some (.error (.traversal b), u)) :
    Frame.FailsBelow task ⟨depth, .visit path, s⟩ (.traversal b) u := by
  cases depth with
  | zero => cases h
  | succ depth =>
      rcases visit_cases h with ⟨_, -, hr, -⟩ | ⟨-, hr, -⟩ | ⟨hnone, hnotin, w, hw, rfl⟩
      · cases hr
      · cases hr
      · exact ⟨_, w, .work hnone hnotin, hw, rfl⟩

/-- Only here a failure can arise. -/
theorem work_fails {path : Path}
    (h : (compute task (lookupWithin task depth) path).runIn s =
      some (.error (.traversal b), u)) :
    Origin task ⟨depth, .work path, s⟩ b u ∨
      Frame.FailsBelow task ⟨depth, .work path, s⟩ (.traversal b) u := by
  rw [compute_eq] at h
  cases hd : task.demand path <;> simp only [hd] at h
  case absent => cases h
  case node v => exact Or.inr ⟨_, u, .found hd, h, rfl⟩
  case redirect target => exact Or.inr ⟨_, u, .redirect hd, h, rfl⟩
  case blocked blocker =>
    cases h
    exact Or.inl (.blocked hd)
  case through place rest =>
    rcases Action.runIn_bind_cases h with ⟨_, hlookup, ⟨⟩⟩ | ⟨led, w, hled, hbeyond⟩
    · exact Or.inr ⟨_, u, .through hd, hlookup, rfl⟩
    · left
      rw [runIn_ofExcept, Option.some.injEq, Prod.mk.injEq] at hbeyond
      obtain ⟨hbarred, rfl⟩ := hbeyond
      rcases beyond_error_cases hbarred with ⟨inner, _, rfl, hfind, ⟨⟩⟩ | ⟨v, rfl, hv, ⟨⟩⟩
      · exact .inside hd hled hfind
      · exact .barred hd hled hv

theorem node_failsBelow {v : Value} {place : Option Path}
    (h : (resolveNode task.lenient (lookupWithin task depth) v place).runIn s =
      some (.error (.traversal b), u)) :
    Frame.FailsBelow task ⟨depth, .node v place, s⟩ (.traversal b) u := by
  cases v <;> simp only [resolveNode] at h
  case object members =>
    rcases Action.runIn_bind_cases h with ⟨_, hmembers, ⟨⟩⟩ | ⟨_, _, -, hpure⟩
    · exact ⟨_, u, .object, hmembers, rfl⟩
    · cases hpure
  case array elements =>
    rcases Action.runIn_bind_cases h with ⟨_, helements, ⟨⟩⟩ | ⟨_, _, -, hpure⟩
    · exact ⟨_, u, .array, helements, rfl⟩
    · cases hpure
  case substitution r => exact ⟨_, u, .substitution, h, rfl⟩
  case concatenation fragments =>
    rcases Action.runIn_bind_cases h with ⟨_, hfragments, ⟨⟩⟩ | ⟨_, _, -, hjoin⟩
    · exact ⟨_, u, .concatenation, hfragments, rfl⟩
    · obtain ⟨_, ⟨⟩⟩ := joinFragments_error hjoin
  case alternative default override =>
    rcases Action.runIn_bind_cases h with ⟨_, hoverride, ⟨⟩⟩ | ⟨used, w, hused, hrest⟩
    · cases followOverride_error hoverride
    · cases used with
      | some v => cases hrest
      | none => exact ⟨_, u, .default hused, hrest, rfl⟩
  all_goals cases h

theorem members_failsBelow {place : Option Path} {entries : List (Text × Value)}
    (h : (resolveMembers task.lenient (lookupWithin task depth) place entries).runIn s =
      some (.error (.traversal b), u)) :
    Frame.FailsBelow task ⟨depth, .members place entries, s⟩ (.traversal b) u := by
  rcases entries with _ | ⟨⟨key, child⟩, rest⟩
  · rw [resolveMembers_nil] at h
    cases h
  · rw [resolveMembers_cons] at h
    rcases Action.runIn_bind_cases h with ⟨_, hmember, ⟨⟩⟩ | ⟨found, w, hfound, hrest⟩
    · exact ⟨_, u, .firstMember, hmember, rfl⟩
    · cases found with
      | some v =>
          rcases Action.runIn_bind_cases hrest with ⟨_, hothers, ⟨⟩⟩ | ⟨_, _, -, hpure⟩
          · exact ⟨_, u, .moreMembers hfound, hothers, rfl⟩
          · cases hpure
      | none => exact ⟨_, u, .membersWithout hfound, hrest, rfl⟩

theorem member_failsBelow {place : Option Path} {key : Text} {child : Value}
    (h : (resolveMember task.lenient (lookupWithin task depth) place key child).runIn s =
      some (.error (.traversal b), u)) :
    Frame.FailsBelow task ⟨depth, .member place key child, s⟩ (.traversal b) u := by
  rcases named_or_inPlace place key.content with ⟨path, rfl, hkey⟩ | hinplace
  · rw [resolveMember_plain _ _ hkey] at h
    exact ⟨_, u, .named hkey, h, rfl⟩
  · rw [resolveMember_inPlace _ _ hinplace] at h
    exact ⟨_, u, .inPlace hinplace, h, rfl⟩

theorem elements_failsBelow {items : List Value}
    (h : (resolveElements task.lenient (lookupWithin task depth) items).runIn s =
      some (.error (.traversal b), u)) :
    Frame.FailsBelow task ⟨depth, .elements items, s⟩ (.traversal b) u := by
  cases items <;> simp only [resolveElements] at h
  case nil => cases h
  case cons item rest =>
    rcases Action.runIn_bind_cases h with ⟨_, hitem, ⟨⟩⟩ | ⟨found, w, hfound, hrest⟩
    · exact ⟨_, u, .firstElement, hitem, rfl⟩
    · cases found with
      | some v =>
          rcases Action.runIn_bind_cases hrest with ⟨_, hothers, ⟨⟩⟩ | ⟨_, _, -, hpure⟩
          · exact ⟨_, u, .moreElements hfound, hothers, rfl⟩
          · cases hpure
      | none => exact ⟨_, u, .elementsWithout hfound, hrest, rfl⟩

theorem fragments_failsBelow {items : List Value}
    (h : (resolveFragments task.lenient (lookupWithin task depth) items).runIn s =
      some (.error (.traversal b), u)) :
    Frame.FailsBelow task ⟨depth, .fragments items, s⟩ (.traversal b) u := by
  cases items <;> simp only [resolveFragments] at h
  case nil => cases h
  case cons item rest =>
    rcases Action.runIn_bind_cases h with ⟨_, hitem, ⟨⟩⟩ | ⟨found, w, hfound, hrest⟩
    · exact ⟨_, u, .firstFragment, hitem, rfl⟩
    · cases found with
      | some v =>
          rcases Action.runIn_bind_cases hrest with ⟨_, hothers, ⟨⟩⟩ | ⟨_, _, -, hpure⟩
          · exact ⟨_, u, .moreFragments hfound, hothers, rfl⟩
          · cases hpure
      | none => exact ⟨_, u, .moreFragments hfound, hrest, rfl⟩

end Below

/-- A call that fails at a path is the origin of the failure, or a call that it makes
fails alike. -/
theorem Frame.Fails.descend {b : Traversal} {u : Session}
    (h : f.Fails task (.traversal b) u) :
    Origin task f b u ∨ f.FailsBelow task (.traversal b) u := by
  obtain ⟨depth, c, s⟩ := f
  cases c with
  | document => exact Or.inr (document_failsBelow h)
  | visit path => exact Or.inr (visit_failsBelow h)
  | work path => exact work_fails h
  | node v place => exact Or.inr (node_failsBelow h)
  | members place entries => exact Or.inr (members_failsBelow h)
  | member place key child => exact Or.inr (member_failsBelow h)
  | elements items => exact Or.inr (elements_failsBelow h)
  | fragments items => exact Or.inr (fragments_failsBelow h)
  | reference r =>
      rcases followReference_error h with hvisit | hmissing
      · exact Or.inr ⟨_, u, .followed, hvisit, rfl⟩
      · cases hmissing
  | override r => cases followOverride_error h

/-- A call that fails makes no call after the one that failed. -/
theorem passesOn_rightUnique (task : Task) (b : Traversal) :
    Relator.RightUnique (PassesOn task (.traversal b)) := by
  rintro f g g' ⟨hg, -, t, ht⟩ ⟨hg', -, t', ht'⟩
  -- Of two calls in a row the first one has returned, and so it has not failed.
  have hreturned {depth : Nat} {c : Call} {s u : Session} {a : c.Result}
      (hrun : (c.act task (lookupWithin task depth)).runIn s = some (.ok a, u)) {t : Session} :
      ¬ Frame.Fails task ⟨depth, c, s⟩ (.traversal b) t := fun hfails ↦ by
    cases hrun.symm.trans hfails
  cases hg with
  | root | work | object | array | substitution | concatenation | tried | followed =>
      cases hg'
      rfl
  | found hd | redirect hd | through hd =>
      cases hg' with
      | found hd' | redirect hd' | through hd' =>
          cases hd.symm.trans hd'
          try rfl
  | override =>
      cases hg' with
      | override => rfl
      | default h => exact (hreturned (c := .override _) h ht).elim
  | default h =>
      cases hg' with
      | override => exact (hreturned (c := .override _) h ht').elim
      | default h' =>
          cases h.symm.trans h'
          rfl
  | firstMember =>
      cases hg' with
      | firstMember => rfl
      | moreMembers h | membersWithout h => exact (hreturned (c := .member _ _ _) h ht).elim
  | moreMembers h =>
      cases hg' with
      | firstMember => exact (hreturned (c := .member _ _ _) h ht').elim
      | moreMembers h' | membersWithout h' =>
          cases h.symm.trans h'
          try rfl
  | membersWithout h =>
      cases hg' with
      | firstMember => exact (hreturned (c := .member _ _ _) h ht').elim
      | moreMembers h' | membersWithout h' =>
          cases h.symm.trans h'
          try rfl
  | named hkey =>
      cases hg' with
      | named => rfl
      | inPlace h => simp [hkey] at h
  | inPlace h =>
      cases hg' with
      | named hkey => simp [hkey] at h
      | inPlace => rfl
  | firstElement =>
      cases hg' with
      | firstElement => rfl
      | moreElements h | elementsWithout h => exact (hreturned (c := .node _ _) h ht).elim
  | moreElements h =>
      cases hg' with
      | firstElement => exact (hreturned (c := .node _ _) h ht').elim
      | moreElements h' | elementsWithout h' =>
          cases h.symm.trans h'
          try rfl
  | elementsWithout h =>
      cases hg' with
      | firstElement => exact (hreturned (c := .node _ _) h ht').elim
      | moreElements h' | elementsWithout h' =>
          cases h.symm.trans h'
          try rfl
  | firstFragment =>
      cases hg' with
      | firstFragment => rfl
      | moreFragments h => exact (hreturned (c := .node _ _) h ht).elim
  | moreFragments h =>
      cases hg' with
      | firstFragment => exact (hreturned (c := .node _ _) h ht').elim
      | moreFragments h' =>
          cases h.symm.trans h'
          rfl

/-- Nothing fails within the call in which a failure arises. -/
theorem Origin.not_passesOn {b : Traversal} {u : Session} (h : Origin task f b u) :
    ¬ PassesOn task (.traversal b) f g := by
  rintro ⟨hcall, -, t, ht⟩
  cases h with
  | blocked hd =>
      cases hcall with
      | found hd' | redirect hd' | through hd' => cases hd.symm.trans hd'
  | barred hd hled | inside hd hled =>
      cases hcall with
      | found hd' | redirect hd' => cases hd.symm.trans hd'
      | through hd' =>
          cases hd.symm.trans hd'
          cases hled.symm.trans ht

/-- A failure arises in one call only. -/
theorem origin_unique {b : Traversal} {g' : Frame} {u u' : Session}
    (hg : Relation.ReflTransGen (PassesOn task (.traversal b)) f g)
    (hg' : Relation.ReflTransGen (PassesOn task (.traversal b)) f g')
    (h : Origin task g b u) (h' : Origin task g' b u') : g = g' := by
  rcases hg.total_of_right_unique (passesOn_rightUnique task b) hg' with hpasses | hpasses
  · rcases hpasses.cases_head with heq | ⟨_, hstep, -⟩
    · exact heq
    · exact absurd hstep h.not_passesOn
  · rcases hpasses.cases_head with heq | ⟨_, hstep, -⟩
    · exact heq.symm
    · exact absurd hstep h'.not_passesOn

/-! ## Paths on the way -/

/-- The paths of the call can be written. -/
def Call.Written : Call → Prop
  | .visit path | .work path => path.Written
  | .node _ place | .members place _ | .member place _ _ =>
    ∀ path ∈ place, ∀ key ∈ path, '.' ∉ key.toList
  | _ => True

theorem Calls.written (h : Calls task f g) (hf : f.call.Written) : g.call.Written := by
  cases h with
  | root => simp [Call.Written]
  | work => exact hf
  | found hd =>
      rintro _ ⟨rfl⟩
      exact hf.2
  | redirect hd =>
      obtain ⟨_, -, -, hd⟩ := Task.demand_cases hd (by simp)
      exact Value.written_of_redirect hd hf
  | through hd =>
      obtain ⟨_, -, -, hd⟩ := Task.demand_cases hd (by simp)
      exact Value.written_of_through hd hf
  | object | firstMember | moreMembers | membersWithout => exact hf
  | named hkey => exact Path.written_onward (hf _ rfl) hkey
  | followed => exact Path.ofText_written _
  | default | inPlace | firstElement | firstFragment => simp [Call.Written]
  | array | substitution | concatenation | override | moreElements | elementsWithout |
      moreFragments | tried => trivial

/-- A failure speaks of a path and of a place on it. -/
theorem Origin.isProper {b : Traversal} {u : Session} (h : Origin task f b u)
    (hf : f.call.Written) : b.isProper := by
  cases h with
  | blocked hd =>
      obtain ⟨_, -, -, hd⟩ := Task.demand_cases hd (by simp)
      obtain ⟨rest, v, hplace, hrest, rfl, -⟩ := Value.demand_blocked_cases hd
      exact Traversal.isProper_of_append hplace hrest hf _
  | barred hd =>
      obtain ⟨_, -, -, hd⟩ := Task.demand_cases hd (by simp)
      obtain ⟨hplace, hrest, rfl, -⟩ := Value.demand_through_cases hd
      exact Traversal.isProper_of_append hplace hrest hf _
  | inside hd hled hfind =>
      -- The failure speaks of the rest of the path only.
      obtain ⟨_, -, -, hd⟩ := Task.demand_cases hd (by simp)
      obtain ⟨-, hrest, rfl, -⟩ := Value.demand_through_cases hd
      exact Value.isProper_of_find (Path.Written.of_append_right hf hrest) hfind

end

end Resolver

end LayeredConfig
