import LayeredConfig.Proofs.Resolver.Amount
import LayeredConfig.Proofs.Resolver.InPlace
import Mathlib.Logic.Relation

/-!
# The calls of resolving

The functions that resolve call each other, and each call is made in the session
of its moment.  The calls that one call makes are made one after the other, a
call looks up paths in them and nowhere else, and they have ended when it ends.
What is settled stays on the way.
-/

namespace LayeredConfig.Resolver

/-- What is called. -/
inductive Call where
  | document
  | visit (path : Path)
  /-- The work of a visit, with its path pending. -/
  | work (path : Path)
  | node (v : Value) (place : Option Path)
  | members (place : Option Path) (entries : List (Text × Value))
  | member (place : Option Path) (key : Text) (child : Value)
  | elements (items : List Value)
  | fragments (items : List Value)
  | reference (r : Reference)
  | override (r : Reference)

/-- What a call comes to if it does not fail. -/
def Call.Result : Call → Type
  | .document => Value
  | .members .. => List (Text × Value)
  | .elements _ | .fragments _ => List Value
  | _ => Option Value

/-- What a call does, open in the lookup of paths. -/
def Call.act (task : Task) (lookup : Path → Action (Option Value)) :
    (c : Call) → Action c.Result
  | .document => resolveRoot task lookup
  | .visit path => lookup path
  | .work path => compute task lookup path
  | .node v place => resolveNode task.lenient lookup v place
  | .members place entries => resolveMembers task.lenient lookup place entries
  | .member place key child => resolveMember task.lenient lookup place key child
  | .elements items => resolveElements task.lenient lookup items
  | .fragments items => resolveFragments task.lenient lookup items
  | .reference r => followReference task.lenient lookup r
  | .override r => followOverride task.lenient lookup r

/-- A call, the session it is made in, and how deep visits may nest in it. -/
structure Frame where
  depth : Nat
  call : Call
  session : Session

/-- The call leaves the session `t`, by a result or by a fault. -/
def Frame.Leaves (task : Task) (f : Frame) (t : Session) : Prop :=
  ∃ r, (f.call.act task (lookupWithin task f.depth)).runIn f.session = some (r, t)

/-- The first call makes the second one. -/
inductive Calls (task : Task) : Frame → Frame → Prop
  | root {depth : Nat} {s : Session} :
      Calls task ⟨depth, .document, s⟩ ⟨depth, .node task.root (some []), s⟩
  /-- The visit of a path that is neither settled nor pending. -/
  | work {depth : Nat} {s : Session} {path : Path} (hsettled : s.settled? path = none)
      (hpending : path ∉ s.pending) :
      Calls task ⟨depth + 1, .visit path, s⟩ ⟨depth, .work path, s.enter path⟩
  | found {depth : Nat} {s : Session} {path : Path} {v : Value}
      (hd : task.demand path = .node v) :
      Calls task ⟨depth, .work path, s⟩ ⟨depth, .node v (some path), s⟩
  | redirect {depth : Nat} {s : Session} {path target : Path}
      (hd : task.demand path = .redirect target) :
      Calls task ⟨depth, .work path, s⟩ ⟨depth, .visit target, s⟩
  | through {depth : Nat} {s : Session} {path place rest : Path}
      (hd : task.demand path = .through place rest) :
      Calls task ⟨depth, .work path, s⟩ ⟨depth, .visit place, s⟩
  | object {depth : Nat} {s : Session} {members : List (Text × Value)} {place : Option Path} :
      Calls task ⟨depth, .node (.object members) place, s⟩ ⟨depth, .members place members, s⟩
  | array {depth : Nat} {s : Session} {elements : List Value} {place : Option Path} :
      Calls task ⟨depth, .node (.array elements) place, s⟩ ⟨depth, .elements elements, s⟩
  | substitution {depth : Nat} {s : Session} {r : Reference} {place : Option Path} :
      Calls task ⟨depth, .node (.substitution r) place, s⟩ ⟨depth, .reference r, s⟩
  | concatenation {depth : Nat} {s : Session} {fragments : List Value} {place : Option Path} :
      Calls task ⟨depth, .node (.concatenation fragments) place, s⟩ ⟨depth, .fragments fragments, s⟩
  | override {depth : Nat} {s : Session} {default : Value} {r : Reference} {place : Option Path} :
      Calls task ⟨depth, .node (.alternative default r) place, s⟩ ⟨depth, .override r, s⟩
  /-- The default, after an override that was not used. -/
  | default {depth : Nat} {s t : Session} {default : Value} {r : Reference} {place : Option Path}
      (h : (followOverride task.lenient (lookupWithin task depth) r).runIn s =
        some (.ok none, t)) :
      Calls task ⟨depth, .node (.alternative default r) place, s⟩ ⟨depth, .node default none, t⟩
  | firstMember {depth : Nat} {s : Session} {place : Option Path} {key : Text} {child : Value}
      {rest : List (Text × Value)} :
      Calls task ⟨depth, .members place ((key, child) :: rest), s⟩
        ⟨depth, .member place key child, s⟩
  | moreMembers {depth : Nat} {s t : Session} {place : Option Path} {key : Text} {child v : Value}
      {rest : List (Text × Value)}
      (h : (resolveMember task.lenient (lookupWithin task depth) place key child).runIn s =
        some (.ok (some v), t)) :
      Calls task ⟨depth, .members place ((key, child) :: rest), s⟩ ⟨depth, .members place rest, t⟩
  | membersWithout {depth : Nat} {s t : Session} {place : Option Path} {key : Text}
      {child : Value} {rest : List (Text × Value)}
      (h : (resolveMember task.lenient (lookupWithin task depth) place key child).runIn s =
        some (.ok none, t)) :
      Calls task ⟨depth, .members place ((key, child) :: rest), s⟩
        ⟨depth, .members place rest, t.record (.keyDropped key.shown)⟩
  /-- A member that a path can name. -/
  | named {depth : Nat} {s : Session} {place : Path} {key : Text} {child : Value}
      (hkey : Path.isPlainKey key.content = true) :
      Calls task ⟨depth, .member (some place) key child, s⟩
        ⟨depth, .visit (place ++ [key.content]), s⟩
  | inPlace {depth : Nat} {s : Session} {place : Option Path} {key : Text} {child : Value}
      (h : place = none ∨ Path.isPlainKey key.content = false) :
      Calls task ⟨depth, .member place key child, s⟩ ⟨depth, .node child none, s⟩
  | firstElement {depth : Nat} {s : Session} {element : Value} {rest : List Value} :
      Calls task ⟨depth, .elements (element :: rest), s⟩ ⟨depth, .node element none, s⟩
  | moreElements {depth : Nat} {s t : Session} {element v : Value} {rest : List Value}
      (h : (resolveNode task.lenient (lookupWithin task depth) element none).runIn s =
        some (.ok (some v), t)) :
      Calls task ⟨depth, .elements (element :: rest), s⟩ ⟨depth, .elements rest, t⟩
  | elementsWithout {depth : Nat} {s t : Session} {element : Value} {rest : List Value}
      (h : (resolveNode task.lenient (lookupWithin task depth) element none).runIn s =
        some (.ok none, t)) :
      Calls task ⟨depth, .elements (element :: rest), s⟩
        ⟨depth, .elements rest, t.record .elementDropped⟩
  | firstFragment {depth : Nat} {s : Session} {fragment : Value} {rest : List Value} :
      Calls task ⟨depth, .fragments (fragment :: rest), s⟩ ⟨depth, .node fragment none, s⟩
  | moreFragments {depth : Nat} {s t : Session} {fragment : Value} {rest : List Value}
      {found : Option Value}
      (h : (resolveNode task.lenient (lookupWithin task depth) fragment none).runIn s =
        some (.ok found, t)) :
      Calls task ⟨depth, .fragments (fragment :: rest), s⟩ ⟨depth, .fragments rest, t⟩
  | tried {depth : Nat} {s : Session} {r : Reference} :
      Calls task ⟨depth, .override r, s⟩ ⟨depth, .reference r, s⟩
  | followed {depth : Nat} {s : Session} {r : Reference} :
      Calls task ⟨depth, .reference r, s⟩ ⟨depth, .visit (Path.ofText r.path), s⟩

/-- The second call is the first one, or it is made on the way through it. -/
abbrev Within (task : Task) : Frame → Frame → Prop := Relation.ReflTransGen (Calls task)

section

variable {task : Task} {f g : Frame} {s t : Session}

/-! ## One call -/

theorem Call.extends (c : Call) (depth : Nat) :
    Moves Session.Extends (c.act task (lookupWithin task depth)) := by
  cases c with
  | document => exact fun s r t h ↦ (Reaches.document .refl h).extends
  | visit path => exact lookupWithin_extends task depth path
  | work path => exact compute_extends task (lookupWithin_extends task depth) path
  | node v place => exact resolve_extends _ (resolveNode_consults_any v place)
  | members place entries => exact resolve_extends _ (resolveMembers_consults_any place entries)
  | member place key child => exact resolve_extends _ (resolveMember_consults_any place key child)
  | elements items => exact resolve_extends _ (resolveElements_consults_any items)
  | fragments items => exact resolve_extends _ (resolveFragments_consults_any items)
  | reference r => exact resolve_extends _ (followReference_consults r trivial)
  | override r => exact resolve_extends _ (followOverride_consults trivial r trivial)

theorem Frame.Leaves.extends (h : f.Leaves task t) : f.session.Extends t := by
  obtain ⟨r, hr⟩ := h
  exact f.call.extends f.depth _ _ _ hr

/-- A call is made with a path entered, or with the pending paths of the caller. -/
theorem Calls.session_cases (h : Calls task f g) :
    (∃ path, f.session.settled? path = none ∧ path ∉ f.session.pending ∧
      g.session = f.session.enter path) ∨ f.session.Extends g.session := by
  cases h with
  | work hsettled hpending => exact Or.inl ⟨_, hsettled, hpending, rfl⟩
  | default h => exact Or.inr (Call.extends (.override _) _ _ _ _ h)
  | moreMembers h => exact Or.inr (Call.extends (.member _ _ _) _ _ _ _ h)
  | membersWithout h =>
      exact Or.inr ((Call.extends (.member _ _ _) _ _ _ _ h).trans (.record _ _))
  | moreElements h => exact Or.inr (Call.extends (.node _ none) _ _ _ _ h)
  | elementsWithout h =>
      exact Or.inr ((Call.extends (.node _ none) _ _ _ _ h).trans (.record _ _))
  | moreFragments h => exact Or.inr (Call.extends (.node _ none) _ _ _ _ h)
  | _ => exact Or.inr (.refl _)

theorem Calls.carries (h : Calls task f g) : Carries f.session.settled g.session.settled := by
  rcases h.session_cases with ⟨path, -, -, hsession⟩ | hextends
  · rw [hsession]
    exact .refl _
  · exact hextends.carries

/-! ## Ends of calls -/

section Begins

variable {α β γ : Type}

/-- Whenever the second action ends, the first one has ended before, and what it
settled stays. -/
def Begins (x : Action α) (y : Action β) : Prop :=
  ∀ s r t, y.runIn s = some (r, t) → ∃ q u, x.runIn s = some (q, u) ∧ Carries u.settled t.settled

theorem Begins.refl (x : Action α) : Begins x x := fun _ r t h ↦ ⟨r, t, h, .refl _⟩

theorem Begins.trans {x : Action α} {y : Action β} {z : Action γ} (hxy : Begins x y)
    (hyz : Begins y z) : Begins x z := by
  intro s r t h
  obtain ⟨q, u, hy, hcarries⟩ := hyz s r t h
  obtain ⟨q', u', hx, hcarries'⟩ := hxy s q u hy
  exact ⟨q', u', hx, hcarries'.trans hcarries⟩

theorem Begins.outcome (x : Action α) : Begins x (Action.outcome x) := by
  intro s r t h
  obtain ⟨q, hq, -⟩ := Action.runIn_outcome_cases h
  exact ⟨q, t, hq, .refl _⟩

theorem Begins.bind (x : Action α) {k : α → Action β} (hk : ∀ a, Moves Session.Extends (k a)) :
    Begins x (x >>= k) := by
  intro s r t h
  rcases Action.runIn_bind_cases h with ⟨fault, hx, -⟩ | ⟨a, u, hx, hrest⟩
  · exact ⟨.error fault, t, hx, .refl _⟩
  · exact ⟨.ok a, u, hx, (hk a _ _ _ hrest).carries⟩

theorem moves_pure (a : α) : Moves Session.Extends (pure a) := by
  rintro s r t ⟨⟩
  exact .refl s

theorem moves_throw (fault : Fault) : Moves Session.Extends (throw fault : Action α) := by
  rintro s r t ⟨⟩
  exact .refl s

theorem moves_bind {x : Action α} {k : α → Action β} (hx : Moves Session.Extends x)
    (hk : ∀ a, Moves Session.Extends (k a)) : Moves Session.Extends (x >>= k) := by
  intro s r t h
  rcases Action.runIn_bind_cases h with ⟨fault, hfault, -⟩ | ⟨a, u, ha, hrest⟩
  · exact hx _ _ _ hfault
  · exact (hx _ _ _ ha).trans (hk a _ _ _ hrest)

theorem moves_record (e : Event) : Moves Session.Extends (Action.record e) := by
  rintro s r t ⟨⟩
  exact .record s e

end Begins

section Parts

variable {lenient : Bool} {lookup : Path → Action (Option Value)}

theorem followReference_begins (r : Reference) :
    Begins (lookup (Path.ofText r.path)) (followReference lenient lookup r) := by
  unfold followReference
  refine .bind _ fun found ↦ ?_
  cases found with
  | some v => exact moves_bind (moves_record _) fun _ ↦ moves_pure _
  | none =>
      dsimp only
      split
      · exact moves_pure _
      · split
        · exact moves_bind (moves_record _) fun _ ↦ moves_pure _
        · exact moves_throw _

theorem followOverride_begins (r : Reference) :
    Begins (followReference lenient lookup r) (followOverride lenient lookup r) := by
  unfold followOverride
  refine (Begins.outcome _).trans (.bind _ fun result ↦ ?_)
  rcases result with fault | _ | v
  · dsimp only
    split
    · exact moves_bind (moves_record _) fun _ ↦ moves_pure _
    · exact moves_throw _
  · exact moves_pure _
  · exact moves_pure _

theorem resolveRoot_begins (depth : Nat) :
    Begins (resolveNode task.lenient (lookupWithin task depth) task.root (some []))
      (resolveRoot task (lookupWithin task depth)) := by
  intro s r t h
  rw [resolveRoot_runIn] at h
  obtain ⟨⟨q, u⟩, hu, hq⟩ := Option.map_eq_some_iff.mp h
  cases hq
  refine ⟨q, u, hu, ?_⟩
  cases q <;> exact .refl _

theorem compute_begins {path place rest : Path} (hd : task.demand path = .through place rest) :
    Begins (lookup place) (compute task lookup path) := by
  rw [compute_eq, hd]
  refine .bind _ fun led ↦ ?_
  cases beyond path place rest led with
  | ok found => exact moves_pure found
  | error fault => exact moves_throw fault

theorem resolveMember_begins {place : Path} {key : Text} (hkey : Path.isPlainKey key.content = true)
    (child : Value) : Begins (lookup (place ++ [key.content]))
      (resolveMember lenient lookup (some place) key child) := by
  rw [resolveMember_plain _ _ hkey]
  exact .refl _

theorem resolveMember_begins_inPlace {place : Option Path} {key : Text}
    (h : place = none ∨ Path.isPlainKey key.content = false) (child : Value) :
    Begins (resolveNode lenient lookup child none)
      (resolveMember lenient lookup place key child) := by
  rw [resolveMember_inPlace _ _ h]
  exact .refl _

end Parts

section Ends

variable {α β γ : Type} {x : Action α} {y : Action β} {r : Except Fault β}

theorem Begins.leaves (h : Begins x y) (hy : y.runIn s = some (r, t)) :
    ∃ u, (∃ q, x.runIn s = some (q, u)) ∧ Carries u.settled t.settled := by
  obtain ⟨q, u, hq, hcarries⟩ := h s r t hy
  exact ⟨u, ⟨q, hq⟩, hcarries⟩

/-- What follows a value in a run. -/
theorem leaves_of_ok {k : α → Action β} {u : Session} {a : α} {z : Action γ}
    (hx : x.runIn s = some (.ok a, u)) (hz : Begins z (k a))
    (h : (x >>= k).runIn s = some (r, t)) :
    ∃ w, (∃ q, z.runIn u = some (q, w)) ∧ Carries w.settled t.settled := by
  rw [Action.runIn_bind_ok hx] at h
  exact hz.leaves h

end Ends

/-- A call that ends has ended the calls that it made, and what they settled
stays. -/
theorem Calls.leaves (h : Calls task f g) (hf : f.Leaves task t) :
    ∃ u, g.Leaves task u ∧ Carries u.settled t.settled := by
  obtain ⟨r, hr⟩ := hf
  have hnode {depth : Nat} (v : Value) :
      Moves Session.Extends (resolveNode task.lenient (lookupWithin task depth) v none) :=
    Call.extends (.node v none) depth
  have hmembers {depth : Nat} (place : Option Path) (rest : List (Text × Value)) :
      Moves Session.Extends (resolveMembers task.lenient (lookupWithin task depth) place rest) :=
    Call.extends (.members place rest) depth
  have helements {depth : Nat} (rest : List Value) :
      Moves Session.Extends (resolveElements task.lenient (lookupWithin task depth) rest) :=
    Call.extends (.elements rest) depth
  have hfragments {depth : Nat} (rest : List Value) :
      Moves Session.Extends (resolveFragments task.lenient (lookupWithin task depth) rest) :=
    Call.extends (.fragments rest) depth
  cases h with
  | root => exact (resolveRoot_begins _).leaves hr
  | work hsettled hpending =>
      rcases visit_cases hr with ⟨_, hsome, -, -⟩ | ⟨hmem, -, -⟩ | ⟨-, -, u, hwork, rfl⟩
      · simp [hsettled] at hsome
      · exact absurd hmem hpending
      · refine ⟨u, ⟨r, hwork⟩, ?_⟩
        have hextends := Call.extends (.work _) _ _ _ _ hwork
        cases r with
        | error fault => exact .refl _
        | ok found =>
            exact carries_cons (hextends.settled?_none_of_pending List.mem_cons_self hsettled) found
  | found hd =>
      simp only [Call.act, compute_eq, hd] at hr
      exact (Begins.refl _).leaves hr
  | redirect hd =>
      simp only [Call.act, compute_eq, hd] at hr
      exact (Begins.refl _).leaves hr
  | through hd => exact (compute_begins hd).leaves hr
  | object =>
      simp only [Call.act, resolveNode] at hr
      exact (Begins.bind _ fun _ ↦ moves_pure _).leaves hr
  | array =>
      simp only [Call.act, resolveNode] at hr
      exact (Begins.bind _ fun _ ↦ moves_pure _).leaves hr
  | substitution =>
      simp only [Call.act, resolveNode] at hr
      exact (Begins.refl _).leaves hr
  | concatenation =>
      simp only [Call.act, resolveNode] at hr
      refine (Begins.bind _ fun out ↦ ?_).leaves hr
      exact @resolve_extends task 0 _ _ (joinFragments_consults out)
  | override =>
      simp only [Call.act, resolveNode] at hr
      refine (Begins.bind _ fun used ↦ ?_).leaves hr
      cases used with
      | none => exact hnode _
      | some v => exact moves_pure _
  | default h =>
      simp only [Call.act, resolveNode] at hr
      exact leaves_of_ok h (.refl _) hr
  | firstMember =>
      simp only [Call.act, resolveMembers_cons] at hr
      refine (Begins.bind _ fun found ↦ ?_).leaves hr
      cases found with
      | none => exact moves_bind (moves_record _) fun _ ↦ hmembers _ _
      | some v => exact moves_bind (hmembers _ _) fun _ ↦ moves_pure _
  | moreMembers h =>
      simp only [Call.act, resolveMembers_cons] at hr
      exact leaves_of_ok h (.bind _ fun _ ↦ moves_pure _) hr
  | membersWithout h =>
      simp only [Call.act, resolveMembers_cons] at hr
      have hrest := (Action.runIn_bind_ok h).symm.trans hr
      exact leaves_of_ok (Action.runIn_record _ _) (.refl _) hrest
  | named hkey => exact (resolveMember_begins hkey _).leaves hr
  | inPlace h => exact (resolveMember_begins_inPlace h _).leaves hr
  | firstElement =>
      simp only [Call.act, resolveElements] at hr
      refine (Begins.bind _ fun found ↦ ?_).leaves hr
      cases found with
      | none => exact moves_bind (moves_record _) fun _ ↦ helements _
      | some v => exact moves_bind (helements _) fun _ ↦ moves_pure _
  | moreElements h =>
      simp only [Call.act, resolveElements] at hr
      exact leaves_of_ok h (.bind _ fun _ ↦ moves_pure _) hr
  | elementsWithout h =>
      simp only [Call.act, resolveElements] at hr
      have hrest := (Action.runIn_bind_ok h).symm.trans hr
      exact leaves_of_ok (Action.runIn_record _ _) (.refl _) hrest
  | firstFragment =>
      simp only [Call.act, resolveFragments] at hr
      refine (Begins.bind _ fun found ↦ ?_).leaves hr
      cases found with
      | none => exact hfragments _
      | some v => exact moves_bind (hfragments _) fun _ ↦ moves_pure _
  | @moreFragments _ _ _ _ _ found h =>
      simp only [Call.act, resolveFragments] at hr
      cases found with
      | none => exact leaves_of_ok h (.refl _) hr
      | some v => exact leaves_of_ok h (.bind _ fun _ ↦ moves_pure _) hr
  | tried => exact (followOverride_begins _).leaves hr
  | followed => exact (followReference_begins _).leaves hr

/-! ## One call after the other -/

/-- The first call has ended when the second one is made, and what it settled
stays. -/
def Precedes (task : Task) (g h : Frame) : Prop :=
  ∃ u, g.Leaves task u ∧ Carries u.settled h.session.settled

theorem Within.carries (h : Within task f g) :
    Carries f.session.settled g.session.settled := by
  induction h with
  | refl => exact .refl _
  | tail _ hcall ih => exact ih.trans hcall.carries

theorem Within.leaves (h : Within task f g) (hf : f.Leaves task t) :
    ∃ u, g.Leaves task u ∧ Carries u.settled t.settled := by
  induction h with
  | refl => exact ⟨t, hf, .refl _⟩
  | tail _ hcall ih =>
      obtain ⟨u, hu, hcarries⟩ := ih
      obtain ⟨w, hw, hcarries'⟩ := hcall.leaves hu
      exact ⟨w, hw, hcarries'.trans hcarries⟩

/-- The calls that one call makes are made one after the other. -/
theorem Calls.in_turn {g h : Frame} (hg : Calls task f g) (hh : Calls task f h) :
    g = h ∨ Precedes task g h ∨ Precedes task h g := by
  -- A later call is made in the session that the first one leaves.
  have hfirst {depth : Nat} {c : Call} {s t : Session} {r : Except Fault c.Result}
      (hrun : (c.act task (lookupWithin task depth)).runIn s = some (r, t)) (next : Call) :
      Precedes task ⟨depth, c, s⟩ ⟨depth, next, t⟩ ∧
        ∀ e, Precedes task ⟨depth, c, s⟩ ⟨depth, next, t.record e⟩ :=
    ⟨⟨t, ⟨r, hrun⟩, .refl _⟩, fun _ ↦ ⟨t, ⟨r, hrun⟩, .refl _⟩⟩
  cases hg with
  | root | work | object | array | substitution | concatenation | tried | followed =>
      cases hh
      exact Or.inl rfl
  | found hd | redirect hd | through hd =>
      cases hh with
      | found hd' | redirect hd' | through hd' =>
          cases hd.symm.trans hd'
          try exact Or.inl rfl
  | override =>
      cases hh with
      | override => exact Or.inl rfl
      | default h => exact Or.inr (Or.inl (hfirst (c := .override _) h _).1)
  | default h =>
      cases hh with
      | override => exact Or.inr (Or.inr (hfirst (c := .override _) h _).1)
      | default h' =>
          cases h.symm.trans h'
          exact Or.inl rfl
  | firstMember =>
      cases hh with
      | firstMember => exact Or.inl rfl
      | moreMembers h => exact Or.inr (Or.inl (hfirst (c := .member _ _ _) h _).1)
      | membersWithout h => exact Or.inr (Or.inl ((hfirst (c := .member _ _ _) h _).2 _))
  | moreMembers h =>
      cases hh with
      | firstMember => exact Or.inr (Or.inr (hfirst (c := .member _ _ _) h _).1)
      | moreMembers h' | membersWithout h' =>
          cases h.symm.trans h'
          try exact Or.inl rfl
  | membersWithout h =>
      cases hh with
      | firstMember => exact Or.inr (Or.inr ((hfirst (c := .member _ _ _) h _).2 _))
      | moreMembers h' | membersWithout h' =>
          cases h.symm.trans h'
          try exact Or.inl rfl
  | named hkey =>
      cases hh with
      | named => exact Or.inl rfl
      | inPlace h => simp [hkey] at h
  | inPlace h =>
      cases hh with
      | named hkey => simp [hkey] at h
      | inPlace => exact Or.inl rfl
  | firstElement =>
      cases hh with
      | firstElement => exact Or.inl rfl
      | moreElements h => exact Or.inr (Or.inl (hfirst (c := .node _ _) h _).1)
      | elementsWithout h => exact Or.inr (Or.inl ((hfirst (c := .node _ _) h _).2 _))
  | moreElements h =>
      cases hh with
      | firstElement => exact Or.inr (Or.inr (hfirst (c := .node _ _) h _).1)
      | moreElements h' | elementsWithout h' =>
          cases h.symm.trans h'
          try exact Or.inl rfl
  | elementsWithout h =>
      cases hh with
      | firstElement => exact Or.inr (Or.inr ((hfirst (c := .node _ _) h _).2 _))
      | moreElements h' | elementsWithout h' =>
          cases h.symm.trans h'
          try exact Or.inl rfl
  | firstFragment =>
      cases hh with
      | firstFragment => exact Or.inl rfl
      | moreFragments h => exact Or.inr (Or.inl (hfirst (c := .node _ _) h _).1)
  | moreFragments h =>
      cases hh with
      | firstFragment => exact Or.inr (Or.inr (hfirst (c := .node _ _) h _).1)
      | moreFragments h' =>
          cases h.symm.trans h'
          exact Or.inl rfl

/-- Of two calls within one call, one is within the other one or has ended before
it. -/
theorem Within.nested_or_in_turn {g h : Frame} (hg : Within task f g) (hh : Within task f h) :
    Within task g h ∨ Within task h g ∨ Precedes task g h ∨ Precedes task h g := by
  have hprecedes {a b c d : Frame} (hab : Precedes task a b)
      (hac : Within task a c) (hbd : Within task b d) : Precedes task c d := by
    obtain ⟨u, hu, hcarries⟩ := hab
    obtain ⟨w, hw, hcarries'⟩ := leaves hac hu
    exact ⟨w, hw, hcarries'.trans (hcarries.trans (carries hbd))⟩
  induction hg using Relation.ReflTransGen.head_induction_on with
  | refl => exact Or.inl hh
  | @head f c hcall hrest ih =>
      rcases hh.cases_head with rfl | ⟨d, hcall', hrest'⟩
      · exact Or.inr (Or.inl (.head hcall hrest))
      · rcases hcall.in_turn hcall' with rfl | hturn | hturn
        · exact ih hrest'
        · exact Or.inr (Or.inr (Or.inl (hprecedes hturn hrest hrest')))
        · exact Or.inr (Or.inr (Or.inr (hprecedes hturn hrest' hrest)))

/-! ## No other calls -/

section Uses

variable {α β : Type} {lookup : Path → Action (Option Value)} {depth : Nat} {c d : Call}

theorem runIn_bind_congr {x y : Action α} {k l : α → Action β} (hx : x.runIn s = y.runIn s)
    (hk : ∀ a u, y.runIn s = some (.ok a, u) → (k a).runIn u = (l a).runIn u) :
    (x >>= k).runIn s = (y >>= l).runIn s := by
  rw [Action.runIn_bind, Action.runIn_bind, hx]
  rcases hy : y.runIn s with _ | ⟨fault | a, u⟩
  · rfl
  · rfl
  · exact hk a u hy

/-- The lookup visits paths as the call does, in the visits that the call makes. -/
def Serves (task : Task) (lookup : Path → Action (Option Value)) (f : Frame) : Prop :=
  ∀ path u, Within task f ⟨f.depth, .visit path, u⟩ →
    (lookup path).runIn u = (lookupWithin task f.depth path).runIn u

theorem Serves.called (h : Serves task lookup ⟨depth, c, s⟩)
    (hcall : Calls task ⟨depth, c, s⟩ ⟨depth, d, t⟩) : Serves task lookup ⟨depth, d, t⟩ :=
  fun path u hvisit ↦ h path u (.head hcall hvisit)

/-- Where a lookup agrees, the call runs as it does. -/
def Uses (task : Task) (lookup : Path → Action (Option Value)) (depth : Nat) (c : Call) : Prop :=
  ∀ s, Serves task lookup ⟨depth, c, s⟩ →
    (c.act task lookup).runIn s = (c.act task (lookupWithin task depth)).runIn s

theorem visit_uses (path : Path) : Uses task lookup depth (.visit path) :=
  fun s h ↦ h path s .refl

theorem reference_uses (r : Reference) : Uses task lookup depth (.reference r) := by
  intro s h
  exact runIn_bind_congr (visit_uses _ s (h.called .followed)) fun _ _ _ ↦ rfl

theorem override_uses (r : Reference) : Uses task lookup depth (.override r) := by
  intro s h
  refine runIn_bind_congr ?_ fun _ _ _ ↦ rfl
  rw [Action.runIn_outcome, Action.runIn_outcome]
  exact congrArg (Option.map _) (reference_uses r s (h.called .tried))

theorem member_uses {place : Option Path} {key : Text} {child : Value}
    (hchild : Uses task lookup depth (.node child none)) :
    Uses task lookup depth (.member place key child) := by
  intro s h
  dsimp only [Call.act]
  rcases named_or_inPlace place key.content with ⟨path, rfl, hkey⟩ | hinplace
  · rw [resolveMember_plain _ _ hkey, resolveMember_plain _ _ hkey]
    exact visit_uses _ s (h.called (.named hkey))
  · rw [resolveMember_inPlace _ _ hinplace, resolveMember_inPlace _ _ hinplace]
    exact hchild s (h.called (.inPlace hinplace))

theorem members_uses {place : Option Path} {entries : List (Text × Value)}
    (hentries : ∀ entry ∈ entries, Uses task lookup depth (.node entry.2 none)) :
    Uses task lookup depth (.members place entries) := by
  induction entries with
  | nil =>
      intro s _
      simp only [Call.act, resolveMembers_nil]
  | cons entry rest ih =>
      obtain ⟨key, child⟩ := entry
      rw [List.forall_mem_cons] at hentries
      intro s h
      dsimp only [Call.act]
      rw [resolveMembers_cons, resolveMembers_cons]
      refine runIn_bind_congr (member_uses hentries.1 s (h.called .firstMember)) fun found u hu ↦ ?_
      cases found with
      | some v =>
          exact runIn_bind_congr (ih hentries.2 u (h.called (.moreMembers hu))) fun _ _ _ ↦ rfl
      | none => exact ih hentries.2 _ (h.called (.membersWithout hu))

theorem elements_uses {items : List Value}
    (hitems : ∀ item ∈ items, Uses task lookup depth (.node item none)) :
    Uses task lookup depth (.elements items) := by
  induction items with
  | nil =>
      intro s _
      simp only [Call.act, resolveElements]
  | cons item rest ih =>
      rw [List.forall_mem_cons] at hitems
      intro s h
      dsimp only [Call.act]
      rw [resolveElements, resolveElements]
      refine runIn_bind_congr (hitems.1 s (h.called .firstElement)) fun found u hu ↦ ?_
      cases found with
      | some v =>
          exact runIn_bind_congr (ih hitems.2 u (h.called (.moreElements hu))) fun _ _ _ ↦ rfl
      | none => exact ih hitems.2 _ (h.called (.elementsWithout hu))

theorem fragments_uses {items : List Value}
    (hitems : ∀ item ∈ items, Uses task lookup depth (.node item none)) :
    Uses task lookup depth (.fragments items) := by
  induction items with
  | nil =>
      intro s _
      simp only [Call.act, resolveFragments]
  | cons item rest ih =>
      rw [List.forall_mem_cons] at hitems
      intro s h
      dsimp only [Call.act]
      rw [resolveFragments, resolveFragments]
      refine runIn_bind_congr (hitems.1 s (h.called .firstFragment)) fun found u hu ↦ ?_
      have hrest := ih hitems.2 u (h.called (.moreFragments hu))
      cases found with
      | some v => exact runIn_bind_congr hrest fun _ _ _ ↦ rfl
      | none => exact hrest

theorem node_uses (v : Value) (place : Option Path) : Uses task lookup depth (.node v place) := by
  induction v using Value.tree_induction generalizing place with
  | object members ih =>
      intro s h
      simp only [Call.act, resolveNode]
      refine runIn_bind_congr ?_ fun _ _ _ ↦ rfl
      exact members_uses (fun entry hentry ↦ ih entry hentry none) s (h.called .object)
  | array elements ih =>
      intro s h
      simp only [Call.act, resolveNode]
      refine runIn_bind_congr ?_ fun _ _ _ ↦ rfl
      exact elements_uses (fun v hv ↦ ih v hv none) s (h.called .array)
  | substitution r =>
      intro s h
      simp only [Call.act, resolveNode]
      exact reference_uses r s (h.called .substitution)
  | concatenation fragments ih =>
      intro s h
      simp only [Call.act, resolveNode]
      refine runIn_bind_congr ?_ fun _ _ _ ↦ rfl
      exact fragments_uses (fun v hv ↦ ih v hv none) s (h.called .concatenation)
  | alternative default override ih =>
      intro s h
      simp only [Call.act, resolveNode]
      refine runIn_bind_congr (override_uses override s (h.called .override)) fun used u hu ↦ ?_
      cases used with
      | some v => rfl
      | none => exact ih none u (h.called (.default hu))
  | scalar v hscalar =>
      intro s _
      simp only [Call.act, resolveNode_scalar hscalar]

theorem work_uses (path : Path) : Uses task lookup depth (.work path) := by
  intro s h
  simp only [Call.act, compute_eq]
  cases hd : task.demand path with
  | absent => rfl
  | blocked b => rfl
  | node v => exact node_uses v (some path) s (h.called (.found hd))
  | redirect target => exact visit_uses target s (h.called (.redirect hd))
  | through place rest =>
      exact runIn_bind_congr (visit_uses place s (h.called (.through hd))) fun _ _ _ ↦ rfl

/-- A call looks up paths in the calls that it makes, and nowhere else: a lookup
that agrees in those visits makes it run as it does. -/
theorem Call.uses (c : Call) : Uses task lookup depth c := by
  cases c with
  | document =>
      intro s h
      refine (resolveRoot_runIn task lookup s).trans (.trans ?_ (resolveRoot_runIn task _ s).symm)
      exact congrArg (Option.map _) (node_uses task.root (some []) s (h.called .root))
  | visit path => exact visit_uses path
  | work path => exact work_uses path
  | node v place => exact node_uses v place
  | members place entries => exact members_uses fun entry _ ↦ node_uses entry.2 none
  | member place key child => exact member_uses (node_uses child none)
  | elements items => exact elements_uses fun item _ ↦ node_uses item none
  | fragments items => exact fragments_uses fun item _ ↦ node_uses item none
  | reference r => exact reference_uses r
  | override r => exact override_uses r

end Uses

end

end LayeredConfig.Resolver
