import LayeredConfig.Proofs.Resolver.Stationary

/-!
# Resolving one document as another

Two tasks with related documents are compared by plain recursion.  It is enough
to compare how a single node is resolved when lookups agree, and only for nodes
that come to a result: when a document is resolved, every value that paths can
name in it has come to one.
-/

namespace LayeredConfig.Resolver

/-! ## Runs without long cycles -/

theorem lookupStraight_follows (task : Task) (depth : Nat) (path : Path) :
    Follows Eq (lookupStraight task depth path) (lookupWithin task depth path) := by
  induction depth generalizing path with
  | zero =>
      intro s t _ r s' hrun
      simp [lookupStraight] at hrun
  | succ depth ih =>
      refine guarded_follows (visit_follows_self path ?_)
      refine (compute_consults_any task path).follows ?_ fun p _ ↦ ih p
      rintro s _ e rfl
      rfl

/-- The document is resolved without closing a cycle of several visits. -/
def RunsStraight (task : Task) (depth : Nat) : Prop :=
  ∃ out, (resolveRoot task (lookupStraight task depth)).runIn .empty = some out

/-- A run that closes no long cycle, by plain recursion. -/
theorem RunsStraight.recurs {task : Task} {depth : Nat} (h : RunsStraight task depth)
    {found : Value} {t : Session}
    (hrun : (resolveDocument task depth).runIn .empty = some (.ok found, t)) :
    ∃ d q, q.getD .null = found ∧
      Comes (resolveNode task.lenient (lookupFreely task d none) task.root (some [])) (.ok q) := by
  obtain ⟨⟨r, u⟩, hu⟩ := h
  have hconsults : Consults True (fun _ ↦ True) fun lookup ↦
      resolveNode task.lenient lookup task.root (some []) :=
    resolveNode_consults_any task.root (some [])
  have hfollows := hconsults.follows (S := Eq) (fun _ _ _ h ↦ by rw [h])
    fun p _ ↦ lookupStraight_follows task depth p
  have hstraight := hu
  rw [resolveRoot_runIn] at hu
  obtain ⟨⟨q, v⟩, hq, hout⟩ := Option.map_eq_some_iff.mp hu
  obtain ⟨_, hq', rfl⟩ := hfollows _ _ rfl _ _ hq
  rw [resolveDocument, resolveRoot_runIn, hq', Option.map_some, hout, Option.some.injEq,
    Prod.mk.injEq] at hrun
  rw [hrun.1] at hstraight
  obtain ⟨-, d, q, hq, hcomes⟩ := resolveRoot_recurs hstraight
  exact ⟨d, q, hq, hcomes⟩

/-! ## Places that come to a result -/

section Places

variable {task : Task} {P : Value → Prop} {depth : Nat} {visitor : Option Path}

/-- Every value that paths can name comes to nothing or to a value with the
property. -/
def PlacesCome (task : Task) (P : Value → Prop) : Prop :=
  ∀ path v, path ≠ [] → Located task.root (some path) v →
    ∃ depth found, Comes (lookupFreely task depth none path) (.ok found) ∧ ∀ w ∈ found, P w

theorem comes_member {lenient : Bool} {lookup : Path → Action (Option Value)} {place : Path}
    {members out : Members Text Value}
    (h : Collected (Keyed fun entry found ↦
      Comes (resolveMember lenient lookup (some place) entry.1 entry.2) (.ok found)) members out)
    {key : String} (hkey : Path.isPlainKey key = true) {child : Value}
    (hchild : members.get? key = some child) :
    ∃ found, Comes (lookup (place ++ [key])) (.ok found) ∧ ∀ w ∈ found, ∃ k, (k, w) ∈ out := by
  obtain ⟨name, rfl, hmem⟩ := Members.exists_key_of_get? hchild
  obtain ⟨_, ⟨led, hled, rfl⟩, hout⟩ := h.exists_of_mem hmem
  rw [resolveMember_plain _ _ hkey] at hled
  exact ⟨led, hled, fun w hw ↦ ⟨name, hout _ (Option.mem_map_of_mem _ hw)⟩⟩

/-- What stands below a node that comes to a result comes to a result. -/
theorem comes_descend (hpart : ∀ members, P (.object members) → ∀ entry ∈ members, P entry.2)
    {place : Path} {v : Value} (hlocated : Located task.root (some place) v)
    (hvisitor : ∀ q ∈ visitor, q = place) {found : Option Value}
    (h : Comes (resolveNode task.lenient (lookupFreely task depth visitor) v (some place))
      (.ok found)) (hfound : ∀ w ∈ found, P w) {path : Path} (hpath : path ≠ [])
    (hplain : ∀ key ∈ path, Path.isPlainKey key = true) {w : Value}
    (hw : v.descend path = some w) :
    ∃ depth led, Comes (lookupFreely task depth none (place ++ path)) (.ok led) ∧
      ∀ x ∈ led, P x := by
  induction path generalizing v place depth visitor found with
  | nil => exact absurd rfl hpath
  | cons key rest ih =>
      obtain ⟨members, child, rfl, hchild, hrest⟩ := Value.descend_cons_cases hw
      rw [List.forall_mem_cons] at hplain
      have hsteady := lookupFreely_steady task depth visitor
      obtain ⟨out, hout, rfl⟩ := (comes_object_iff hsteady).mp h
      obtain ⟨led, hled, hmem⟩ := comes_member hout hplain.1 hchild
      have hled_part : ∀ x ∈ led, P x := by
        intro x hx
        obtain ⟨k, hk⟩ := hmem x hx
        exact hpart out (hfound _ rfl) (k, x) hk
      have hne : visitor ≠ some (place ++ [key]) := by
        rintro rfl
        simpa using hvisitor _ rfl
      have hfree : Comes (lookupFreely task depth none (place ++ [key])) (.ok led) := by
        rwa [← lookupFreely_of_ne hne]
      by_cases hnil : rest = []
      · subst hnil
        exact ⟨depth, led, hfree, hled_part⟩
      · cases depth with
        | zero =>
            obtain ⟨t, ht⟩ := hfree .empty
            cases ht
        | succ depth =>
            have hmember := hlocated.member hplain.1 hchild
            rw [lookupFreely_succ (by simp), compute_eq, hmember.demand (by simp)] at hfree
            have hlater := ih hmember (by simp) hfree hled_part hnil hplain.2 hrest
            rwa [List.append_assoc, List.singleton_append] at hlater

theorem placesCome_of_comes
    (hpart : ∀ members, P (.object members) → ∀ entry ∈ members, P entry.2)
    {found : Option Value} (hfound : ∀ w ∈ found, P w)
    (h : Comes (resolveNode task.lenient (lookupFreely task depth none) task.root (some []))
      (.ok found)) : PlacesCome task P := by
  intro path v hpath hlocated
  obtain ⟨hplain, hdescend⟩ := hlocated path rfl
  exact comes_descend hpart (located_root task.root) (by simp) h hfound hpath hplain hdescend

/-- What stands at a written path is named by it. -/
theorem located_of_demand {path : Path} (hpath : path.Written) {v : Value}
    (hd : task.demand path = .node v) : Located task.root (some path) v := by
  obtain ⟨members, hroot, hempty, hd⟩ := Task.demand_cases hd (by simp)
  rintro _ ⟨rfl⟩
  refine ⟨fun _ ↦ hpath.isPlainKey hempty, ?_⟩
  rw [hroot, Value.descend_eq_some_iff hpath.1]
  exact Value.demand_eq_node_iff.mp hd

theorem beyond_part (hpart : ∀ members, P (.object members) → ∀ entry ∈ members, P entry.2)
    {path place rest : Path} {led : Option Value} (hled : ∀ v ∈ led, P v) {v : Value}
    (h : beyond path place rest led = .ok (some v)) : P v := by
  obtain ⟨inner, rfl, hfind⟩ := beyond_some_cases h
  exact Value.of_walk hpart (hpart inner (hled _ rfl)) (Value.find_eq_some_iff.mp hfind).2

/-- Whatever a lookup finds has the property. -/
theorem PlacesCome.found (h : PlacesCome task P)
    (hpart : ∀ members, P (.object members) → ∀ entry ∈ members, P entry.2) {path : Path}
    (hpath : path.Written) {v : Value}
    (hv : Comes (lookupFreely task depth visitor path) (.ok (some v))) : P v := by
  induction depth generalizing visitor path v with
  | zero =>
      obtain ⟨t, ht⟩ := hv .empty
      cases ht
  | succ depth ih =>
      by_cases hvisitor : visitor = some path
      · rw [hvisitor, lookupFreely_visitor] at hv
        cases hv.unique (comes_throw _)
      · have hcomputed := hv
        rw [lookupFreely_succ hvisitor,
          comes_compute_iff (lookupFreely_steady task depth (some path))] at hcomputed
        cases hd : task.demand path with
        | node w =>
            obtain ⟨depth', found, hfound, hP⟩ := h path w hpath.1 (located_of_demand hpath hd)
            rw [lookupFreely_of_ne hvisitor] at hv
            cases lookupFreely_unique hv hfound
            exact hP v rfl
        | redirect target =>
            rw [hd] at hcomputed
            obtain ⟨members, -, -, hd⟩ := Task.demand_cases hd (by simp)
            exact ih (Value.written_of_redirect hd hpath) hcomputed
        | through place rest =>
            rw [hd] at hcomputed
            obtain ⟨led, hled, hv⟩ := hcomputed
            obtain ⟨members, -, -, hd⟩ := Task.demand_cases hd (by simp)
            have hplace := Value.written_of_through hd hpath
            cases led with
            | error fault => cases hv
            | ok led =>
                refine beyond_part hpart (fun w hw ↦ ?_) hv.symm
                cases hw
                exact ih hplace hled
        | absent | blocked b =>
            rw [hd] at hcomputed
            cases hcomputed

end Places

/-! ## Related documents -/

/-- Outcomes that are the same failure, or related values. -/
inductive Agrees {ε : Type} (rel : Value → Value → Prop) :
    Except ε (Option Value) → Except ε (Option Value) → Prop
  | failed (e : ε) : Agrees rel (.error e) (.error e)
  | came {found found' : Option Value} (h : Option.Rel rel found found') :
      Agrees rel (.ok found) (.ok found')

/-- Demands of one path in related documents. -/
inductive DemandsAgree (rel : Value → Value → Prop) : Demand → Demand → Prop
  | absent : DemandsAgree rel .absent .absent
  | node {v w : Value} (h : rel v w) : DemandsAgree rel (.node v) (.node w)
  | redirect (path : Path) : DemandsAgree rel (.redirect path) (.redirect path)
  | through (place rest : Path) : DemandsAgree rel (.through place rest) (.through place rest)
  | blocked (b : Blocked) : DemandsAgree rel (.blocked b) (.blocked b)

/-- A relation that paths cannot tell apart: related values are of one kind, and
objects have related members. -/
structure Faithful (rel : Value → Value → Prop) : Prop where
  kind : ∀ {v w}, rel v w → w.kind = v.kind
  object : ∀ {members others : Members Text Value}, rel (.object members) (.object others) →
    ∀ key, Option.Rel rel (members.get? key) (others.get? key)
  substitution : ∀ {r r'}, rel (.substitution r) (.substitution r') → r' = r

section Related

variable {rel : Value → Value → Prop} {members others : Members Text Value} {v w : Value}

theorem agrees_ok_iff {ε : Type} {found : Option Value} {r : Except ε (Option Value)} :
    Agrees rel (.ok found) r ↔ ∃ found', r = .ok found' ∧ Option.Rel rel found found' := by
  constructor
  · intro h
    cases h with
    | came hrel => exact ⟨_, rfl, hrel⟩
  · rintro ⟨found', rfl, hrel⟩
    exact .came hrel

theorem DemandsAgree.under {d d' : Demand} (h : DemandsAgree rel d d') (key : String) :
    DemandsAgree rel (d.under key) (d'.under key) := by
  cases h with
  | absent => exact .absent
  | node h => exact .node h
  | redirect path => exact .redirect path
  | through place rest => exact .through (key :: place) rest
  | blocked b => exact .blocked (b.under key)

theorem Agrees.mapError {ε ε' : Type} {r r' : Except ε (Option Value)} (h : Agrees rel r r')
    (f : ε → ε') : Agrees rel (r.mapError f) (r'.mapError f) := by
  cases h with
  | failed e => exact .failed (f e)
  | came h => exact .came h

theorem Faithful.demand (h : Faithful rel)
    (hget : ∀ key, Option.Rel rel (members.get? key) (others.get? key)) (path : Path) :
    DemandsAgree rel (Value.demand members path) (Value.demand others path) := by
  induction path generalizing members others with
  | nil => exact .absent
  | cons key rest ih =>
      have hkey := hget key
      cases rest with
      | nil =>
          rw [Value.demand, Value.demand]
          generalize members.get? key = here, others.get? key = there at hkey ⊢
          cases hkey with
          | none => exact .absent
          | some hrel => exact .node hrel
      | cons next rest =>
          rw [Value.demand, Value.demand]
          generalize members.get? key = here, others.get? key = there at hkey ⊢
          cases hkey with
          | none => exact .absent
          | @some v w hrel =>
              have hkind := h.kind hrel
              cases v <;> cases w <;> cases hkind
              case object.object.refl inner inner' => exact (ih (h.object hrel)).under key
              case substitution.substitution.refl r r' =>
                rw [h.substitution hrel]
                exact .redirect _
              case concatenation.concatenation.refl => exact .through [key] (next :: rest)
              case alternative.alternative.refl => exact .through [key] (next :: rest)
              all_goals exact .blocked _

theorem Faithful.walk (h : Faithful rel)
    (hget : ∀ key, Option.Rel rel (members.get? key) (others.get? key)) (path : Path) :
    Agrees rel (Value.walk members path) (Value.walk others path) := by
  induction path generalizing members others with
  | nil => exact .came .none
  | cons key rest ih =>
      have hkey := hget key
      cases rest with
      | nil =>
          rw [Value.walk, Value.walk]
          exact .came hkey
      | cons next rest =>
          rw [Value.walk, Value.walk]
          generalize members.get? key = here, others.get? key = there at hkey ⊢
          cases hkey with
          | none => exact .came .none
          | @some v w hrel =>
              have hkind := h.kind hrel
              cases v <;> cases w <;> cases hkind
              case object.object.refl inner inner' => exact (ih (h.object hrel)).mapError _
              all_goals exact .failed _

theorem Faithful.find (h : Faithful rel)
    (hget : ∀ key, Option.Rel rel (members.get? key) (others.get? key)) (path : Path) :
    Agrees rel (Value.find members path) (Value.find others path) := by
  unfold Value.find
  split
  · exact .came .none
  · exact (h.walk hget path).mapError _

end Related

/-! ## Tasks that mirror each other -/

/-- What lookups of the first task come to, those of the second come to. -/
def Transfers (rel : Value → Value → Prop) (first second : Path → Action (Option Value)) : Prop :=
  ∀ path r, path.Written → Comes (first path) r →
    ∃ r', Comes (second path) r' ∧ Agrees rel r r'

/-- The second task follows the first one: their documents are related, and
where lookups agree, a node that comes to a result with the property `P` is
followed by the related node.  The nodes of the first document have `W`. -/
structure Mirrors (a b : Task) (rel : Value → Value → Prop) (W P : Value → Prop) : Prop where
  faithful : Faithful rel
  null : rel .null .null
  root : rel a.root b.root
  given : W a.root
  member : ∀ members, W (.object members) → ∀ entry ∈ members, W entry.2
  part : ∀ members, P (.object members) → ∀ entry ∈ members, P entry.2
  node : ∀ {first second : Path → Action (Option Value)}, (∀ p, Steady (first p)) →
    (∀ p, Steady (second p)) → Transfers rel first second →
    (∀ p v, p.Written → Comes (first p) (.ok (some v)) → P v) →
    ∀ {v w : Value} {place : Option Path} {found : Option Value},
      (∀ path ∈ place, ∀ key ∈ path, '.' ∉ key.toList) → rel v w → W v →
        Comes (resolveNode a.lenient first v place) (.ok found) → (∀ x ∈ found, P x) →
          ∃ found', Comes (resolveNode b.lenient second w place) (.ok found') ∧
            Option.Rel rel found found'

namespace Mirrors

variable {a b : Task} {rel : Value → Value → Prop} {W P : Value → Prop}

theorem demand (h : Mirrors a b rel W P) (path : Path) :
    DemandsAgree rel (a.demand path) (b.demand path) := by
  have hkind := h.faithful.kind h.root
  unfold Task.demand
  have hroot := h.root
  cases ha : a.root <;> cases hb : b.root <;> rw [ha, hb] at hkind hroot <;> cases hkind
  case object.object.refl members others =>
    dsimp only
    split
    · exact .absent
    · exact h.faithful.demand (h.faithful.object hroot) path
  all_goals exact .absent

theorem descend (h : Mirrors a b rel W P) {path : Path} {v : Value}
    (hv : a.root.descend path = some v) : W v := by
  have hall : ∀ {root : Value}, W root → root.descend path = some v → W v := by
    intro root hroot hv
    by_cases hpath : path = []
    · rw [hpath, Value.descend_nil, Option.some.injEq] at hv
      rwa [← hv]
    · obtain ⟨members, rfl⟩ := Value.exists_object_of_descend hpath hv
      rw [Value.descend_eq_some_iff hpath] at hv
      exact Value.of_walk h.member (h.member members hroot) hv
  exact hall h.given hv

theorem beyond (h : Mirrors a b rel W P) {led led' : Option Value} (hled : Option.Rel rel led led')
    (path place rest : Path) :
    Agrees rel (beyond path place rest led) (Resolver.beyond path place rest led') := by
  cases hled with
  | none => exact .came .none
  | @some v w hrel =>
      have hkind := h.faithful.kind hrel
      cases v <;> cases w <;> cases hkind
      case object.object.refl inner inner' =>
        exact (h.faithful.find (h.faithful.object hrel) rest).mapError _
      all_goals exact .failed _

/-- Lookups of the two tasks agree, if the places of the first come to values. -/
theorem lookups (h : Mirrors a b rel W P) (hplaces : PlacesCome a P) (depth : Nat)
    (visitor : Option Path) :
    Transfers rel (lookupFreely a depth visitor) (lookupFreely b depth visitor) := by
  induction depth generalizing visitor with
  | zero =>
      intro path r _ hr
      obtain ⟨t, ht⟩ := hr .empty
      cases ht
  | succ depth ih =>
      intro path r hpath hr
      by_cases hvisitor : visitor = some path
      · rw [hvisitor, lookupFreely_visitor] at hr ⊢
        cases hr.unique (comes_throw _)
        exact ⟨_, comes_throw _, .failed _⟩
      · have hfirst := lookupFreely_steady a depth (some path)
        have hsecond := lookupFreely_steady b depth (some path)
        have hcomputed := hr
        rw [lookupFreely_succ hvisitor, comes_compute_iff hfirst] at hcomputed
        simp only [lookupFreely_succ hvisitor, comes_compute_iff hsecond]
        have hdemand := h.demand path
        generalize hd : a.demand path = d at hcomputed hdemand
        generalize b.demand path = d' at hdemand ⊢
        cases hdemand with
        | absent =>
            cases hcomputed
            exact ⟨_, rfl, .came .none⟩
        | @node v w hrel =>
            -- The value has come to a result, and lookups have one outcome.
            have hlocated := located_of_demand hpath hd
            obtain ⟨depth', found, hfound, hP⟩ := hplaces path v hpath.1 hlocated
            rw [lookupFreely_of_ne hvisitor] at hr
            cases lookupFreely_unique hr hfound
            have hplace : ∀ p ∈ some path, ∀ key ∈ p, '.' ∉ key.toList := by
              rintro _ ⟨rfl⟩
              exact hpath.2
            obtain ⟨found', hfound', hrel'⟩ := h.node hfirst hsecond (ih (some path))
              (fun p v hp ↦ hplaces.found h.part hp) hplace hrel
              (h.descend (hlocated path rfl).2) hcomputed hP
            exact ⟨.ok found', hfound', .came hrel'⟩
        | redirect target =>
            obtain ⟨members, -, -, hd⟩ := Task.demand_cases hd (by simp)
            exact ih (some path) target r (Value.written_of_redirect hd hpath) hcomputed
        | through place rest =>
            obtain ⟨led, hled, rfl⟩ := hcomputed
            obtain ⟨members, -, -, hd⟩ := Task.demand_cases hd (by simp)
            obtain ⟨led', hled', hagrees⟩ :=
              ih (some path) place led (Value.written_of_through hd hpath) hled
            refine ⟨_, ⟨led', hled', rfl⟩, ?_⟩
            cases hagrees with
            | failed fault => exact .failed fault
            | came hrel => exact h.beyond hrel path place rest
        | blocked blocker =>
            cases hcomputed
            exact ⟨_, rfl, .failed _⟩

/-- A document that is resolved without closing a long cycle is followed by the
related one. -/
theorem document (h : Mirrors a b rel W P) {depth : Nat} {found : Value} {t : Session}
    (hrun : (resolveDocument a depth).runIn .empty = some (.ok found, t))
    (hstraight : RunsStraight a depth) (hfound : P found) :
    ∃ found', rel found found' ∧ ∃ enough, ∀ depth, enough ≤ depth →
      ∃ u, (resolveDocument b depth).runIn .empty = some (.ok found', u) := by
  obtain ⟨d, q, rfl, hcomes⟩ := hstraight.recurs hrun
  have hP : ∀ x ∈ q, P x := by
    rintro x hx
    cases hx
    exact hfound
  have hplaces : PlacesCome a P := placesCome_of_comes h.part hP hcomes
  obtain ⟨q', hcomes', hrel⟩ := h.node (lookupFreely_steady a d none)
    (lookupFreely_steady b d none) (h.lookups hplaces d none)
    (fun p v hp ↦ hplaces.found h.part hp) (by simp) h.root h.given hcomes hP
  refine ⟨q'.getD .null, ?_, d, fun depth hdepth ↦ ?_⟩
  · cases hrel with
    | none => exact h.null
    | some hrel => exact hrel
  · have hconsults : Consults True (fun _ ↦ True) fun lookup ↦
        resolveNode b.lenient lookup b.root (some []) :=
      resolveNode_consults_any b.root (some [])
    have hdeeper := hconsults.follows (fun _ _ _ _ ↦ trivial) fun p _ ↦
      lookupFreely_deeper b hdepth none p
    exact resolveDocument_of_comes (hcomes'.follows hdeeper)

end Mirrors

end LayeredConfig.Resolver
