import LayeredConfig.Proofs.Reordered
import LayeredConfig.Proofs.Resolver.Transfer

/-!
# Resolving in another order

The order of the members decides which path is visited first, and so what is
pending where a cycle is closed.  Where no cycle of several visits is closed, a
document in another order is resolved to the same, in that order.
-/

namespace LayeredConfig

open Value (Reordered)

theorem Value.faithful_reordered : Resolver.Faithful Reordered where
  kind h := h.kind
  object h := h.get?
  substitution h := by
    cases reordered_substitution_iff.mp h
    rfl

namespace Resolver

variable {lenient : Bool} {first second : Path → Action (Option Value)}

theorem resolveMember_congr {lookup : Path → Action (Option Value)} {place : Option Path}
    {key key' : Text} (h : key.content = key'.content) (v : Value) :
    resolveMember lenient lookup place key v = resolveMember lenient lookup place key' v := by
  simp only [resolveMember, h]

section Nodes

variable (hfirst : ∀ p, Steady (first p)) (hsecond : ∀ p, Steady (second p))
  (hlookups : Transfers Reordered first second) {place : Option Path} {v w : Value}
  {found : Option Value}

/-- A node comes to something, and the other one to the same in another order. -/
def Follow (lenient : Bool) (first second : Path → Action (Option Value)) (place : Option Path)
    (v w : Value) : Prop :=
  ∀ found, Comes (resolveNode lenient first v place) (.ok found) →
    ∃ found', Comes (resolveNode lenient second w place) (.ok found') ∧
      Option.Rel Reordered found found'

include hlookups in
theorem comes_came {path : Path} (hpath : path.Written) {led : Option Value}
    (hled : Comes (first path) (.ok led)) :
    ∃ led', Comes (second path) (.ok led') ∧ Option.Rel Reordered led led' := by
  obtain ⟨r', hr', hagrees⟩ := hlookups path _ hpath hled
  obtain ⟨led', rfl, hrel⟩ := agrees_ok_iff.mp hagrees
  exact ⟨led', hr', hrel⟩

include hlookups in
theorem resolveMember_follow (hplace : ∀ path ∈ place, ∀ key ∈ path, '.' ∉ key.toList)
    (h : Follow lenient first second none v w) {key : Text}
    (hv : Comes (resolveMember lenient first place key v) (.ok found)) :
    ∃ found', Comes (resolveMember lenient second place key w) (.ok found') ∧
      Option.Rel Reordered found found' := by
  rcases named_or_inPlace place key.content with ⟨path, rfl, hkey⟩ | hinplace
  · rw [resolveMember_plain _ _ hkey] at hv ⊢
    exact comes_came hlookups (Path.written_onward (hplace path rfl) hkey) hv
  · rw [resolveMember_inPlace _ _ hinplace] at hv ⊢
    exact h found hv

include hlookups in
theorem members_follow {members others out : Members Text Value}
    (hplace : ∀ path ∈ place, ∀ key ∈ path, '.' ∉ key.toList)
    (hobject : Reordered (.object members) (.object others))
    (hmembers : ∀ entry ∈ members, ∀ {w}, Reordered entry.2 w →
      Follow lenient first second none entry.2 w)
    (h : Collected (Keyed fun entry found ↦
      Comes (resolveMember lenient first place entry.1 entry.2) (.ok found)) members out) :
    ∃ out', Collected (Keyed fun entry found ↦
        Comes (resolveMember lenient second place entry.1 entry.2) (.ok found)) others out' ∧
      Reordered (.object out) (.object out') := by
  have hnodup := hobject.nodup
  have hnodup' := (Value.keys_perm hobject.perm).nodup hnodup
  have hunder : ∀ entry ∈ others, ∃ found',
      Comes (resolveMember lenient second place entry.1 entry.2) (.ok found') ∧
        Option.Rel Reordered (out.get? entry.1.content) found' := by
    rintro ⟨name, w⟩ hw
    have hrel := hobject.get? name.content
    rw [Members.get?_of_mem hnodup' hw] at hrel
    obtain ⟨v, hv, hvw⟩ := Members.optionRel_some_right_iff.mp hrel
    obtain ⟨key, hkey, hmem, hcomes⟩ := h.rule_get? hnodup hv
    rw [resolveMember_congr hkey] at hcomes
    exact resolveMember_follow hlookups hplace (hmembers (key, v) hmem hvw) hcomes
  obtain ⟨out', hout'⟩ : ∃ out', Collected (Keyed fun entry found ↦
      Comes (resolveMember lenient second place entry.1 entry.2) (.ok found)) others out' := by
    refine Collected.exists_of_forall fun entry hentry ↦ ?_
    obtain ⟨found', hfound', -⟩ := hunder entry hentry
    exact ⟨_, found', hfound', rfl⟩
  refine ⟨out', hout', Value.reordered_of_sublist hnodup hobject.perm h.keys_sublist
    hout'.keys_sublist fun name ↦ ?_⟩
  cases hw : others.get? name with
  | none =>
      have hrel := hobject.get? name
      rw [hw] at hrel
      rw [h.get?_eq_none (Members.optionRel_none_right_iff.mp hrel), hout'.get?_eq_none hw]
      exact .none
  | some w =>
      obtain ⟨key, rfl, hmem, hcomes'⟩ := hout'.rule_get? hnodup' hw
      obtain ⟨found', hfound', hrel⟩ := hunder (key, w) hmem
      cases hfound'.unique hcomes'
      exact hrel

theorem fragments_follow {fragments others out : List Value}
    (h : List.Forall₂ Reordered fragments others)
    (hfragments : ∀ v ∈ fragments, ∀ {w}, Reordered v w → Follow lenient first second none v w)
    (hout : Collected (fun v found ↦ Comes (resolveNode lenient first v none) (.ok found))
      fragments out) :
    ∃ out', Collected (fun v found ↦ Comes (resolveNode lenient second v none) (.ok found))
        others out' ∧ List.Forall₂ Reordered out out' := by
  induction h generalizing out with
  | nil =>
      obtain rfl := Collected.nil_iff.mp hout
      exact ⟨[], .nil, .nil⟩
  | cons hvw _ ih =>
      rw [List.forall_mem_cons] at hfragments
      obtain ⟨found, below, hfound, hbelow, rfl⟩ := Collected.cons_iff.mp hout
      obtain ⟨found', hfound', hrel⟩ := hfragments.1 hvw found hfound
      obtain ⟨below', hbelow', hrest⟩ := ih hfragments.2 hbelow
      refine ⟨_, .cons hfound' hbelow', ?_⟩
      cases hrel with
      | none => exact hrest
      | some hrel => exact .cons hrel hrest

theorem joined_reordered {fragments others : List Value}
    (h : List.Forall₂ Reordered fragments others) (hjoined : Joined fragments found) :
    ∃ found', Joined others found' ∧ Option.Rel Reordered found found' := by
  have hreferences := Fragments.any_reordered h Value.Reordered.isReference
  cases hjoined with
  | nothing =>
      cases h
      exact ⟨none, .nothing, .none⟩
  | kept hreference =>
      refine ⟨some (.concatenation others), .kept (hreferences.trans hreference), .some ?_⟩
      rw [Value.Reordered]
      exact ⟨others, rfl, Value.itemsReordered_iff.mpr h⟩
  | joined hreference hv =>
      obtain ⟨w, hw, hvw⟩ := Fragments.join_reordered h hreference hv
      exact ⟨some w, .joined (hreferences.trans hreference) hw, .some hvw⟩

theorem answers_reordered {r : Reference} {led led' : Option Value}
    (h : Option.Rel Reordered led led') (hanswers : Answers lenient r led found) :
    ∃ found', Answers lenient r led' found' ∧ Option.Rel Reordered found found' := by
  cases h with
  | some hvw =>
      cases hanswers
      exact ⟨_, .found _, .some hvw⟩
  | none =>
      cases hanswers with
      | absent hoptional => exact ⟨none, .absent hoptional, .none⟩
      | left hoptional hlenient =>
          exact ⟨_, .left hoptional hlenient, .some (Value.reordered_substitution_iff.mpr rfl)⟩

/-- Whether an override is used does not depend on the order of what it leads to. -/
theorem chosen_reordered {led led' : Except Fault (Option Value)} (h : Agrees Reordered led led') :
    Agrees Reordered (chosen led) (chosen led') := by
  cases h with
  | failed fault =>
      dsimp only [chosen]
      split
      · exact .came .none
      · exact .failed fault
  | came hrel =>
      cases hrel with
      | none => exact .came .none
      | some hvw =>
          dsimp only [chosen]
          rw [hvw.isReference]
          split
          · exact .came .none
          · exact .came (.some hvw)

include hfirst hsecond hlookups in
/-- A node in another order comes to the same in another order. -/
theorem resolveNode_follow (hplace : ∀ path ∈ place, ∀ key ∈ path, '.' ∉ key.toList)
    (hvw : Reordered v w) : Follow lenient first second place v w := by
  induction v using Value.tree_induction generalizing place w with
  | object members ih =>
      intro found h
      have hobject := hvw.isObject
      obtain ⟨others, rfl⟩ := Value.exists_object hobject
      obtain ⟨out, hout, rfl⟩ := (comes_object_iff hfirst).mp h
      obtain ⟨out', hout', hrel⟩ := members_follow hlookups hplace hvw
        (fun entry hentry {w} hrel ↦ ih entry hentry (by simp) hrel) hout
      exact ⟨_, (comes_object_iff hsecond).mpr ⟨out', hout', rfl⟩, .some hrel⟩
  | array => exact hvw.elim
  | substitution r =>
      intro found h
      cases Value.reordered_substitution_iff.mp hvw
      rw [resolveNode, comes_followReference_iff hfirst] at h
      obtain ⟨led, hled, hanswers⟩ := h
      obtain ⟨led', hled', hrel⟩ := comes_came hlookups (Path.ofText_written r.path) hled
      obtain ⟨found', hanswers', hrel'⟩ := answers_reordered hrel hanswers
      refine ⟨found', ?_, hrel'⟩
      rw [resolveNode, comes_followReference_iff hsecond]
      exact ⟨led', hled', hanswers'⟩
  | concatenation fragments ih =>
      intro found h
      rw [Value.Reordered] at hvw
      obtain ⟨others, rfl, hitems⟩ := hvw
      rw [Value.itemsReordered_iff] at hitems
      obtain ⟨out, hout, hjoined⟩ := (comes_concatenation_iff hfirst).mp h
      obtain ⟨out', hout', hrel⟩ := fragments_follow hitems
        (fun f hf {w} hrel ↦ ih f hf (by simp) hrel) hout
      obtain ⟨found', hjoined', hrel'⟩ := joined_reordered hrel hjoined
      exact ⟨found', (comes_concatenation_iff hsecond).mpr ⟨out', hout', hjoined'⟩, hrel'⟩
  | alternative default override ih =>
      intro found h
      rw [Value.Reordered] at hvw
      obtain ⟨standby, rfl, hdefault⟩ := hvw
      obtain ⟨led, hled, hchosen⟩ := (comes_alternative_iff hfirst).mp h
      obtain ⟨led', hled', hagrees⟩ := hlookups _ led (Path.ofText_written override.path) hled
      have hchosen' := chosen_reordered hagrees
      rcases hchosen with ⟨x, hused, rfl⟩ | ⟨hnone, hcomes⟩
      · rw [hused] at hchosen'
        obtain ⟨used, hused', hrel⟩ := agrees_ok_iff.mp hchosen'
        obtain ⟨y, rfl, hxy⟩ := Members.optionRel_some_left_iff.mp hrel
        exact ⟨some y, (comes_alternative_iff hsecond).mpr
          ⟨led', hled', Or.inl ⟨y, hused', rfl⟩⟩, .some hxy⟩
      · rw [hnone] at hchosen'
        obtain ⟨used, hused', hrel⟩ := agrees_ok_iff.mp hchosen'
        cases Members.optionRel_none_left_iff.mp hrel
        obtain ⟨found', hfound', hrel⟩ := ih (by simp) hdefault found hcomes
        exact ⟨found', (comes_alternative_iff hsecond).mpr
          ⟨led', hled', Or.inr ⟨hused', hfound'⟩⟩, hrel⟩
  | scalar v hscalar =>
      intro found h
      cases (Value.reordered_scalar_iff hscalar).mp hvw
      rw [comes_scalar_iff hscalar] at h
      subst h
      exact ⟨_, (comes_scalar_iff hscalar).mpr rfl,
        .some ((Value.reordered_scalar_iff hscalar).mpr rfl)⟩

end Nodes

/-- A document in another order is resolved to the same in another order, if no
cycle of several visits is closed. -/
theorem resolveDocument_reordered {root root' found : Value} (h : Reordered root root')
    {depth : Nat} {t : Session}
    (hrun : (resolveDocument ⟨root, lenient⟩ depth).runIn .empty = some (.ok found, t))
    (hstraight : RunsStraight ⟨root, lenient⟩ depth) :
    ∃ found', Reordered found found' ∧ ∃ enough, ∀ depth, enough ≤ depth →
      ∃ u, (resolveDocument ⟨root', lenient⟩ depth).runIn .empty = some (.ok found', u) := by
  have hmirrors : Mirrors ⟨root, lenient⟩ ⟨root', lenient⟩ Reordered (fun _ ↦ True)
      (fun _ ↦ True) := {
    faithful := Value.faithful_reordered
    null := (Value.reordered_scalar_iff rfl).mpr rfl
    root := h
    given := trivial
    member := fun _ _ _ _ ↦ trivial
    part := fun _ _ _ _ ↦ trivial
    node := fun hfirst hsecond hlookups _ _ _ _ found hplace hvw _ hcomes _ ↦
      resolveNode_follow hfirst hsecond hlookups hplace hvw found hcomes }
  exact hmirrors.document hrun hstraight trivial

/-- A reference to an object, and one from within it to a part of it. -/
def linked : Members Text Value :=
  [(⟨"a", false⟩, .substitution ⟨"b", false⟩),
    (⟨"b", false⟩, .object [(⟨"x", false⟩, .string ⟨"1", false⟩),
      (⟨"y", false⟩, .concatenation [.string ⟨"n", false⟩, .substitution ⟨"a.x", false⟩])])]

/-- The same members, the objects in them first. -/
def unlinked : Members Text Value :=
  [(⟨"b", false⟩, .object [
      (⟨"y", false⟩, .concatenation [.string ⟨"n", false⟩, .substitution ⟨"a.x", false⟩]),
      (⟨"x", false⟩, .string ⟨"1", false⟩)]),
    (⟨"a", false⟩, .substitution ⟨"b", false⟩)]

theorem resolveDocument_reordered_linked :
    ∃ found found' t, (resolveDocument ⟨.object linked, false⟩ 5).runIn .empty =
        some (.ok found, t) ∧ Reordered found found' ∧ ∃ enough, ∀ depth, enough ≤ depth →
          ∃ u, (resolveDocument ⟨.object unlinked, false⟩ depth).runIn .empty =
            some (.ok found', u) := by
  obtain ⟨found, t, hrun⟩ : ∃ found t,
      (resolveDocument ⟨.object linked, false⟩ 5).runIn .empty = some (.ok found, t) := ⟨_, _, rfl⟩
  have hreordered : Reordered (.object linked) (.object unlinked) := by
    simp [Reordered, Value.MembersReordered, Value.ItemsReordered, linked, unlinked, Members.get?,
      Named.name]
    decide
  obtain ⟨found', hrel, hagain⟩ := resolveDocument_reordered hreordered hrun ⟨_, rfl⟩
  exact ⟨found, found', t, hrun, hrel, hagain⟩

/-- Two members that override each other. -/
def twoWay : Members Text Value :=
  [(⟨"a", false⟩, .alternative (.int 1) ⟨"b", false⟩),
    (⟨"b", false⟩, .alternative (.int 2) ⟨"a", false⟩)]

/-- The default of the member that is visited second is what both come to. -/
theorem resolveDocument_twoWay_reverse :
    Reordered (.object twoWay) (.object twoWay.reverse) ∧
    (∃ t, (resolveDocument ⟨.object twoWay, false⟩ 4).runIn .empty =
      some (.ok (.object [(⟨"a", false⟩, .int 2), (⟨"b", false⟩, .int 2)]), t)) ∧
    ∃ t, (resolveDocument ⟨.object twoWay.reverse, false⟩ 4).runIn .empty =
      some (.ok (.object [(⟨"b", false⟩, .int 1), (⟨"a", false⟩, .int 1)]), t) := by
  refine ⟨?_, ⟨_, rfl⟩, ⟨_, rfl⟩⟩
  simp [Reordered, Value.MembersReordered, twoWay, Members.get?, Named.name]
  decide

end Resolver

end LayeredConfig
