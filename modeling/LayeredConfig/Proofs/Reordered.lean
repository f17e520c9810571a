import LayeredConfig.Proofs.Layer

/-!
# Documents in another order

Two values without arrays are reordered when they differ by the order of the
members of objects only, at any depth.  Layers of reordered objects are
reordered, and reordered fragments are joined to reordered values: texts are
made of scalars, which are equal.
-/

namespace LayeredConfig

namespace Value

mutual

/-- The second value is the first one with its members in some other order.
Neither holds an array. -/
def Reordered : Value → Value → Prop
  | .object members, other =>
    ∃ others, other = .object others ∧ (Members.keys members).Nodup ∧
      (members.map Prod.fst).Perm (others.map Prod.fst) ∧ MembersReordered members others
  | .array _, _ => False
  | .concatenation fragments, other =>
    ∃ others, other = .concatenation others ∧ ItemsReordered fragments others
  | .alternative default override, other =>
    ∃ standby, other = .alternative standby override ∧ Reordered default standby
  | v, other => other = v

/-- Every member of the first list is among the others, reordered. -/
def MembersReordered : List (Text × Value) → Members Text Value → Prop
  | [], _ => True
  | (key, v) :: rest, others =>
    (∃ w, others.get? key.content = some w ∧ Reordered v w) ∧ MembersReordered rest others

def ItemsReordered : List Value → List Value → Prop
  | [], others => others = []
  | v :: rest, others =>
    ∃ w after, others = w :: after ∧ Reordered v w ∧ ItemsReordered rest after

end

variable {members others : Members Text Value} {v w : Value}

theorem reordered_scalar_iff (hv : v.isScalar = true) : Reordered v w ↔ w = v := by
  cases v <;> first | exact Iff.rfl | cases hv

theorem reordered_substitution_iff {r : Reference} :
    Reordered (.substitution r) w ↔ w = .substitution r := Iff.rfl

theorem membersReordered_iff {members : List (Text × Value)} :
    MembersReordered members others ↔
      ∀ entry ∈ members, ∃ w, others.get? entry.1.content = some w ∧ Reordered entry.2 w := by
  induction members with
  | nil => simp [MembersReordered]
  | cons entry rest ih =>
      obtain ⟨key, v⟩ := entry
      rw [MembersReordered, List.forall_mem_cons, ih]

theorem itemsReordered_iff {items others : List Value} :
    ItemsReordered items others ↔ List.Forall₂ Reordered items others := by
  induction items generalizing others with
  | nil => rw [ItemsReordered, List.forall₂_nil_left_iff]
  | cons v rest ih =>
      rw [ItemsReordered, List.forall₂_cons_left_iff]
      constructor
      · rintro ⟨w, after, rfl, hvw, hrest⟩
        exact ⟨w, after, hvw, ih.mp hrest, rfl⟩
      · rintro ⟨w, after, hvw, hrest, rfl⟩
        exact ⟨w, after, rfl, hvw, ih.mpr hrest⟩

theorem Reordered.kind (h : Reordered v w) : w.kind = v.kind := by
  cases v with
  | object | concatenation | alternative =>
      rw [Reordered] at h
      obtain ⟨_, rfl, -⟩ := h
      rfl
  | array => exact h.elim
  | substitution => rw [reordered_substitution_iff.mp h]
  | _ => rw [(reordered_scalar_iff rfl).mp h]

theorem Reordered.isReference (h : Reordered v w) : w.isReference = v.isReference := by
  rw [Value.isReference, Value.isReference, h.kind]

theorem isObject_eq_kind (v : Value) : v.isObject = (v.kind == .object) := by
  cases v <;> rfl

theorem Reordered.isObject (h : Reordered v w) : w.isObject = v.isObject := by
  rw [isObject_eq_kind, isObject_eq_kind, h.kind]

/-! ## Objects -/

theorem keys_perm (h : (members.map Prod.fst).Perm (others.map Prod.fst)) :
    members.keys.Perm others.keys := by
  rw [Members.keys_eq_map, Members.keys_eq_map]
  exact h.map Text.content

/-- What reordered objects hold under a key. -/
theorem Reordered.get? (h : Reordered (.object members) (.object others)) (name : String) :
    Option.Rel Reordered (members.get? name) (others.get? name) := by
  rw [Reordered] at h
  obtain ⟨_, hothers, -, hperm, hmembers⟩ := h
  cases hothers
  cases hname : members.get? name with
  | none =>
      rw [Members.get?_eq_none_iff, (keys_perm hperm).mem_iff, ← Members.get?_eq_none_iff] at hname
      rw [hname]
      exact .none
  | some v =>
      clear hperm
      induction members with
      | nil => cases hname
      | cons entry rest ih =>
          obtain ⟨key, x⟩ := entry
          rw [MembersReordered] at hmembers
          obtain ⟨⟨w, hw, hxw⟩, hrest⟩ := hmembers
          by_cases hkey : key.content = name
          · subst hkey
            rw [Members.get?_cons_self] at hname
            cases hname
            rw [hw]
            exact .some hxw
          · rw [Members.get?_cons_ne hkey] at hname
            exact ih hrest hname

theorem reordered_object (hnodup : members.keys.Nodup)
    (hperm : (members.map Prod.fst).Perm (others.map Prod.fst))
    (hget : ∀ name, Option.Rel Reordered (members.get? name) (others.get? name)) :
    Reordered (.object members) (.object others) := by
  rw [Reordered]
  refine ⟨others, rfl, hnodup, hperm, membersReordered_iff.mpr fun entry hentry ↦ ?_⟩
  obtain ⟨key, v⟩ := entry
  have hkey := hget key.content
  rw [Members.get?_of_mem hnodup hentry] at hkey
  exact Members.optionRel_some_left_iff.mp hkey

theorem Reordered.nodup (h : Reordered (.object members) (.object others)) :
    members.keys.Nodup := by
  rw [Reordered] at h
  obtain ⟨_, -, hnodup, -⟩ := h
  exact hnodup

theorem Reordered.perm (h : Reordered (.object members) (.object others)) :
    (members.map Prod.fst).Perm (others.map Prod.fst) := by
  rw [Reordered] at h
  obtain ⟨_, hothers, -, hperm, -⟩ := h
  cases hothers
  exact hperm

/-- Of keys with distinct contents, those that one map has are those of another
map with the same contents. -/
theorem mem_of_mem_keys {keys : List Text} (hnodup : (keys.map Text.content).Nodup)
    (hmembers : members.map Prod.fst ⊆ keys) (hothers : others.map Prod.fst ⊆ keys)
    (hsame : ∀ name ∈ members.keys, name ∈ others.keys) {key : Text}
    (hkey : key ∈ members.map Prod.fst) : key ∈ others.map Prod.fst := by
  have hcontent : key.content ∈ members.keys := by
    rw [Members.keys_eq_map]
    exact List.mem_map_of_mem hkey
  have hother := hsame _ hcontent
  rw [Members.keys_eq_map] at hother
  obtain ⟨key', hkey', heq⟩ := List.mem_map.mp hother
  rwa [← List.inj_on_of_nodup_map hnodup (hothers hkey') (hmembers hkey) heq]

/-- What is left of reordered keys is reordered, if each key has related values. -/
theorem reordered_of_sublist {out out' : Members Text Value} (hnodup : members.keys.Nodup)
    (hperm : (members.map Prod.fst).Perm (others.map Prod.fst))
    (hout : (out.map Prod.fst).Sublist (members.map Prod.fst))
    (hout' : (out'.map Prod.fst).Sublist (others.map Prod.fst))
    (hget : ∀ name, Option.Rel Reordered (out.get? name) (out'.get? name)) :
    Reordered (.object out) (.object out') := by
  have hsame : ∀ name, name ∈ out.keys ↔ name ∈ out'.keys := by
    intro name
    have hname := hget name
    rw [← not_iff_not, ← Members.get?_eq_none_iff, ← Members.get?_eq_none_iff]
    generalize out.get? name = here, out'.get? name = there at hname ⊢
    cases hname <;> simp
  rw [Members.keys_eq_map] at hnodup
  have hkeys := hnodup.of_map
  have hsubset := hout.subset
  have hsubset' : out'.map Prod.fst ⊆ members.map Prod.fst :=
    fun key hkey ↦ hperm.mem_iff.mpr (hout'.subset hkey)
  refine reordered_object ?_ ?_ hget
  · rw [Members.keys_eq_map]
    exact hnodup.sublist (hout.map Text.content)
  · rw [List.perm_ext_iff_of_nodup (hkeys.sublist hout)
      ((hperm.nodup hkeys).sublist hout')]
    exact fun key ↦ ⟨mem_of_mem_keys hnodup hsubset hsubset' fun name ↦ (hsame name).mp,
      mem_of_mem_keys hnodup hsubset' hsubset fun name ↦ (hsame name).mpr⟩

/-! ## Layers -/

section Layers

variable {upper lower upper' lower' : Members Text Value}

theorem layer_perm (hupper : Reordered (.object upper) (.object upper'))
    (hlower : Reordered (.object lower) (.object lower')) :
    ((layer upper lower).map Prod.fst).Perm ((layer upper' lower').map Prod.fst) := by
  rw [map_fst_layer hupper.nodup, map_fst_layer ((keys_perm hupper.perm).nodup hupper.nodup)]
  have hsame : (fun key : Text ↦ decide (key.content ∉ lower.keys)) =
      fun key ↦ decide (key.content ∉ lower'.keys) := by
    funext key
    exact decide_eq_decide.mpr (not_congr (keys_perm hlower.perm).mem_iff)
  rw [hsame]
  exact hlower.perm.append (hupper.perm.filter _)

theorem reordered_layer (hupper : Reordered (.object upper) (.object upper'))
    (hlower : Reordered (.object lower) (.object lower'))
    (hoverlay : ∀ entry ∈ upper, ∀ {v' w w'}, Reordered entry.2 v' → Reordered w w' →
      Reordered (entry.2.overlay w) (v'.overlay w')) :
    Reordered (.object (layer upper lower)) (.object (layer upper' lower')) := by
  refine reordered_object (keys_layer_nodup hupper.nodup hlower.nodup) (layer_perm hupper hlower)
    fun name ↦ ?_
  rw [get?_layer hupper.nodup, get?_layer ((keys_perm hupper.perm).nodup hupper.nodup)]
  have hover := hupper.get? name
  have hunder := hlower.get? name
  cases hv : upper.get? name with
  | none =>
      rw [hv] at hover
      rw [Members.optionRel_none_left_iff.mp hover]
      exact hunder
  | some v =>
      obtain ⟨key, -, hmem⟩ := Members.exists_key_of_get? hv
      rw [hv] at hover
      obtain ⟨v', hv', hvv⟩ := Members.optionRel_some_left_iff.mp hover
      rw [hv']
      generalize lower.get? name = under, lower'.get? name = under' at hunder ⊢
      cases hunder with
      | none => exact .some hvv
      | some hww => exact .some (hoverlay (key, v) hmem hvv hww)

theorem Reordered.overlay {v' w' : Value} (hv : Reordered v v') (hw : Reordered w w') :
    Reordered (v.overlay w) (v'.overlay w') := by
  induction v using tree_induction generalizing v' w w' with
  | object members ih =>
      have hv_object := hv.isObject
      obtain ⟨members', rfl⟩ := Value.exists_object hv_object
      cases hobject : w.isObject with
      | false =>
          rw [overlay_over_not_object _ hobject,
            overlay_over_not_object _ (hw.isObject.trans hobject)]
          exact hv
      | true =>
          have hw_object := hw.isObject.trans hobject
          cases w <;> simp only [Value.isObject, Bool.false_eq_true] at hobject
          cases w' <;> simp only [Value.isObject, Bool.false_eq_true] at hw_object
          rw [overlay_object, overlay_object]
          exact reordered_layer hv hw fun entry hentry v' w w' ↦ ih entry hentry
  | scalar v hscalar =>
      have hobject := isObject_of_isScalar hscalar
      rw [overlay_of_not_object hobject, overlay_of_not_object (hv.isObject.trans hobject)]
      exact hv
  | _ =>
      rw [overlay_of_not_object rfl, overlay_of_not_object hv.isObject]
      exact hv

end Layers

end Value

namespace Fragments

open Value (Reordered)

variable {fragments others : List Value}

theorem allMembers_reordered (h : List.Forall₂ Reordered fragments others)
    {layers : List (Members Text Value)} (hlayers : allMembers fragments = .ok layers) :
    ∃ layers', allMembers others = .ok layers' ∧
      List.Forall₂ (fun upper upper' ↦ Reordered (.object upper) (.object upper'))
        layers layers' := by
  induction h generalizing layers with
  | nil =>
      cases hlayers
      exact ⟨[], rfl, .nil⟩
  | @cons v w rest rest' hvw _ ih =>
      cases v <;> simp only [allMembers, reduceCtorEq] at hlayers
      case object members =>
        have hobject := hvw.isObject
        obtain ⟨members', rfl⟩ := Value.exists_object hobject
        cases hrest : allMembers rest with
        | error x =>
            rw [hrest] at hlayers
            cases hlayers
        | ok below =>
            rw [hrest] at hlayers
            cases hlayers
            obtain ⟨below', hbelow', hall⟩ := ih hrest
            exact ⟨members' :: below', by rw [allMembers, hbelow']; rfl, .cons hvw hall⟩

theorem layerAll_reordered {layers layers' : List (Members Text Value)}
    (h : List.Forall₂ (fun upper upper' ↦ Reordered (.object upper) (.object upper'))
      layers layers') : Reordered (.object (layerAll layers)) (.object (layerAll layers')) := by
  cases h with
  | nil => exact Value.reordered_object List.nodup_nil .nil fun _ ↦ .none
  | @cons first first' rest rest' hfirst hrest =>
      rw [layerAll, layerAll]
      induction hrest generalizing first first' with
      | nil => exact hfirst
      | @cons next next' _ _ hnext _ ih =>
          refine ih ?_
          exact Value.reordered_layer hnext hfirst fun _ _ _ _ _ hv hw ↦ hv.overlay hw

theorem any_reordered (h : List.Forall₂ Reordered fragments others) {p : Value → Bool}
    (hp : ∀ {v w}, Reordered v w → p w = p v) : others.any p = fragments.any p := by
  induction h with
  | nil => rfl
  | cons hvw _ ih => rw [List.any_cons, List.any_cons, hp hvw, ih]

/-- Fragments that hold neither objects nor references are equal if they are
reordered. -/
theorem eq_of_reordered (h : List.Forall₂ Reordered fragments others)
    (hobject : fragments.any Value.isObject = false)
    (hreference : fragments.any Value.isReference = false) : others = fragments := by
  induction h with
  | nil => rfl
  | @cons v w _ _ hvw _ ih =>
      rw [List.any_cons, Bool.or_eq_false_iff] at hobject hreference
      rw [ih hobject.2 hreference.2]
      cases v with
      | object => cases hobject.1
      | substitution | concatenation | alternative => cases hreference.1
      | array => exact hvw.elim
      | _ => rw [(Value.reordered_scalar_iff rfl).mp hvw]

theorem join_reordered (h : List.Forall₂ Reordered fragments others)
    (hreference : fragments.any Value.isReference = false) {v : Value}
    (hv : join fragments = .ok v) : ∃ w, join others = .ok w ∧ Reordered v w := by
  have hobjects := any_reordered h Value.Reordered.isObject
  cases hobject : fragments.any Value.isObject with
  | false =>
      rw [eq_of_reordered h hobject hreference]
      refine ⟨v, hv, ?_⟩
      unfold join joinTexts at hv
      rw [hobject] at hv
      split at hv
      · cases hv
      · simp only [Bool.not_false, if_true] at hv
        split at hv <;> cases hv
        exact (Value.reordered_scalar_iff rfl).mpr rfl
  | true =>
      have hempty : others.isEmpty = fragments.isEmpty := by
        cases h <;> rfl
      unfold join at hv ⊢
      rw [hempty, hobjects]
      rw [hobject] at hv ⊢
      split at hv
      · cases hv
      · simp only [Bool.not_true, if_false, Bool.false_eq_true] at hv ⊢
        split at hv
        · rename_i layers hlayers
          cases hv
          obtain ⟨layers', hlayers', hall⟩ := allMembers_reordered h hlayers
          rw [hlayers', if_neg ‹_›]
          exact ⟨_, rfl, layerAll_reordered hall⟩
        · split at hv <;> cases hv

end Fragments

end LayeredConfig
