import LayeredConfig.Proofs.Json.Canonical

/-!
# Values that are alike

Two values are alike when they differ by the order of members and by the signs
of zeros at most, at any depth.  Values without a NaN are the same exactly if
they are alike, so sameness is an equivalence on them, and layers of objects that
are the same are the same.
-/

namespace LayeredConfig

namespace Binary

variable {f : Format} {x y : Binary f}

/-- Zero with either sign. -/
def isZero : Binary f → Bool
  | .finite _ code => code.val == 0
  | _ => false

/-- Numbers that differ by the sign of a zero at most. -/
def AlikeNumber (x y : Binary f) : Prop := x = y ∨ x.isZero = true ∧ y.isZero = true

theorem AlikeNumber.symm (h : x.AlikeNumber y) : y.AlikeNumber x :=
  h.imp Eq.symm And.symm

theorem AlikeNumber.trans {z : Binary f} (hxy : x.AlikeNumber y) (hyz : y.AlikeNumber z) :
    x.AlikeNumber z := by
  rcases hxy with rfl | ⟨hx, hy⟩
  · exact hyz
  · rcases hyz with rfl | ⟨-, hz⟩
    · exact Or.inr ⟨hx, hy⟩
    · exact Or.inr ⟨hx, hz⟩

theorem sameNumber_iff (hx : x.isNaN = false) : x.sameNumber y = true ↔ x.AlikeNumber y := by
  cases x with
  | nan origin => cases hx
  | infinite s => cases y <;> simp [sameNumber, AlikeNumber, isZero]
  | finite s c =>
      cases y with
      | finite t d =>
          simp only [sameNumber, AlikeNumber, isZero, Bool.and_eq_true, Bool.or_eq_true, beq_iff_eq,
            finite.injEq]
          constructor
          · rintro ⟨rfl, rfl | hzero⟩
            · exact Or.inl ⟨rfl, rfl⟩
            · exact Or.inr ⟨hzero, hzero⟩
          · rintro (⟨rfl, rfl⟩ | ⟨hc, hd⟩)
            · exact ⟨rfl, Or.inl rfl⟩
            · exact ⟨Fin.ext (hc.trans hd.symm), Or.inr hc⟩
      | _ => simp [sameNumber, AlikeNumber, isZero]

end Binary

namespace Value

/-- The two values are one, up to the order of the members of objects and the
signs of zeros. -/
inductive Alike : Value → Value → Prop
  | null : Alike .null .null
  | boolean (b : Bool) : Alike (.boolean b) (.boolean b)
  | string {s t : Text} (h : s.content = t.content) : Alike (.string s) (.string t)
  | int (n : Int) : Alike (.int n) (.int n)
  | single {x y : Single} (h : x.AlikeNumber y) : Alike (.single x) (.single y)
  | double {x y : Double} (h : x.AlikeNumber y) : Alike (.double x) (.double y)
  | duration (n : Int) : Alike (.duration n) (.duration n)
  /-- The same keys, in any order, with alike values. -/
  | object {members others : Members Text Value} (hkeys : members.keys.Perm others.keys)
      (h : ∀ a ∈ members, ∀ b ∈ others, a.1.content = b.1.content → Alike a.2 b.2) :
      Alike (.object members) (.object others)
  | array {elements others : List Value} (hlength : elements.length = others.length)
      (h : ∀ i (hi : i < elements.length) (hj : i < others.length),
        Alike (elements.get ⟨i, hi⟩) (others.get ⟨i, hj⟩)) :
      Alike (.array elements) (.array others)
  | substitution (r : Reference) : Alike (.substitution r) (.substitution r)
  | concatenation {fragments others : List Value} (hlength : fragments.length = others.length)
      (h : ∀ i (hi : i < fragments.length) (hj : i < others.length),
        Alike (fragments.get ⟨i, hi⟩) (others.get ⟨i, hj⟩)) :
      Alike (.concatenation fragments) (.concatenation others)
  | alternative {default standby : Value} (h : Alike default standby) (r : Reference) :
      Alike (.alternative default r) (.alternative standby r)

def isNaN : Value → Bool
  | .single x => x.isNaN
  | .double x => x.isNaN
  | _ => false

/-- A value of a document without a NaN. -/
structure Comparable (v : Value) : Prop where
  wellFormed : v.wellFormed = true
  numbers : v.Everywhere fun part ↦ part.isNaN = false

variable {v w x : Value} {members others : Members Text Value} {elements items : List Value}

/-! ## Parts of comparable values -/

theorem comparable_inherited : Inherited List.Nodup Comparable where
  object_iff members := by
    constructor
    · rintro ⟨hwell, hnumbers⟩
      rw [wellFormed_object_iff] at hwell
      rw [everywhere_object_iff] at hnumbers
      exact ⟨hwell.1, fun entry hentry ↦ ⟨hwell.2 entry hentry, hnumbers.2 entry hentry⟩⟩
    · rintro ⟨hnodup, hmembers⟩
      exact ⟨wellFormed_object_iff.mpr ⟨hnodup, fun entry hentry ↦ (hmembers entry hentry).1⟩,
        everywhere_object_iff.mpr ⟨rfl, fun entry hentry ↦ (hmembers entry hentry).2⟩⟩
  empty := wellFormed_inherited.empty
  put := wellFormed_inherited.put

theorem Comparable.keys_nodup (h : (object members).Comparable) : members.keys.Nodup :=
  ((comparable_inherited.object_iff members).mp h).1

theorem Comparable.member (h : (object members).Comparable) {entry : Text × Value}
    (hentry : entry ∈ members) : entry.2.Comparable :=
  ((comparable_inherited.object_iff members).mp h).2 entry hentry

theorem Comparable.element (h : (array elements).Comparable) (hv : v ∈ elements) :
    v.Comparable := by
  obtain ⟨hwell, hnumbers⟩ := h
  rw [Value.wellFormed, elementsWellFormed_iff] at hwell
  rw [everywhere_array_iff] at hnumbers
  exact ⟨hwell v hv, hnumbers.2 v hv⟩

theorem Comparable.fragment (h : (concatenation elements).Comparable) (hv : v ∈ elements) :
    v.Comparable := by
  obtain ⟨hwell, hnumbers⟩ := h
  rw [Value.wellFormed, Bool.and_eq_true, elementsWellFormed_iff] at hwell
  rw [everywhere_concatenation_iff] at hnumbers
  exact ⟨hwell.2 v hv, hnumbers.2 v hv⟩

theorem Comparable.default {r : Reference} (h : (alternative v r).Comparable) : v.Comparable := by
  obtain ⟨hwell, hnumbers⟩ := h
  rw [Value.wellFormed] at hwell
  rw [everywhere_alternative_iff] at hnumbers
  exact ⟨hwell, hnumbers.2.2⟩

theorem Comparable.isNaN (h : v.Comparable) : v.isNaN = false := h.numbers v (self_mem_parts v)

/-! ## An equivalence -/

theorem Alike.kind (h : v.Alike w) : v.kind = w.kind := by
  cases h <;> rfl

theorem alike_self (h : v.wellFormed = true) : v.Alike v := by
  induction v using tree_induction with
  | object members ih =>
      obtain ⟨hnodup, hmembers⟩ := wellFormed_object_iff.mp h
      refine .object (List.Perm.refl _) fun a ha b hb hkey ↦ ?_
      obtain rfl := List.inj_on_of_nodup_map hnodup ha hb hkey
      exact ih a ha (hmembers a ha)
  | array elements ih =>
      rw [Value.wellFormed, elementsWellFormed_iff] at h
      exact .array rfl fun i hi _ ↦ ih _ (List.get_mem _ _) (h _ (List.get_mem _ _))
  | substitution r => exact .substitution r
  | concatenation fragments ih =>
      rw [Value.wellFormed, Bool.and_eq_true, elementsWellFormed_iff] at h
      exact .concatenation rfl fun i hi _ ↦ ih _ (List.get_mem _ _) (h.2 _ (List.get_mem _ _))
  | alternative default override ih => exact .alternative (ih h) override
  | scalar v hv =>
      cases v with
      | null => exact .null
      | boolean b => exact .boolean b
      | string s => exact .string rfl
      | int n => exact .int n
      | single x => exact .single (Or.inl rfl)
      | double x => exact .double (Or.inl rfl)
      | duration n => exact .duration n
      | _ => cases hv

theorem Alike.symm (h : v.Alike w) : w.Alike v := by
  induction h with
  | null => exact .null
  | boolean b => exact .boolean b
  | string h => exact .string h.symm
  | int n => exact .int n
  | single h => exact .single h.symm
  | double h => exact .double h.symm
  | duration n => exact .duration n
  | object hkeys h ih => exact .object hkeys.symm fun b hb a ha hkey ↦ ih a ha b hb hkey.symm
  | array hlength h ih => exact .array hlength.symm fun i hi hj ↦ ih i hj hi
  | substitution r => exact .substitution r
  | concatenation hlength h ih => exact .concatenation hlength.symm fun i hi hj ↦ ih i hj hi
  | alternative h r ih => exact .alternative ih r

theorem Alike.trans (hvw : v.Alike w) (hwx : w.Alike x) : v.Alike x := by
  induction hvw generalizing x with
  | string h =>
      cases hwx with
      | string h' => exact .string (h.trans h')
  | single h =>
      cases hwx with
      | single h' => exact .single (h.trans h')
  | double h =>
      cases hwx with
      | double h' => exact .double (h.trans h')
  | object hkeys h ih =>
      cases hwx with
      | object hkeys' h' =>
          refine .object (hkeys.trans hkeys') fun a ha c hc hkey ↦ ?_
          obtain ⟨b, hb, hkey'⟩ :=
            Members.exists_entry_of_mem_keys (hkeys.subset (List.mem_map_of_mem ha))
          exact ih a ha b hb hkey'.symm (h' b hb c hc (hkey'.trans hkey))
  | array hlength h ih =>
      cases hwx with
      | array hlength' h' =>
          exact .array (hlength.trans hlength') fun i hi hj ↦
            ih i hi (hlength ▸ hi) (h' i (hlength ▸ hi) hj)
  | concatenation hlength h ih =>
      cases hwx with
      | concatenation hlength' h' =>
          exact .concatenation (hlength.trans hlength') fun i hi hj ↦
            ih i hi (hlength ▸ hi) (h' i (hlength ▸ hi) hj)
  | alternative h r ih =>
      cases hwx with
      | alternative h' => exact .alternative (ih h') r
  | _ => exact hwx

/-! ## Sameness -/

theorem same_object_iff (hnodup : members.keys.Nodup) (hnodup' : others.keys.Nodup) :
    (object members).same (.object others) = true ↔ members.keys.Perm others.keys ∧
      ∀ a ∈ members, ∀ b ∈ others, a.1.content = b.1.content → a.2.same b.2 = true := by
  constructor
  · intro h
    refine ⟨keys_perm_of_same hnodup h, fun a ha b hb hkey ↦ ?_⟩
    rw [same, Bool.and_eq_true, sameMembers_iff] at h
    obtain ⟨w, hw, hsame⟩ := h.2 a ha
    rw [hkey, Members.get?_of_mem hnodup' hb] at hw
    rwa [Option.some.inj hw]
  · rintro ⟨hkeys, h⟩
    have hlength := hkeys.length_eq
    rw [Members.length_keys, Members.length_keys] at hlength
    rw [same, Bool.and_eq_true, beq_iff_eq, sameMembers_iff]
    refine ⟨hlength, fun a ha ↦ ?_⟩
    obtain ⟨b, hb, hkey⟩ := Members.exists_entry_of_mem_keys (hkeys.subset (List.mem_map_of_mem ha))
    refine ⟨b.2, ?_, h a ha b hb hkey.symm⟩
    rw [← Members.get?_of_mem hnodup' hb]
    exact congrArg others.get? hkey.symm

theorem sameElements_iff_get : sameElements elements items = true ↔
    elements.length = items.length ∧ ∀ i (hi : i < elements.length) (hj : i < items.length),
      (elements.get ⟨i, hi⟩).same (items.get ⟨i, hj⟩) = true := by
  rw [sameElements_iff, List.forall₂_iff_get]

theorem kind_eq_of_same (h : v.same w = true) : v.kind = w.kind := by
  cases v <;> cases w <;> first | rfl | cases h

theorem alike_object_iff : (object members).Alike (.object others) ↔
    members.keys.Perm others.keys ∧
      ∀ a ∈ members, ∀ b ∈ others, a.1.content = b.1.content → a.2.Alike b.2 :=
  ⟨fun | .object hkeys h => ⟨hkeys, h⟩, fun h ↦ .object h.1 h.2⟩

theorem alike_array_iff : (array elements).Alike (.array items) ↔
    elements.length = items.length ∧ ∀ i (hi : i < elements.length) (hj : i < items.length),
      (elements.get ⟨i, hi⟩).Alike (items.get ⟨i, hj⟩) :=
  ⟨fun | .array hlength h => ⟨hlength, h⟩, fun h ↦ .array h.1 h.2⟩

theorem alike_concatenation_iff : (concatenation elements).Alike (.concatenation items) ↔
    elements.length = items.length ∧ ∀ i (hi : i < elements.length) (hj : i < items.length),
      (elements.get ⟨i, hi⟩).Alike (items.get ⟨i, hj⟩) :=
  ⟨fun | .concatenation hlength h => ⟨hlength, h⟩, fun h ↦ .concatenation h.1 h.2⟩

theorem alike_alternative_iff {r r' : Reference} :
    (alternative v r).Alike (.alternative w r') ↔ v.Alike w ∧ r = r' := by
  constructor
  · rintro (_ | _)
    exact ⟨‹_›, rfl⟩
  · rintro ⟨h, rfl⟩
    exact .alternative h r

theorem alike_boolean_iff {a b : Bool} : (boolean a).Alike (.boolean b) ↔ a = b :=
  ⟨fun | .boolean _ => rfl, fun h ↦ h ▸ .boolean a⟩

theorem alike_string_iff {s t : Text} : (string s).Alike (.string t) ↔ s.content = t.content :=
  ⟨fun | .string h => h, .string⟩

theorem alike_int_iff {m n : Int} : (int m).Alike (.int n) ↔ m = n :=
  ⟨fun | .int _ => rfl, fun h ↦ h ▸ .int m⟩

theorem alike_single_iff {x y : Single} : (single x).Alike (.single y) ↔ x.AlikeNumber y :=
  ⟨fun | .single h => h, .single⟩

theorem alike_double_iff {x y : Double} : (double x).Alike (.double y) ↔ x.AlikeNumber y :=
  ⟨fun | .double h => h, .double⟩

theorem alike_duration_iff {m n : Int} : (duration m).Alike (.duration n) ↔ m = n :=
  ⟨fun | .duration _ => rfl, fun h ↦ h ▸ .duration m⟩

theorem alike_substitution_iff {r r' : Reference} :
    (substitution r).Alike (.substitution r') ↔ r = r' :=
  ⟨fun | .substitution _ => rfl, fun h ↦ h ▸ .substitution r⟩

theorem same_iff_alike_of_kind_ne (h : v.kind ≠ w.kind) : v.same w = true ↔ v.Alike w :=
  iff_of_false (fun hsame ↦ h (kind_eq_of_same hsame)) fun halike ↦ h halike.kind

theorem same_scalar_iff (hv : v.isScalar = true) (hnumber : v.isNaN = false) :
    v.same w = true ↔ v.Alike w := by
  by_cases hkind : v.kind = w.kind
  · cases v with
    | null =>
        cases w with
        | null => exact iff_of_true rfl .null
        | _ => cases hkind
    | boolean a =>
        cases w with
        | boolean b => rw [same, beq_iff_eq, alike_boolean_iff]
        | _ => cases hkind
    | string s =>
        cases w with
        | string t => rw [same, beq_iff_eq, alike_string_iff]
        | _ => cases hkind
    | int m =>
        cases w with
        | int n => rw [same, beq_iff_eq, alike_int_iff]
        | _ => cases hkind
    | single x =>
        cases w with
        | single y => rw [same, Binary.sameNumber_iff hnumber, alike_single_iff]
        | _ => cases hkind
    | double x =>
        cases w with
        | double y => rw [same, Binary.sameNumber_iff hnumber, alike_double_iff]
        | _ => cases hkind
    | duration m =>
        cases w with
        | duration n => rw [same, beq_iff_eq, alike_duration_iff]
        | _ => cases hkind
    | _ => cases hv
  · exact same_iff_alike_of_kind_ne hkind

/-- Values without a NaN are the same exactly if they are alike. -/
theorem same_iff_alike (hv : v.Comparable) (hw : w.Comparable) :
    v.same w = true ↔ v.Alike w := by
  induction v using tree_induction generalizing w with
  | object members ih =>
      cases w with
      | object others =>
          rw [same_object_iff hv.keys_nodup hw.keys_nodup, alike_object_iff]
          refine and_congr_right fun _ ↦ forall₂_congr fun a ha ↦ forall₂_congr fun b hb ↦ ?_
          exact imp_congr_right fun _ ↦ ih a ha (hv.member ha) (hw.member hb)
      | _ => exact same_iff_alike_of_kind_ne (by rintro ⟨⟩)
  | array elements ih =>
      cases w with
      | array items =>
          rw [same, sameElements_iff_get, alike_array_iff]
          refine and_congr_right fun _ ↦ forall₃_congr fun i hi hj ↦ ?_
          exact ih _ (List.get_mem _ _) (hv.element (List.get_mem _ _))
            (hw.element (List.get_mem _ _))
      | _ => exact same_iff_alike_of_kind_ne (by rintro ⟨⟩)
  | substitution r =>
      cases w with
      | substitution r' => rw [same, beq_iff_eq, alike_substitution_iff]
      | _ => exact same_iff_alike_of_kind_ne (by rintro ⟨⟩)
  | concatenation fragments ih =>
      cases w with
      | concatenation items =>
          rw [same, sameElements_iff_get, alike_concatenation_iff]
          refine and_congr_right fun _ ↦ forall₃_congr fun i hi hj ↦ ?_
          exact ih _ (List.get_mem _ _) (hv.fragment (List.get_mem _ _))
            (hw.fragment (List.get_mem _ _))
      | _ => exact same_iff_alike_of_kind_ne (by rintro ⟨⟩)
  | alternative default override ih =>
      cases w with
      | alternative standby override' =>
          rw [same, Bool.and_eq_true, beq_iff_eq, ih hv.default hw.default, alike_alternative_iff]
      | _ => exact same_iff_alike_of_kind_ne (by rintro ⟨⟩)
  | scalar v hscalar => exact same_scalar_iff hscalar hv.isNaN

/-! ## Layers of values that are alike -/

theorem mem_keys_iff_of_optionRel {name : String}
    (h : Option.Rel Alike (members.get? name) (others.get? name)) :
    name ∈ members.keys ↔ name ∈ others.keys := by
  rw [← not_iff_not, ← Members.get?_eq_none_iff, ← Members.get?_eq_none_iff]
  generalize members.get? name = here, others.get? name = there at h ⊢
  cases h <;> simp

/-- Objects are alike when what they hold under each key is. -/
theorem alike_object_iff_get? (hnodup : members.keys.Nodup) (hnodup' : others.keys.Nodup) :
    (object members).Alike (.object others) ↔
      ∀ name, Option.Rel Alike (members.get? name) (others.get? name) := by
  rw [alike_object_iff]
  constructor
  · rintro ⟨hkeys, h⟩ name
    cases hname : members.get? name with
    | none =>
        rw [Members.get?_eq_none_iff, hkeys.mem_iff, ← Members.get?_eq_none_iff] at hname
        rw [hname]
        exact .none
    | some v =>
        obtain ⟨key, rfl, ha⟩ := Members.exists_key_of_get? hname
        obtain ⟨b, hb, hkey⟩ :=
          Members.exists_entry_of_mem_keys (hkeys.subset (List.mem_map_of_mem ha))
        have hb' : others.get? key.content = some b.2 := by
          rw [← Members.get?_of_mem hnodup' hb]
          exact congrArg others.get? hkey.symm
        rw [hb']
        exact .some (h (key, v) ha b hb hkey.symm)
  · intro h
    refine ⟨(List.perm_ext_iff_of_nodup hnodup hnodup').mpr fun name ↦
      mem_keys_iff_of_optionRel (h name), fun a ha b hb hkey ↦ ?_⟩
    have hab := h a.1.content
    rw [Members.get?_of_mem hnodup ha, hkey, Members.get?_of_mem hnodup' hb] at hab
    exact Option.rel_some_some.mp hab

section Layers

variable {upper lower upper' lower' : Members Text Value} {v' w' : Value}

theorem alike_layer_of_overlay (hupper : (object upper).wellFormed = true)
    (hlower : (object lower).wellFormed = true) (hupper' : (object upper').wellFormed = true)
    (hlower' : (object lower').wellFormed = true) (hover : (object upper).Alike (.object upper'))
    (hunder : (object lower).Alike (.object lower'))
    (h : ∀ {name v v' w w'}, upper.get? name = some v → upper'.get? name = some v' →
      lower.get? name = some w → lower'.get? name = some w' → v.Alike v' → w.Alike w' →
        (v.overlay w).Alike (v'.overlay w')) :
    (object (layer upper lower)).Alike (.object (layer upper' lower')) := by
  have hu := (wellFormed_object_iff.mp hupper).1
  have hl := (wellFormed_object_iff.mp hlower).1
  have hu' := (wellFormed_object_iff.mp hupper').1
  have hl' := (wellFormed_object_iff.mp hlower').1
  rw [alike_object_iff_get? hu hu'] at hover
  rw [alike_object_iff_get? hl hl'] at hunder
  rw [alike_object_iff_get? (keys_layer_nodup hu hl) (keys_layer_nodup hu' hl')]
  intro name
  rw [get?_layer hu, get?_layer hu']
  have habove := hover name
  have hbelow := hunder name
  cases hv : upper.get? name with
  | none =>
      rw [hv] at habove
      rwa [Members.optionRel_none_left_iff.mp habove]
  | some v =>
      rw [hv] at habove
      obtain ⟨v', hv', hvv⟩ := Members.optionRel_some_left_iff.mp habove
      rw [hv']
      cases hw : lower.get? name with
      | none =>
          rw [hw] at hbelow
          rw [Members.optionRel_none_left_iff.mp hbelow]
          exact .some hvv
      | some w =>
          rw [hw] at hbelow
          obtain ⟨w', hw', hww⟩ := Members.optionRel_some_left_iff.mp hbelow
          rw [hw']
          exact .some (h hv hv' hw hw' hvv hww)

theorem Alike.isObject (h : v.Alike w) : v.isObject = w.isObject := by
  cases h <;> rfl

/-- Unless both values are objects, the upper one shows. -/
theorem alike_overlay_of_not_object (hv : v.Alike v') (hw : w.Alike w')
    (h : v.isObject = false ∨ w.isObject = false) : (v.overlay w).Alike (v'.overlay w') := by
  rcases h with h | h
  · rwa [overlay_of_not_object h, overlay_of_not_object (hv.isObject ▸ h)]
  · rwa [overlay_over_not_object _ h, overlay_over_not_object _ (hw.isObject ▸ h)]

theorem Alike.overlay (hv : v.Alike v') (hw : w.Alike w') (hvwell : v.wellFormed = true)
    (hvwell' : v'.wellFormed = true) (hwwell : w.wellFormed = true)
    (hwwell' : w'.wellFormed = true) : (v.overlay w).Alike (v'.overlay w') := by
  induction v using tree_induction generalizing v' w w' with
  | object members ih =>
      cases hobject : w.isObject with
      | false => exact alike_overlay_of_not_object hv hw (Or.inr hobject)
      | true =>
          obtain ⟨members', rfl⟩ := exists_object hv.isObject.symm
          obtain ⟨base, rfl⟩ := exists_object hobject
          obtain ⟨base', rfl⟩ := exists_object hw.isObject.symm
          rw [overlay_object, overlay_object]
          refine alike_layer_of_overlay hvwell hwwell hvwell' hwwell' hv hw ?_
          intro name v v' w w' hget hget' hbase hbase' hvv hww
          obtain ⟨key, -, hmem⟩ := Members.exists_key_of_get? hget
          exact ih (key, v) hmem hvv hww (wellFormed_inherited.of_get? hvwell hget)
            (wellFormed_inherited.of_get? hvwell' hget')
            (wellFormed_inherited.of_get? hwwell hbase)
            (wellFormed_inherited.of_get? hwwell' hbase')
  | scalar v hscalar =>
      exact alike_overlay_of_not_object hv hw (Or.inl (isObject_of_isScalar hscalar))
  | _ => exact alike_overlay_of_not_object hv hw (Or.inl rfl)

theorem alike_layer (hover : (object upper).Alike (.object upper'))
    (hunder : (object lower).Alike (.object lower')) (hupper : (object upper).wellFormed = true)
    (hupper' : (object upper').wellFormed = true) (hlower : (object lower).wellFormed = true)
    (hlower' : (object lower').wellFormed = true) :
    (object (layer upper lower)).Alike (.object (layer upper' lower')) := by
  simpa only [overlay_object] using hover.overlay hunder hupper hupper' hlower hlower'

/-- Sameness of values without a NaN is likeness, and so an equivalence; values of
different kinds are never the same; and layers of the same objects are the same. -/
theorem same_equivalence :
    (Equivalence fun v w : {v : Value // v.Comparable} ↦ v.1.same w.1 = true) ∧
    (∀ v w : Value, v.Comparable → w.Comparable → (v.same w = true ↔ v.Alike w)) ∧
    (∀ v w : Value, v.same w = true → v.kind = w.kind) ∧
    ∀ upper upper' lower lower' : Members Text Value, (object upper).Comparable →
      (object upper').Comparable → (object lower).Comparable → (object lower').Comparable →
        (object upper).same (.object upper') = true →
          (object lower).same (.object lower') = true →
            (object (layer upper lower)).same (.object (layer upper' lower')) = true := by
  refine ⟨⟨?_, ?_, ?_⟩, fun v w ↦ same_iff_alike, fun v w ↦ kind_eq_of_same, ?_⟩
  · rintro ⟨v, hv⟩
    exact (same_iff_alike hv hv).mpr (alike_self hv.wellFormed)
  · rintro ⟨v, hv⟩ ⟨w, hw⟩ h
    exact (same_iff_alike hw hv).mpr ((same_iff_alike hv hw).mp h).symm
  · rintro ⟨v, hv⟩ ⟨w, hw⟩ ⟨x, hx⟩ hvw hwx
    exact (same_iff_alike hv hx).mpr
      (((same_iff_alike hv hw).mp hvw).trans ((same_iff_alike hw hx).mp hwx))
  · intro upper upper' lower lower' hupper hupper' hlower hlower' hover hunder
    have hlayer := comparable_inherited.layer (fun _ ↦ hupper.member) hlower
    have hlayer' := comparable_inherited.layer (fun _ ↦ hupper'.member) hlower'
    have halike := (same_iff_alike hupper hupper').mp hover
    have halike' := (same_iff_alike hlower hlower').mp hunder
    exact (same_iff_alike hlayer hlayer').mpr (alike_layer halike halike' hupper.wellFormed
      hupper'.wellFormed hlower.wellFormed hlower'.wellFormed)

/-- Keys in two orders and zeros of both signs, over fallbacks in two orders. -/
theorem same_equivalence_zeros :
    (object (layer
        [("a", object [("b", double (.zero .double true)), ("c", int 1)]), ("d", null)]
        [("e", boolean true), ("a", object [("c", int 2), ("f", int 3)])])).same
      (object (layer
        [("d", null), ("a", object [("c", int 1), ("b", double (.zero .double false))])]
        [("a", object [("f", int 3), ("c", int 2)]), ("e", boolean true)])) = true :=
  same_equivalence.2.2.2 _ _ _ _ ⟨by decide, by decide⟩ ⟨by decide, by decide⟩
    ⟨by decide, by decide⟩ ⟨by decide, by decide⟩ (by decide) (by decide)

end Layers

end Value

end LayeredConfig
