import LayeredConfig.Proofs.Lookup

/-!
# Trees of values

Induction over values, where what holds of all parts of a container may be used
for the container, what it is for a container to be well formed, and the parts
of a value.
-/

namespace LayeredConfig.Value

/-- A value that holds no other value and refers to none. -/
def isScalar : Value → Bool
  | .object _ | .array _ | .substitution _ | .concatenation _ | .alternative .. => false
  | _ => true

theorem isReference_of_isScalar {v : Value} (hv : v.isScalar = true) : v.isReference = false := by
  cases v <;> simp_all [isScalar, isReference, Value.kind, Kind.isReference]

theorem isObject_of_isScalar {v : Value} (hv : v.isScalar = true) : v.isObject = false := by
  cases v <;> first | rfl | cases hv

@[elab_as_elim]
theorem tree_induction {P : Value → Prop}
    (object : ∀ members, (∀ entry ∈ members, P entry.2) → P (.object members))
    (array : ∀ elements, (∀ v ∈ elements, P v) → P (.array elements))
    (substitution : ∀ r, P (.substitution r))
    (concatenation : ∀ fragments, (∀ v ∈ fragments, P v) → P (.concatenation fragments))
    (alternative : ∀ default override, P default → P (.alternative default override))
    (scalar : ∀ v, v.isScalar = true → P v) (v : Value) : P v := by
  cases v with
  | object members =>
      apply object
      intro entry hentry
      have hsize : sizeOf entry.2 < sizeOf members := by
        have hmem := List.sizeOf_lt_of_mem hentry
        have hsnd : sizeOf entry.2 < sizeOf entry := by
          obtain ⟨key, v⟩ := entry
          simp only [Prod.mk.sizeOf_spec]
          omega
        omega
      exact tree_induction object array substitution concatenation alternative scalar entry.2
  | array elements =>
      apply array
      intro v hv
      have hsize := List.sizeOf_lt_of_mem hv
      exact tree_induction object array substitution concatenation alternative scalar v
  | substitution r => exact substitution r
  | concatenation fragments =>
      apply concatenation
      intro v hv
      have hsize := List.sizeOf_lt_of_mem hv
      exact tree_induction object array substitution concatenation alternative scalar v
  | alternative default override =>
      apply alternative
      exact tree_induction object array substitution concatenation alternative scalar default
  | _ =>
      apply scalar
      rfl
termination_by sizeOf v
decreasing_by all_goals simp_wf; omega

/-! ## Well-formed containers -/

theorem membersWellFormed_iff {members : List (Text × Value)} :
    membersWellFormed members = true ↔ ∀ entry ∈ members, entry.2.wellFormed = true := by
  induction members with
  | nil => simp [membersWellFormed]
  | cons entry rest ih => simp [membersWellFormed, ih]

theorem elementsWellFormed_iff {elements : List Value} :
    elementsWellFormed elements = true ↔ ∀ v ∈ elements, v.wellFormed = true := by
  induction elements with
  | nil => simp [elementsWellFormed]
  | cons v rest ih => simp [elementsWellFormed, ih]

theorem wellFormed_object_iff {members : Members Text Value} :
    (object members).wellFormed = true ↔
      members.keys.Nodup ∧ ∀ entry ∈ members, entry.2.wellFormed = true := by
  simp [wellFormed, membersWellFormed_iff]

/-! ## Parts -/

mutual

/-- The value and every value in it. -/
def parts : Value → List Value
  | .object members => .object members :: memberParts members
  | .array elements => .array elements :: itemParts elements
  | .concatenation fragments => .concatenation fragments :: itemParts fragments
  | .alternative default override =>
    .alternative default override :: .substitution override :: default.parts
  | v => [v]

def memberParts : List (Text × Value) → List Value
  | [] => []
  | (_, v) :: rest => v.parts ++ memberParts rest

def itemParts : List Value → List Value
  | [] => []
  | v :: rest => v.parts ++ itemParts rest

end

theorem self_mem_parts (v : Value) : v ∈ v.parts := by
  cases v <;> exact List.mem_cons_self

theorem mem_memberParts {members : List (Text × Value)} {w : Value} :
    w ∈ memberParts members ↔ ∃ entry ∈ members, w ∈ entry.2.parts := by
  induction members with
  | nil => simp [memberParts]
  | cons entry rest ih => simp [memberParts, ih]

theorem mem_itemParts {items : List Value} {w : Value} :
    w ∈ itemParts items ↔ ∃ v ∈ items, w ∈ v.parts := by
  induction items with
  | nil => simp [itemParts]
  | cons v rest ih => simp [itemParts, ih]

/-- The value and every value in it have the property. -/
def Everywhere (P : Value → Prop) (v : Value) : Prop := ∀ w ∈ v.parts, P w

variable {P : Value → Prop}

instance [DecidablePred P] (v : Value) : Decidable (v.Everywhere P) :=
  inferInstanceAs (Decidable (∀ w ∈ v.parts, P w))

theorem everywhere_object_iff {members : List (Text × Value)} :
    Everywhere P (.object members) ↔
      P (.object members) ∧ ∀ entry ∈ members, Everywhere P entry.2 := by
  simp only [Everywhere, parts, List.forall_mem_cons, mem_memberParts]
  exact and_congr_right fun _ ↦
    ⟨fun h entry hentry w hw ↦ h w ⟨entry, hentry, hw⟩,
      fun h w ⟨entry, hentry, hw⟩ ↦ h entry hentry w hw⟩

theorem everywhere_array_iff {elements : List Value} :
    Everywhere P (.array elements) ↔ P (.array elements) ∧ ∀ v ∈ elements, Everywhere P v := by
  simp only [Everywhere, parts, List.forall_mem_cons, mem_itemParts]
  exact and_congr_right fun _ ↦
    ⟨fun h v hv w hw ↦ h w ⟨v, hv, hw⟩, fun h w ⟨v, hv, hw⟩ ↦ h v hv w hw⟩

theorem everywhere_concatenation_iff {fragments : List Value} :
    Everywhere P (.concatenation fragments) ↔
      P (.concatenation fragments) ∧ ∀ v ∈ fragments, Everywhere P v := by
  simp only [Everywhere, parts, List.forall_mem_cons, mem_itemParts]
  exact and_congr_right fun _ ↦
    ⟨fun h v hv w hw ↦ h w ⟨v, hv, hw⟩, fun h w ⟨v, hv, hw⟩ ↦ h v hv w hw⟩

theorem everywhere_alternative_iff {default : Value} {override : Reference} :
    Everywhere P (.alternative default override) ↔
      P (.alternative default override) ∧ P (.substitution override) ∧ Everywhere P default := by
  simp only [Everywhere, parts, List.forall_mem_cons]

theorem everywhere_scalar_iff {v : Value} (hv : v.isScalar = true) : Everywhere P v ↔ P v := by
  have hparts : v.parts = [v] := by
    cases v <;> simp_all [parts, isScalar]
  rw [Everywhere, hparts, List.forall_mem_singleton]

end LayeredConfig.Value
