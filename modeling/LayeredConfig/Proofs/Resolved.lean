import LayeredConfig.Plain.Conversion
import LayeredConfig.Proofs.Layer
import LayeredConfig.Proofs.Span

/-!
# Resolved values

Looking values up and joining lead from resolved values to resolved values.
Among values whose spans of time are calendar spans, the resolved
ones are those that have plain data.
-/

namespace LayeredConfig

namespace Value

variable {members : Members Text Value} {v : Value}

theorem membersResolved_iff :
    membersResolved members = true ↔ ∀ entry ∈ members, entry.2.isResolved = true := by
  induction members with
  | nil => simp [membersResolved]
  | cons entry rest ih =>
      obtain ⟨key, v⟩ := entry
      simp [membersResolved, ih]

theorem elementsResolved_iff {elements : List Value} :
    elementsResolved elements = true ↔ ∀ v ∈ elements, v.isResolved = true := by
  induction elements with
  | nil => simp [elementsResolved]
  | cons v rest ih => simp [elementsResolved, ih]

theorem isReference_of_isResolved (h : v.isResolved = true) : v.isReference = false := by
  cases v <;> simp_all [isResolved, isReference, Value.kind, Kind.isReference]

theorem isResolved_of_isScalar (h : v.isScalar = true) : v.isResolved = true := by
  cases v <;> first | rfl | cases h

theorem resolved_inherited : Inherited (fun _ ↦ True) fun v ↦ v.isResolved = true where
  object_iff members := by
    rw [isResolved, membersResolved_iff]
    exact ⟨fun h ↦ ⟨trivial, h⟩, And.right⟩
  empty := trivial
  put _ _ _ := trivial

theorem isResolved_of_find {path : Path} (h : membersResolved members = true)
    (hv : find members path = .ok (some v)) : v.isResolved = true :=
  resolved_inherited.of_walk h (find_eq_some_iff.mp hv).2

end Value

theorem Fragments.join_isResolved {fragments : List Value} {v : Value}
    (h : Value.elementsResolved fragments = true) (hv : join fragments = .ok v) :
    v.isResolved = true :=
  join_of_forall Value.resolved_inherited (fun _ ↦ rfl) (Value.elementsResolved_iff.mp h) hv

/-! ## Plain data -/

namespace Value

mutual

/-- Every span of time in the tree is a calendar span. -/
def spansFit : Value → Bool
  | .duration n => Duration.isCalendar n
  | .object members => membersSpansFit members
  | .array elements => itemsSpansFit elements
  | .concatenation fragments => itemsSpansFit fragments
  | .alternative default _ => default.spansFit
  | _ => true

def membersSpansFit : List (Text × Value) → Bool
  | [] => true
  | (_, v) :: rest => v.spansFit && membersSpansFit rest

def itemsSpansFit : List Value → Bool
  | [] => true
  | v :: rest => v.spansFit && itemsSpansFit rest

end

mutual

/-- The first reference of the tree, in the order of the document. -/
def firstReference? : Value → Option Value
  | .object members => memberReference? members
  | .array elements => itemReference? elements
  | v => if v.isReference then some v else none

def memberReference? : List (Text × Value) → Option Value
  | [] => none
  | (_, v) :: rest => v.firstReference?.or (memberReference? rest)

def itemReference? : List Value → Option Value
  | [] => none
  | v :: rest => v.firstReference?.or (itemReference? rest)

end

mutual

theorem firstReference?_eq_none_iff : ∀ v : Value,
    v.firstReference? = none ↔ v.isResolved = true
  | .object members => by
      rw [firstReference?, isResolved]
      exact memberReference?_eq_none_iff members
  | .array elements => by
      rw [firstReference?, isResolved]
      exact itemReference?_eq_none_iff elements
  | .null | .boolean _ | .string _ | .int _ | .single _ | .double _ | .duration _ => by
      simp [firstReference?, isResolved, isReference, Value.kind, Kind.isReference]
  | .substitution _ | .concatenation _ | .alternative _ _ => by
      simp [firstReference?, isResolved, isReference, Value.kind, Kind.isReference]

theorem memberReference?_eq_none_iff : ∀ members : List (Text × Value),
    memberReference? members = none ↔ membersResolved members = true
  | [] => by simp [memberReference?, membersResolved]
  | (_, v) :: rest => by
      rw [memberReference?, membersResolved, Option.or_eq_none_iff, Bool.and_eq_true,
        firstReference?_eq_none_iff v, memberReference?_eq_none_iff rest]

theorem itemReference?_eq_none_iff : ∀ elements : List Value,
    itemReference? elements = none ↔ elementsResolved elements = true
  | [] => by simp [itemReference?, elementsResolved]
  | v :: rest => by
      rw [itemReference?, elementsResolved, Option.or_eq_none_iff, Bool.and_eq_true,
        firstReference?_eq_none_iff v, itemReference?_eq_none_iff rest]

end

theorem refused_bind {α β : Type} (v : Value) (f : α → Except PlainFault β) :
    (v.refused >>= f) = v.refused := by
  unfold refused
  cases v.render <;> rfl

mutual

/-- A resolved value has plain data, unless a span of time in it is too long. -/
theorem toPlain_of_isResolved : ∀ v : Value, v.isResolved = true →
    (∃ p, v.toPlain = .ok p) ∨ v.spansFit = false ∧ ∃ o, v.toPlain = .error (.span o)
  | .object members, hv => by
      rcases membersToPlain_of_resolved members hv with ⟨entries, h⟩ | ⟨hspans, o, h⟩
      · exact Or.inl ⟨.dict entries, by rw [toPlain, h]; rfl⟩
      · exact Or.inr ⟨hspans, o, by rw [toPlain, h]; rfl⟩
  | .array elements, hv => by
      rcases elementsToPlain_of_resolved elements hv with ⟨items, h⟩ | ⟨hspans, o, h⟩
      · exact Or.inl ⟨.list items, by rw [toPlain, h]; rfl⟩
      · exact Or.inr ⟨hspans, o, by rw [toPlain, h]; rfl⟩
  | .duration n, _ => by
      cases hs : Duration.toSpan n with
      | ok s => exact Or.inl ⟨.span s, by rw [toPlain, hs]⟩
      | error o =>
          refine Or.inr ⟨?_, o, by rw [toPlain, hs]⟩
          rw [spansFit, Bool.eq_false_iff, Ne, ← Duration.exists_toSpan_iff, hs]
          rintro ⟨s, h⟩
          cases h
  | .null, _ | .boolean _, _ | .string _, _ | .int _, _ | .single _, _ | .double _, _ =>
      Or.inl ⟨_, rfl⟩
  | .substitution _, hv | .concatenation _, hv | .alternative _ _, hv => by
      simp [isResolved] at hv

theorem membersToPlain_of_resolved : ∀ members : List (Text × Value),
    membersResolved members = true → (∃ entries, membersToPlain members = .ok entries) ∨
      membersSpansFit members = false ∧ ∃ o, membersToPlain members = .error (.span o)
  | [], _ => Or.inl ⟨[], rfl⟩
  | (key, v) :: rest, hv => by
      simp only [membersResolved, Bool.and_eq_true] at hv
      rw [membersToPlain, membersSpansFit, Bool.and_eq_false_iff]
      rcases toPlain_of_isResolved v hv.1 with ⟨p, hp⟩ | ⟨hspans, o, hp⟩
      · rcases membersToPlain_of_resolved rest hv.2 with ⟨entries, h⟩ | ⟨hspans, o, h⟩
        · exact Or.inl ⟨(.string key, p) :: entries, by rw [hp, h]; rfl⟩
        · exact Or.inr ⟨Or.inr hspans, o, by rw [hp, h]; rfl⟩
      · exact Or.inr ⟨Or.inl hspans, o, by rw [hp]; rfl⟩

theorem elementsToPlain_of_resolved : ∀ elements : List Value,
    elementsResolved elements = true → (∃ items, elementsToPlain elements = .ok items) ∨
      itemsSpansFit elements = false ∧ ∃ o, elementsToPlain elements = .error (.span o)
  | [], _ => Or.inl ⟨[], rfl⟩
  | v :: rest, hv => by
      simp only [elementsResolved, Bool.and_eq_true] at hv
      rw [elementsToPlain, itemsSpansFit, Bool.and_eq_false_iff]
      rcases toPlain_of_isResolved v hv.1 with ⟨p, hp⟩ | ⟨hspans, o, hp⟩
      · rcases elementsToPlain_of_resolved rest hv.2 with ⟨items, h⟩ | ⟨hspans, o, h⟩
        · exact Or.inl ⟨p :: items, by rw [hp, h]; rfl⟩
        · exact Or.inr ⟨Or.inr hspans, o, by rw [hp, h]; rfl⟩
      · exact Or.inr ⟨Or.inl hspans, o, by rw [hp]; rfl⟩

end

theorem exists_toPlain {v : Value} (hspans : v.spansFit = true) (hv : v.isResolved = true) :
    ∃ p, v.toPlain = .ok p := by
  rcases toPlain_of_isResolved v hv with hp | ⟨hfalse, _⟩
  · exact hp
  · rw [hspans] at hfalse
    cases hfalse

mutual

/-- A tree with a reference is refused at the first one. -/
theorem toPlain_of_firstReference? : ∀ {v w : Value}, v.spansFit = true →
    v.firstReference? = some w → v.toPlain = w.refused
  | .object members, w, hspans, hw => by
      rw [toPlain, membersToPlain_of_memberReference? hspans hw]
      exact refused_bind w _
  | .array elements, w, hspans, hw => by
      rw [toPlain, elementsToPlain_of_itemReference? hspans hw]
      exact refused_bind w _
  | .substitution _, _, _, hw | .concatenation _, _, _, hw | .alternative _ _, _, _, hw => by
      cases hw
      rfl
  | .null, _, _, hw | .boolean _, _, _, hw | .string _, _, _, hw | .int _, _, _, hw
  | .single _, _, _, hw | .double _, _, _, hw | .duration _, _, _, hw => by
      cases hw

theorem membersToPlain_of_memberReference? : ∀ {members : List (Text × Value)} {w : Value},
    membersSpansFit members = true → memberReference? members = some w →
      membersToPlain members = w.refused
  | [], _, _, hw => by cases hw
  | (key, v) :: rest, w, hspans, hw => by
      simp only [membersSpansFit, Bool.and_eq_true] at hspans
      rw [memberReference?] at hw
      rw [membersToPlain]
      cases hv : v.firstReference? with
      | some u =>
          obtain rfl : u = w := by simpa [hv] using hw
          rw [toPlain_of_firstReference? hspans.1 hv]
          exact refused_bind u _
      | none =>
          obtain ⟨p, hp⟩ := exists_toPlain hspans.1 ((firstReference?_eq_none_iff v).mp hv)
          rw [hp, membersToPlain_of_memberReference? hspans.2 (by simpa [hv] using hw)]
          exact refused_bind w _

theorem elementsToPlain_of_itemReference? : ∀ {elements : List Value} {w : Value},
    itemsSpansFit elements = true → itemReference? elements = some w →
      elementsToPlain elements = w.refused
  | [], _, _, hw => by cases hw
  | v :: rest, w, hspans, hw => by
      simp only [itemsSpansFit, Bool.and_eq_true] at hspans
      rw [itemReference?] at hw
      rw [elementsToPlain]
      cases hv : v.firstReference? with
      | some u =>
          obtain rfl : u = w := by simpa [hv] using hw
          rw [toPlain_of_firstReference? hspans.1 hv]
          exact refused_bind u _
      | none =>
          obtain ⟨p, hp⟩ := exists_toPlain hspans.1 ((firstReference?_eq_none_iff v).mp hv)
          rw [hp, elementsToPlain_of_itemReference? hspans.2 (by simpa [hv] using hw)]
          exact refused_bind w _

end

/-- A tree with a reference is refused with the text of the first one, if that
text can be written. -/
theorem toPlain_eq_error {v w : Value} (hspans : v.spansFit = true)
    (hw : v.firstReference? = some w) :
    v.toPlain = .error (if w.textFits then .unresolved w.kind w.text else .overlong) := by
  rw [toPlain_of_firstReference? hspans hw, refused, render]
  cases w.textFits <;> rfl

theorem exists_toPlain_iff {v : Value} (hspans : v.spansFit = true) :
    (∃ p, v.toPlain = .ok p) ↔ v.isResolved = true := by
  refine ⟨?_, exists_toPlain hspans⟩
  rintro ⟨p, hp⟩
  cases hfirst : v.firstReference? with
  | none => exact (firstReference?_eq_none_iff v).mp hfirst
  | some w =>
      rw [toPlain_eq_error hspans hfirst] at hp
      cases hp

end Value

end LayeredConfig
