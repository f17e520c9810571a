import LayeredConfig.Proofs.Float.Conversion
import LayeredConfig.Proofs.Members
import LayeredConfig.Proofs.Resolved
import LayeredConfig.Proofs.Tree

/-!
# Plain data and back

Plain data of the kinds that documents have comes back from its value as it was.
A resolved value comes back from its plain data with its kinds, its keys and
their order; only the width of a float and the part of a span below a
microsecond are lost.
-/

namespace LayeredConfig

/-! ## From plain data -/

namespace Plain

def isText : Plain → Bool
  | .string _ => true
  | _ => false

mutual

/-- Data of the kinds that documents have, with texts as the keys of maps. -/
def isDocument : Plain → Bool
  | .null | .boolean _ | .int _ | .double _ | .string _ => true
  | .span s => s.isCalendar
  | .list items => itemsDocuments items
  | .dict entries => entriesDocuments entries
  | _ => false

def itemsDocuments : List Plain → Bool
  | [] => true
  | item :: rest => item.isDocument && itemsDocuments rest

/-- The keys are texts, each of them once. -/
def entriesDocuments : List (Plain × Plain) → Bool
  | [] => true
  | (key, item) :: rest =>
    key.isText && rest.all (fun entry ↦ !sameKey key entry.1) && item.isDocument &&
      entriesDocuments rest

end

theorem exists_text {key : Plain} (h : key.isText = true) : ∃ s, key = .string s := by
  cases key <;> first | exact ⟨_, rfl⟩ | cases h

end Plain

namespace Value

section Inversion

variable {v : Value} {members : List (Text × Value)} {elements : List Value} {data : Plain}

theorem toPlain_object_eq_ok_iff : (object members).toPlain = .ok data ↔
    ∃ entries, data = .dict entries ∧ membersToPlain members = .ok entries := by
  rw [toPlain]
  cases membersToPlain members <;> simp [eq_comm, bind, Except.bind, pure, Except.pure]

theorem toPlain_array_eq_ok_iff : (array elements).toPlain = .ok data ↔
    ∃ items, data = .list items ∧ elementsToPlain elements = .ok items := by
  rw [toPlain]
  cases elementsToPlain elements <;> simp [eq_comm, bind, Except.bind, pure, Except.pure]

theorem elementsToPlain_cons_eq_ok_iff {items : List Plain} :
    elementsToPlain (v :: elements) = .ok items ↔ ∃ data more, items = data :: more ∧
      v.toPlain = .ok data ∧ elementsToPlain elements = .ok more := by
  rw [elementsToPlain]
  cases v.toPlain <;> cases elementsToPlain elements <;>
    simp [eq_comm, bind, Except.bind, pure, Except.pure]

theorem membersToPlain_cons_eq_ok_iff {key : Text} {entries : List (Plain × Plain)} :
    membersToPlain ((key, v) :: members) = .ok entries ↔
      ∃ data more, entries = (.string key, data) :: more ∧ v.toPlain = .ok data ∧
        membersToPlain members = .ok more := by
  rw [membersToPlain]
  cases v.toPlain <;> cases membersToPlain members <;>
    simp [eq_comm, bind, Except.bind, pure, Except.pure]

end Inversion

theorem exists_entry_of_mem_keys {members : Members Text Value} {entries : List (Plain × Plain)}
    (h : membersToPlain members = .ok entries) {name : String} (hname : name ∈ members.keys) :
    ∃ entry ∈ entries, ∃ s, entry.1 = .string s ∧ s.content = name := by
  induction members generalizing entries with
  | nil => cases hname
  | cons entry rest ih =>
      obtain ⟨key, v⟩ := entry
      obtain ⟨data, entries, rfl, -, hrest⟩ := membersToPlain_cons_eq_ok_iff.mp h
      rcases List.mem_cons.mp hname with rfl | hname
      · exact ⟨_, List.mem_cons_self, key, rfl, rfl⟩
      · obtain ⟨entry, hentry, hkey⟩ := ih hrest hname
        exact ⟨entry, List.mem_cons_of_mem _ hentry, hkey⟩

end Value

namespace Plain

mutual

theorem exists_toValue : ∀ data : Plain, data.isDocument = true →
    ∃ v, data.toValue = .ok v ∧ v.toPlain = .ok data
  | .null, _ | .boolean _, _ | .int _, _ | .double _, _ | .string _, _ => ⟨_, rfl, rfl⟩
  | .span s, h => ⟨_, rfl, by rw [Value.toPlain, Duration.toSpan_ofSpan h]⟩
  | .list items, h => by
      obtain ⟨elements, hvalues, hplain⟩ := exists_itemsToValues items h
      exact ⟨.array elements, by rw [toValue, hvalues]; rfl, by rw [Value.toPlain, hplain]; rfl⟩
  | .dict entries, h => by
      obtain ⟨members, hvalues, hplain, hnodup⟩ := exists_entriesToValues entries h
      refine ⟨.object members, ?_, by rw [Value.toPlain, hplain]; rfl⟩
      rw [toValue, hvalues]
      exact congrArg (fun ms ↦ Except.ok (Value.object ms)) (Members.ofEntries_of_nodup hnodup)
  | .sized _, h | .date .., h | .bytes _, h | .tuple _, h | .set _, h | .node _, h => by
      simp [isDocument] at h

theorem exists_itemsToValues : ∀ items : List Plain, itemsDocuments items = true →
    ∃ elements, itemsToValues items = .ok elements ∧ Value.elementsToPlain elements = .ok items
  | [], _ => ⟨[], rfl, rfl⟩
  | item :: rest, h => by
      rw [itemsDocuments, Bool.and_eq_true] at h
      obtain ⟨v, hvalue, hplain⟩ := exists_toValue item h.1
      obtain ⟨elements, hvalues, hplains⟩ := exists_itemsToValues rest h.2
      exact ⟨v :: elements, by rw [itemsToValues, hvalue, hvalues]; rfl,
        by rw [Value.elementsToPlain, hplain, hplains]; rfl⟩

theorem exists_entriesToValues : ∀ entries : List (Plain × Plain),
    entriesDocuments entries = true → ∃ members, entriesToValues entries = .ok members ∧
      Value.membersToPlain members = .ok entries ∧ (Members.keys members).Nodup
  | [], _ => ⟨[], rfl, rfl, List.nodup_nil⟩
  | (key, item) :: rest, h => by
      simp only [entriesDocuments, Bool.and_eq_true, List.all_eq_true] at h
      obtain ⟨⟨⟨hkey, hfresh⟩, hitem⟩, hrest⟩ := h
      obtain ⟨s, rfl⟩ := exists_text hkey
      obtain ⟨v, hvalue, hplain⟩ := exists_toValue item hitem
      obtain ⟨members, hvalues, hplains, hnodup⟩ := exists_entriesToValues rest hrest
      refine ⟨(s, v) :: members, by rw [entriesToValues, hvalue, hvalues]; rfl,
        by rw [Value.membersToPlain, hplain, hplains]; rfl, ?_⟩
      rw [Members.keys_cons, List.nodup_cons]
      -- A second member with the key would come from a second entry with it.
      refine ⟨fun hmem ↦ ?_, hnodup⟩
      obtain ⟨⟨_, other⟩, hentry, t, rfl, hname⟩ := Value.exists_entry_of_mem_keys hplains hmem
      simpa [sameKey, hname] using hfresh _ hentry

end

end Plain

/-! ## From values -/

namespace Value

mutual

/-- What plain data keeps of a value. -/
def kept : Value → Value
  | .single x => .double (x.convert .double)
  | .duration nanoseconds => .duration (nanoseconds.tdiv 1000 * 1000)
  | .object members => .object (membersKept members)
  | .array elements => .array (elementsKept elements)
  | v => v

def membersKept : List (Text × Value) → List (Text × Value)
  | [] => []
  | (key, v) :: rest => (key, v.kept) :: membersKept rest

def elementsKept : List Value → List Value
  | [] => []
  | v :: rest => v.kept :: elementsKept rest

end

@[simp] theorem keys_membersKept (members : Members Text Value) :
    Members.keys (membersKept members) = members.keys := by
  induction members with
  | nil => rfl
  | cons entry rest ih => rw [membersKept, Members.keys_cons, Members.keys_cons, ih]

theorem refused_ne_ok {α : Type} (v : Value) (a : α) : v.refused ≠ .ok a := by
  unfold refused
  cases v.render <;> exact nofun

mutual

theorem toValue_of_toPlain : ∀ (v : Value) {data : Plain}, v.wellFormed = true →
    v.toPlain = .ok data → data.toValue = .ok v.kept
  | .null, _, _, h | .boolean _, _, _, h | .string _, _, _, h | .int _, _, _, h
  | .single _, _, _, h | .double _, _, _, h => by
      cases h
      rfl
  | .duration n, _, _, h => by
      rw [toPlain] at h
      cases hspan : Duration.toSpan n with
      | error o =>
          rw [hspan] at h
          cases h
      | ok s =>
          rw [hspan] at h
          cases h
          rw [Plain.toValue, Duration.ofSpan_of_toSpan hspan, kept]
  | .object members, _, hv, h => by
      obtain ⟨entries, rfl, hentries⟩ := toPlain_object_eq_ok_iff.mp h
      rw [wellFormed, Bool.and_eq_true, decide_eq_true_eq] at hv
      rw [Plain.toValue, entriesToValues_of_membersToPlain members hv.2 hentries, kept]
      refine congrArg (fun ms ↦ Except.ok (object ms)) (Members.ofEntries_of_nodup ?_)
      rw [keys_membersKept]
      exact hv.1
  | .array elements, _, hv, h => by
      obtain ⟨items, rfl, hitems⟩ := toPlain_array_eq_ok_iff.mp h
      rw [Plain.toValue, itemsToValues_of_elementsToPlain elements hv hitems, kept]
      rfl
  | .substitution r, data, _, h => absurd h (refused_ne_ok (.substitution r) data)
  | .concatenation fragments, data, _, h =>
      absurd h (refused_ne_ok (.concatenation fragments) data)
  | .alternative default override, data, _, h =>
      absurd h (refused_ne_ok (.alternative default override) data)

theorem itemsToValues_of_elementsToPlain : ∀ (elements : List Value) {items : List Plain},
    elementsWellFormed elements = true → elementsToPlain elements = .ok items →
      Plain.itemsToValues items = .ok (elementsKept elements)
  | [], _, _, h => by
      cases h
      rfl
  | v :: rest, _, hv, h => by
      obtain ⟨data, more, rfl, hdata, hmore⟩ := elementsToPlain_cons_eq_ok_iff.mp h
      rw [elementsWellFormed, Bool.and_eq_true] at hv
      rw [Plain.itemsToValues, toValue_of_toPlain v hv.1 hdata,
        itemsToValues_of_elementsToPlain rest hv.2 hmore]
      rfl

theorem entriesToValues_of_membersToPlain : ∀ (members : List (Text × Value))
    {entries : List (Plain × Plain)}, membersWellFormed members = true →
      membersToPlain members = .ok entries →
        Plain.entriesToValues entries = .ok (membersKept members)
  | [], _, _, h => by
      cases h
      rfl
  | (key, v) :: rest, _, hv, h => by
      obtain ⟨data, more, rfl, hdata, hmore⟩ := membersToPlain_cons_eq_ok_iff.mp h
      rw [membersWellFormed, Bool.and_eq_true] at hv
      rw [Plain.entriesToValues, toValue_of_toPlain v hv.1 hdata,
        entriesToValues_of_membersToPlain rest hv.2 hmore]
      rfl

end

end Value

/-- Plain data of the kinds that documents have is the plain data of its value;
and the plain data of a resolved value whose spans are calendar spans has a value
again, with each float of single width as the double that is the same number, and
each span toward zero to a whole microsecond. -/
theorem plain_roundTrip :
    (∀ data : Plain, data.isDocument = true → ∃ v, data.toValue = .ok v ∧ v.toPlain = .ok data) ∧
    (∀ v : Value, v.wellFormed = true → v.isResolved = true → v.spansFit = true →
      ∃ data, v.toPlain = .ok data ∧ data.toValue = .ok v.kept) ∧
    ∀ x : Single, x.Equals (x.convert .double) := by
  refine ⟨Plain.exists_toValue, fun v hwell hresolved hspans ↦ ?_, fun x ↦
    Binary.equals_convert Format.single_embeds_double x⟩
  obtain ⟨data, hdata⟩ := Value.exists_toPlain hspans hresolved
  exact ⟨data, hdata, Value.toValue_of_toPlain v hwell hdata⟩

/-- A moment before midnight in a list, and a span that is no whole microsecond
beside a float of single width. -/
theorem plain_roundTrip_moment :
    (∃ v, (Plain.dict [(.string "at", .list [.span ⟨-1, 86399, 999999⟩, .boolean true])]).toValue =
        .ok v ∧
      v.toPlain = .ok (.dict [(.string "at", .list [.span ⟨-1, 86399, 999999⟩, .boolean true])])) ∧
    ∃ data, (Value.object [("b", .duration (-1999)),
        ("a", .single (.finite true ⟨1069547520, by decide⟩))]).toPlain = .ok data ∧
      data.toValue = .ok (.object [("b", .duration (-1000)),
        ("a", .double (.finite true ⟨4609434218613702656, by decide⟩))]) := by
  have hconvert : (.finite true ⟨1069547520, by decide⟩ : Single).convert .double =
      .finite true ⟨4609434218613702656, by decide⟩ := by decide +kernel
  rw [← hconvert]
  exact ⟨plain_roundTrip.1 _ (by decide), plain_roundTrip.2.1 _ (by decide) (by decide) (by decide)⟩

end LayeredConfig
