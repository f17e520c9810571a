import LayeredConfig.Config.Basic
import LayeredConfig.Proofs.Json.Sorted
import LayeredConfig.Proofs.Json.View
import LayeredConfig.Proofs.Resolved

/-!
# Canonical JSON

The canonical text of a value reads as the view of the value with its keys
sorted, and making it canonical again changes nothing.  Resolved values that are
the same have one canonical text, whatever the order of their members, when no
zero has a sign.
-/

namespace LayeredConfig

/-- Zero with a sign. -/
def Binary.isNegativeZero {f : Format} : Binary f → Bool
  | .finite negative code => negative && code.val == 0
  | _ => false

/-- Without a negative zero, every number is the same as itself only. -/
theorem Binary.eq_of_sameNumber {f : Format} {x y : Binary f} (h : x.sameNumber y = true)
    (hx : x.isNegativeZero = false) (hy : y.isNegativeZero = false) : x = y := by
  cases x with
  | nan origin =>
      cases y with
      | nan origin' => cases origin <;> cases origin' <;> simp_all [sameNumber]
      | _ => simp [sameNumber] at h
  | infinite s =>
      cases y with
      | infinite t => simpa [sameNumber] using h
      | _ => simp [sameNumber] at h
  | finite s c =>
      cases y with
      | finite t d =>
          simp only [sameNumber, Bool.and_eq_true, Bool.or_eq_true, beq_iff_eq] at h
          obtain ⟨rfl, rfl | hzero⟩ := h
          · rfl
          · simp only [isNegativeZero, hzero, beq_self_eq_true, Bool.and_true] at hx hy
            rw [hx, hy]
      | _ => simp [sameNumber] at h

namespace Value

/-- A float that is zero with a sign. -/
def isNegativeZero : Value → Bool
  | .single x => x.isNegativeZero
  | .double x => x.isNegativeZero
  | _ => false

variable {v w : Value} {elements others : List Value} {members : List (Text × Value)}

theorem elementViews_eq_map (elements : List Value) :
    elementViews elements = elements.map view := by
  induction elements with
  | nil => rfl
  | cons v rest ih => rw [elementViews, ih, List.map_cons]

theorem memberViews_eq_map (members : List (Text × Value)) :
    memberViews members = members.map fun entry ↦ (entry.1.content, entry.2.view) := by
  induction members with
  | nil => rfl
  | cons entry rest ih => rw [memberViews, ih, List.map_cons]

theorem writable_view (hwell : v.wellFormed = true) (hfits : v.jsonFits = true) :
    v.view.Writable := by
  induction v using tree_induction with
  | object members ih =>
      obtain ⟨hnodup, hmembers⟩ := wellFormed_object_iff.mp hwell
      rw [jsonFits, membersFit_iff] at hfits
      rw [← keys_memberViews] at hnodup
      refine .object hnodup ?_
      rw [memberViews_eq_map, List.forall_mem_map]
      exact fun entry hentry ↦ ih entry hentry (hmembers entry hentry) (hfits entry hentry)
  | array elements ih =>
      rw [wellFormed, elementsWellFormed_iff] at hwell
      rw [jsonFits, elementsFit_iff] at hfits
      refine .array ?_
      rw [elementViews_eq_map, List.forall_mem_map]
      exact fun v hv ↦ ih v hv (hwell v hv) (hfits v hv)
  | substitution r => exact .string _
  | concatenation fragments => exact .string _
  | alternative default override => exact .string _
  | scalar v hv =>
      cases v with
      | null => exact .null
      | boolean b => exact .boolean b
      | int n => exact .int (by simpa [jsonFits] using hfits)
      | duration n => exact .int (by simpa [jsonFits] using hfits)
      | string | single | double => exact .string _
      | _ => cases hv

/-! ## Values that are the same -/

theorem sameElements_iff : sameElements elements others = true ↔
    List.Forall₂ (fun v w ↦ v.same w = true) elements others := by
  induction elements generalizing others with
  | nil => cases others <;> simp [sameElements]
  | cons v rest ih => cases others <;> simp [sameElements, ih]

theorem sameMembers_iff {others : Members Text Value} : sameMembers members others = true ↔
    ∀ entry ∈ members, ∃ w, others.get? entry.1.content = some w ∧ entry.2.same w = true := by
  induction members with
  | nil => simp [sameMembers]
  | cons entry rest ih =>
      rw [sameMembers, Bool.and_eq_true, ih, List.forall_mem_cons]
      cases others.get? entry.1.content <;> simp

theorem keys_perm_of_same {members others : Members Text Value} (hnodup : members.keys.Nodup)
    (h : (object members).same (.object others) = true) : members.keys.Perm others.keys := by
  rw [same, Bool.and_eq_true, beq_iff_eq, sameMembers_iff] at h
  have hsub : members.keys ⊆ others.keys := List.forall_mem_map.mpr fun entry hentry ↦ by
    obtain ⟨w, hw, -⟩ := h.2 entry hentry
    exact Members.mem_keys_of_get? hw
  apply (hnodup.subperm hsub).perm_of_length_le
  rw [Members.keys, Members.keys, List.length_map, List.length_map, h.1]

theorem isAtom_view (hv : v.isScalar = true) : v.view.isAtom = true := by
  cases v <;> first | rfl | cases hv

theorem view_eq_of_same (hv : v.isScalar = true) (hzero : v.isNegativeZero = false)
    (hzero' : w.isNegativeZero = false) (h : v.same w = true) : v.view = w.view := by
  cases v with
  | single x =>
      cases w with
      | single y => rw [Binary.eq_of_sameNumber h hzero hzero']
      | _ => cases h
  | double x =>
      cases w with
      | double y => rw [Binary.eq_of_sameNumber h hzero hzero']
      | _ => cases h
  | null | boolean | string | int | duration =>
      cases w <;> simp_all [same, view, text]
  | _ => cases hv

theorem reordered_view (hv : v.wellFormed = true) (hw : w.wellFormed = true)
    (hresolved : v.isResolved = true) (hzero : v.Everywhere fun part ↦ part.isNegativeZero = false)
    (hzero' : w.Everywhere fun part ↦ part.isNegativeZero = false) (h : v.same w = true) :
    v.view.Reordered w.view := by
  induction v using tree_induction generalizing w with
  | object members ih =>
      cases w with
      | object others =>
          obtain ⟨hnodup, hmembers⟩ := wellFormed_object_iff.mp hv
          obtain ⟨hnodup', hothers⟩ := wellFormed_object_iff.mp hw
          have hkeys := keys_perm_of_same hnodup h
          rw [same, Bool.and_eq_true, sameMembers_iff] at h
          rw [isResolved, membersResolved_iff] at hresolved
          rw [everywhere_object_iff] at hzero hzero'
          rw [← keys_memberViews, ← keys_memberViews others] at hkeys
          refine .object hkeys fun key j k hj hk ↦ ?_
          rw [memberViews_eq_map] at hj hk
          obtain ⟨⟨text, v⟩, hentry, heq⟩ := List.mem_map.mp hj
          cases heq
          obtain ⟨⟨text', u⟩, hentry', heq⟩ := List.mem_map.mp hk
          simp only [Prod.mk.injEq] at heq
          obtain ⟨htext, rfl⟩ := heq
          -- What is under the key is found in both objects.
          obtain ⟨w, hget, hsame⟩ := h.2 _ hentry
          have hfound := Members.get?_of_mem hnodup' hentry'
          rw [htext, hget] at hfound
          cases hfound
          exact ih _ hentry (hmembers _ hentry) (hothers _ hentry') (hresolved _ hentry)
            (hzero.2 _ hentry) (hzero'.2 _ hentry') hsame
      | _ => cases h
  | array elements ih =>
      cases w with
      | array others =>
          rw [wellFormed, elementsWellFormed_iff] at hv hw
          rw [same, sameElements_iff, List.forall₂_iff_zip] at h
          rw [isResolved, elementsResolved_iff] at hresolved
          rw [everywhere_array_iff] at hzero hzero'
          rw [view, view, elementViews_eq_map, elementViews_eq_map]
          refine .array (by rw [List.length_map, List.length_map, h.1]) fun j k hjk ↦ ?_
          rw [List.zip_map] at hjk
          obtain ⟨⟨v, w⟩, hvw, heq⟩ := List.mem_map.mp hjk
          cases heq
          obtain ⟨hvmem, hwmem⟩ := List.of_mem_zip hvw
          exact ih v hvmem (hv v hvmem) (hw w hwmem) (hresolved v hvmem) (hzero.2 v hvmem)
            (hzero'.2 w hwmem) (h.2 hvw)
      | _ => cases h
  | substitution r => cases hresolved
  | concatenation fragments => cases hresolved
  | alternative default override => cases hresolved
  | scalar v hscalar =>
      rw [← view_eq_of_same hscalar (hzero v (self_mem_parts v)) (hzero' w (self_mem_parts w)) h]
      exact .atom (isAtom_view hscalar)

end Value

theorem Config.toJson_eq {v : Value} (hwell : v.wellFormed = true) (hfits : v.jsonFits = true) :
    (Config.mk v).toJson = .ok v.view.sorted.text := by
  have hplain : v.renderJson = .ok v.json := if_pos hfits
  have hread := (Value.spells_json hwell hfits).read
  simp only [Config.toJson, hplain, Json.canonical, hread]
  rfl

/-- Every value whose integers can be written has a canonical text.  It is
canonical already, and reads as what the JSON form reads as, with the keys sorted
at every depth.  Resolved values without negative zeros that are the same have one
canonical text. -/
theorem toJson_canonical {v : Value} (hwell : v.wellFormed = true) (hfits : v.jsonFits = true) :
    ∃ text data, (Config.mk v).toJson = .ok text ∧ Json.canonical text = .ok text ∧
      Json.read text = .ok data ∧ data.KeysSorted ∧
      (∃ plain view, v.renderJson = .ok plain ∧ Json.read plain = .ok view ∧
        view.Reordered data) ∧
      ∀ w : Value, w.wellFormed = true → w.jsonFits = true → v.isResolved = true →
        w.isResolved = true → (v.Everywhere fun part ↦ part.isNegativeZero = false) →
        (w.Everywhere fun part ↦ part.isNegativeZero = false) → v.same w = true →
          (Config.mk w).toJson = .ok text := by
  have hview := Value.writable_view hwell hfits
  have hplain : v.renderJson = .ok v.json := if_pos hfits
  have hread := (Value.spells_json hwell hfits).read
  refine ⟨v.view.sorted.text, v.view.sorted, Config.toJson_eq hwell hfits, hview.canonical,
    hview.sorted.spells.read, hview.keysSorted, ⟨v.json, v.view, hplain, hread,
      hview.reordered_sorted⟩, ?_⟩
  intro w hwell' hfits' hresolved _ hzero hzero' hsame
  have hreordered := Value.reordered_view hwell hwell' hresolved hzero hzero' hsame
  rw [Config.toJson_eq hwell' hfits',
    hreordered.sorted_eq hview (Value.writable_view hwell' hfits')]

namespace Value

/-- An object in an array, with a key that has to be escaped. -/
def address : Value :=
  .object [("port", .int 80),
    ("hosts", .array [.object [("a\x22b", .null), ("A", .duration (-1))]])]

/-- The same members the other way round. -/
def addressReversed : Value :=
  .object [("hosts", .array [.object [("A", .duration (-1)), ("a\x22b", .null)]]),
    ("port", .int 80)]

end Value

theorem toJson_canonical_address :
    (Value.address.wellFormed = true ∧ Value.address.jsonFits = true) ∧
      ∃ text, (Config.mk Value.address).toJson = .ok text ∧ Json.canonical text = .ok text ∧
        (Config.mk Value.addressReversed).toJson = .ok text := by
  have hwell : Value.address.wellFormed = true := by decide
  have hfits : Value.address.jsonFits = true := by decide +kernel
  obtain ⟨text, _, hjson, hcanonical, -, -, -, hsame⟩ := toJson_canonical hwell hfits
  have hzero : Value.address.Everywhere fun part ↦ part.isNegativeZero = false := by
    simp [Value.Everywhere, Value.address, Value.parts, Value.memberParts, Value.itemParts,
      Value.isNegativeZero]
  have hzero' : Value.addressReversed.Everywhere fun part ↦ part.isNegativeZero = false := by
    simp [Value.Everywhere, Value.addressReversed, Value.parts, Value.memberParts,
      Value.itemParts, Value.isNegativeZero]
  exact ⟨⟨hwell, hfits⟩, text, hjson, hcanonical, hsame Value.addressReversed (by decide)
    (by decide +kernel) rfl rfl hzero hzero' rfl⟩

end LayeredConfig
