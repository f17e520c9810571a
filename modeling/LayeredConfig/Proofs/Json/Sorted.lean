import LayeredConfig.Proofs.Json.Spelling
import Mathlib.Data.List.Forall2
import Mathlib.Data.List.Perm.Subperm

/-!
# Data with sorted keys

Data whose keys are sorted is the only arrangement of its members with that
property, so data that differs in the order of members only is one after its
keys are sorted.  The compact text of data without floats reads as that data.
-/

namespace LayeredConfig.Json

/-- Data that holds no other data. -/
def isAtom : Json → Bool
  | .array _ | .object _ => false
  | _ => true

/-- Data that its compact text is read as: integers that can be written, no
other number, and distinct keys. -/
inductive Writable : Json → Prop
  | null : Writable .null
  | boolean (b : Bool) : Writable (.boolean b)
  | int {n : Int} (h : Numeral.isOverlong n = false) : Writable (.int n)
  | string (s : String) : Writable (.string s)
  | array {elements : List Json} (h : ∀ j ∈ elements, Writable j) : Writable (.array elements)
  | object {members : List (String × Json)} (hnodup : (Members.keys members).Nodup)
      (h : ∀ member ∈ members, Writable member.2) : Writable (.object members)

/-- The keys of every object are in the order of their code points. -/
inductive KeysSorted : Json → Prop
  | atom {j : Json} (h : j.isAtom = true) : KeysSorted j
  | array {elements : List Json} (h : ∀ j ∈ elements, KeysSorted j) :
      KeysSorted (.array elements)
  | object {members : List (String × Json)} (hkeys : (Members.keys members).Pairwise (· < ·))
      (h : ∀ member ∈ members, KeysSorted member.2) : KeysSorted (.object members)

/-- The same data, with the members of objects in any order. -/
inductive Reordered : Json → Json → Prop
  | atom {j : Json} (h : j.isAtom = true) : Reordered j j
  | array {elements others : List Json} (hlength : elements.length = others.length)
      (h : ∀ j k, (j, k) ∈ elements.zip others → Reordered j k) :
      Reordered (.array elements) (.array others)
  | object {members others : List (String × Json)}
      (hkeys : (Members.keys members).Perm (Members.keys others))
      (h : ∀ key j k, (key, j) ∈ members → (key, k) ∈ others → Reordered j k) :
      Reordered (.object members) (.object others)

variable {j k : Json} {elements : List Json} {members others : List (String × Json)}

theorem elementTexts_eq_map (elements : List Json) : elementTexts elements = elements.map text := by
  induction elements with
  | nil => rfl
  | cons j rest ih => rw [elementTexts, ih, List.map_cons]

theorem memberTexts_eq_map (members : List (String × Json)) :
    memberTexts members = members.map fun member ↦ quote member.1 ++ ":" ++ member.2.text := by
  induction members with
  | nil => rfl
  | cons member rest ih => rw [memberTexts, ih, List.map_cons]

theorem Writable.spells (h : j.Writable) : Spells j.text j := by
  induction h with
  | null => exact spells_null
  | boolean b =>
      cases b with
      | false => exact spells_boolean false
      | true => exact spells_boolean true
  | int hn => exact spells_ofInt hn
  | string s => exact spells_quote s
  | array h ih =>
      rw [text, elementTexts_eq_map]
      apply spells_bracketed ⟨[], rfl, by simp⟩
      rw [List.forall₂_map_left_iff, List.forall₂_same]
      exact ih
  | object hnodup h ih =>
      rw [text, memberTexts_eq_map]
      apply spells_braced ⟨[], rfl, by simp⟩ _ hnodup
      rw [List.forall₂_map_left_iff, List.forall₂_same]
      exact fun member hmember ↦ ⟨member.2.text, rfl, ih member hmember⟩

/-! ## Sorting -/

/-- Members in the order of their keys. -/
def inOrder (members : List (String × Json)) : List (String × Json) :=
  members.mergeSort fun a b ↦ !decide (b.1 < a.1)

theorem sortedElements_eq_map (elements : List Json) :
    sortedElements elements = elements.map sorted := by
  induction elements with
  | nil => rfl
  | cons j rest ih => rw [sortedElements, ih, List.map_cons]

theorem sortedMembers_eq_map (members : List (String × Json)) :
    sortedMembers members = members.map fun member ↦ (member.1, member.2.sorted) := by
  induction members with
  | nil => rfl
  | cons member rest ih => rw [sortedMembers, ih, List.map_cons]

theorem sorted_array (elements : List Json) :
    (array elements).sorted = .array (elements.map sorted) := by
  rw [sorted, sortedElements_eq_map]

theorem sorted_object (members : List (String × Json)) : (object members).sorted =
    .object (inOrder (members.map fun member ↦ (member.1, member.2.sorted))) := by
  rw [sorted, sortedMembers_eq_map, inOrder]

theorem sorted_atom (h : j.isAtom = true) : j.sorted = j := by
  cases j <;> first | rfl | cases h

theorem inOrder_perm (members : List (String × Json)) : (inOrder members).Perm members :=
  List.mergeSort_perm _ _

theorem keys_inOrder_perm (members : List (String × Json)) :
    (Members.keys (inOrder members)).Perm (Members.keys members) :=
  (inOrder_perm members).map _

theorem keys_map_sorted (members : List (String × Json)) :
    Members.keys (members.map fun member ↦ (member.1, member.2.sorted)) = Members.keys members := by
  rw [Members.keys, List.map_map]
  rfl

theorem mem_inOrder_sorted_iff {member : String × Json} :
    member ∈ inOrder (members.map fun member ↦ (member.1, member.2.sorted)) ↔
      ∃ source ∈ members, (source.1, source.2.sorted) = member := by
  rw [(inOrder_perm _).mem_iff, List.mem_map]

theorem ordered_iff {a b : String × Json} : (!decide (b.1 < a.1)) = true ↔ a.1 ≤ b.1 := by
  rw [Bool.not_eq_true', decide_eq_false_iff_not, String.not_lt]

theorem inOrder_of_pairwise (h : (Members.keys members).Pairwise (· < ·)) :
    inOrder members = members := by
  apply List.mergeSort_of_pairwise
  rw [Members.keys, List.pairwise_map] at h
  exact h.imp fun hlt ↦ ordered_iff.mpr (Std.le_of_lt hlt)

theorem pairwise_inOrder (members : List (String × Json)) :
    (inOrder members).Pairwise fun a b ↦ a.1 ≤ b.1 := by
  have hsorted := @List.pairwise_mergeSort _ (fun a b : String × Json ↦ !decide (b.1 < a.1))
    (fun a b c hab hbc ↦ ordered_iff.mpr
      (String.le_trans (ordered_iff.mp hab) (ordered_iff.mp hbc)))
    (fun a b ↦ by
      rw [Bool.or_eq_true, ordered_iff, ordered_iff]
      exact String.le_total a.1 b.1) members
  exact hsorted.imp ordered_iff.mp

theorem keys_inOrder_pairwise (h : (Members.keys members).Nodup) :
    (Members.keys (inOrder members)).Pairwise (· < ·) := by
  have hnodup := (keys_inOrder_perm members).nodup_iff.mpr h
  have hle : (Members.keys (inOrder members)).Pairwise (· ≤ ·) :=
    List.pairwise_map.mpr (pairwise_inOrder members)
  refine (hle.and hnodup).imp fun {a b} hab ↦ ?_
  exact String.not_le.mp fun hba ↦ hab.2 (String.le_antisymm hab.1 hba)

theorem eq_of_mem (h : (Members.keys members).Nodup) {key : String}
    (hj : (key, j) ∈ members) (hk : (key, k) ∈ members) : j = k :=
  congrArg Prod.snd (List.inj_on_of_nodup_map h hj hk rfl)

theorem inOrder_eq_of_perm (h : (Members.keys members).Nodup) (hperm : members.Perm others) :
    inOrder members = inOrder others := by
  -- Members with one key are one member, so the order is antisymmetric on them.
  refine List.Perm.eq_of_pairwise (fun a b ha hb hab hba ↦ ?_) (pairwise_inOrder members)
    (pairwise_inOrder others)
    ((inOrder_perm members).trans (hperm.trans (inOrder_perm others).symm))
  have hb' : b ∈ members := hperm.mem_iff.mpr ((inOrder_perm others).mem_iff.mp hb)
  have ha' : a ∈ members := (inOrder_perm members).mem_iff.mp ha
  exact List.inj_on_of_nodup_map h ha' hb' (String.le_antisymm hab hba)

theorem Writable.sorted (h : j.Writable) : j.sorted.Writable := by
  induction h with
  | null => exact .null
  | boolean b => exact .boolean b
  | int hn => exact .int hn
  | string s => exact .string s
  | array h ih =>
      rw [sorted_array]
      exact .array (List.forall_mem_map.mpr ih)
  | @object members hnodup h ih =>
      rw [sorted_object]
      refine .object ?_ fun member hmember ↦ ?_
      · rw [(keys_inOrder_perm _).nodup_iff, keys_map_sorted]
        exact hnodup
      · obtain ⟨source, hsource, rfl⟩ := mem_inOrder_sorted_iff.mp hmember
        exact ih source hsource

theorem Writable.keysSorted (h : j.Writable) : j.sorted.KeysSorted := by
  induction h with
  | null | boolean | int | string => exact .atom rfl
  | array h ih =>
      rw [sorted_array]
      exact .array (List.forall_mem_map.mpr ih)
  | @object members hnodup h ih =>
      rw [sorted_object]
      refine .object (keys_inOrder_pairwise ?_) fun member hmember ↦ ?_
      · rw [keys_map_sorted]
        exact hnodup
      · obtain ⟨source, hsource, rfl⟩ := mem_inOrder_sorted_iff.mp hmember
        exact ih source hsource

theorem KeysSorted.sorted_eq (h : j.KeysSorted) : j.sorted = j := by
  induction h with
  | atom h => exact sorted_atom h
  | @array elements h ih =>
      have hmap : elements.map Json.sorted = elements.map id := List.map_congr_left ih
      rw [sorted_array, hmap, List.map_id]
  | @object members hkeys h ih =>
      have hmap : members.map (fun member ↦ (member.1, member.2.sorted)) = members.map id :=
        List.map_congr_left fun member hmember ↦ Prod.ext rfl (ih member hmember)
      rw [sorted_object, hmap, List.map_id, inOrder_of_pairwise hkeys]

/-- The text of data with its keys sorted is canonical. -/
theorem Writable.canonical (h : j.Writable) : canonical j.sorted.text = .ok j.sorted.text := by
  rw [Json.canonical, h.sorted.spells.read, Except.map, h.keysSorted.sorted_eq]

/-! ## Reordered data -/

theorem Writable.reordered_sorted (h : j.Writable) : Reordered j j.sorted := by
  induction h with
  | null | boolean | int | string => exact .atom rfl
  | @array elements h ih =>
      rw [sorted_array]
      refine .array (by rw [List.length_map]) fun j k hjk ↦ ?_
      rw [← List.map_prod_left_eq_zip] at hjk
      obtain ⟨_, hj, heq⟩ := List.mem_map.mp hjk
      cases heq
      exact ih j hj
  | @object members hnodup h ih =>
      rw [sorted_object]
      refine .object ?_ fun key j k hj hk ↦ ?_
      · rw [← keys_map_sorted members]
        exact (keys_inOrder_perm _).symm
      · obtain ⟨source, hsource, heq⟩ := mem_inOrder_sorted_iff.mp hk
        cases heq
        obtain rfl := eq_of_mem hnodup hj hsource
        exact ih source hsource

/-- Data in two orders has one order with its keys sorted. -/
theorem Reordered.sorted_eq (h : Reordered j k) (hj : j.Writable) (hk : k.Writable) :
    j.sorted = k.sorted := by
  induction h with
  | atom => rfl
  | @array elements others hlength h ih =>
      obtain - | - | - | - | hj := hj
      obtain - | - | - | - | hk := hk
      have hall : List.Forall₂ (fun j k : Json ↦ j.sorted = k.sorted) elements others := by
        refine List.forall₂_iff_zip.mpr ⟨hlength, fun {j k} hjk ↦ ?_⟩
        obtain ⟨hjmem, hkmem⟩ := List.of_mem_zip hjk
        exact ih j k hjk (hj j hjmem) (hk k hkmem)
      rw [← List.forall₂_map_right_iff, ← List.forall₂_map_left_iff, List.forall₂_eq_eq_eq] at hall
      rw [sorted_array, sorted_array, hall]
  | @object members others hkeys h ih =>
      cases hj with
      | object hnodup hj =>
      cases hk with
      | object hnodup' hk =>
      -- Every sorted member is among the others, and there are as many of them.
      have hsub : members.map (fun member ↦ (member.1, member.2.sorted)) ⊆
          others.map fun member ↦ (member.1, member.2.sorted) := by
        refine List.forall_mem_map.mpr fun ⟨key, j⟩ hj' ↦ ?_
        obtain ⟨⟨_, k⟩, hk', heq⟩ := List.mem_map.mp (hkeys.subset (List.mem_map_of_mem hj'))
        cases heq
        rw [ih _ j k hj' hk' (hj _ hj') (hk _ hk')]
        exact List.mem_map_of_mem hk'
      rw [← keys_map_sorted] at hnodup
      have hperm := List.Nodup.subperm (List.Nodup.of_map _ hnodup) hsub
      have hlength := hkeys.length_eq
      rw [Members.keys, Members.keys, List.length_map, List.length_map] at hlength
      rw [sorted_object, sorted_object, inOrder_eq_of_perm hnodup
        (hperm.perm_of_length_le (by rw [List.length_map, List.length_map, hlength]))]

end LayeredConfig.Json
