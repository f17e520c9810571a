import LayeredConfig.Members
import Mathlib.Data.List.Induction
import Mathlib.Data.List.Nodup

/-!
# Maps as lists of entries

What is under a key after a key was put, and the order in which the keys stand.
With distinct keys, the keys and what is under each of them determine the map.
-/

namespace LayeredConfig.Members

variable {α : Type} {members others : Members Text α} {key : Text} {name : String} {v : α}

theorem get?_cons_self (key : Text) (v : α) (rest : Members Text α) :
    get? ((key, v) :: rest) key.content = some v := by
  simp [get?, Named.name]

theorem get?_cons_ne {key : Text} {name : String} (h : key.content ≠ name) (v : α)
    (rest : Members Text α) : get? ((key, v) :: rest) name = get? rest name := by
  simp [get?, Named.name, h]

@[simp] theorem keys_nil : keys ([] : Members Text α) = [] := rfl

@[simp] theorem keys_cons (key : Text) (v : α) (rest : Members Text α) :
    keys ((key, v) :: rest) = key.content :: keys rest := rfl

theorem keys_eq_map (members : Members Text α) :
    members.keys = (members.map Prod.fst).map Text.content := by
  rw [keys, List.map_map]
  rfl

theorem get?_eq_none_iff : members.get? name = none ↔ name ∉ members.keys := by
  induction members with
  | nil => simp [get?]
  | cons entry rest ih =>
      obtain ⟨k, w⟩ := entry
      by_cases hk : k.content = name
      · rw [← hk, get?_cons_self]
        simp
      · rw [get?_cons_ne hk, ih, keys_cons, List.mem_cons, not_or]
        have hne : name ≠ k.content := fun h ↦ hk h.symm
        exact ⟨fun h ↦ ⟨hne, h⟩, fun h ↦ h.2⟩

theorem exists_get?_of_mem_keys (h : name ∈ members.keys) : ∃ v, members.get? name = some v := by
  apply Option.ne_none_iff_exists'.mp
  intro hnone
  exact get?_eq_none_iff.mp hnone h

theorem mem_keys_of_get? (h : members.get? name = some v) : name ∈ members.keys := by
  by_contra hname
  rw [get?_eq_none_iff.mpr hname] at h
  cases h

theorem get?_of_mem (hnodup : members.keys.Nodup) (h : (key, v) ∈ members) :
    members.get? key.content = some v := by
  induction members with
  | nil => cases h
  | cons entry rest ih =>
      obtain ⟨k, w⟩ := entry
      rw [keys_cons, List.nodup_cons] at hnodup
      rcases List.mem_cons.mp h with heq | hrest
      · cases heq
        exact get?_cons_self key v rest
      · have hfound := ih hnodup.2 hrest
        have hne : k.content ≠ key.content := by
          intro heq
          rw [heq] at hnodup
          exact hnodup.1 (mem_keys_of_get? hfound)
        rw [get?_cons_ne hne, hfound]

theorem exists_entry_of_mem_keys (h : name ∈ members.keys) :
    ∃ entry ∈ members, entry.1.content = name :=
  List.mem_map.mp h

theorem exists_key_of_get? (h : members.get? name = some v) :
    ∃ key : Text, key.content = name ∧ (key, v) ∈ members := by
  induction members with
  | nil => cases h
  | cons entry rest ih =>
      obtain ⟨k, w⟩ := entry
      by_cases hk : k.content = name
      · subst hk
        rw [get?_cons_self] at h
        cases h
        exact ⟨k, rfl, List.mem_cons_self⟩
      · rw [get?_cons_ne hk] at h
        obtain ⟨key, hkey, hmem⟩ := ih h
        exact ⟨key, hkey, List.mem_cons_of_mem _ hmem⟩

theorem get?_eq_none_of_sublist (h : (others.map Prod.fst).Sublist (members.map Prod.fst))
    (hname : members.get? name = none) : others.get? name = none := by
  rw [get?_eq_none_iff, keys_eq_map] at hname ⊢
  exact fun hmem ↦ hname ((h.map Text.content).subset hmem)

/-! ## Putting a key -/

theorem get?_put (members : Members Text α) (key : Text) (v : α) (name : String) :
    (members.put key v).get? name = if key.content = name then some v else members.get? name := by
  induction members with
  | nil => simp [put, get?, Named.name]
  | cons entry rest ih =>
      obtain ⟨k, w⟩ := entry
      by_cases hk : k.content = key.content
      · simp only [put, Named.name, hk, if_true]
        by_cases hname : key.content = name
        · simp [get?, Named.name, hk, hname]
        · simp [get?, Named.name, hk, hname]
      · simp only [put, Named.name, hk, if_false]
        by_cases hname : k.content = name
        · have hne : key.content ≠ name := fun h ↦ hk (hname.trans h.symm)
          simp [get?, Named.name, hname, hne]
        · simp [get?, Named.name, hname, ih]

theorem map_fst_put (members : Members Text α) (key : Text) (v : α) :
    (members.put key v).map Prod.fst =
      members.map Prod.fst ++ if key.content ∈ members.keys then [] else [key] := by
  induction members with
  | nil => simp [put]
  | cons entry rest ih =>
      obtain ⟨k, w⟩ := entry
      by_cases hk : k.content = key.content
      · simp [put, Named.name, hk]
      · have hne : key.content ≠ k.content := fun h ↦ hk h.symm
        simp [put, Named.name, hk, hne, ih]

theorem keys_put (members : Members Text α) (key : Text) (v : α) :
    (members.put key v).keys =
      members.keys ++ if key.content ∈ members.keys then [] else [key.content] := by
  rw [keys_eq_map, map_fst_put, List.map_append, ← keys_eq_map]
  by_cases hkey : key.content ∈ members.keys
  · simp [hkey]
  · simp [hkey]

/-! ## Entries with distinct keys -/

section Entries

variable {κ : Type} [Named κ]

theorem put_of_notMem {members : Members κ α} {key : κ} (h : Named.name key ∉ members.keys)
    (v : α) : members.put key v = members ++ [(key, v)] := by
  induction members with
  | nil => rfl
  | cons entry rest ih =>
      obtain ⟨k, w⟩ := entry
      simp only [keys, List.map_cons, List.mem_cons, not_or] at h
      have hne : Named.name k ≠ Named.name key := fun heq ↦ h.1 heq.symm
      rw [put, if_neg hne, ih h.2]
      rfl

theorem foldl_put_of_nodup {members entries : Members κ α} (h : (keys (members ++ entries)).Nodup) :
    entries.foldl (fun ms entry ↦ ms.put entry.1 entry.2) members = members ++ entries := by
  induction entries generalizing members with
  | nil => simp
  | cons entry rest ih =>
      have hkey : Named.name entry.1 ∉ members.keys := by
        rw [keys, List.map_append, List.map_cons, List.nodup_append] at h
        intro hmem
        exact h.2.2 _ hmem _ List.mem_cons_self rfl
      rw [List.append_cons] at h
      rw [List.foldl_cons, put_of_notMem hkey, ih h, ← List.append_cons]

/-- A list of entries with distinct keys is a map already. -/
theorem ofEntries_of_nodup {entries : Members κ α} (h : entries.keys.Nodup) :
    ofEntries entries = entries :=
  @foldl_put_of_nodup α κ _ [] entries h

end Entries

/-! ## Entries with repeated keys -/

theorem ofEntries_append_singleton (entries : Members Text α) (entry : Text × α) :
    ofEntries (entries ++ [entry]) = (ofEntries entries).put entry.1 entry.2 := by
  rw [ofEntries, List.foldl_append]
  rfl

theorem keys_append (entries more : Members Text α) :
    keys (entries ++ more) = keys entries ++ keys more :=
  List.map_append

theorem keys_ofEntries (entries : Members Text α) :
    (ofEntries entries).keys = entries.keys.eraseDups := by
  induction entries using List.reverseRecOn with
  | nil => rfl
  | append_singleton entries entry ih =>
      obtain ⟨key, v⟩ := entry
      rw [ofEntries_append_singleton, keys_put, ih, keys_append, List.eraseDups_append, keys_cons,
        keys_nil]
      by_cases hmem : key.content ∈ keys entries
      · simp [hmem, List.removeAll]
      · simp [hmem, List.removeAll, List.eraseDups_cons]

theorem get?_foldl_put_of_notMem {entries : Members Text α} {name : String}
    (h : name ∉ entries.keys) (members : Members Text α) :
    get? (entries.foldl (fun ms entry ↦ ms.put entry.1 entry.2) members) name =
      members.get? name := by
  induction entries generalizing members with
  | nil => rfl
  | cons entry rest ih =>
      rw [keys_cons, List.mem_cons, not_or] at h
      rw [List.foldl_cons, ih h.2, get?_put, if_neg (fun heq ↦ h.1 heq.symm)]

/-- The last entry with a key is the one that stays. -/
theorem get?_ofEntries_of_last {before after : Members Text α} {key : Text} {v : α}
    (h : key.content ∉ after.keys) :
    get? (ofEntries (before ++ (key, v) :: after)) key.content = some v := by
  rw [ofEntries, List.foldl_append, List.foldl_cons, get?_foldl_put_of_notMem h, get?_put,
    if_pos rfl]

theorem length_keys (members : Members Text α) : members.keys.length = members.length :=
  List.length_map _

theorem length_put (members : Members Text α) (key : Text) (v : α) :
    (members.put key v).length =
      members.length + if key.content ∈ members.keys then 0 else 1 := by
  rw [← length_keys, keys_put, List.length_append, length_keys]
  by_cases hmem : key.content ∈ members.keys
  · simp [hmem]
  · simp [hmem]

theorem length_ofEntries_le (entries : Members Text α) :
    (ofEntries entries).length ≤ entries.length := by
  induction entries using List.reverseRecOn with
  | nil => exact Nat.le_refl 0
  | append_singleton entries entry ih =>
      rw [ofEntries_append_singleton, length_put, List.length_append]
      split <;> simp only [List.length_singleton] <;> omega

theorem length_ofEntries_lt {entries : Members Text α} (h : ¬ entries.keys.Nodup) :
    (ofEntries entries).length < entries.length := by
  induction entries using List.reverseRecOn with
  | nil => exact absurd List.nodup_nil h
  | append_singleton entries entry ih =>
      have hle := length_ofEntries_le entries
      have hkeys : entry.1.content ∈ (ofEntries entries).keys ↔ entry.1.content ∈ keys entries := by
        rw [keys_ofEntries, List.mem_eraseDups]
      rw [ofEntries_append_singleton, length_put, List.length_append, List.length_singleton]
      by_cases hmem : entry.1.content ∈ keys entries
      · rw [if_pos (hkeys.mpr hmem)]
        omega
      · have hrest : ¬ (keys entries).Nodup := by
          intro hnodup
          apply h
          rw [keys_append, List.nodup_append]
          refine ⟨hnodup, List.nodup_singleton _, fun a ha b hb heq ↦ ?_⟩
          rw [keys_cons, keys_nil, List.mem_singleton] at hb
          rw [heq, hb] at ha
          exact hmem ha
        have hlt := ih hrest
        rw [if_neg (mt hkeys.mp hmem)]
        omega

theorem mem_values_put {key : Text} {v w : α} (h : w ∈ (members.put key v).values) :
    w = v ∨ w ∈ members.values := by
  induction members with
  | nil => exact .inl (List.mem_singleton.mp h)
  | cons entry rest ih =>
      obtain ⟨k, old⟩ := entry
      rw [put] at h
      split at h
      · rcases List.mem_cons.mp h with rfl | h
        · exact .inl rfl
        · exact .inr (List.mem_cons_of_mem _ h)
      · rcases List.mem_cons.mp h with rfl | h
        · exact .inr List.mem_cons_self
        · rcases ih h with hv | hrest
          · exact .inl hv
          · exact .inr (List.mem_cons_of_mem _ hrest)

theorem mem_values_ofEntries {entries : Members Text α} {v : α}
    (h : v ∈ (ofEntries entries).values) : v ∈ values entries := by
  induction entries using List.reverseRecOn with
  | nil => exact h
  | append_singleton entries entry ih =>
      rw [ofEntries_append_singleton] at h
      rw [values, List.map_append, List.mem_append]
      rcases mem_values_put h with rfl | h
      · exact .inr (List.mem_singleton.mpr rfl)
      · exact .inl (ih h)

/-! ## Equality -/

theorem ext_of_nodup (hnodup : members.keys.Nodup)
    (hkeys : members.map Prod.fst = others.map Prod.fst)
    (hget : ∀ name, members.get? name = others.get? name) : members = others := by
  induction members generalizing others with
  | nil =>
      rw [List.map_nil] at hkeys
      exact (List.map_eq_nil_iff.mp hkeys.symm).symm
  | cons entry rest ih =>
      obtain ⟨k, w⟩ := entry
      rcases others with _ | ⟨⟨k', w'⟩, rest'⟩
      · cases hkeys
      · simp only [List.map_cons, List.cons.injEq] at hkeys
        obtain ⟨rfl, hkeys⟩ := hkeys
        rw [keys_cons, List.nodup_cons] at hnodup
        have hw : some w = some w' := by
          rw [← get?_cons_self k w rest, ← get?_cons_self k w' rest']
          exact hget k.content
        cases hw
        have hkey' : k.content ∉ keys rest' := by
          rw [keys_eq_map, ← hkeys, ← keys_eq_map]
          exact hnodup.1
        have hrest : rest = rest' := by
          apply ih hnodup.2 hkeys
          intro name
          by_cases hname : k.content = name
          · rw [get?_eq_none_iff.mpr (hname ▸ hnodup.1), get?_eq_none_iff.mpr (hname ▸ hkey')]
          · have hall := hget name
            rwa [get?_cons_ne hname, get?_cons_ne hname] at hall
        rw [hrest]

/-! ## What is under one key in two maps -/

section Related

variable {β : Type} {rel : α → β → Prop} {x : Option α} {y : Option β} {a : α} {b : β}

theorem optionRel_some_left_iff : Option.Rel rel (some a) y ↔ ∃ b, y = some b ∧ rel a b := by
  cases y <;> simp

theorem optionRel_some_right_iff : Option.Rel rel x (some b) ↔ ∃ a, x = some a ∧ rel a b := by
  cases x <;> simp

theorem optionRel_none_left_iff : Option.Rel rel none y ↔ y = none := by
  cases y <;> simp

theorem optionRel_none_right_iff : Option.Rel rel x none ↔ x = none := by
  cases x <;> simp

end Related

end LayeredConfig.Members
