import LayeredConfig.Fragments
import LayeredConfig.Proofs.Members
import LayeredConfig.Proofs.Tree

/-!
# What shows when objects are layered

Under each key the upper value shows, laid over the lower one, and where the
upper object has nothing, the lower one shows.  The keys of the lower object
come first.
-/

namespace LayeredConfig.Value

variable {upper lower : Members Text Value} {v w : Value}

/-- What shows under a key of two layered objects. -/
def showing : Option Value → Option Value → Option Value
  | none, below => below
  | some v, none => some v
  | some v, some w => some (v.overlay w)

theorem overlay_object (upper lower : Members Text Value) :
    (object upper).overlay (object lower) = object (layer upper lower) := by
  rw [overlay]

theorem overlay_of_not_object (h : v.isObject = false) (w : Value) : v.overlay w = v := by
  cases v <;> simp_all [overlay, isObject]

theorem overlay_over_not_object (v : Value) (h : w.isObject = false) : v.overlay w = v := by
  cases w <;> cases v <;> simp_all [overlay, isObject]

theorem layer_cons (key : Text) (v : Value) (rest lower : Members Text Value) :
    ∃ shown, showing (some v) (lower.get? key.content) = some shown ∧
      layer ((key, v) :: rest) lower = layer rest (lower.put key shown) := by
  rw [layer]
  cases lower.get? key.content with
  | none => exact ⟨v, rfl, rfl⟩
  | some w => exact ⟨v.overlay w, rfl, rfl⟩

theorem get?_layer (hnodup : upper.keys.Nodup) (lower : Members Text Value) (name : String) :
    (layer upper lower).get? name = showing (upper.get? name) (lower.get? name) := by
  induction upper generalizing lower with
  | nil => simp [layer, Members.get?, showing]
  | cons entry rest ih =>
      obtain ⟨key, v⟩ := entry
      rw [Members.keys_cons, List.nodup_cons] at hnodup
      obtain ⟨shown, hshown, hlayer⟩ := layer_cons key v rest lower
      rw [hlayer, ih hnodup.2, Members.get?_put]
      by_cases hname : key.content = name
      · subst hname
        have hrest : Members.get? rest key.content = none :=
          Members.get?_eq_none_iff.mpr hnodup.1
        rw [hrest, if_pos rfl, Members.get?_cons_self, hshown]
        rfl
      · rw [if_neg hname, Members.get?_cons_ne hname]

theorem map_fst_layer (hnodup : upper.keys.Nodup) (lower : Members Text Value) :
    (layer upper lower).map Prod.fst =
      lower.map Prod.fst ++ (upper.map Prod.fst).filter (·.content ∉ lower.keys) := by
  induction upper generalizing lower with
  | nil => simp [layer]
  | cons entry rest ih =>
      obtain ⟨key, v⟩ := entry
      rw [Members.keys_cons, List.nodup_cons] at hnodup
      obtain ⟨shown, -, hlayer⟩ := layer_cons key v rest lower
      rw [hlayer, ih hnodup.2, Members.map_fst_put, Members.keys_put]
      by_cases hkey : key.content ∈ lower.keys
      · simp [hkey]
      · -- The key is new, and none of the keys behind it is this one.
        have hfilter : (rest.map Prod.fst).filter
              (fun k ↦ decide (k.content ∉ lower.keys ++ [key.content])) =
            (rest.map Prod.fst).filter (fun k ↦ decide (k.content ∉ lower.keys)) := by
          apply List.filter_congr
          intro k hk
          have hne : k.content ≠ key.content := by
            intro heq
            apply hnodup.1
            rw [Members.keys_eq_map, ← heq]
            exact List.mem_map_of_mem hk
          simp [hne]
        rw [if_neg hkey, if_neg hkey, hfilter, List.map_cons,
          List.filter_cons_of_pos (by simpa using hkey),
          List.append_assoc, List.singleton_append]

/-- The keys of the lower object come first, and the new ones follow. -/
theorem keys_layer (hnodup : upper.keys.Nodup) (lower : Members Text Value) :
    (layer upper lower).keys = lower.keys ++ upper.keys.filter (· ∉ lower.keys) := by
  have hmap := congrArg (List.map Text.content) (map_fst_layer hnodup lower)
  rw [List.map_append, ← Members.keys_eq_map, ← Members.keys_eq_map] at hmap
  have hfilter : ((upper.map Prod.fst).map Text.content).filter (· ∉ lower.keys) =
      ((upper.map Prod.fst).filter (·.content ∉ lower.keys)).map Text.content := by
    rw [List.filter_map]
    rfl
  rw [hmap, Members.keys_eq_map upper, hfilter]

theorem keys_layer_nodup (hupper : upper.keys.Nodup) (hlower : lower.keys.Nodup) :
    (layer upper lower).keys.Nodup := by
  rw [keys_layer hupper, List.nodup_append]
  refine ⟨hlower, hupper.filter _, ?_⟩
  rintro name hname other hother rfl
  have hnew := (List.mem_filter.mp hother).2
  simp [hname] at hnew

/-! ## Properties of all members -/

/-- A property of values that an object has if all its members have it and its
keys have another one, which putting a key keeps. -/
structure Inherited (K : List String → Prop) (P : Value → Prop) : Prop where
  object_iff : ∀ members : Members Text Value,
    P (.object members) ↔ K members.keys ∧ ∀ entry ∈ members, P entry.2
  empty : K []
  put : ∀ keys name, K keys → K (keys ++ if name ∈ keys then [] else [name])

theorem mem_put_cases {members : Members Text Value} {key : Text} {entry : Text × Value}
    (h : entry ∈ members.put key v) : entry ∈ members ∨ entry.2 = v := by
  induction members with
  | nil =>
      rw [Members.put, List.mem_singleton] at h
      exact Or.inr (by rw [h])
  | cons first rest ih =>
      obtain ⟨k, w⟩ := first
      by_cases hk : Named.name k = Named.name key
      · rw [Members.put, if_pos hk] at h
        rcases List.mem_cons.mp h with rfl | h
        · exact Or.inr rfl
        · exact Or.inl (List.mem_cons_of_mem _ h)
      · rw [Members.put, if_neg hk] at h
        rcases List.mem_cons.mp h with rfl | h
        · exact Or.inl List.mem_cons_self
        · exact (ih h).imp_left (List.mem_cons_of_mem _)

namespace Inherited

variable {K : List String → Prop} {P : Value → Prop}

theorem of_get? (h : Inherited K P) {name : String} (hlower : P (.object lower))
    (hv : lower.get? name = some v) : P v := by
  obtain ⟨k, -, hmem⟩ := Members.exists_key_of_get? hv
  exact ((h.object_iff lower).mp hlower).2 (k, v) hmem

theorem of_walk (h : Inherited K P) {path : Path} (hlower : P (.object lower))
    (hv : walk lower path = .ok (some v)) : P v := by
  apply Value.of_walk _ ((h.object_iff lower).mp hlower).2 hv
  intro inner hinner
  exact ((h.object_iff inner).mp hinner).2

theorem object_put (h : Inherited K P) (hlower : P (.object lower)) (key : Text) (hv : P v) :
    P (.object (lower.put key v)) := by
  rw [h.object_iff] at hlower ⊢
  constructor
  · rw [Members.keys_put]
    exact h.put lower.keys key.content hlower.1
  · intro entry hentry
    rcases mem_put_cases hentry with hold | hnew
    · exact hlower.2 entry hold
    · rw [hnew]
      exact hv

theorem layer_of_overlay (h : Inherited K P) (hupper : ∀ entry ∈ upper, P entry.2)
    (hoverlay : ∀ entry ∈ upper, ∀ w, P w → P (entry.2.overlay w)) (hlower : P (.object lower)) :
    P (.object (layer upper lower)) := by
  induction upper generalizing lower with
  | nil => rwa [layer]
  | cons entry rest ih =>
      obtain ⟨key, v⟩ := entry
      obtain ⟨shown, hshown, hlayer⟩ := layer_cons key v rest lower
      have hP : P shown := by
        cases hget : lower.get? key.content with
        | none =>
            rw [hget] at hshown
            cases hshown
            exact hupper (key, v) List.mem_cons_self
        | some w =>
            rw [hget] at hshown
            cases hshown
            exact hoverlay (key, v) List.mem_cons_self w (h.of_get? hlower hget)
      rw [hlayer]
      apply ih (fun entry hentry ↦ hupper entry (List.mem_cons_of_mem _ hentry))
        (fun entry hentry ↦ hoverlay entry (List.mem_cons_of_mem _ hentry))
      exact h.object_put hlower key hP

theorem overlay (h : Inherited K P) (hv : P v) (hw : P w) : P (v.overlay w) := by
  induction v using tree_induction generalizing w with
  | object members ih =>
      cases w
      case object base =>
        rw [overlay_object]
        have hmembers := ((h.object_iff members).mp hv).2
        exact h.layer_of_overlay hmembers
          (fun entry hentry w hw ↦ ih entry hentry (hmembers entry hentry) hw) hw
      all_goals
        rw [overlay_over_not_object _ rfl]
        exact hv
  | scalar v hscalar =>
      rwa [overlay_of_not_object (isObject_of_isScalar hscalar)]
  | _ => rwa [overlay_of_not_object rfl]

theorem layer (h : Inherited K P) (hupper : ∀ entry ∈ upper, P entry.2)
    (hlower : P (.object lower)) : P (.object (layer upper lower)) :=
  h.layer_of_overlay hupper (fun entry hentry _ hw ↦ h.overlay (hupper entry hentry) hw) hlower

end Inherited

theorem wellFormed_inherited : Inherited List.Nodup fun v ↦ v.wellFormed = true where
  object_iff _ := wellFormed_object_iff
  empty := List.nodup_nil
  put keys name h := by
    by_cases hname : name ∈ keys
    · simpa [hname] using h
    · rw [if_neg hname, List.nodup_append]
      refine ⟨h, List.nodup_singleton name, ?_⟩
      rintro key hkey _ hsingle rfl
      rw [List.mem_singleton.mp hsingle] at hkey
      exact hname hkey

end LayeredConfig.Value

namespace LayeredConfig.Fragments

variable {K : List String → Prop} {P : Value → Prop} {fragments : List Value}

theorem allMembers_of_forall {layers : List (Members Text Value)} (h : ∀ v ∈ fragments, P v)
    (hlayers : allMembers fragments = .ok layers) : ∀ members ∈ layers, P (.object members) := by
  induction fragments generalizing layers with
  | nil =>
      cases hlayers
      simp
  | cons v rest ih =>
      rw [List.forall_mem_cons] at h
      cases v <;> simp only [allMembers, reduceCtorEq] at hlayers
      case object members =>
        cases hrest : allMembers rest with
        | error w =>
            rw [hrest] at hlayers
            cases hlayers
        | ok others =>
            rw [hrest] at hlayers
            cases hlayers
            exact List.forall_mem_cons.mpr ⟨h.1, ih h.2 hrest⟩

theorem layerAll_of_forall (hP : Value.Inherited K P) {layers : List (Members Text Value)}
    (h : ∀ members ∈ layers, P (.object members)) : P (.object (layerAll layers)) := by
  cases layers with
  | nil =>
      rw [layerAll, hP.object_iff]
      exact ⟨hP.empty, by simp⟩
  | cons first rest =>
      rw [List.forall_mem_cons] at h
      obtain ⟨hfirst, hrest⟩ := h
      rw [layerAll]
      induction rest generalizing first with
      | nil => exact hfirst
      | cons next rest ih =>
          rw [List.forall_mem_cons] at hrest
          exact ih (Value.layer next first)
            (hP.layer ((hP.object_iff next).mp hrest.1).2 hfirst) hrest.2

/-- What texts have, and objects with their members, joined fragments have. -/
theorem join_of_forall (hP : Value.Inherited K P) (hstring : ∀ s, P (.string s)) {v : Value}
    (h : ∀ w ∈ fragments, P w) (hv : join fragments = .ok v) : P v := by
  unfold join at hv
  split at hv
  · cases hv
  · split at hv
    · unfold joinTexts at hv
      split at hv <;> cases hv
      exact hstring _
    · split at hv
      · rename_i layers hlayers
        cases hv
        exact layerAll_of_forall hP (allMembers_of_forall h hlayers)
      · split at hv <;> cases hv

end LayeredConfig.Fragments
