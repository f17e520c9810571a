import LayeredConfig.Config.Basic
import LayeredConfig.Proofs.Layer

/-!
# Layers that are laid again

An object laid over itself is that object, and a layer that is laid a second
time, on top or at the bottom, changes nothing: neither what is under a key nor
the place of the key.
-/

namespace LayeredConfig.Value

variable {upper lower : Members Text Value} {v w : Value}

/-! ## Under one key -/

section Showing

variable {above below : Option Value}

theorem showing_self (h : ∀ v ∈ above, v.overlay v = v) : showing above above = above := by
  cases above with
  | none => rfl
  | some v => exact congrArg some (h v rfl)

theorem showing_showing (h : ∀ v ∈ above, ∀ w ∈ below, v.overlay (v.overlay w) = v.overlay w)
    (hself : ∀ v ∈ above, v.overlay v = v) :
    showing above (showing above below) = showing above below := by
  cases above with
  | none => rfl
  | some v =>
      cases below with
      | none => exact congrArg some (hself v rfl)
      | some w => exact congrArg some (h v rfl w rfl)

theorem showing_showing_below
    (h : ∀ v ∈ above, ∀ w ∈ below, (v.overlay w).overlay w = v.overlay w)
    (hself : ∀ w ∈ below, w.overlay w = w) :
    showing (showing above below) below = showing above below := by
  cases above with
  | none => exact showing_self hself
  | some v =>
      cases below with
      | none => rfl
      | some w => exact congrArg some (h v rfl w rfl)

end Showing

/-! ## The keys -/

theorem filter_notMem_keys (h : upper.keys ⊆ lower.keys) :
    (upper.map Prod.fst).filter (·.content ∉ lower.keys) = [] := by
  refine List.filter_eq_nil_iff.mpr fun key hkey ↦ ?_
  have hmem : key.content ∈ upper.keys := by
    rw [Members.keys_eq_map]
    exact List.mem_map_of_mem hkey
  simpa using h hmem

/-- A layer without new keys leaves the keys as they are. -/
theorem map_fst_layer_of_subset (hupper : upper.keys.Nodup) (h : upper.keys ⊆ lower.keys) :
    (layer upper lower).map Prod.fst = lower.map Prod.fst := by
  rw [map_fst_layer hupper, filter_notMem_keys h, List.append_nil]

theorem keys_subset_layer (hupper : upper.keys.Nodup) (lower : Members Text Value) :
    upper.keys ⊆ (layer upper lower).keys := by
  intro name hname
  rw [keys_layer hupper, List.mem_append]
  by_cases hlower : name ∈ lower.keys
  · exact Or.inl hlower
  · exact Or.inr (List.mem_filter.mpr ⟨hname, decide_eq_true hlower⟩)

theorem map_fst_layer_layer_below (hupper : upper.keys.Nodup) (hlower : lower.keys.Nodup) :
    (layer (layer upper lower) lower).map Prod.fst = (layer upper lower).map Prod.fst := by
  rw [map_fst_layer (keys_layer_nodup hupper hlower), map_fst_layer hupper, List.filter_append,
    filter_notMem_keys (List.Subset.refl _), List.filter_filter, List.nil_append]
  simp only [Bool.and_self]

/-! ## One value over another -/

theorem layer_self_of_overlay (hupper : upper.keys.Nodup)
    (h : ∀ {name v}, upper.get? name = some v → v.overlay v = v) : layer upper upper = upper := by
  apply Members.ext_of_nodup (keys_layer_nodup hupper hupper)
  · exact map_fst_layer_of_subset hupper (List.Subset.refl _)
  · intro name
    rw [get?_layer hupper]
    exact showing_self fun v hv ↦ h hv

theorem overlay_self (hv : v.wellFormed = true) : v.overlay v = v := by
  induction v using tree_induction with
  | object members ih =>
      have hmembers := wellFormed_object_iff.mp hv
      rw [overlay_object, layer_self_of_overlay hmembers.1]
      intro name v hget
      obtain ⟨key, -, hmem⟩ := Members.exists_key_of_get? hget
      exact ih (key, v) hmem (hmembers.2 _ hmem)
  | scalar v hscalar => rw [overlay_of_not_object (isObject_of_isScalar hscalar)]
  | _ => rw [overlay_of_not_object rfl]

theorem layer_layer_of_overlay (hupper : (object upper).wellFormed = true)
    (hlower : (object lower).wellFormed = true)
    (h : ∀ {name v w}, upper.get? name = some v → lower.get? name = some w →
      v.overlay (v.overlay w) = v.overlay w) :
    layer upper (layer upper lower) = layer upper lower := by
  have hu := (wellFormed_object_iff.mp hupper).1
  have hl := (wellFormed_object_iff.mp hlower).1
  apply Members.ext_of_nodup (keys_layer_nodup hu (keys_layer_nodup hu hl))
  · exact map_fst_layer_of_subset hu (keys_subset_layer hu lower)
  · intro name
    rw [get?_layer hu, get?_layer hu]
    exact showing_showing (fun v hv w hw ↦ h hv hw)
      fun v hv ↦ overlay_self (wellFormed_inherited.of_get? hupper hv)

theorem layer_layer_below_of_overlay (hupper : (object upper).wellFormed = true)
    (hlower : (object lower).wellFormed = true)
    (h : ∀ {name v w}, upper.get? name = some v → lower.get? name = some w →
      (v.overlay w).overlay w = v.overlay w) :
    layer (layer upper lower) lower = layer upper lower := by
  have hu := (wellFormed_object_iff.mp hupper).1
  have hl := (wellFormed_object_iff.mp hlower).1
  apply Members.ext_of_nodup (keys_layer_nodup (keys_layer_nodup hu hl) hl)
  · exact map_fst_layer_layer_below hu hl
  · intro name
    rw [get?_layer (keys_layer_nodup hu hl), get?_layer hu]
    exact showing_showing_below (fun v hv w hw ↦ h hv hw)
      fun w hw ↦ overlay_self (wellFormed_inherited.of_get? hlower hw)

theorem overlay_again_of_not_object (hv : v.isObject = false) (w : Value) :
    v.overlay (v.overlay w) = v.overlay w ∧ (v.overlay w).overlay w = v.overlay w := by
  simp only [overlay_of_not_object hv, and_self]

/-- A value laid again changes nothing, on top or at the bottom. -/
theorem overlay_again (hv : v.wellFormed = true) (hw : w.wellFormed = true) :
    v.overlay (v.overlay w) = v.overlay w ∧ (v.overlay w).overlay w = v.overlay w := by
  induction v using tree_induction generalizing w with
  | object members ih =>
      cases hobject : w.isObject with
      | false =>
          simp only [overlay_over_not_object _ hobject, overlay_self hv, true_and]
      | true =>
          obtain ⟨base, rfl⟩ := exists_object hobject
          have hmember {name : String} {v w : Value} (hget : Members.get? members name = some v)
              (hbase : Members.get? base name = some w) :
              v.overlay (v.overlay w) = v.overlay w ∧ (v.overlay w).overlay w = v.overlay w := by
            obtain ⟨key, -, hmem⟩ := Members.exists_key_of_get? hget
            exact ih (key, v) hmem (wellFormed_inherited.of_get? hv hget)
              (wellFormed_inherited.of_get? hw hbase)
          simp only [overlay_object]
          rw [layer_layer_of_overlay hv hw fun hget hbase ↦ (hmember hget hbase).1,
            layer_layer_below_of_overlay hv hw fun hget hbase ↦ (hmember hget hbase).2]
          exact ⟨rfl, rfl⟩
  | scalar v hscalar => exact overlay_again_of_not_object (isObject_of_isScalar hscalar) w
  | _ => exact overlay_again_of_not_object rfl w

/-! ## One object over another -/

/-- Laying the same layer twice is laying it once, and so it is for fallbacks. -/
theorem layer_again (hupper : (object upper).wellFormed = true)
    (hlower : (object lower).wellFormed = true) :
    layer upper upper = upper ∧
    layer upper (layer upper lower) = layer upper lower ∧
    layer (layer upper lower) lower = layer upper lower ∧
    (Config.mk (object upper)).withFallback ⟨object upper⟩ = .merged ⟨object upper⟩ ∧
    ∃ merged : Config, (Config.mk (object upper)).withFallback ⟨object lower⟩ = .merged merged ∧
      (Config.mk (object upper)).withFallback merged = .merged merged ∧
      merged.withFallback ⟨object lower⟩ = .merged merged := by
  have hself : layer upper upper = upper := by
    simpa only [overlay_object, object.injEq] using overlay_self hupper
  obtain ⟨habove, hbelow⟩ := overlay_again hupper hlower
  simp only [overlay_object, object.injEq] at habove hbelow
  refine ⟨hself, habove, hbelow, ?_, ⟨object (layer upper lower)⟩, rfl, ?_, ?_⟩
  · simp only [Config.withFallback, hself]
  · simp only [Config.withFallback, habove]
  · simp only [Config.withFallback, hbelow]

/-- An object over a text, a text over an object, and a key on each side only. -/
theorem layer_again_mixed :
    let upper : Members Text Value := [("a", object [("b", int 1)]), ("c", string "x"), ("d", null)]
    let lower : Members Text Value := [("c", object [("b", int 2)]), ("a", string "y"), ("e", null)]
    layer upper (layer upper lower) = layer upper lower ∧
      (layer upper lower).keys = ["c", "a", "e", "d"] := by
  intro upper lower
  exact ⟨(@layer_again upper lower (by decide) (by decide)).2.1, by decide⟩

end LayeredConfig.Value
