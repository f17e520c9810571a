import LayeredConfig.Proofs.Layer
import LayeredConfig.Proofs.Resolver.Amount
import LayeredConfig.Proofs.Resolver.Solution

/-!
# What stays unresolved

Where references may stay, those that do are required ones whose path was found
to lead nowhere, and concatenations that such references stand in.  The session
knows of each of these paths that nothing is there.
-/

namespace LayeredConfig

namespace Resolver

/-- A reference that has a reason to stay: it is required and its path is known
to lead nowhere, or another reference is among its fragments. -/
def MayStay (settled : List (Path × Option Value)) (v : Value) : Prop :=
  v.isReference = true →
    (∃ r : Reference, v = .substitution r ∧ r.optional = false ∧
      settled.lookup (Path.ofText r.path) = some none) ∨
    ∃ fragments, v = .concatenation fragments ∧ fragments.any Value.isReference = true

variable {settled : List (Path × Option Value)}

theorem mayStay_of_not_reference {v : Value} (hv : v.isReference = false) : MayStay settled v := by
  intro h
  rw [hv] at h
  cases h

theorem MayStay.mono {earlier later : List (Path × Option Value)} (hcarries : Carries earlier later)
    {v : Value} (h : MayStay earlier v) : MayStay later v := by
  intro hv
  rcases h hv with ⟨r, hr, hoptional, hlookup⟩ | hfragments
  · exact Or.inl ⟨r, hr, hoptional, hcarries _ _ hlookup⟩
  · exact Or.inr hfragments

theorem everywhere_mayStay_inherited (settled : List (Path × Option Value)) :
    Value.Inherited (fun _ ↦ True) (Value.Everywhere (MayStay settled)) where
  object_iff members := by
    rw [Value.everywhere_object_iff]
    exact ⟨fun h ↦ ⟨trivial, h.2⟩, fun h ↦ ⟨mayStay_of_not_reference rfl, h.2⟩⟩
  empty := trivial
  put _ _ _ := trivial

theorem everywhere_mayStay_transmits
    (h : ∀ path v, settled.lookup path = some (some v) → Value.Everywhere (MayStay settled) v) :
    Transmits settled (fun _ ↦ True) (Value.Everywhere (MayStay settled)) where
  member _ _ _ _ := trivial
  element _ _ _ _ := trivial
  fragment _ _ _ _ := trivial
  default _ _ _ := trivial
  found := h
  object members out _ _ hout :=
    Value.everywhere_object_iff.mpr ⟨mayStay_of_not_reference rfl, hout⟩
  array elements helements :=
    Value.everywhere_array_iff.mpr ⟨mayStay_of_not_reference rfl, helements⟩
  left r hoptional hlookup := by
    intro w hw
    obtain rfl : w = .substitution r := by simpa [Value.parts] using hw
    exact fun _ ↦ Or.inl ⟨r, rfl, hoptional, hlookup⟩
  kept fragments hreference hfragments := by
    refine Value.everywhere_concatenation_iff.mpr ⟨?_, hfragments⟩
    exact fun _ ↦ Or.inr ⟨fragments, rfl, hreference⟩
  joined fragments v hfragments hjoin := by
    apply Fragments.join_of_forall (everywhere_mayStay_inherited settled) _ hfragments hjoin
    intro s
    exact (Value.everywhere_scalar_iff rfl).mpr (mayStay_of_not_reference rfl)
  scalar v hv :=
    (Value.everywhere_scalar_iff hv).mpr
      (mayStay_of_not_reference (Value.isReference_of_isScalar hv))

section Runs

variable {task : Task} {s t : Session} {depth : Nat} {found : Value}

theorem Reaches.mayStay (h : Reaches task .empty t) :
    ∀ path v, t.settled.lookup path = some (some v) →
      Value.Everywhere (MayStay t.settled) v := by
  apply h.settled_have (W := fun _ ↦ True) (Q := fun settled ↦ Value.Everywhere (MayStay settled))
  · intro _ _ _ _ _
    trivial
  · intro earlier later v hcarries hv w hw
    exact (hv w hw).mono hcarries
  · intro settled inner rest v hinner hwalk
    exact (everywhere_mayStay_inherited settled).of_walk hinner hwalk
  · intro settled hsettled
    exact everywhere_mayStay_transmits hsettled

/-- What was resolved holds references with a reason to stay only. -/
theorem resolveDocument_mayStay (hs : Reaches task .empty s)
    (hrun : (resolveDocument task depth).runIn s = some (.ok found, t)) :
    Value.Everywhere (MayStay t.settled) found := by
  obtain ⟨q, rfl, hamounts⟩ := resolveDocument_amounts hrun
  cases q with
  | none => exact (Value.everywhere_scalar_iff rfl).mpr (mayStay_of_not_reference rfl)
  | some v =>
      exact (everywhere_mayStay_transmits (hs.document hrun).mayStay).of_amountsTo trivial hamounts

end Runs

/-- Every reference in what a lenient session resolves a document to is required
and leads nowhere on that session, or it is a concatenation around a reference. -/
theorem resolveDocument_leaves {root found : Value} {s t : Session} {depth : Nat}
    (hs : Reaches ⟨root, true⟩ .empty s)
    (hrun : (resolveDocument ⟨root, true⟩ depth).runIn s = some (.ok found, t)) :
    ∀ w ∈ found.parts, w.isReference = true →
      (∃ r : Reference, w = .substitution r ∧ r.optional = false ∧
        ∀ depth, 0 < depth →
          (resolvePath ⟨root, true⟩ depth r.path).runIn t = some (.ok none, t)) ∨
      ∃ fragments, w = .concatenation fragments ∧ fragments.any Value.isReference = true := by
  intro w hw hreference
  rcases resolveDocument_mayStay hs hrun w hw hreference with ⟨r, hr, hoptional, hlookup⟩ | hkept
  · exact Or.inl ⟨r, hr, hoptional, fun depth hdepth ↦ lookupWithin_of_settled hdepth hlookup⟩
  · exact Or.inr hkept

/-- A missing reference beside a text, and an optional one. -/
def halfKnown : Members Text Value :=
  [(⟨"url", false⟩, .concatenation [.string ⟨"http://", false⟩, .substitution ⟨"host", false⟩]),
    (⟨"tags", false⟩, .array [.substitution ⟨"tag", true⟩])]

theorem resolveDocument_leaves_halfKnown :
    ∃ found t, (resolveDocument ⟨.object halfKnown, true⟩ 2).runIn .empty = some (.ok found, t) ∧
      .substitution ⟨"host", false⟩ ∈ found.parts ∧
      (resolvePath ⟨.object halfKnown, true⟩ 1 "host").runIn t = some (.ok none, t) := by
  obtain ⟨t, ht⟩ : ∃ t, (resolveDocument ⟨.object halfKnown, true⟩ 2).runIn .empty =
      some (.ok (.object [(⟨"url", false⟩,
        .concatenation [.string ⟨"http://", false⟩, .substitution ⟨"host", false⟩]),
        (⟨"tags", false⟩, .array [])]), t) := ⟨_, rfl⟩
  have hpart : Value.substitution ⟨"host", false⟩ ∈ (Value.object [(⟨"url", false⟩,
      .concatenation [.string ⟨"http://", false⟩, .substitution ⟨"host", false⟩]),
      (⟨"tags", false⟩, .array [])]).parts := by
    simp [Value.parts, Value.memberParts, Value.itemParts]
  refine ⟨_, t, ht, hpart, ?_⟩
  rcases resolveDocument_leaves .refl ht _ hpart rfl with ⟨r, hr, -, hnone⟩ | ⟨fragments, hf, -⟩
  · cases hr
    exact hnone 1 Nat.one_pos
  · cases hf

end Resolver

end LayeredConfig
