import LayeredConfig.Proofs.Resolver.Resolved
import LayeredConfig.Proofs.Resolver.Stationary

/-!
# What resolving leaves alone

Every object of the document has an object at its place in the result, with its
keys in their order.  Members without references are in it as they were, and
those that are missing stood for something else.  The members that a path can
name are looked up by that path; what is settled for it is what the member
amounts to.
-/

namespace LayeredConfig.Resolver

section Rules

variable {lenient : Bool} {settled earlier later : List (Path × Option Value)}
  {place : Option Path}

theorem MemberAmountsTo.mono (hcarries : Carries earlier later) {key : String} {child : Value}
    {found : Option Value} (h : MemberAmountsTo lenient earlier place key child found)
    (hchild : AmountsTo lenient earlier child none found →
      AmountsTo lenient later child none found) :
    MemberAmountsTo lenient later place key child found := by
  rcases named_or_inPlace place key with ⟨path, rfl, hkey⟩ | hinplace
  · rw [memberAmountsTo_plain hkey] at h ⊢
    exact hcarries _ _ h
  · rw [memberAmountsTo_inPlace hinplace] at h ⊢
    exact hchild h

/-- What a node amounts to, it amounts to when more is settled. -/
theorem AmountsTo.mono (hcarries : Carries earlier later) {v : Value} {found : Option Value}
    (h : AmountsTo lenient earlier v place found) : AmountsTo lenient later v place found := by
  induction v using Value.tree_induction generalizing place found with
  | object members ih =>
      rw [amountsTo_object_iff] at h ⊢
      obtain ⟨out, hfound, hmembers⟩ := h
      refine ⟨out, hfound, hmembers.imp fun entry hentry kept _ hkept ↦ ?_⟩
      obtain ⟨led, hled, hmap⟩ := hkept
      exact ⟨led, hled.mono hcarries (ih entry hentry), hmap⟩
  | array elements ih =>
      rw [amountsTo_array_iff] at h ⊢
      obtain ⟨out, hfound, hitems⟩ := h
      exact ⟨out, hfound, hitems.imp fun v hv _ _ ↦ ih v hv⟩
  | substitution r =>
      rw [AmountsTo] at h ⊢
      obtain ⟨led, hled, hanswers⟩ := h
      exact ⟨led, hcarries _ _ hled, hanswers⟩
  | concatenation fragments ih =>
      rw [amountsTo_concatenation_iff] at h ⊢
      obtain ⟨out, hitems, hjoined⟩ := h
      exact ⟨out, hitems.imp fun v hv _ _ ↦ ih v hv, hjoined⟩
  | alternative default override ih =>
      rw [AmountsTo] at h ⊢
      rcases h with ⟨v, hfound, hv, hlookup⟩ | hdefault
      · exact Or.inl ⟨v, hfound, hv, hcarries _ _ hlookup⟩
      · exact Or.inr (ih hdefault)
  | scalar v hscalar =>
      rw [amountsTo_scalar_iff hscalar] at h ⊢
      exact h

/-- A member is in the result as what it amounts to. -/
theorem memberAmountsTo_get? {members out : Members Text Value} (hnodup : members.keys.Nodup)
    (h : Collected (Keyed fun entry ↦
      MemberAmountsTo lenient settled place entry.1.content entry.2) members out)
    {key : String} {child : Value} (hchild : members.get? key = some child) :
    MemberAmountsTo lenient settled place key child (out.get? key) := by
  obtain ⟨name, rfl, -, hmember⟩ := h.rule_get? hnodup hchild
  exact hmember

end Rules

/-! ## Values at their places -/

/-- What is settled for the place of a value is what the value amounts to. -/
def PlacesAmount (task : Task) (settled : List (Path × Option Value)) : Prop :=
  ∀ path v found, path ≠ [] → Located task.root (some path) v →
    settled.lookup path = some found → AmountsTo task.lenient settled v (some path) found

section Places

variable {task : Task} {settled : List (Path × Option Value)} {place : Option Path}
  {s t : Session} {depth : Nat}

theorem Reaches.placesAmount (h : Reaches task .empty t) : PlacesAmount task t.settled := by
  apply h.keeps (I := PlacesAmount task)
  · intro depth path s u found _ hfresh hrun holder p v led hp hlocated hled
    have hcarries := carries_cons hfresh found
    by_cases heq : p = path
    · subst heq
      obtain rfl : found = led := by simpa using hled
      rw [compute_eq, hlocated.demand hp] at hrun
      exact (resolveNode_amounts v (some p) hrun (.refl u.settled)).mono hcarries
    · rw [List.lookup_cons, beq_false_of_ne heq] at hled
      exact (holder p v led hp hlocated hled).mono hcarries
  · intro path v found _ _ hpath
    cases hpath

/-- A member amounts to what is in the result, at a place of its own. -/
theorem PlacesAmount.member (h : PlacesAmount task settled) {members : Members Text Value}
    (hlocated : Located task.root place (.object members)) {key : String} {child : Value}
    (hchild : members.get? key = some child) {found : Option Value}
    (hfound : MemberAmountsTo task.lenient settled place key child found) :
    ∃ inner, Located task.root inner child ∧ AmountsTo task.lenient settled child inner found := by
  rcases named_or_inPlace place key with ⟨path, rfl, hkey⟩ | hinplace
  · have hmember := hlocated.member hkey hchild
    exact ⟨some (path ++ [key]), hmember,
      h _ _ _ (by simp) hmember ((memberAmountsTo_plain hkey).mp hfound)⟩
  · exact ⟨none, located_none _ _, (memberAmountsTo_inPlace hinplace).mp hfound⟩

/-- Whatever stands below a node amounts to what stands there in the result. -/
theorem AmountsTo.descend (h : PlacesAmount task settled) {v : Value} (hwell : v.wellFormed = true)
    (hlocated : Located task.root place v) {found : Option Value}
    (hv : AmountsTo task.lenient settled v place found) {path : Path} {w : Value}
    (hw : v.descend path = some w) :
    ∃ inner, Located task.root inner w ∧ w.wellFormed = true ∧
      AmountsTo task.lenient settled w inner (found.bind (·.descend path)) := by
  induction path generalizing v place found with
  | nil =>
      rw [Value.descend_nil] at hw
      cases hw
      have hbind : found.bind (·.descend []) = found := by
        cases found with
        | none => rfl
        | some f => exact Value.descend_nil f
      exact ⟨place, hlocated, hwell, by rwa [hbind]⟩
  | cons key rest ih =>
      obtain ⟨members, child, rfl, hchild, hrest⟩ := Value.descend_cons_cases hw
      obtain ⟨out, rfl, hmembers⟩ := amountsTo_object_iff.mp hv
      have hnodup := (Value.wellFormed_object_iff.mp hwell).1
      obtain ⟨inner, hinner, hamounts⟩ :=
        h.member hlocated hchild (memberAmountsTo_get? hnodup hmembers hchild)
      rw [Option.bind_some, Value.descend_object_cons]
      exact ih (Value.wellFormed_inherited.of_get? hwell hchild) hinner hamounts hrest

/-- A value without references amounts to itself. -/
theorem AmountsTo.eq_of_isResolved (h : PlacesAmount task settled) {v : Value}
    (hwell : v.wellFormed = true) (hresolved : v.isResolved = true)
    (hlocated : Located task.root place v) {found : Option Value}
    (hv : AmountsTo task.lenient settled v place found) : found = some v := by
  induction v using Value.tree_induction generalizing place found with
  | object members ih =>
      obtain ⟨out, rfl, hmembers⟩ := amountsTo_object_iff.mp hv
      obtain ⟨hnodup, hwells⟩ := Value.wellFormed_object_iff.mp hwell
      rw [Value.isResolved, Value.membersResolved_iff] at hresolved
      have hget : ∀ name, Members.get? members name = Members.get? out name := by
        intro name
        cases hname : Members.get? members name with
        | none => rw [hmembers.get?_eq_none hname]
        | some child =>
            obtain ⟨inner, hinner, hamounts⟩ :=
              h.member hlocated hname (memberAmountsTo_get? hnodup hmembers hname)
            obtain ⟨key, -, hmem⟩ := Members.exists_key_of_get? hname
            rw [ih (key, child) hmem (hwells _ hmem) (hresolved _ hmem) hinner hamounts]
      have hsublist := hmembers.keys_sublist
      have hkeys : out.map Prod.fst = members.map Prod.fst := by
        apply hsublist.eq_of_length_le
        have hsubset : Members.keys members ⊆ Members.keys out := by
          intro name hname
          obtain ⟨child, hchild⟩ := Members.exists_get?_of_mem_keys hname
          exact Members.mem_keys_of_get? ((hget name).symm.trans hchild)
        have hlength := (List.subperm_of_subset hnodup hsubset).length_le
        simpa [Members.keys] using hlength
      rw [Members.ext_of_nodup hnodup hkeys.symm hget]
  | array elements ih =>
      obtain ⟨out, rfl, hitems⟩ := amountsTo_array_iff.mp hv
      rw [Value.wellFormed, Value.elementsWellFormed_iff] at hwell
      rw [Value.isResolved, Value.elementsResolved_iff] at hresolved
      rw [hitems.eq_of_self fun v hmem found ↦
        ih v hmem (hwell v hmem) (hresolved v hmem) (located_none _ v)]
  | substitution | concatenation | alternative =>
      rw [Value.isResolved] at hresolved
      cases hresolved
  | scalar v hscalar => exact (amountsTo_scalar_iff hscalar).mp hv

/-- What stands at a place of the document amounts to what stands there in the
result. -/
theorem resolveDocument_descend {found v : Value} {path : Path}
    (hwell : task.root.wellFormed = true) (hs : Reaches task .empty s)
    (hrun : (resolveDocument task depth).runIn s = some (.ok found, t))
    (hobject : task.root.isObject = true) (hv : task.root.descend path = some v) :
    ∃ place, Located task.root place v ∧ v.wellFormed = true ∧
      AmountsTo task.lenient t.settled v place (found.descend path) := by
  obtain ⟨q, rfl, hamounts⟩ := resolveDocument_amounts hrun
  have hplaces := (hs.document hrun).placesAmount
  obtain ⟨place, hlocated, hv_well, hv_amounts⟩ :=
    hamounts.descend hplaces hwell (located_root task.root) hv
  refine ⟨place, hlocated, hv_well, ?_⟩
  obtain ⟨members, hroot⟩ := Value.exists_object hobject
  rw [hroot] at hamounts
  obtain ⟨out, rfl, -⟩ := amountsTo_object_iff.mp hamounts
  exact hv_amounts

end Places

/-! ## Well-formed results -/

theorem wellFormed_transmits {settled : List (Path × Option Value)}
    (h : ∀ path v, settled.lookup path = some (some v) → v.wellFormed = true) :
    Transmits settled (fun v ↦ v.wellFormed = true) (fun v ↦ v.wellFormed = true) where
  member _ hmembers := (Value.wellFormed_object_iff.mp hmembers).2
  element _ helements := by
    rwa [Value.wellFormed, Value.elementsWellFormed_iff] at helements
  fragment _ hfragments := by
    rw [Value.wellFormed, Bool.and_eq_true, Value.elementsWellFormed_iff] at hfragments
    exact hfragments.2
  default _ _ halternative := by rwa [Value.wellFormed] at halternative
  found := h
  object members out hmembers hsublist hout := by
    refine Value.wellFormed_object_iff.mpr ⟨?_, hout⟩
    have hnodup := (Value.wellFormed_object_iff.mp hmembers).1
    rw [Members.keys_eq_map] at hnodup ⊢
    exact hnodup.sublist (hsublist.map Text.content)
  array elements helements := by rwa [Value.wellFormed, Value.elementsWellFormed_iff]
  left r _ _ := by simp [Value.wellFormed]
  kept fragments hreference hfragments := by
    have hsome : fragments.isEmpty = false := by
      cases fragments with
      | nil => cases hreference
      | cons => rfl
    simp [Value.wellFormed, hsome, Value.elementsWellFormed_iff.mpr hfragments]
  joined fragments v hfragments hjoin := by
    apply Fragments.join_of_forall Value.wellFormed_inherited _ hfragments hjoin
    intro s
    simp [Value.wellFormed]
  scalar v hv := by
    cases v <;> simp_all [Value.wellFormed, Value.isScalar]

theorem resolveDocument_wellFormed {task : Task} {s t : Session} {depth : Nat} {found : Value}
    (hwell : task.root.wellFormed = true) (hs : Reaches task .empty s)
    (hrun : (resolveDocument task depth).runIn s = some (.ok found, t)) :
    found.wellFormed = true := by
  have hsettled : ∀ path v, t.settled.lookup path = some (some v) → v.wellFormed = true := by
    apply (hs.document hrun).settled_have (W := fun v ↦ v.wellFormed = true)
      (Q := fun _ v ↦ v.wellFormed = true)
    · intro members hroot path v hwalk
      rw [hroot] at hwell
      exact Value.wellFormed_inherited.of_walk hwell hwalk
    · exact fun _ h ↦ h
    · exact Value.wellFormed_inherited.of_walk
    · exact fun _ ↦ wellFormed_transmits
  obtain ⟨q, rfl, hamounts⟩ := resolveDocument_amounts hrun
  cases q with
  | none => simp [Value.wellFormed]
  | some v => exact (wellFormed_transmits hsettled).of_amountsTo hwell hamounts

/-! ## The frame -/

/-- Values that may come to nothing. -/
def MayVanish (v : Value) : Prop :=
  (∃ r : Reference, v = .substitution r ∧ r.optional = true) ∨
    v.kind = .concatenation ∨ v.kind = .alternative

theorem mayVanish_of_amountsTo {lenient : Bool} {settled : List (Path × Option Value)} {v : Value}
    {place : Option Path} (h : AmountsTo lenient settled v place none) : MayVanish v := by
  cases v with
  | substitution r =>
      rw [AmountsTo] at h
      obtain ⟨led, -, hanswers⟩ := h
      cases hanswers with
      | absent hoptional => exact Or.inl ⟨r, rfl, hoptional⟩
  | concatenation => exact Or.inr (Or.inl rfl)
  | alternative => exact Or.inr (Or.inr rfl)
  | object =>
      obtain ⟨out, hout, -⟩ := amountsTo_object_iff.mp h
      cases hout
  | array =>
      obtain ⟨out, hout, -⟩ := amountsTo_array_iff.mp h
      cases hout
  | _ => simp [AmountsTo] at h

/-- Resolving changes only what references force: objects keep their places,
keys and order, members without references stay as they are, and only members
that stand for something else vanish.  So a resolved document is resolved to
itself, and what strict resolving gives is resolved to itself. -/
theorem resolveDocument_frame {task : Task} {s t : Session} {depth : Nat} {found : Value}
    (hwell : task.root.wellFormed = true) (hs : Reaches task .empty s)
    (hrun : (resolveDocument task depth).runIn s = some (.ok found, t)) :
    (∀ path (members : Members Text Value), task.root.descend path = some (.object members) →
      ∃ out : Members Text Value, found.descend path = some (.object out) ∧
        (out.map Prod.fst).Sublist (members.map Prod.fst) ∧
        ∀ key v, members.get? key = some v →
          (v.isResolved = true → out.get? key = some v) ∧ (out.get? key = none → MayVanish v)) ∧
    (∀ v : Value, v.wellFormed = true → v.isResolved = true → ∀ lenient, ∃ enough, ∀ depth,
      enough ≤ depth →
        ∃ u, (resolveDocument ⟨v, lenient⟩ depth).runIn .empty = some (.ok v, u)) ∧
    (task.lenient = false → ∃ enough, ∀ depth, enough ≤ depth →
      ∃ u, (resolveDocument ⟨found, false⟩ depth).runIn .empty = some (.ok found, u)) := by
  have hplaces := (hs.document hrun).placesAmount
  refine ⟨?_, fun v hv hresolved ↦ resolveDocument_of_isResolved hv hresolved, ?_⟩
  · intro path members hmembers
    have hobject : task.root.isObject = true := by
      by_cases hpath : path = []
      · rw [hpath, Value.descend_nil, Option.some.injEq] at hmembers
        rw [hmembers, Value.isObject]
      · obtain ⟨all, hroot⟩ := Value.exists_object_of_descend hpath hmembers
        rw [hroot, Value.isObject]
    obtain ⟨place, hlocated, hmembers_well, hamounts⟩ :=
      resolveDocument_descend hwell hs hrun hobject hmembers
    obtain ⟨out, hout, hrules⟩ := amountsTo_object_iff.mp hamounts
    refine ⟨out, hout, hrules.keys_sublist, ?_⟩
    intro key v hv
    have hnodup := (Value.wellFormed_object_iff.mp hmembers_well).1
    obtain ⟨inner, hinner, hv_amounts⟩ :=
      hplaces.member hlocated hv (memberAmountsTo_get? hnodup hrules hv)
    have hv_well := Value.wellFormed_inherited.of_get? hmembers_well hv
    constructor
    · intro hresolved
      exact hv_amounts.eq_of_isResolved hplaces hv_well hresolved hinner
    · intro hnone
      rw [hnone] at hv_amounts
      exact mayVanish_of_amountsTo hv_amounts
  · intro hstrict
    obtain ⟨root, lenient⟩ := task
    dsimp only at hstrict
    subst hstrict
    have hresolved : s.Resolved := hs.resolved fun _ _ h ↦ by cases h
    have hfound := (resolveDocument_yields s _ t hresolved hrun).2 found rfl
    exact resolveDocument_of_isResolved (resolveDocument_wellFormed hwell hs hrun) hfound false

/-- A reference between members, one of which no path can name. -/
def dotted : Members Text Value :=
  [(⟨"a.b", false⟩, .object [(⟨"c", false⟩, .int 1), (⟨"d", false⟩, .substitution ⟨"x", true⟩)]),
    (⟨"e", false⟩, .substitution ⟨"f", false⟩), (⟨"f", false⟩, .array [])]

theorem resolveDocument_frame_dotted :
    ∃ found t, (resolveDocument ⟨.object dotted, false⟩ 3).runIn .empty = some (.ok found, t) ∧
      (∃ out : Members Text Value, found.descend ["a.b"] = some (.object out) ∧
        out.get? "c" = some (.int 1)) ∧
      ∃ enough, ∀ depth, enough ≤ depth →
        ∃ u, (resolveDocument ⟨found, false⟩ depth).runIn .empty = some (.ok found, u) := by
  obtain ⟨found, t, hrun⟩ : ∃ found t,
      (resolveDocument ⟨.object dotted, false⟩ 3).runIn .empty = some (.ok found, t) := ⟨_, _, rfl⟩
  have hwell : (Value.object dotted).wellFormed = true := by decide
  obtain ⟨hframe, -, hagain⟩ := resolveDocument_frame hwell .refl hrun
  obtain ⟨out, hout, -, hmembers⟩ := hframe ["a.b"] _ rfl
  exact ⟨found, t, hrun, ⟨out, hout, (hmembers "c" (.int 1) rfl).1 rfl⟩, hagain rfl⟩

end LayeredConfig.Resolver
