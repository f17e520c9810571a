import LayeredConfig.Proofs.Resolver.History
import LayeredConfig.Proofs.Tree

/-!
# What a node amounts to

The rules by which a node is resolved, read as a relation between the node and
its result over the paths that are settled: references, members and elements
amount to what their parts amount to.  A run that succeeds obeys the rules with
the paths settled at its end, so a property of results follows from the rules
alone, by induction on the node.
-/

namespace LayeredConfig.Resolver

mutual

/-- What a node amounts to by the settled paths.  The override of an
alternative may be given up for any reason. -/
def AmountsTo (lenient : Bool) (settled : List (Path × Option Value)) :
    Value → (place : Option Path) → Option Value → Prop
  | .object members, place, found =>
    ∃ out, found = some (.object out) ∧ MembersAmountTo lenient settled place members out
  | .array elements, _, found =>
    ∃ out, found = some (.array out) ∧ ItemsAmountTo lenient settled elements out
  | .substitution r, _, found =>
    ∃ led, settled.lookup (Path.ofText r.path) = some led ∧ Answers lenient r led found
  | .concatenation fragments, _, found =>
    ∃ out, ItemsAmountTo lenient settled fragments out ∧ Joined out found
  | .alternative default override, _, found =>
    (∃ v, found = some v ∧ v.isReference = false ∧
      settled.lookup (Path.ofText override.path) = some (some v)) ∨
        AmountsTo lenient settled default none found
  | v, _, found => found = some v

def MembersAmountTo (lenient : Bool) (settled : List (Path × Option Value))
    (place : Option Path) : List (Text × Value) → List (Text × Value) → Prop
  | [], out => out = []
  | (key, child) :: rest, out =>
    ∃ found others,
      (match place with
        | none => AmountsTo lenient settled child none found
        | some path =>
          if Path.isPlainKey key.content then
            settled.lookup (path ++ [key.content]) = some found
          else AmountsTo lenient settled child none found) ∧
      MembersAmountTo lenient settled place rest others ∧
        out = found.elim others fun v ↦ (key, v) :: others

def ItemsAmountTo (lenient : Bool) (settled : List (Path × Option Value)) :
    List Value → List Value → Prop
  | [], out => out = []
  | item :: rest, out =>
    ∃ found others, AmountsTo lenient settled item none found ∧
      ItemsAmountTo lenient settled rest others ∧ out = found.elim others (· :: others)

end

/-- What a member amounts to: what is settled for its path, if it has one. -/
def MemberAmountsTo (lenient : Bool) (settled : List (Path × Option Value))
    (place : Option Path) (key : String) (child : Value) (found : Option Value) : Prop :=
  match place with
  | none => AmountsTo lenient settled child none found
  | some path =>
    if Path.isPlainKey key then settled.lookup (path ++ [key]) = some found
    else AmountsTo lenient settled child none found

section Items

variable {lenient : Bool} {settled : List (Path × Option Value)} {place : Option Path}
  {key : String} {child : Value} {found : Option Value}

theorem memberAmountsTo_plain (hkey : Path.isPlainKey key = true) {path : Path} :
    MemberAmountsTo lenient settled (some path) key child found ↔
      settled.lookup (path ++ [key]) = some found := by
  simp [MemberAmountsTo, hkey]

theorem memberAmountsTo_inPlace (h : place = none ∨ Path.isPlainKey key = false) :
    MemberAmountsTo lenient settled place key child found ↔
      AmountsTo lenient settled child none found := by
  rcases h with rfl | hkey
  · rfl
  · cases place <;> simp [MemberAmountsTo, hkey]

theorem membersAmountTo_iff {members out : List (Text × Value)} :
    MembersAmountTo lenient settled place members out ↔
      Collected (Keyed fun entry ↦ MemberAmountsTo lenient settled place entry.1.content entry.2)
        members out := by
  induction members generalizing out with
  | nil => rw [MembersAmountTo, Collected.nil_iff]
  | cons entry rest ih =>
      obtain ⟨key, child⟩ := entry
      rw [Collected.cons_iff, MembersAmountTo.eq_def]
      constructor
      · rintro ⟨led, others, hled, hothers, rfl⟩
        refine ⟨led.map (key, ·), others, ⟨led, ?_, rfl⟩, ih.mp hothers, ?_⟩
        · cases place <;> exact hled
        · cases led <;> rfl
      · rintro ⟨_, others, ⟨led, hled, rfl⟩, hothers, rfl⟩
        refine ⟨led, others, ?_, ih.mpr hothers, ?_⟩
        · cases place <;> exact hled
        · cases led <;> rfl

theorem itemsAmountTo_iff {items out : List Value} :
    ItemsAmountTo lenient settled items out ↔
      Collected (fun v ↦ AmountsTo lenient settled v none) items out := by
  induction items generalizing out with
  | nil => rw [ItemsAmountTo, Collected.nil_iff]
  | cons item rest ih =>
      rw [ItemsAmountTo, Collected.cons_iff]
      simp only [ih]

theorem amountsTo_object_iff {members : List (Text × Value)} :
    AmountsTo lenient settled (.object members) place found ↔
      ∃ out, found = some (.object out) ∧
        Collected (Keyed fun entry ↦ MemberAmountsTo lenient settled place entry.1.content entry.2)
          members out := by
  simp only [AmountsTo, membersAmountTo_iff]

theorem amountsTo_array_iff {elements : List Value} :
    AmountsTo lenient settled (.array elements) place found ↔
      ∃ out, found = some (.array out) ∧
        Collected (fun v ↦ AmountsTo lenient settled v none) elements out := by
  simp only [AmountsTo, itemsAmountTo_iff]

theorem amountsTo_concatenation_iff {fragments : List Value} :
    AmountsTo lenient settled (.concatenation fragments) place found ↔
      ∃ out, Collected (fun v ↦ AmountsTo lenient settled v none) fragments out ∧
        Joined out found := by
  simp only [AmountsTo, itemsAmountTo_iff]

theorem amountsTo_scalar_iff {v : Value} (hv : v.isScalar = true) :
    AmountsTo lenient settled v place found ↔ found = some v := by
  cases v <;> first | rfl | cases hv

end Items

/-! ## Runs -/

section Runs

variable {task : Task} {depth : Nat} {lenient : Bool} {settled : List (Path × Option Value)}
  {s t : Session}

/-- What a lookup finds is settled from then on. -/
theorem lookup_of_run {path : Path} {found : Option Value}
    (h : (lookupWithin task depth path).runIn s = some (.ok found, t))
    (hcarries : Carries t.settled settled) : settled.lookup path = some found :=
  hcarries _ _ (lookupWithin_settles task h)

/-- What is carried on from the end of a run is carried on from its start. -/
theorem carries_of_run {α : Type} {act : (Path → Action (Option Value)) → Action α}
    {r : Except Fault α} (h : Consults True (fun _ ↦ True) act)
    (hrun : (act (lookupWithin task depth)).runIn s = some (r, t))
    (hcarries : Carries t.settled settled) : Carries s.settled settled :=
  (resolve_extends act h s r t hrun).carries.trans hcarries

/-- A run that succeeds obeys the rules. -/
theorem resolveNode_amounts (v : Value) (place : Option Path) {found : Option Value}
    (h : (resolveNode lenient (lookupWithin task depth) v place).runIn s = some (.ok found, t))
    (hcarries : Carries t.settled settled) : AmountsTo lenient settled v place found := by
  induction v using Value.tree_induction generalizing place s t found with
  | object members ih =>
      rw [resolveNode] at h
      obtain ⟨out, u, hout, hpure⟩ := runIn_bind_ok_cases h
      cases hpure
      refine amountsTo_object_iff.mpr ⟨out, rfl, ?_⟩
      refine collectedMembers_of_run (I := fun s ↦ Carries s.settled settled) (fun _ _ ↦ id)
        (fun entry hentry s u led hled hu ↦ ?_) hout hcarries
      refine ⟨carries_of_run (resolveMember_consults_any place entry.1 entry.2) hled hu, ?_⟩
      rcases named_or_inPlace place entry.1.content with ⟨path, rfl, hkey⟩ | hinplace
      · rw [resolveMember_plain _ _ hkey] at hled
        exact (memberAmountsTo_plain hkey).mpr (lookup_of_run hled hu)
      · rw [resolveMember_inPlace _ _ hinplace] at hled
        exact (memberAmountsTo_inPlace hinplace).mpr (ih entry hentry none hled hu)
  | array elements ih =>
      rw [resolveNode] at h
      obtain ⟨out, u, hout, hpure⟩ := runIn_bind_ok_cases h
      cases hpure
      refine amountsTo_array_iff.mpr ⟨out, rfl, ?_⟩
      refine collectedElements_of_run (I := fun s ↦ Carries s.settled settled) (fun _ _ ↦ id)
        (fun v hv s u led hled hu ↦ ?_) hout hcarries
      exact ⟨carries_of_run (resolveNode_consults_any v none) hled hu, ih v hv none hled hu⟩
  | substitution r =>
      rw [resolveNode] at h
      obtain ⟨led, u, hled, hlogged, hanswers⟩ := followReference_ok h
      rw [AmountsTo]
      exact ⟨led, lookup_of_run hled (hlogged.extends.carries.trans hcarries), hanswers⟩
  | concatenation fragments ih =>
      rw [resolveNode] at h
      obtain ⟨out, u, hout, hjoin⟩ := runIn_bind_ok_cases h
      obtain ⟨hlogged, hjoined⟩ := joinFragments_ok hjoin
      refine amountsTo_concatenation_iff.mpr ⟨out, ?_, hjoined⟩
      refine collectedFragments_of_run (I := fun s ↦ Carries s.settled settled)
        (fun v hv s u led hled hu ↦ ?_) hout (hlogged.extends.carries.trans hcarries)
      exact ⟨carries_of_run (resolveNode_consults_any v none) hled hu, ih v hv none hled hu⟩
  | alternative default override ih =>
      rw [resolveNode] at h
      obtain ⟨used, u, hused, hrest⟩ := runIn_bind_ok_cases h
      rw [AmountsTo]
      cases used with
      | none => exact Or.inr (ih none hrest hcarries)
      | some v =>
          cases hrest
          obtain ⟨hv, u', hled, hlogged⟩ := followOverride_ok hused
          exact Or.inl ⟨v, rfl, hv, lookup_of_run hled (hlogged.extends.carries.trans hcarries)⟩
  | scalar v hscalar =>
      rw [resolveNode_scalar hscalar] at h
      cases h
      exact (amountsTo_scalar_iff hscalar).mpr rfl

/-- Where the work of a visit has what it found from. -/
inductive Source (task : Task) (settled : List (Path × Option Value)) (path : Path) :
    Option Value → Prop
  | nothing : Source task settled path none
  | node {members : Members Text Value} {v : Value} {found : Option Value}
      (hroot : task.root = .object members) (hkeys : path.any String.isEmpty = false)
      (hd : Value.demand members path = .node v)
      (hv : AmountsTo task.lenient settled v (some path) found) : Source task settled path found
  | elsewhere {target : Path} {found : Option Value} (h : settled.lookup target = some found) :
      Source task settled path found
  | part {place rest : Path} {inner : Members Text Value} {v : Value}
      (h : settled.lookup place = some (some (.object inner)))
      (hv : Value.walk inner rest = .ok (some v)) : Source task settled path (some v)

theorem compute_source {path : Path} {found : Option Value}
    (h : (compute task (lookupWithin task depth) path).runIn s = some (.ok found, t)) :
    Source task t.settled path found := by
  have hstep := compute_ok h
  cases hd : task.demand path with
  | absent =>
      rw [hd] at hstep
      rw [hstep.1]
      exact .nothing
  | node v =>
      rw [hd] at hstep
      obtain ⟨members, hroot, hkeys, hd⟩ := Task.demand_cases hd (by simp)
      exact .node hroot hkeys hd (resolveNode_amounts v (some path) hstep (.refl t.settled))
  | redirect target =>
      rw [hd] at hstep
      exact .elsewhere (lookupWithin_settles task hstep)
  | blocked b =>
      rw [hd] at hstep
      exact hstep.elim
  | through place rest =>
      rw [hd] at hstep
      obtain ⟨led, hled, hbeyond⟩ := hstep
      cases found with
      | none => exact .nothing
      | some v =>
          obtain ⟨inner, rfl, hfind⟩ := beyond_some_cases hbeyond
          exact .part (lookupWithin_settles task hled) (Value.find_eq_some_iff.mp hfind).2

/-- The document that was resolved is what its root amounts to. -/
theorem resolveDocument_amounts {found : Value}
    (h : (resolveDocument task depth).runIn s = some (.ok found, t)) :
    ∃ q, found = q.getD .null ∧ AmountsTo task.lenient t.settled task.root (some []) q := by
  rw [resolveDocument, resolveRoot_runIn] at h
  obtain ⟨⟨q, u⟩, hu, hq⟩ := Option.map_eq_some_iff.mp h
  cases q with
  | error fault => cases hq
  | ok q =>
      cases hq
      exact ⟨q, rfl, resolveNode_amounts task.root (some []) hu (.refl u.settled)⟩

end Runs

/-! ## Properties of results -/

section Results

variable {lenient : Bool} {settled : List (Path × Option Value)} {W Q : Value → Prop}

/-- How a property of results is made of the same property of settled values.
The nodes have `W`, and pass it on to what is in them. -/
structure Transmits (settled : List (Path × Option Value)) (W Q : Value → Prop) : Prop where
  member : ∀ members, W (.object members) → ∀ entry ∈ members, W entry.2
  element : ∀ elements, W (.array elements) → ∀ v ∈ elements, W v
  fragment : ∀ fragments, W (.concatenation fragments) → ∀ v ∈ fragments, W v
  default : ∀ default override, W (.alternative default override) → W default
  found : ∀ path v, settled.lookup path = some (some v) → Q v
  object : ∀ members out : List (Text × Value), W (.object members) →
    (out.map Prod.fst).Sublist (members.map Prod.fst) → (∀ entry ∈ out, Q entry.2) →
      Q (.object out)
  array : ∀ elements, (∀ v ∈ elements, Q v) → Q (.array elements)
  left : ∀ r : Reference, r.optional = false → settled.lookup (Path.ofText r.path) = some none →
    Q (.substitution r)
  kept : ∀ fragments, fragments.any Value.isReference = true → (∀ v ∈ fragments, Q v) →
    Q (.concatenation fragments)
  joined : ∀ fragments v, (∀ w ∈ fragments, Q w) → Fragments.join fragments = .ok v → Q v
  scalar : ∀ v, v.isScalar = true → Q v

theorem Transmits.of_amountsTo (h : Transmits settled W Q) {v : Value} (hv : W v)
    {place : Option Path} {w : Value} (hamounts : AmountsTo lenient settled v place (some w)) :
    Q w := by
  induction v using Value.tree_induction generalizing place w with
  | object members ih =>
      obtain ⟨out, hfound, hmembers⟩ := amountsTo_object_iff.mp hamounts
      obtain rfl : w = .object out := Option.some.inj hfound
      refine h.object members out hv hmembers.keys_sublist ?_
      refine hmembers.forall_mem fun entry hentry kept hkept ↦ ?_
      obtain ⟨led, hled, hmap⟩ := hkept
      obtain ⟨w, rfl, rfl⟩ := Option.map_eq_some_iff.mp hmap.symm
      rcases named_or_inPlace place entry.1.content with ⟨path, rfl, hkey⟩ | hinplace
      · exact h.found _ w ((memberAmountsTo_plain hkey).mp hled)
      · exact ih entry hentry (h.member members hv entry hentry)
          ((memberAmountsTo_inPlace hinplace).mp hled)
  | array elements ih =>
      obtain ⟨out, hfound, hitems⟩ := amountsTo_array_iff.mp hamounts
      obtain rfl : w = .array out := Option.some.inj hfound
      apply h.array out
      exact hitems.forall_mem fun v hmem w ↦ ih v hmem (h.element elements hv v hmem)
  | substitution r =>
      rw [AmountsTo] at hamounts
      obtain ⟨led, hled, hanswers⟩ := hamounts
      cases hanswers with
      | found => exact h.found _ _ hled
      | left hoptional => exact h.left r hoptional hled
  | concatenation fragments ih =>
      obtain ⟨out, hitems, hjoined⟩ := amountsTo_concatenation_iff.mp hamounts
      have hout := hitems.forall_mem
        fun v hmem w ↦ ih v hmem (h.fragment fragments hv v hmem)
      cases hjoined with
      | kept hreference => exact h.kept out hreference hout
      | joined _ hjoin => exact h.joined out w hout hjoin
  | alternative default override ih =>
      rw [AmountsTo] at hamounts
      rcases hamounts with ⟨v, hfound, -, hlookup⟩ | hdefault
      · cases hfound
        exact h.found _ _ hlookup
      · exact ih (h.default default override hv) hdefault
  | scalar v hscalar =>
      cases (amountsTo_scalar_iff hscalar).mp hamounts
      exact h.scalar v hscalar

/-- A property that is made by the rules, and that parts of objects have with
them, holds of whatever is settled. -/
theorem Reaches.settled_have {task : Task} {t : Session}
    {Q : List (Path × Option Value) → Value → Prop} (ht : Reaches task .empty t)
    (hroot : ∀ members, task.root = .object members → ∀ path v,
      Value.walk members path = .ok (some v) → W v)
    (hmono : ∀ {earlier later v}, Carries earlier later → Q earlier v → Q later v)
    (hwalk : ∀ {settled inner rest v}, Q settled (.object inner) →
      Value.walk inner rest = .ok (some v) → Q settled v)
    (hrules : ∀ settled, (∀ path v, settled.lookup path = some (some v) → Q settled v) →
      Transmits settled W (Q settled)) :
    ∀ path v, t.settled.lookup path = some (some v) → Q t.settled v := by
  apply ht.keeps (I := fun settled ↦ ∀ path v, settled.lookup path = some (some v) → Q settled v)
  · intro depth path s u found _ hfresh hrun hsettled p v hp
    have hcarries := carries_cons hfresh found
    by_cases heq : p = path
    · subst heq
      obtain rfl : found = some v := by simpa using hp
      apply hmono hcarries
      have hsource := compute_source hrun
      cases hsource with
      | node hmembers _ hd hv =>
          exact (hrules _ hsettled).of_amountsTo
            (hroot _ hmembers _ _ (Value.demand_eq_node_iff.mp hd)) hv
      | elsewhere hlookup => exact hsettled _ v hlookup
      | part hlookup hv => exact hwalk (hsettled _ _ hlookup) hv
    · rw [List.lookup_cons, beq_false_of_ne heq] at hp
      exact hmono hcarries (hsettled p v hp)
  · intro path v hp
    cases hp

end Results

end LayeredConfig.Resolver
