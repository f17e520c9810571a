import LayeredConfig.Proofs.Resolver.Transfer

/-!
# From lenient to strict

A lenient result without references is also the strict one, if no concatenation
hides a reference.  It holds of runs that close no cycle of several visits: what
is settled inside such a cycle depends on where it was entered and how it failed.
-/

namespace LayeredConfig

namespace Value

/-- Within concatenations, whatever is no reference holds none. -/
def Lossless (v : Value) : Prop :=
  v.Everywhere fun w ↦ ∀ fragments, w = .concatenation fragments →
    ∀ x ∈ itemParts fragments, x.isReference = false → x.isResolved = true

end Value

namespace Resolver

/-- How nodes pass from one task to another that differs in whether references
may stay.  The nodes have `W`, and what they come to in the first has `P`. -/
structure Passes (lenient lenient' : Bool) (first : Path → Action (Option Value))
    (W P : Value → Prop) : Prop where
  member : ∀ members, W (.object members) → ∀ entry ∈ members, W entry.2
  element : ∀ elements, W (.array elements) → ∀ v ∈ elements, W v
  fragment : ∀ fragments, W (.concatenation fragments) → ∀ v ∈ fragments, W v
  default : ∀ default override, W (.alternative default override) → W default
  part : ∀ members, P (.object members) → ∀ entry ∈ members, P entry.2
  item : ∀ elements, P (.array elements) → ∀ v ∈ elements, P v
  answers : ∀ {r led found}, Answers lenient r led found → (∀ w ∈ found, P w) →
    Answers lenient' r led found
  joined : ∀ {fragments out found}, W (.concatenation fragments) →
    Comes (resolveFragments lenient first fragments) (.ok out) → Joined out found →
      (∀ w ∈ found, P w) → ∀ w ∈ out, P w

theorem optionRel_eq_iff {found found' : Option Value} :
    Option.Rel Eq found found' ↔ found = found' := by
  constructor
  · intro h
    cases h with
    | none => rfl
    | some h => rw [h]
  · rintro rfl
    cases found with
    | none => exact .none
    | some v => exact .some rfl

section Nodes

variable {lenient lenient' : Bool} {first second : Path → Action (Option Value)}
  {W P : Value → Prop} (hfirst : ∀ p, Steady (first p)) (hsecond : ∀ p, Steady (second p))

include hfirst hsecond

omit hfirst hsecond in
theorem Transfers.same (h : Transfers Eq first second) {path : Path} (hpath : path.Written)
    {r : Except Fault (Option Value)} (hr : Comes (first path) r) : Comes (second path) r := by
  obtain ⟨r', hr', hagrees⟩ := h path r hpath hr
  cases hagrees with
  | failed => exact hr'
  | came hrel =>
      rwa [optionRel_eq_iff.mp hrel]

/-- A node comes to the same, if lookups do. -/
theorem Passes.node (h : Passes lenient lenient' first W P) (hlookups : Transfers Eq first second)
    {v : Value} {place : Option Path} {found : Option Value}
    (hplace : ∀ path ∈ place, ∀ key ∈ path, '.' ∉ key.toList) (hv : W v)
    (hcomes : Comes (resolveNode lenient first v place) (.ok found)) (hfound : ∀ w ∈ found, P w) :
    Comes (resolveNode lenient' second v place) (.ok found) := by
  induction v using Value.tree_induction generalizing place found with
  | object members ih =>
      obtain ⟨out, hout, rfl⟩ := (comes_object_iff hfirst).mp hcomes
      refine (comes_object_iff hsecond).mpr ⟨out, ?_, rfl⟩
      refine hout.imp fun entry hentry kept hkept hkeyed ↦ ?_
      obtain ⟨led, hmember, rfl⟩ := hkeyed
      refine ⟨led, ?_, rfl⟩
      rcases named_or_inPlace place entry.1.content with ⟨path, rfl, hkey⟩ | hinplace
      · rw [resolveMember_plain _ _ hkey] at hmember ⊢
        exact hlookups.same (Path.written_onward (hplace path rfl) hkey) hmember
      · rw [resolveMember_inPlace _ _ hinplace] at hmember ⊢
        refine ih entry hentry (by simp) (h.member members hv entry hentry) hmember ?_
        intro w hw
        exact h.part out (hfound _ rfl) _ (hkept _ (Option.mem_map_of_mem _ hw))
  | array elements ih =>
      obtain ⟨out, hout, rfl⟩ := (comes_array_iff hfirst).mp hcomes
      refine (comes_array_iff hsecond).mpr ⟨out, ?_, rfl⟩
      refine hout.imp fun w hw led hled hcomes ↦ ?_
      exact ih w hw (by simp) (h.element elements hv w hw) hcomes
        fun x hx ↦ h.item out (hfound _ rfl) x (hled x hx)
  | substitution r =>
      rw [resolveNode, comes_followReference_iff hfirst] at hcomes
      rw [resolveNode, comes_followReference_iff hsecond]
      obtain ⟨led, hled, hanswers⟩ := hcomes
      exact ⟨led, hlookups.same (Path.ofText_written r.path) hled, h.answers hanswers hfound⟩
  | concatenation fragments ih =>
      obtain ⟨out, hout, hjoined⟩ := (comes_concatenation_iff hfirst).mp hcomes
      refine (comes_concatenation_iff hsecond).mpr ⟨out, ?_, hjoined⟩
      have hkept := h.joined hv ((comes_fragments_iff hfirst).mpr hout) hjoined hfound
      refine hout.imp fun w hw led hled hcomes ↦ ?_
      exact ih w hw (by simp) (h.fragment fragments hv w hw) hcomes fun x hx ↦ hkept x (hled x hx)
  | alternative default override ih =>
      obtain ⟨led, hled, hchosen⟩ := (comes_alternative_iff hfirst).mp hcomes
      refine (comes_alternative_iff hsecond).mpr
        ⟨led, hlookups.same (Path.ofText_written override.path) hled, ?_⟩
      rcases hchosen with hused | ⟨hnone, hdefault⟩
      · exact Or.inl hused
      · exact Or.inr ⟨hnone, ih (by simp) (h.default default override hv) hdefault hfound⟩
  | scalar v hscalar =>
      rw [comes_scalar_iff hscalar] at hcomes ⊢
      exact hcomes

end Nodes

theorem faithful_eq : Faithful Eq where
  kind h := by rw [h]
  object h key := by
    cases h
    exact optionRel_eq_iff.mpr rfl
  substitution h := by
    cases h
    rfl

/-- A task mirrors the one that differs in whether references may stay. -/
theorem mirrors_of_passes {root : Value} {lenient lenient' : Bool} {W P : Value → Prop}
    (hroot : W root) (hpasses : ∀ {first : Path → Action (Option Value)},
      (∀ p, Steady (first p)) →
        (∀ p v, p.Written → Comes (first p) (.ok (some v)) → P v) →
          Passes lenient lenient' first W P)
    (hmember : ∀ members, W (.object members) → ∀ entry ∈ members, W entry.2)
    (hpart : ∀ members, P (.object members) → ∀ entry ∈ members, P entry.2) :
    Mirrors ⟨root, lenient⟩ ⟨root, lenient'⟩ Eq W P where
  faithful := faithful_eq
  null := rfl
  root := rfl
  given := hroot
  member := hmember
  part := hpart
  node hfirst hsecond hlookups hfound _ _ _ found hplace hvw hv hcomes hP := by
    subst hvw
    refine ⟨found, ?_, optionRel_eq_iff.mpr rfl⟩
    exact (hpasses hfirst hfound).node hfirst hsecond hlookups hplace hv hcomes hP

section Final

variable {lenient : Bool} {first : Path → Action (Option Value)}
  (hfirst : ∀ p, Steady (first p))

include hfirst

/-- A value without references that stands at no place of the document is
resolved to itself. -/
theorem comes_self {v : Value} (hv : v.isResolved = true) {found : Option Value}
    (h : Comes (resolveNode lenient first v none) (.ok found)) : found = some v := by
  induction v using Value.tree_induction generalizing found with
  | object members ih =>
      rw [Value.isResolved, Value.membersResolved_iff] at hv
      obtain ⟨out, hout, rfl⟩ := (comes_object_iff hfirst).mp h
      have hself : out = members := by
        refine hout.eq_of_self fun entry hentry kept hkeyed ↦ ?_
        obtain ⟨led, hled, rfl⟩ := hkeyed
        rw [ih entry hentry (hv entry hentry) hled]
        rfl
      rw [hself]
  | array elements ih =>
      rw [Value.isResolved, Value.elementsResolved_iff] at hv
      obtain ⟨out, hout, rfl⟩ := (comes_array_iff hfirst).mp h
      rw [hout.eq_of_self fun w hw led ↦ ih w hw (hv w hw)]
  | substitution | concatenation | alternative =>
      rw [Value.isResolved] at hv
      cases hv
  | scalar v hscalar => exact (comes_scalar_iff hscalar).mp h

theorem isResolved_of_value {v : Value}
    (hv : ∀ x ∈ v.parts, x.isReference = false → x.isResolved = true)
    (hreference : v.isReference = false) {w : Value}
    (h : Comes (resolveNode lenient first v none) (.ok (some w))) : w.isResolved = true := by
  have hresolved := hv v v.self_mem_parts hreference
  cases comes_self hfirst hresolved h
  exact hresolved

/-- A fragment that hides no reference comes to a reference or to a value
without any. -/
theorem fragment_final (hfound : ∀ p v, p.Written → Comes (first p) (.ok (some v)) →
      v.isResolved = true) {v : Value}
    (hv : ∀ x ∈ v.parts, x.isReference = false → x.isResolved = true) {w : Value}
    (h : Comes (resolveNode lenient first v none) (.ok (some w))) :
    w.isReference = true ∨ w.isResolved = true := by
  induction v using Value.tree_induction generalizing w with
  | substitution r =>
      rw [resolveNode, comes_followReference_iff hfirst] at h
      obtain ⟨led, hled, hanswers⟩ := h
      cases hanswers with
      | found => exact Or.inr (hfound _ w (Path.ofText_written r.path) hled)
      | left => exact Or.inl rfl
  | concatenation fragments ih =>
      obtain ⟨out, hout, hjoined⟩ := (comes_concatenation_iff hfirst).mp h
      cases hjoined with
      | kept => exact Or.inl rfl
      | joined hreference hjoin =>
          right
          have hfinal : ∀ x ∈ out, x.isReference = true ∨ x.isResolved = true := by
            refine hout.forall_mem fun f hf x hx ↦ ih f hf (fun y hy ↦ ?_) hx
            exact hv y (List.mem_cons_of_mem _ (Value.mem_itemParts.mpr ⟨f, hf, hy⟩))
          apply Fragments.join_isResolved _ hjoin
          rw [Value.elementsResolved_iff]
          intro x hx
          exact (hfinal x hx).resolve_left (List.any_eq_false.mp hreference x hx)
  | alternative default override ih =>
      obtain ⟨led, hled, ⟨x, hchosen, hx⟩ | ⟨-, hdefault⟩⟩ := (comes_alternative_iff hfirst).mp h
      · cases hx
        rcases led with fault | _ | y
        · simp only [chosen] at hchosen
          split at hchosen <;> cases hchosen
        · cases hchosen
        · have hy := hfound _ y (Path.ofText_written override.path) hled
          simp only [chosen, Value.isReference_of_isResolved hy, if_false,
            Bool.false_eq_true] at hchosen
          cases hchosen
          exact Or.inr hy
      · refine ih (fun y hy ↦ hv y ?_) hdefault
        exact List.mem_cons_of_mem _ (List.mem_cons_of_mem _ hy)
  | object | array => exact Or.inr (isResolved_of_value hfirst hv rfl h)
  | scalar v hscalar =>
      exact Or.inr (isResolved_of_value hfirst hv (Value.isReference_of_isScalar hscalar) h)

theorem passes_lenient (hfound : ∀ p v, p.Written → Comes (first p) (.ok (some v)) →
      v.isResolved = true) :
    Passes true false first Value.Lossless (fun v ↦ v.isResolved = true) where
  member _ hmembers := (Value.everywhere_object_iff.mp hmembers).2
  element _ helements := (Value.everywhere_array_iff.mp helements).2
  fragment _ hfragments := (Value.everywhere_concatenation_iff.mp hfragments).2
  default _ _ halternative := (Value.everywhere_alternative_iff.mp halternative).2.2
  part members hmembers := by rwa [Value.isResolved, Value.membersResolved_iff] at hmembers
  item elements helements := by rwa [Value.isResolved, Value.elementsResolved_iff] at helements
  answers hanswers hresolved := by
    cases hanswers with
    | found v => exact .found v
    | absent hoptional => exact .absent hoptional
    | left => cases hresolved _ rfl
  joined {fragments out found} hlossless hout hjoined hresolved := by
    have hhidden := (Value.everywhere_concatenation_iff.mp hlossless).1 fragments rfl
    have hfinal : ∀ x ∈ out, x.isReference = true ∨ x.isResolved = true := by
      have hcollected := (comes_fragments_iff hfirst).mp hout
      refine hcollected.forall_mem fun f hf x ↦ fragment_final hfirst hfound ?_
      exact fun y hy ↦ hhidden y (Value.mem_itemParts.mpr ⟨f, hf, hy⟩)
    intro x hx
    refine (hfinal x hx).resolve_left ?_
    cases hjoined with
    | nothing => cases hx
    | kept => cases hresolved _ rfl
    | joined hreference => exact List.any_eq_false.mp hreference x hx

end Final

/-- A lenient result without references is the strict one, if no concatenation
hides a reference and no cycle of several visits was closed. -/
theorem resolveDocument_strict {root found : Value} {depth : Nat} {t : Session}
    (hlossless : root.Lossless)
    (hrun : (resolveDocument ⟨root, true⟩ depth).runIn .empty = some (.ok found, t))
    (hstraight : RunsStraight ⟨root, true⟩ depth) (hfound : found.isResolved = true) :
    ∃ enough, ∀ depth, enough ≤ depth →
      ∃ u, (resolveDocument ⟨root, false⟩ depth).runIn .empty = some (.ok found, u) := by
  have hmirrors : Mirrors ⟨root, true⟩ ⟨root, false⟩ Eq Value.Lossless
      (fun v ↦ v.isResolved = true) :=
    mirrors_of_passes hlossless passes_lenient
      (fun _ hmembers ↦ (Value.everywhere_object_iff.mp hmembers).2)
      (fun _ hmembers ↦ by rwa [Value.isResolved, Value.membersResolved_iff] at hmembers)
  obtain ⟨_, rfl, h⟩ := hmirrors.document hrun hstraight hfound
  exact h

/-- A text beside a member that another one stands in for. -/
def greeting : Members Text Value :=
  [(⟨"text", false⟩, .concatenation [.string ⟨"hello ", false⟩, .substitution ⟨"name", false⟩]),
    (⟨"name", false⟩, .alternative (.substitution ⟨"user", false⟩) ⟨"nick", false⟩),
    (⟨"user", false⟩, .string ⟨"world", false⟩)]

theorem resolveDocument_strict_greeting :
    ∃ found t, (resolveDocument ⟨.object greeting, true⟩ 4).runIn .empty = some (.ok found, t) ∧
      found.isResolved = true ∧ ∃ enough, ∀ depth, enough ≤ depth →
        ∃ u, (resolveDocument ⟨.object greeting, false⟩ depth).runIn .empty =
          some (.ok found, u) := by
  obtain ⟨t, ht⟩ : ∃ t, (resolveDocument ⟨.object greeting, true⟩ 4).runIn .empty =
      some (.ok (.object [(⟨"text", false⟩, .string ⟨"hello world", false⟩),
        (⟨"name", false⟩, .string ⟨"world", false⟩),
        (⟨"user", false⟩, .string ⟨"world", false⟩)]), t) := ⟨_, rfl⟩
  have hlossless : (Value.object greeting).Lossless := by
    rintro w hw fragments rfl x hx hreference
    obtain rfl : fragments = [.string ⟨"hello ", false⟩, .substitution ⟨"name", false⟩] := by
      simpa [greeting, Value.parts, Value.memberParts, Value.itemParts] using hw
    rcases (by simpa [Value.parts, Value.itemParts] using hx :
      x = .string ⟨"hello ", false⟩ ∨ x = .substitution ⟨"name", false⟩) with rfl | rfl
    · rfl
    · cases hreference
  exact ⟨_, t, ht, rfl, resolveDocument_strict hlossless ht ⟨_, rfl⟩ rfl⟩

/-- A reference in an array that is a fragment. -/
def hidden : Members Text Value :=
  [(⟨"s", false⟩, .concatenation
    [.string ⟨"a", false⟩, .array [.substitution ⟨"missing", false⟩]])]

/-- The array is written out with its reference as a text. -/
theorem resolveDocument_hidden :
    (∃ t, (resolveDocument ⟨.object hidden, true⟩ 3).runIn .empty =
      some (.ok (.object [(⟨"s", false⟩, .string ⟨"a[\"$\x7bmissing\x7d\"]", false⟩)]), t)) ∧
    ∃ t, (resolveDocument ⟨.object hidden, false⟩ 3).runIn .empty =
      some (.error (.unresolved "missing"), t) := ⟨⟨_, rfl⟩, ⟨_, rfl⟩⟩

end Resolver

end LayeredConfig
