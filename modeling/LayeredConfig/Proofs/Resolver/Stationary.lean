import LayeredConfig.Proofs.Members
import LayeredConfig.Proofs.Resolved
import LayeredConfig.Proofs.Resolver.Leftover
import LayeredConfig.Proofs.Resolver.Rules

/-!
# Documents that stay as they are

A document whose references all lead nowhere, or stand in concatenations that
cannot be joined for them, is resolved to itself.  Plain recursion comes to that
with no more depth than the nesting of the document and the redirects of its
references ask for.
-/

namespace LayeredConfig.Resolver

section Depth

variable {α β : Type}

/-- With enough depth, the outcome of the action is this one in every session. -/
def Settles (x : Nat → Action α) (r : Except Fault α) : Prop :=
  ∃ enough, ∀ depth, enough ≤ depth → Comes (x depth) r

namespace Settles

theorem const {x : Action α} {r : Except Fault α} (h : Comes x r) : Settles (fun _ ↦ x) r :=
  ⟨0, fun _ _ ↦ h⟩

theorem bind {x : Nat → Action α} {f : Nat → α → Action β} {a : α} {r : Except Fault β}
    (hx : Settles x (.ok a)) (hf : Settles (fun depth ↦ f depth a) r) :
    Settles (fun depth ↦ x depth >>= f depth) r := by
  obtain ⟨enough, hx⟩ := hx
  obtain ⟨enough', hf⟩ := hf
  refine ⟨max enough enough', fun depth hdepth ↦ ?_⟩
  exact (hx depth (le_of_max_le_left hdepth)).bind (hf depth (le_of_max_le_right hdepth))

/-- One more visit takes one more depth. -/
theorem succ {x y : Nat → Action α} {r : Except Fault α} (hy : Settles y r)
    (h : ∀ depth, x (depth + 1) = y depth) : Settles x r := by
  obtain ⟨enough, hy⟩ := hy
  refine ⟨enough + 1, fun depth hdepth ↦ ?_⟩
  obtain ⟨below, rfl⟩ : ∃ below, depth = below + 1 := ⟨depth - 1, by omega⟩
  rw [h below]
  exact hy below (by omega)

end Settles

end Depth

/-! ## Paths to nothing -/

/-- Nothing is at the path, however often it is redirected. -/
inductive Void (root : Value) : Path → Prop
  | rootless {path : Path} (h : root.isObject = false) : Void root path
  | hollow {path : Path} (h : path.any String.isEmpty = true) : Void root path
  | absent {members : Members Text Value} {path : Path} (hroot : root = .object members)
      (hempty : path.any String.isEmpty = false) (hd : Value.demand members path = .absent) :
      Void root path
  | redirect {members : Members Text Value} {path target : Path} (hroot : root = .object members)
      (hempty : path.any String.isEmpty = false)
      (hd : Value.demand members path = .redirect target) (h : Void root target) : Void root path

section Void

variable {task : Task} {path : Path}

theorem Void.not_node (h : Void task.root path) {v : Value} : task.demand path ≠ .node v := by
  intro hd
  obtain ⟨members, hroot, hempty, hd⟩ := Task.demand_cases hd (by simp)
  cases h with
  | rootless h =>
      rw [hroot] at h
      cases h
  | hollow h =>
      rw [hempty] at h
      cases h
  | absent hroot' _ hd' | redirect hroot' _ hd' _ =>
      cases hroot.symm.trans hroot'
      cases hd.symm.trans hd'

/-- A path to nothing is not redirected to itself. -/
theorem Void.not_self (h : Void task.root path) : task.demand path ≠ .redirect path := by
  intro hd
  induction h with
  | rootless h => cases (Task.demand_of_rootless h).symm.trans hd
  | hollow h => cases (Task.demand_of_hollow h).symm.trans hd
  | absent hroot hempty hd' =>
      rw [Task.demand_of_object hroot hempty, hd'] at hd
      cases hd
  | redirect hroot hempty hd' _ ih =>
      have hsame := hd
      rw [Task.demand_of_object hroot hempty, hd'] at hsame
      cases hsame
      exact ih hd

theorem lookupFreely_void (h : Void task.root path) {visitor : Option Path}
    (hvisitor : visitor ≠ some path) :
    Settles (fun depth ↦ lookupFreely task depth visitor path) (.ok none) := by
  induction h generalizing visitor with
  | rootless h =>
      apply (Settles.const (comes_pure none)).succ
      intro depth
      rw [lookupFreely_succ hvisitor, compute_eq, Task.demand_of_rootless h]
  | hollow h =>
      apply (Settles.const (comes_pure none)).succ
      intro depth
      rw [lookupFreely_succ hvisitor, compute_eq, Task.demand_of_hollow h]
  | absent hroot hempty hd =>
      apply (Settles.const (comes_pure none)).succ
      intro depth
      rw [lookupFreely_succ hvisitor, compute_eq, Task.demand_of_object hroot hempty, hd]
  | @redirect _ path target hroot hempty hd h ih =>
      have hdemand : task.demand path = .redirect target :=
        (Task.demand_of_object hroot hempty).trans hd
      have hne : some path ≠ some target := by
        intro heq
        cases heq
        exact (Void.redirect hroot hempty hd h).not_self hdemand
      apply (ih hne).succ
      intro depth
      rw [lookupFreely_succ hvisitor, compute_eq, hdemand]

end Void

/-! ## Nodes that stay -/

/-- No reference, or one that stays: the path of a required reference leads
nowhere, and a concatenation holds another reference. -/
def Stays (task : Task) (v : Value) : Prop :=
  v.isReference = true → task.lenient = true ∧
    ((∃ r : Reference, v = .substitution r ∧ r.optional = false ∧
      Void task.root (Path.ofText r.path)) ∨
    ∃ fragments, v = .concatenation fragments ∧ fragments.any Value.isReference = true)

/-- The value stands at the place, if that is given, and paths can name it. -/
def Located (root : Value) (place : Option Path) (v : Value) : Prop :=
  ∀ path ∈ place, (∀ key ∈ path, Path.isPlainKey key = true) ∧ root.descend path = some v

theorem located_none (root v : Value) : Located root none v := by
  intro path hpath
  cases hpath

theorem located_root (root : Value) : Located root (some []) root := by
  rintro _ ⟨rfl⟩
  exact ⟨by simp, Value.descend_nil root⟩

theorem any_isEmpty_of_plain {path : Path} (h : ∀ key ∈ path, Path.isPlainKey key = true) :
    path.any String.isEmpty = false := by
  rw [List.any_eq_false]
  intro key hkey
  simp [Path.isEmpty_of_isPlainKey (h key hkey)]

theorem Located.member {root : Value} {path : Path} {members : Members Text Value}
    (h : Located root (some path) (.object members)) {key : String}
    (hkey : Path.isPlainKey key = true) {v : Value} (hv : members.get? key = some v) :
    Located root (some (path ++ [key])) v := by
  rintro _ ⟨rfl⟩
  obtain ⟨hplain, hdescend⟩ := h path rfl
  constructor
  · intro k hk
    rcases List.mem_append.mp hk with hk | hk
    · exact hplain k hk
    · rwa [List.mem_singleton.mp hk]
  · rw [Value.descend_append, hdescend, Option.bind_some, Value.descend_object_cons, hv,
      Option.bind_some, Value.descend_nil]

/-- The demand of a place that paths can name is the value there. -/
theorem Located.demand {task : Task} {path : Path} {v : Value}
    (h : Located task.root (some path) v) (hpath : path ≠ []) : task.demand path = .node v := by
  obtain ⟨hplain, hdescend⟩ := h path rfl
  obtain ⟨members, hroot⟩ := Value.exists_object_of_descend hpath hdescend
  rw [hroot] at hdescend
  rw [Task.demand_of_object hroot (any_isEmpty_of_plain hplain), Value.demand_eq_node_iff,
    ← Value.descend_eq_some_iff hpath, hdescend]

section Nodes

variable {task : Task} {lookup : Nat → Path → Action (Option Value)} {lenient : Bool}

theorem collect_settles {ι : Type} {resolve : Nat → ι → Action (Option ι)}
    {miss : ι → Action Unit} {items : List ι}
    (h : ∀ item ∈ items, Settles (fun depth ↦ resolve depth item) (.ok (some item))) :
    Settles (fun depth ↦ collect (resolve depth) miss items) (.ok items) := by
  induction items with
  | nil => exact .const (comes_pure [])
  | cons item rest ih =>
      rw [List.forall_mem_cons] at h
      exact h.1.bind ((ih h.2).bind (.const (comes_pure _)))

/-- A member that is resolved to itself wherever it is, is so as a member: a visit of
its path demands the member. -/
theorem resolveMember_settles {members : Members Text Value} {key : Text} {v : Value}
    {place visitor : Option Path} (hlocated : Located task.root place (.object members))
    (hget : members.get? key.content = some v) (hplace : ∀ p ∈ place, ∀ q ∈ visitor, q = p)
    (hvisitor : ∀ q ∈ visitor, ¬ Void task.root q)
    (hchild : ∀ place visitor : Option Path, Located task.root place v →
      (∀ p ∈ place, ∀ q ∈ visitor, q = p) → (∀ q ∈ visitor, ¬ Void task.root q) →
        Settles (fun depth ↦ resolveNode task.lenient (lookupFreely task depth visitor) v place)
          (.ok (some v))) :
    Settles (fun depth ↦ resolveMember task.lenient (lookupFreely task depth visitor) place key v)
      (.ok (some v)) := by
  rcases named_or_inPlace place key.content with ⟨path, rfl, hkey⟩ | hinplace
  · have hmember := hlocated.member hkey hget
    have hd := hmember.demand (by simp)
    have hne : visitor ≠ some (path ++ [key.content]) := by
      rintro rfl
      simpa using hplace path rfl _ rfl
    have hself := hchild _ (some (path ++ [key.content])) hmember (by simp) (by
      rintro _ ⟨rfl⟩ hvoid
      exact hvoid.not_node hd)
    simp only [resolveMember_plain _ _ hkey]
    apply hself.succ
    intro depth
    rw [lookupFreely_succ hne, compute_eq, hd]
  · simp only [resolveMember_inPlace _ _ hinplace]
    exact hchild none visitor (located_none _ _) (by simp) hvisitor

/-- A node that stays is resolved to itself, in place or by the paths of its
members. -/
theorem resolveNode_settles {v : Value} (hstays : v.Everywhere (Stays task))
    (hwell : v.wellFormed = true) {place visitor : Option Path}
    (hlocated : Located task.root place v) (hplace : ∀ p ∈ place, ∀ q ∈ visitor, q = p)
    (hvisitor : ∀ q ∈ visitor, ¬ Void task.root q) :
    Settles (fun depth ↦ resolveNode task.lenient (lookupFreely task depth visitor) v place)
      (.ok (some v)) := by
  induction v using Value.tree_induction generalizing place visitor with
  | object members ih =>
      obtain ⟨-, hmembers⟩ := Value.everywhere_object_iff.mp hstays
      obtain ⟨hnodup, hwells⟩ := Value.wellFormed_object_iff.mp hwell
      simp only [resolveNode, resolveMembers_eq]
      refine (collect_settles fun entry hentry ↦ ?_).bind (.const (comes_pure _))
      refine (resolveMember_settles hlocated (Members.get?_of_mem hnodup hentry) hplace hvisitor
        fun place visitor ↦ ?_).bind (.const (comes_pure _))
      exact ih entry hentry (hmembers entry hentry) (hwells entry hentry)
  | array elements ih =>
      obtain ⟨-, helements⟩ := Value.everywhere_array_iff.mp hstays
      rw [Value.wellFormed, Value.elementsWellFormed_iff] at hwell
      simp only [resolveNode, resolveElements_eq]
      refine (collect_settles fun v hv ↦ ?_).bind (.const (comes_pure _))
      exact ih v hv (helements v hv) (hwell v hv) (located_none _ v) (by simp) hvisitor
  | substitution r =>
      obtain ⟨hlenient, ⟨r', hr, hoptional, hvoid⟩ | ⟨fragments, hf, -⟩⟩ :=
        hstays (.substitution r) (by simp [Value.parts]) rfl
      · cases hr
        have hne : visitor ≠ some (Path.ofText r.path) := by
          rintro rfl
          exact hvisitor _ rfl hvoid
        simp only [resolveNode, followReference, hoptional, hlenient]
        exact (lookupFreely_void hvoid hne).bind
          ((Settles.const (comes_record _)).bind (.const (comes_pure _)))
      · cases hf
  | concatenation fragments ih =>
      obtain ⟨hkept, hfragments⟩ := Value.everywhere_concatenation_iff.mp hstays
      obtain ⟨-, ⟨r, hr, -⟩ | ⟨fragments', hf, hreference⟩⟩ := hkept rfl
      · cases hr
      · cases hf
        simp only [Value.wellFormed, Bool.and_eq_true, Value.elementsWellFormed_iff] at hwell
        simp only [resolveNode, resolveFragments_eq]
        refine (collect_settles fun v hv ↦ ?_).bind
          (.const (comes_joinFragments (.kept hreference)))
        exact ih v hv (hfragments v hv) (hwell.2 v hv) (located_none _ v) (by simp) hvisitor
  | alternative default override ih =>
      obtain ⟨-, ⟨r, hr, -⟩ | ⟨fragments, hf, -⟩⟩ :=
        hstays (.alternative default override) (by simp [Value.parts]) rfl
      · cases hr
      · cases hf
  | scalar v hscalar =>
      simp only [resolveNode_scalar hscalar]
      exact .const (comes_pure _)

/-- A document that stays is resolved to itself. -/
theorem resolveDocument_of_stays (task : Task) (hstays : task.root.Everywhere (Stays task))
    (hwell : task.root.wellFormed = true) :
    ∃ enough, ∀ depth, enough ≤ depth →
      ∃ t, (resolveDocument task depth).runIn .empty = some (.ok task.root, t) := by
  have hsettles : Settles (fun depth ↦ resolveNode task.lenient (lookupFreely task depth none)
      task.root (some [])) (.ok (some task.root)) :=
    resolveNode_settles hstays hwell (located_root task.root) (by simp) (by simp)
  obtain ⟨enough, h⟩ := hsettles
  exact ⟨enough, fun depth hdepth ↦ resolveDocument_of_comes (h depth hdepth)⟩

end Nodes

theorem everywhere_of_isResolved {P : Value → Prop} (hP : ∀ v, v.isReference = false → P v)
    {v : Value} (hv : v.isResolved = true) : v.Everywhere P := by
  induction v using Value.tree_induction with
  | object members ih =>
      rw [Value.isResolved, Value.membersResolved_iff] at hv
      exact Value.everywhere_object_iff.mpr
        ⟨hP _ rfl, fun entry hentry ↦ ih entry hentry (hv entry hentry)⟩
  | array elements ih =>
      rw [Value.isResolved, Value.elementsResolved_iff] at hv
      exact Value.everywhere_array_iff.mpr ⟨hP _ rfl, fun v hmem ↦ ih v hmem (hv v hmem)⟩
  | substitution | concatenation | alternative =>
      rw [Value.isResolved] at hv
      cases hv
  | scalar v hscalar =>
      exact (Value.everywhere_scalar_iff hscalar).mpr (hP v (Value.isReference_of_isScalar hscalar))

/-- A resolved document is resolved to itself, whether references may stay or not. -/
theorem resolveDocument_of_isResolved {v : Value} (hwell : v.wellFormed = true)
    (hv : v.isResolved = true) (lenient : Bool) :
    ∃ enough, ∀ depth, enough ≤ depth →
      ∃ t, (resolveDocument ⟨v, lenient⟩ depth).runIn .empty = some (.ok v, t) := by
  have hstays : v.Everywhere (Stays ⟨v, lenient⟩) := by
    refine everywhere_of_isResolved (fun w hw hreference ↦ ?_) hv
    rw [hw] at hreference
    cases hreference
  exact resolveDocument_of_stays ⟨v, lenient⟩ hstays hwell

end LayeredConfig.Resolver
