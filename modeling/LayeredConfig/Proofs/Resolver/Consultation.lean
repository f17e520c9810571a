import LayeredConfig.Proofs.Path
import LayeredConfig.Proofs.Resolver.Computation
import LayeredConfig.Proofs.Tree

/-!
# What resolving consults

Resolving a node reaches the session through the lookups of some paths and
through the log, and in no other way.  `Consults` says so, together with the
paths that may be looked up and whether a failure may be caught.  A property
of lookups is carried to nodes and to whole documents by induction on it.
-/

namespace LayeredConfig

namespace Value

mutual

/-- The paths that the resolving of a node looks up.  Members that a path can
name are looked up, all else is resolved in place. -/
def asks : Value → (place : Option Path) → List Path
  | .object members, place => memberAsks place members
  | .array elements, _ => itemAsks elements
  | .substitution r, _ => [Path.ofText r.path]
  | .concatenation fragments, _ => itemAsks fragments
  | .alternative default override, _ => Path.ofText override.path :: default.asks none
  | _, _ => []

def memberAsks (place : Option Path) : List (Text × Value) → List Path
  | [] => []
  | (key, child) :: rest =>
    (match place with
      | none => child.asks none
      | some path =>
        if Path.isPlainKey key.content then [path ++ [key.content]] else child.asks none) ++
      memberAsks place rest

def itemAsks : List Value → List Path
  | [] => []
  | item :: rest => item.asks none ++ itemAsks rest

end

mutual

/-- No value with an alternative is anywhere in the tree. -/
def lacksAlternatives : Value → Bool
  | .object members => membersLackAlternatives members
  | .array elements => itemsLackAlternatives elements
  | .concatenation fragments => itemsLackAlternatives fragments
  | .alternative .. => false
  | _ => true

def membersLackAlternatives : List (Text × Value) → Bool
  | [] => true
  | (_, v) :: rest => v.lacksAlternatives && membersLackAlternatives rest

def itemsLackAlternatives : List Value → Bool
  | [] => true
  | v :: rest => v.lacksAlternatives && itemsLackAlternatives rest

end

/-- The paths that the resolving of a member looks up. -/
def memberAsk (place : Option Path) (key : Text) (child : Value) : List Path :=
  match place with
  | none => child.asks none
  | some path => if Path.isPlainKey key.content then [path ++ [key.content]] else child.asks none

section Asks

variable {place : Option Path} {p : Path}

theorem mem_itemAsks {items : List Value} : p ∈ itemAsks items ↔ ∃ v ∈ items, p ∈ v.asks none := by
  induction items with
  | nil => simp [itemAsks]
  | cons item rest ih => simp [itemAsks, ih]

theorem mem_memberAsks {members : List (Text × Value)} :
    p ∈ memberAsks place members ↔ ∃ entry ∈ members, p ∈ memberAsk place entry.1 entry.2 := by
  induction members with
  | nil => simp [memberAsks]
  | cons entry rest ih =>
      obtain ⟨key, child⟩ := entry
      have hcons : memberAsks place ((key, child) :: rest) =
          memberAsk place key child ++ memberAsks place rest := by
        cases place <;> rfl
      rw [hcons, List.mem_append, ih]
      simp

theorem memberAsk_plain {key : Text} (hkey : Path.isPlainKey key.content = true) (path : Path)
    (child : Value) : memberAsk (some path) key child = [path ++ [key.content]] := by
  simp [memberAsk, hkey]

theorem memberAsk_inPlace {key : Text} (h : place = none ∨ Path.isPlainKey key.content = false)
    (child : Value) : memberAsk place key child = child.asks none := by
  rcases h with rfl | hkey
  · rfl
  · cases place <;> simp [memberAsk, hkey]

theorem asks_of_isScalar {v : Value} (hv : v.isScalar = true) (place : Option Path) :
    v.asks place = [] := by
  cases v <;> simp_all [asks, isScalar]

/-- Only the members of an object are told apart by where they stand. -/
theorem asks_of_not_object {v : Value} (hv : v.isObject = false) (place : Option Path) :
    v.asks place = v.asks none := by
  cases v <;> simp_all [asks, isObject]

end Asks

theorem asks_written (v : Value) (place : Option Path)
    (hplace : ∀ path ∈ place, ∀ key ∈ path, '.' ∉ key.toList) : ∀ p ∈ v.asks place, p.Written := by
  intro p hp
  induction v using tree_induction generalizing place with
  | object members ih =>
      rw [asks, mem_memberAsks] at hp
      obtain ⟨entry, hentry, hp⟩ := hp
      rcases Resolver.named_or_inPlace place entry.1.content with ⟨path, rfl, hkey⟩ | hinplace
      · rw [memberAsk_plain hkey, List.mem_singleton] at hp
        rw [hp]
        exact Path.written_onward (hplace path rfl) hkey
      · rw [memberAsk_inPlace hinplace] at hp
        exact ih entry hentry none (by simp) hp
  | array elements ih | concatenation elements ih =>
      rw [asks, mem_itemAsks] at hp
      obtain ⟨v, hv, hp⟩ := hp
      exact ih v hv none (by simp) hp
  | substitution r =>
      rw [asks, List.mem_singleton] at hp
      rw [hp]
      exact Path.ofText_written r.path
  | alternative default override ih =>
      rw [asks, List.mem_cons] at hp
      rcases hp with rfl | hp
      · exact Path.ofText_written override.path
      · exact ih none (by simp) hp
  | scalar v hscalar =>
      rw [asks_of_isScalar hscalar] at hp
      cases hp

theorem membersLackAlternatives_iff {members : List (Text × Value)} :
    membersLackAlternatives members = true ↔
      ∀ entry ∈ members, entry.2.lacksAlternatives = true := by
  induction members with
  | nil => simp [membersLackAlternatives]
  | cons entry rest ih =>
      obtain ⟨key, v⟩ := entry
      simp [membersLackAlternatives, ih]

theorem itemsLackAlternatives_iff {items : List Value} :
    itemsLackAlternatives items = true ↔ ∀ v ∈ items, v.lacksAlternatives = true := by
  induction items with
  | nil => simp [itemsLackAlternatives]
  | cons item rest ih => simp [itemsLackAlternatives, ih]

theorem lacksAlternatives_of_walk {members : Members Text Value} {path : Path} {v : Value}
    (h : membersLackAlternatives members = true) (hv : walk members path = .ok (some v)) :
    v.lacksAlternatives = true := by
  refine of_walk (P := fun v ↦ v.lacksAlternatives = true) (fun inner hinner ↦ ?_)
    (membersLackAlternatives_iff.mp h) hv
  rw [lacksAlternatives] at hinner
  exact membersLackAlternatives_iff.mp hinner

theorem written_of_redirect {members : Members Text Value} {path target : Path}
    (hd : demand members path = .redirect target) (hpath : path.Written) : target.Written := by
  obtain ⟨before, r, rest, -, hrest, rfl, -, rfl⟩ := demand_redirect_cases hd
  exact (Path.ofText_written r.path).append (hpath.of_append_right hrest)

theorem written_of_through {members : Members Text Value} {path place rest : Path}
    (hd : demand members path = .through place rest) (hpath : path.Written) : place.Written := by
  obtain ⟨hplace, -, rfl, -⟩ := demand_through_cases hd
  exact hpath.of_append_left hplace

end Value

namespace Resolver

/-- The paths that the visit of a path looks up. -/
def Task.asks (task : Task) (path : Path) : List Path :=
  match task.root with
  | .object members =>
    if path.any String.isEmpty then []
    else
      match Value.demand members path with
      | .node v => v.asks (some path)
      | .redirect target => [target]
      | .through place _ => [place]
      | _ => []
  | _ => []

theorem Task.asks_eq (task : Task) (path : Path) :
    task.asks path =
      match task.demand path with
      | .node v => v.asks (some path)
      | .redirect target => [target]
      | .through place _ => [place]
      | _ => [] := by
  unfold Task.asks Task.demand
  cases task.root with
  | object members =>
      dsimp only
      split <;> rfl
  | _ => rfl

/-- A path is asked for by the node that is demanded, or it is where the way goes
on, or a place on the way. -/
theorem Task.mem_asks_cases {task : Task} {path p : Path} (hp : p ∈ task.asks path) :
    ∃ members, task.root = .object members ∧ path.any String.isEmpty = false ∧
      ((∃ v, Value.demand members path = .node v ∧ p ∈ v.asks (some path)) ∨
        Value.demand members path = .redirect p ∨
          ∃ rest, Value.demand members path = .through p rest) := by
  rw [Task.asks_eq] at hp
  cases hd : task.demand path with
  | node v =>
      rw [hd] at hp
      obtain ⟨members, hroot, hkeys, hd⟩ := Task.demand_cases hd (by simp)
      exact ⟨members, hroot, hkeys, .inl ⟨v, hd, hp⟩⟩
  | redirect target =>
      rw [hd] at hp
      cases List.mem_singleton.mp hp
      obtain ⟨members, hroot, hkeys, hd⟩ := Task.demand_cases hd (by simp)
      exact ⟨members, hroot, hkeys, .inr (.inl hd)⟩
  | through place rest =>
      rw [hd] at hp
      cases List.mem_singleton.mp hp
      obtain ⟨members, hroot, hkeys, hd⟩ := Task.demand_cases hd (by simp)
      exact ⟨members, hroot, hkeys, .inr (.inr ⟨rest, hd⟩)⟩
  | absent | blocked b =>
      rw [hd] at hp
      simp at hp

theorem Task.asks_written (task : Task) {path : Path}
    (hpath : ∀ key ∈ path, '.' ∉ key.toList) : ∀ p ∈ task.asks path, p.Written := by
  intro p hp
  obtain ⟨members, -, -, ⟨v, -, hv⟩ | hd | ⟨rest, hd⟩⟩ := Task.mem_asks_cases hp
  · refine Value.asks_written v (some path) ?_ p hv
    rintro _ ⟨rfl⟩
    exact hpath
  · obtain ⟨before, r, rest, -, hrest, rfl, -, rfl⟩ := Value.demand_redirect_cases hd
    exact (Path.ofText_written r.path).append
      ⟨hrest, fun key hkey ↦ hpath key (List.mem_append_right _ hkey)⟩
  · obtain ⟨hplace, -, rfl, -⟩ := Value.demand_through_cases hd
    exact ⟨hplace, fun key hkey ↦ hpath key (List.mem_append_left _ hkey)⟩

def Fault.isCyclic : Fault → Bool
  | .cyclic .. => true
  | _ => false

/-- Actions made of lookups at the `asked` paths, records, failures that are no
cycles and, if `catches`, of trials of such actions. -/
inductive Consults (catches : Prop) (asked : Path → Prop) :
    {α : Type} → ((Path → Action (Option Value)) → Action α) → Prop
  | pure {α : Type} (a : α) : Consults catches asked fun _ ↦ pure a
  | throw {α : Type} (f : Fault) (hf : f.isCyclic = false) :
      Consults catches asked fun _ ↦ (throw f : Action α)
  | record (e : Event) : Consults catches asked fun _ ↦ Action.record e
  | lookup {p : Path} (h : asked p) : Consults catches asked fun lookup ↦ lookup p
  | bind {α β : Type} {x : (Path → Action (Option Value)) → Action α}
      {f : α → (Path → Action (Option Value)) → Action β} (hx : Consults catches asked x)
      (hf : ∀ a, Consults catches asked (f a)) :
      Consults catches asked fun lookup ↦ x lookup >>= fun a ↦ f a lookup
  | outcome {α : Type} {x : (Path → Action (Option Value)) → Action α} (h : catches)
      (hx : Consults catches asked x) :
      Consults catches asked fun lookup ↦ Action.outcome (x lookup)

section Nodes

variable {catches : Prop} {asked : Path → Prop} {lenient : Bool}

theorem followReference_consults (r : Reference) (h : asked (Path.ofText r.path)) :
    Consults catches asked fun lookup ↦ followReference lenient lookup r := by
  unfold followReference
  refine .bind (.lookup h) fun found ↦ ?_
  cases found with
  | some v => exact .bind (.record _) fun _ ↦ .pure _
  | none =>
      dsimp only
      split
      · exact .pure _
      · split
        · exact .bind (.record _) fun _ ↦ .pure _
        · exact .throw _ rfl

theorem followOverride_consults (hcatches : catches) (r : Reference)
    (h : asked (Path.ofText r.path)) :
    Consults catches asked fun lookup ↦ followOverride lenient lookup r := by
  unfold followOverride
  refine .bind (.outcome hcatches (followReference_consults r h)) fun result ↦ ?_
  rcases result with fault | _ | v
  · dsimp only
    split
    · exact .bind (.record _) fun _ ↦ .pure _
    · -- A cycle yields to the default, so it is not passed on.
      rename_i hyields
      refine .throw fault ?_
      cases fault with
      | cyclic path chain => exact absurd rfl hyields
      | unresolved | traversal | unjoinable => rfl
  · exact .pure _
  · exact .pure _

theorem joinFragments_consults (fragments : List Value) :
    Consults catches asked fun _ ↦ joinFragments fragments := by
  unfold joinFragments
  split
  · exact .pure _
  · split
    · exact .pure _
    · split
      · exact .throw _ rfl
      · split
        · exact .bind (.record _) fun _ ↦ .pure _
        · exact .bind (.pure _) fun _ ↦ .pure _

theorem resolveNode_scalar {lookup : Path → Action (Option Value)} {v : Value}
    (hv : v.isScalar = true) (place : Option Path) :
    resolveNode lenient lookup v place = pure (some v) := by
  cases v <;> simp_all [resolveNode, Value.isScalar]

theorem collect_consults {ι α : Type} {items : List ι} {miss : ι → Action Unit}
    {resolve : (Path → Action (Option Value)) → ι → Action (Option α)}
    (h : ∀ item ∈ items, Consults catches asked fun lookup ↦ resolve lookup item)
    (hmiss : ∀ item, Consults catches asked fun _ ↦ miss item) :
    Consults catches asked fun lookup ↦ collect (resolve lookup) miss items := by
  induction items with
  | nil => exact .pure _
  | cons item rest ih =>
      rw [List.forall_mem_cons] at h
      refine .bind h.1 fun found ↦ ?_
      cases found with
      | some a => exact .bind (ih h.2) fun _ ↦ .pure _
      | none => exact .bind (hmiss item) fun _ ↦ ih h.2

theorem member_consults {place : Option Path} {key : Text} {child : Value}
    (hasks : ∀ p ∈ Value.memberAsk place key child, asked p)
    (h : (∀ p ∈ child.asks none, asked p) →
      Consults catches asked fun lookup ↦ resolveNode lenient lookup child none) :
    Consults catches asked fun lookup ↦ resolveMember lenient lookup place key child := by
  rcases named_or_inPlace place key.content with ⟨path, rfl, hkey⟩ | hinplace
  · simp only [resolveMember_plain _ _ hkey]
    exact .lookup (hasks _ (by simp [Value.memberAsk_plain hkey]))
  · simp only [resolveMember_inPlace _ _ hinplace]
    rw [Value.memberAsk_inPlace hinplace] at hasks
    exact h hasks

theorem members_consults {place : Option Path} {members : List (Text × Value)}
    (hasks : ∀ p ∈ Value.memberAsks place members, asked p)
    (h : ∀ entry ∈ members, (∀ p ∈ entry.2.asks none, asked p) →
      Consults catches asked fun lookup ↦ resolveNode lenient lookup entry.2 none) :
    Consults catches asked fun lookup ↦ resolveMembers lenient lookup place members := by
  simp only [resolveMembers_eq]
  refine collect_consults (fun entry hentry ↦ ?_) fun _ ↦ .record _
  refine .bind (member_consults (fun p hp ↦ ?_) (h entry hentry)) fun _ ↦ .pure _
  exact hasks p (Value.mem_memberAsks.mpr ⟨entry, hentry, hp⟩)

/-- Resolving a node consults the paths that the node asks for.  Only a value
with an alternative catches failures. -/
theorem resolveNode_consults (v : Value) (place : Option Path)
    (hasks : ∀ p ∈ v.asks place, asked p) (halt : v.lacksAlternatives = true ∨ catches) :
    Consults catches asked fun lookup ↦ resolveNode lenient lookup v place := by
  induction v using Value.tree_induction generalizing place with
  | object members ih =>
      rw [Value.lacksAlternatives, Value.membersLackAlternatives_iff] at halt
      simp only [resolveNode]
      exact .bind (members_consults hasks fun entry hentry hchild ↦
        ih entry hentry none hchild (halt.imp_left fun h ↦ h entry hentry)) fun _ ↦ .pure _
  | array elements ih =>
      rw [Value.lacksAlternatives, Value.itemsLackAlternatives_iff] at halt
      simp only [resolveNode, resolveElements_eq]
      exact .bind (collect_consults (fun v hv ↦ ih v hv none
        (fun p hp ↦ hasks p (Value.mem_itemAsks.mpr ⟨v, hv, hp⟩)) (halt.imp_left fun h ↦ h v hv))
          fun _ ↦ .record _) fun _ ↦ .pure _
  | substitution r =>
      simp only [resolveNode]
      exact followReference_consults r (hasks _ (by simp [Value.asks]))
  | concatenation fragments ih =>
      rw [Value.lacksAlternatives, Value.itemsLackAlternatives_iff] at halt
      simp only [resolveNode, resolveFragments_eq]
      exact .bind (collect_consults (fun v hv ↦ ih v hv none
        (fun p hp ↦ hasks p (Value.mem_itemAsks.mpr ⟨v, hv, hp⟩)) (halt.imp_left fun h ↦ h v hv))
          fun _ ↦ .pure _) fun out ↦ joinFragments_consults out
  | alternative default override ih =>
      have hcatches : catches := halt.resolve_left (by simp [Value.lacksAlternatives])
      simp only [resolveNode]
      refine .bind (followOverride_consults hcatches override
        (hasks _ (by simp [Value.asks]))) fun found ↦ ?_
      cases found with
      | some v => exact .pure _
      | none => exact ih none (fun p hp ↦ hasks p (by simp [Value.asks, hp])) (Or.inr hcatches)
  | scalar v hscalar =>
      simp only [resolveNode_scalar hscalar]
      exact .pure _

theorem resolveMembers_consults (members : List (Text × Value)) (place : Option Path)
    (hasks : ∀ p ∈ Value.memberAsks place members, asked p)
    (halt : Value.membersLackAlternatives members = true ∨ catches) :
    Consults catches asked fun lookup ↦ resolveMembers lenient lookup place members := by
  rw [Value.membersLackAlternatives_iff] at halt
  exact members_consults hasks fun entry hentry hchild ↦
    resolveNode_consults entry.2 none hchild (halt.imp_left fun h ↦ h entry hentry)

/-- The work of a visit consults the paths that the visit asks for. -/
theorem compute_consults (task : Task) (path : Path) (hasks : ∀ p ∈ task.asks path, asked p)
    (halt : task.root.lacksAlternatives = true ∨ catches) :
    Consults catches asked fun lookup ↦ compute task lookup path := by
  simp only [compute_eq]
  rw [Task.asks_eq] at hasks
  cases hd : task.demand path with
  | absent => exact .pure _
  | node v =>
      rw [hd] at hasks
      obtain ⟨members, hroot, -, hd⟩ := Task.demand_cases hd (by simp)
      rw [hroot] at halt
      exact resolveNode_consults v (some path) hasks
        (halt.imp_left fun h ↦ Value.lacksAlternatives_of_walk h (Value.demand_eq_node_iff.mp hd))
  | redirect target => exact .lookup (hasks target (by simp [hd]))
  | blocked b => exact .throw _ rfl
  | through place rest =>
      refine .bind (.lookup (hasks place (by simp [hd]))) fun led ↦ ?_
      cases hbeyond : beyond path place rest led with
      | ok found => exact .pure _
      | error fault =>
          rcases beyond_error_cases hbeyond with ⟨_, _, -, -, rfl⟩ | ⟨_, -, -, rfl⟩
          · exact .throw _ rfl
          · exact .throw _ rfl

end Nodes

/-! Without care for which paths are asked for. -/

section Any

variable {lenient : Bool}

theorem resolveNode_consults_any (v : Value) (place : Option Path) :
    Consults True (fun _ ↦ True) fun lookup ↦ resolveNode lenient lookup v place :=
  resolveNode_consults v place (fun _ _ ↦ trivial) (Or.inr trivial)

theorem resolveMember_consults_any (place : Option Path) (key : Text) (child : Value) :
    Consults True (fun _ ↦ True) fun lookup ↦ resolveMember lenient lookup place key child :=
  member_consults (fun _ _ ↦ trivial) fun _ ↦ resolveNode_consults_any child none

theorem resolveMembers_consults_any (place : Option Path) (members : List (Text × Value)) :
    Consults True (fun _ ↦ True) fun lookup ↦ resolveMembers lenient lookup place members :=
  resolveMembers_consults members place (fun _ _ ↦ trivial) (Or.inr trivial)

theorem resolveElements_consults_any (elements : List Value) :
    Consults True (fun _ ↦ True) fun lookup ↦ resolveElements lenient lookup elements := by
  simp only [resolveElements_eq]
  exact collect_consults (fun v _ ↦ resolveNode_consults_any v none) fun _ ↦ .record _

theorem resolveFragments_consults_any (fragments : List Value) :
    Consults True (fun _ ↦ True) fun lookup ↦ resolveFragments lenient lookup fragments := by
  simp only [resolveFragments_eq]
  exact collect_consults (fun v _ ↦ resolveNode_consults_any v none) fun _ ↦ .pure _

theorem compute_consults_any (task : Task) (path : Path) :
    Consults True (fun _ ↦ True) fun lookup ↦ compute task lookup path :=
  compute_consults task path (fun _ _ ↦ trivial) (Or.inr trivial)

end Any

end Resolver

end LayeredConfig
