import LayeredConfig.Proofs.Members
import LayeredConfig.Resolver.Demand

/-!
# Lookup along longer paths

A path that goes on behind another one goes on from the value at its end, both
where objects are followed to a value and where a document with references is
followed to a demand.
-/

namespace LayeredConfig.Value

variable {members members' : Members Text Value} {key : String} {path : Path}

theorem walk_congr (h : members.get? key = members'.get? key) (rest : Path) :
    walk members (key :: rest) = walk members' (key :: rest) := by
  cases rest <;> simp [walk, h]

theorem demand_congr (h : members.get? key = members'.get? key) (rest : Path) :
    demand members (key :: rest) = demand members' (key :: rest) := by
  cases rest <;> simp [demand, h]

theorem walk_singleton (members : Members Text Value) (key : String) :
    walk members [key] = .ok (members.get? key) := by
  simp [walk]

theorem walk_cons_none (hget : members.get? key = none) (path : Path) :
    walk members (key :: path) = .ok none := by
  cases path <;> simp [walk, hget]

theorem exists_object {v : Value} (h : v.isObject = true) : ∃ members, v = object members := by
  cases v <;> simp only [isObject, Bool.false_eq_true] at h
  exact ⟨_, rfl⟩

theorem walk_cons_object {inner : Members Text Value} (hpath : path ≠ [])
    (hget : members.get? key = some (.object inner)) :
    walk members (key :: path) = (walk inner path).mapError (Blocked.under key) := by
  cases path with
  | nil => exact absurd rfl hpath
  | cons next rest => simp [walk, hget]

theorem walk_cons_other {v : Value} (hpath : path ≠ []) (hget : members.get? key = some v)
    (hv : v.isObject = false) : walk members (key :: path) = .error ⟨[key], v.kind⟩ := by
  cases path with
  | nil => exact absurd rfl hpath
  | cons next rest => cases v <;> simp_all [walk, isObject]

section MapError

variable {ε ε' α : Type}

@[simp] theorem mapError_ok (f : ε → ε') (a : α) : (Except.ok a).mapError f = .ok a := rfl

@[simp] theorem mapError_error (f : ε → ε') (e : ε) :
    (Except.error e : Except ε α).mapError f = .error (f e) := rfl

theorem mapError_eq_ok_iff {x : Except ε α} {f : ε → ε'} {a : α} :
    x.mapError f = .ok a ↔ x = .ok a := by
  cases x <;> simp

theorem mapError_eq_error_iff {x : Except ε α} {f : ε → ε'} {e : ε'} :
    x.mapError f = .error e ↔ ∃ fault, x = .error fault ∧ f fault = e := by
  cases x <;> simp

end MapError

/-- What objects pass on to their members, members pass on to whatever a walk
finds. -/
theorem of_walk {P : Value → Prop} {v : Value}
    (hobject : ∀ inner, P (.object inner) → ∀ entry ∈ inner, P entry.2)
    (h : ∀ entry ∈ members, P entry.2) (hv : walk members path = .ok (some v)) : P v := by
  have hget {members : Members Text Value} {key : String} {w : Value}
      (h : ∀ entry ∈ members, P entry.2) (hw : members.get? key = some w) : P w := by
    obtain ⟨k, -, hmem⟩ := Members.exists_key_of_get? hw
    exact h (k, w) hmem
  induction path generalizing members with
  | nil => simp [walk] at hv
  | cons key rest ih =>
      by_cases hrest : rest = []
      · subst hrest
        exact hget h (by simpa [walk] using hv)
      · cases hkey : members.get? key with
        | none => simp [walk_cons_none hkey] at hv
        | some w =>
            cases hw : w.isObject with
            | false => simp [walk_cons_other hrest hkey hw] at hv
            | true =>
                obtain ⟨inner, rfl⟩ := exists_object hw
                rw [walk_cons_object hrest hkey, mapError_eq_ok_iff] at hv
                exact ih (hobject inner (hget h hkey)) hv

/-- A walk is blocked by the first value on its path that is no object. -/
theorem walk_error_cases {b : Blocked} (h : walk members path = .error b) :
    ∃ rest v, b.place ≠ [] ∧ rest ≠ [] ∧ path = b.place ++ rest ∧
      walk members b.place = .ok (some v) ∧ v.isObject = false ∧ v.kind = b.kind := by
  induction path generalizing members b with
  | nil => cases h
  | cons key after ih =>
      by_cases hafter : after = []
      · subst hafter
        rw [walk_singleton] at h
        cases h
      · cases hget : members.get? key with
        | none =>
            rw [walk_cons_none hget] at h
            cases h
        | some v =>
            cases hv : v.isObject with
            | false =>
                rw [walk_cons_other hafter hget hv] at h
                cases h
                exact ⟨after, v, List.cons_ne_nil key [], hafter, rfl,
                  by rw [walk_singleton, hget], hv, rfl⟩
            | true =>
                obtain ⟨inner, rfl⟩ := exists_object hv
                rw [walk_cons_object hafter hget, mapError_eq_error_iff] at h
                obtain ⟨blocker, hinner, rfl⟩ := h
                obtain ⟨rest, w, hplace, hrest, rfl, hwalk, hw⟩ := ih hinner
                refine ⟨rest, w, List.cons_ne_nil key _, hrest, rfl, ?_, hw⟩
                rw [Blocked.under, walk_cons_object hplace hget, hwalk, mapError_ok]

theorem find_eq_of_walk (hkeys : path.any String.isEmpty = false) (members : Members Text Value) :
    find members path =
      (walk members path).mapError fun b ↦ ⟨Path.text path, Path.text b.place, b.kind⟩ := by
  simp [find, hkeys]

theorem find_eq_ok_iff (hkeys : path.any String.isEmpty = false) {members : Members Text Value}
    {found : Option Value} : find members path = .ok found ↔ walk members path = .ok found := by
  rw [find_eq_of_walk hkeys, mapError_eq_ok_iff]

theorem find_eq_some_iff {members : Members Text Value} {v : Value} :
    find members path = .ok (some v) ↔
      path.any String.isEmpty = false ∧ walk members path = .ok (some v) := by
  cases hkeys : path.any String.isEmpty with
  | false => simp [find_eq_ok_iff hkeys]
  | true => simp [find, hkeys]

/-- Where a value leads when a path goes on behind it; only the kind of a
value that blocks the way is told. -/
def follow : Option Value → Path → Except Kind (Option Value)
  | none, _ => .ok none
  | some (.object members), path => (walk members path).mapError Blocked.kind
  | some v, _ => .error v.kind

theorem follow_other {v : Value} (hv : v.isObject = false) (path : Path) :
    follow (some v) path = .error v.kind := by
  cases v <;> simp_all [follow, isObject]

theorem kind_mapError_under (key : String) (r : Except Blocked (Option Value)) :
    (r.mapError (Blocked.under key)).mapError Blocked.kind = r.mapError Blocked.kind := by
  cases r <;> rfl

theorem follow_cons {rest : Path} (members : Members Text Value) (key : String)
    (hrest : rest ≠ []) :
    follow (some (.object members)) (key :: rest) = follow (members.get? key) rest := by
  cases hget : members.get? key with
  | none => simp [follow, walk_cons_none hget]
  | some v =>
      cases hv : v.isObject with
      | false =>
          rw [follow_other hv, follow, walk_cons_other hrest hget hv]
          rfl
      | true =>
          obtain ⟨inner, rfl⟩ := exists_object hv
          rw [follow, walk_cons_object hrest hget, kind_mapError_under, follow]

theorem follow_append {v w : Option Value} {p q : Path} (hp : p ≠ []) (hq : q ≠ [])
    (h : follow v p = .ok w) : follow v (p ++ q) = follow w q := by
  induction p generalizing v with
  | nil => exact absurd rfl hp
  | cons key rest ih =>
      rcases v with _ | v
      · have hw : w = none := by simpa [follow, eq_comm] using h
        simp [hw, follow]
      · cases hv : v.isObject with
        | false => simp [follow_other hv] at h
        | true =>
            obtain ⟨members, rfl⟩ := exists_object hv
            rw [List.cons_append, follow_cons members key (by simp [hq])]
            by_cases hrest : rest = []
            · subst rest
              have hw : Members.get? members key = w := by
                simpa [follow, walk_singleton] using h
              rw [List.nil_append, hw]
            · rw [follow_cons members key hrest] at h
              exact ih hrest h

end LayeredConfig.Value

namespace LayeredConfig.Demand

/-- The same demand, seen from an object that holds the start at `place`. -/
def below (place : Path) (d : Demand) : Demand := place.foldr under d

@[simp] theorem below_absent (place : Path) : absent.below place = absent := by
  induction place with
  | nil => rfl
  | cons key rest ih => simp only [below, List.foldr_cons] at ih ⊢; rw [ih]; rfl

@[simp] theorem below_node (place : Path) (v : Value) : (node v).below place = node v := by
  induction place with
  | nil => rfl
  | cons key rest ih => simp only [below, List.foldr_cons] at ih ⊢; rw [ih]; rfl

theorem under_eq_node_iff {key : String} {d : Demand} {v : Value} :
    d.under key = .node v ↔ d = .node v := by
  cases d <;> simp [under]

/-- The demand of a path that goes on behind `place`, from the demand of
`place`. -/
def onward (place rest : Path) : Demand → Demand
  | .absent => .absent
  | .node (.object members) => (Value.demand members rest).below place
  | .node (.substitution r) => .redirect (Path.ofText r.path ++ rest)
  | .node (.concatenation _) => .through place rest
  | .node (.alternative _ _) => .through place rest
  | .node v => .blocked ⟨place, v.kind⟩
  | .redirect target => .redirect (target ++ rest)
  | .through first before => .through first (before ++ rest)
  | .blocked b => .blocked b

theorem under_onward (key : String) (place rest : Path) (d : Demand) :
    (d.onward place rest).under key = (d.under key).onward (key :: place) rest := by
  cases d with
  | node v => cases v <;> rfl
  | _ => rfl

end LayeredConfig.Demand

namespace LayeredConfig.Value

theorem demand_append (members : Members Text Value) {place rest : Path} (hplace : place ≠ [])
    (hrest : rest ≠ []) :
    demand members (place ++ rest) = (demand members place).onward place rest := by
  obtain ⟨next, others, rfl⟩ := List.exists_cons_of_ne_nil hrest
  induction place generalizing members with
  | nil => exact absurd rfl hplace
  | cons key before ih =>
      cases before with
      | nil =>
          cases hget : members.get? key with
          | none => simp [demand, hget, Demand.onward]
          | some v => cases v <;> simp [demand, hget, Demand.onward, Demand.below]
      | cons second before =>
          cases hget : members.get? key with
          | none => simp [demand, hget, Demand.onward]
          | some v =>
              cases v
              case object inner =>
                have hinner := ih inner (List.cons_ne_nil second before)
                rw [List.cons_append] at hinner
                simp only [List.cons_append, demand, hget]
                rw [hinner, Demand.under_onward]
              all_goals simp [demand, hget, Demand.onward]

/-- A path that goes on into an object. -/
theorem demand_append_member {members inner : Members Text Value} {place : Path}
    (hplace : place ≠ []) (h : demand members place = .node (.object inner)) (key : String) :
    demand members (place ++ [key]) = (inner.get? key).elim .absent .node := by
  rw [demand_append members hplace (List.cons_ne_nil key []), h, Demand.onward]
  cases hget : inner.get? key <;> simp [demand, hget]

theorem demand_append_missing {members inner : Members Text Value} {place : Path}
    (hplace : place ≠ []) (h : demand members place = .node (.object inner)) {key : String}
    (hkey : inner.get? key = none) (rest : Path) :
    demand members (place ++ key :: rest) = .absent := by
  rw [demand_append members hplace (List.cons_ne_nil key rest), h, Demand.onward]
  cases rest <;> simp [demand, hkey]

/-- A walk finds what is demanded as it stands. -/
theorem demand_eq_node_iff {members : Members Text Value} {path : Path} {v : Value} :
    demand members path = .node v ↔ walk members path = .ok (some v) := by
  induction path generalizing members with
  | nil => simp [walk, demand]
  | cons key rest ih =>
      cases rest with
      | nil => cases hget : members.get? key <;> simp [walk, demand, hget]
      | cons next rest =>
          cases hget : members.get? key with
          | none => simp [walk, demand, hget]
          | some w =>
              cases w <;> simp only [walk, demand, hget, reduceCtorEq]
              case object inner =>
                rw [Demand.under_eq_node_iff, mapError_eq_ok_iff]
                exact ih

/-- What stands at the end of a path is a member of the object before it. -/
theorem walk_append_singleton {members : Members Text Value} {place : Path} {v : Value}
    (hplace : place ≠ []) {key : String} (h : walk members (place ++ [key]) = .ok (some v)) :
    ∃ inner, walk members place = .ok (some (.object inner)) ∧
      Members.get? inner key = some v := by
  have hd := demand_eq_node_iff.mpr h
  rw [demand_append members hplace (List.cons_ne_nil key [])] at hd
  cases hfront : demand members place with
  | node w =>
      rw [hfront] at hd
      cases w <;> simp only [Demand.onward, reduceCtorEq] at hd
      case object inner =>
        refine ⟨inner, demand_eq_node_iff.mp hfront, ?_⟩
        cases hget : Members.get? inner key with
        | none => simp [demand, hget] at hd
        | some w => simpa [demand, hget] using hd
  | _ => simp [hfront, Demand.onward] at hd

theorem demand_of_walk_none {members : Members Text Value} {path : Path}
    (h : walk members path = .ok none) : demand members path = .absent := by
  induction path generalizing members with
  | nil => rfl
  | cons key rest ih =>
      cases hget : members.get? key with
      | none => cases rest <;> simp [demand, hget]
      | some v =>
          cases rest with
          | nil => simp [walk, hget] at h
          | cons next rest =>
              cases v <;> simp only [walk, hget, reduceCtorEq] at h
              case object inner =>
                simp [demand, hget, ih (mapError_eq_ok_iff.mp h), Demand.under]

/-- Everything a path can demand: nothing, what a walk finds, or what the first value
on the path that is no object makes of the rest of it. -/
theorem demand_cases (members : Members Text Value) (path : Path) :
    demand members path = .absent ∨ (∃ v, demand members path = .node v) ∨
      ∃ place rest v, place ≠ [] ∧ rest ≠ [] ∧ path = place ++ rest ∧
        walk members place = .ok (some v) ∧ v.isObject = false ∧
          demand members path = (Demand.node v).onward place rest := by
  cases hwalk : walk members path with
  | ok found =>
      cases found with
      | none => exact Or.inl (demand_of_walk_none hwalk)
      | some v => exact Or.inr (Or.inl ⟨v, demand_eq_node_iff.mpr hwalk⟩)
  | error b =>
      obtain ⟨rest, v, hplace, hrest, rfl, hv, hobject, -⟩ := walk_error_cases hwalk
      refine Or.inr (Or.inr ⟨b.place, rest, v, hplace, hrest, rfl, hv, hobject, ?_⟩)
      rw [demand_append members hplace hrest, demand_eq_node_iff.mpr hv]

theorem demand_redirect_cases {members : Members Text Value} {path target : Path}
    (h : demand members path = .redirect target) :
    ∃ before r rest, before ≠ [] ∧ rest ≠ [] ∧ path = before ++ rest ∧
      walk members before = .ok (some (.substitution r)) ∧
        target = Path.ofText r.path ++ rest := by
  obtain habsent | ⟨v, hnode⟩ | ⟨before, rest, v, hbefore, hrest, hpath, hv, hobject, hd⟩ :=
    demand_cases members path
  · cases habsent.symm.trans h
  · cases hnode.symm.trans h
  · have honward := hd.symm.trans h
    cases v with
    | object inner => cases hobject
    | substitution r =>
        cases honward
        exact ⟨before, r, rest, hbefore, hrest, hpath, hv, rfl⟩
    | _ => cases honward

theorem demand_through_cases {members : Members Text Value} {path place rest : Path}
    (h : demand members path = .through place rest) :
    place ≠ [] ∧ rest ≠ [] ∧ path = place ++ rest ∧
      ∃ v, walk members place = .ok (some v) ∧ v.isReference = true := by
  obtain habsent | ⟨v, hnode⟩ | ⟨before, after, v, hbefore, hafter, hpath, hv, hobject, hd⟩ :=
    demand_cases members path
  · cases habsent.symm.trans h
  · cases hnode.symm.trans h
  · have honward := hd.symm.trans h
    cases v with
    | object inner => cases hobject
    | concatenation fragments =>
        cases honward
        exact ⟨hbefore, hafter, hpath, _, hv, rfl⟩
    | alternative default override =>
        cases honward
        exact ⟨hbefore, hafter, hpath, _, hv, rfl⟩
    | _ => cases honward

/-- A path is blocked by a value of the document that is neither an object nor a
reference. -/
theorem demand_blocked_cases {members : Members Text Value} {path : Path} {b : Blocked}
    (h : demand members path = .blocked b) :
    ∃ rest v, b.place ≠ [] ∧ rest ≠ [] ∧ path = b.place ++ rest ∧
      walk members b.place = .ok (some v) ∧ v.kind = b.kind ∧ v.isObject = false ∧
        v.isReference = false := by
  obtain habsent | ⟨v, hnode⟩ | ⟨place, rest, v, hplace, hrest, hpath, hv, hobject, hd⟩ :=
    demand_cases members path
  · cases habsent.symm.trans h
  · cases hnode.symm.trans h
  · have honward := hd.symm.trans h
    cases v with
    | object inner => cases hobject
    | substitution r => cases honward
    | concatenation fragments => cases honward
    | alternative default override => cases honward
    | _ =>
        cases honward
        exact ⟨rest, _, hplace, hrest, hpath, hv, rfl, rfl, rfl⟩

/-- Only a concatenation and a value with an alternative are resolved on the way. -/
theorem kind_of_through {members : Members Text Value} {path place rest : Path} {v : Value}
    (h : demand members path = .through place rest) (hv : walk members place = .ok (some v)) :
    v.kind = .concatenation ∨ v.kind = .alternative := by
  obtain ⟨hplace, hrest, rfl, w, hw, hreference⟩ := demand_through_cases h
  rw [hv] at hw
  cases hw
  rw [demand_append members hplace hrest, demand_eq_node_iff.mpr hv] at h
  cases v with
  | concatenation fragments => exact Or.inl rfl
  | alternative default override => exact Or.inr rfl
  | substitution r => cases h
  | _ => cases hreference

/-! ## Values below values -/

/-- The value below another one, by the keys of nested objects. -/
def descend : Value → Path → Option Value
  | v, [] => some v
  | .object members, key :: rest =>
    match Members.get? members key with
    | some v => descend v rest
    | none => none
  | _, _ :: _ => none

theorem descend_nil (v : Value) : v.descend [] = some v := by
  cases v <;> rfl

theorem descend_object_cons (members : Members Text Value) (key : String) (rest : Path) :
    (object members).descend (key :: rest) = (members.get? key).bind (·.descend rest) := by
  rw [descend]
  cases members.get? key <;> rfl

theorem descend_other {v : Value} (hv : v.isObject = false) (key : String) (rest : Path) :
    v.descend (key :: rest) = none := by
  cases v <;> simp_all [descend, isObject]

/-- What stands below a value stands below one of its members. -/
theorem descend_cons_cases {v w : Value} {key : String} {rest : Path}
    (h : v.descend (key :: rest) = some w) :
    ∃ members child, v = object members ∧ Members.get? members key = some child ∧
      child.descend rest = some w := by
  cases hv : v.isObject with
  | false =>
      rw [descend_other hv] at h
      cases h
  | true =>
      obtain ⟨members, rfl⟩ := exists_object hv
      rw [descend_object_cons] at h
      obtain ⟨child, hchild, hrest⟩ := Option.bind_eq_some_iff.mp h
      exact ⟨members, child, rfl, hchild, hrest⟩

theorem exists_object_of_descend {v w : Value} {path : Path} (hpath : path ≠ [])
    (h : v.descend path = some w) : ∃ members, v = object members := by
  obtain ⟨key, rest, rfl⟩ := List.exists_cons_of_ne_nil hpath
  obtain ⟨members, _, hv, -⟩ := descend_cons_cases h
  exact ⟨members, hv⟩

theorem descend_append (v : Value) (p q : Path) :
    v.descend (p ++ q) = (v.descend p).bind (·.descend q) := by
  induction p generalizing v with
  | nil => rw [List.nil_append, descend_nil, Option.bind_some]
  | cons key rest ih =>
      cases hv : v.isObject with
      | false => rw [List.cons_append, descend_other hv, descend_other hv, Option.bind_none]
      | true =>
          obtain ⟨members, rfl⟩ := exists_object hv
          rw [List.cons_append, descend_object_cons, descend_object_cons]
          cases Members.get? members key with
          | none => rfl
          | some w => exact ih w

/-- A value is found by a walk where it stands below the object. -/
theorem descend_eq_some_iff {members : Members Text Value} {path : Path} (hpath : path ≠ [])
    {v : Value} : (object members).descend path = some v ↔ walk members path = .ok (some v) := by
  induction path generalizing members with
  | nil => exact absurd rfl hpath
  | cons key rest ih =>
      rw [descend_object_cons]
      by_cases hrest : rest = []
      · subst hrest
        rw [walk_singleton, Except.ok.injEq]
        cases Members.get? members key with
        | none => simp
        | some w => rw [Option.bind_some, descend_nil]
      · cases hget : Members.get? members key with
        | none => simp [walk_cons_none hget]
        | some w =>
            rw [Option.bind_some]
            cases hw : w.isObject with
            | false =>
                obtain ⟨next, others, rfl⟩ := List.exists_cons_of_ne_nil hrest
                simp [walk_cons_other hrest hget hw, descend_other hw]
            | true =>
                obtain ⟨inner, rfl⟩ := exists_object hw
                rw [walk_cons_object hrest hget, mapError_eq_ok_iff]
                exact ih hrest

end LayeredConfig.Value
