import LayeredConfig.Proofs.Lookup
import LayeredConfig.Proofs.Resolver.Node

/-!
# The work of a visit

What a visit has to do is decided by the demand of its path alone, before
anything is resolved.  `compute_eq` writes the work out, one case for each
demand, and the lemmas after it say what a run of the work that succeeds has
done.
-/

namespace LayeredConfig.Resolver

/-- What a path demands of the document of a task. -/
def Task.demand (task : Task) (path : Path) : Demand :=
  match task.root with
  | .object members => if path.any String.isEmpty then .absent else Value.demand members path
  | _ => .absent

/-- What a path comes to that crosses a value, by what the value comes to. -/
def beyond (path place rest : Path) : Option Value → Except Fault (Option Value)
  | none => .ok none
  | some (.object inner) => (Value.find inner rest).mapError .traversal
  | some v => .error (.traversal ⟨Path.text path, Path.text place, v.kind⟩)

section Demand

variable {task : Task} {members : Members Text Value} {path : Path}

theorem Task.demand_of_rootless (h : task.root.isObject = false) :
    task.demand path = .absent := by
  unfold Task.demand
  split
  · next members hroot =>
    rw [hroot] at h
    cases h
  · rfl

theorem Task.demand_of_hollow (hempty : path.any String.isEmpty = true) :
    task.demand path = .absent := by
  unfold Task.demand
  split
  · rw [if_pos hempty]
  · rfl

theorem Task.demand_of_object (hroot : task.root = .object members)
    (hkeys : path.any String.isEmpty = false) :
    task.demand path = Value.demand members path := by
  rw [Task.demand, hroot]
  exact if_neg (by simp [hkeys])

theorem Task.demand_cases {d : Demand} (hd : task.demand path = d) (habsent : d ≠ .absent) :
    ∃ members, task.root = .object members ∧ path.any String.isEmpty = false ∧
      Value.demand members path = d := by
  unfold Task.demand at hd
  split at hd
  · rename_i members hroot
    split at hd
    · exact absurd hd.symm habsent
    · rename_i hempty
      exact ⟨members, hroot, Bool.not_eq_true _ ▸ hempty, hd⟩
  · exact absurd hd.symm habsent

end Demand

section Beyond

variable {path place rest : Path} {led found : Option Value}

theorem beyond_other {v : Value} (hv : v.isObject = false) (path place rest : Path) :
    beyond path place rest (some v) =
      .error (.traversal ⟨Path.text path, Path.text place, v.kind⟩) := by
  cases v <;> simp_all [beyond, Value.isObject]

/-- A value is found beyond an object only, by the rest of the path. -/
theorem beyond_some_cases {v : Value} (h : beyond path place rest led = .ok (some v)) :
    ∃ inner, led = some (.object inner) ∧ Value.find inner rest = .ok (some v) := by
  rcases led with _ | w
  · cases h
  · cases hw : w.isObject with
    | false =>
        rw [beyond_other hw] at h
        cases h
    | true =>
        obtain ⟨inner, rfl⟩ := Value.exists_object hw
        exact ⟨inner, rfl, Value.mapError_eq_ok_iff.mp h⟩

/-- A path that fails beyond a value fails inside an object, or the value is none. -/
theorem beyond_error_cases {fault : Fault} (h : beyond path place rest led = .error fault) :
    (∃ inner t, led = some (.object inner) ∧ Value.find inner rest = .error t ∧
      fault = .traversal t) ∨
    ∃ v, led = some v ∧ v.isObject = false ∧
      fault = .traversal ⟨Path.text path, Path.text place, v.kind⟩ := by
  rcases led with _ | w
  · cases h
  · cases hw : w.isObject with
    | false =>
        rw [beyond_other hw] at h
        cases h
        exact .inr ⟨w, rfl, hw, rfl⟩
    | true =>
        obtain ⟨inner, rfl⟩ := Value.exists_object hw
        obtain ⟨t, hfind, rfl⟩ := Value.mapError_eq_error_iff.mp h
        exact .inl ⟨inner, t, rfl, hfind, rfl⟩

theorem beyond_eq_ok_iff (hkeys : rest.any String.isEmpty = false) :
    beyond path place rest led = .ok found ↔ Value.follow led rest = .ok found := by
  rcases led with _ | w
  · simp [beyond, Value.follow]
  · cases hw : w.isObject with
    | false => simp [beyond_other hw, Value.follow_other hw]
    | true =>
        obtain ⟨inner, rfl⟩ := Value.exists_object hw
        simp only [beyond, Value.follow, Value.mapError_eq_ok_iff, Value.find_eq_ok_iff hkeys]

end Beyond

section Work

variable {task : Task} {lookup : Path → Action (Option Value)} {path : Path} {s t : Session}

theorem runIn_ofExcept {α : Type} (r : Except Fault α) (s : Session) :
    (MonadExcept.ofExcept r : Action α).runIn s = some (r, s) := by
  cases r <;> rfl

theorem compute_eq (task : Task) (lookup : Path → Action (Option Value)) (path : Path) :
    compute task lookup path =
      match task.demand path with
      | .absent => pure none
      | .node v => resolveNode task.lenient lookup v (some path)
      | .redirect target => lookup target
      | .blocked b => throw (.traversal ⟨Path.text path, Path.text b.place, b.kind⟩)
      | .through place rest =>
        lookup place >>= fun led ↦ MonadExcept.ofExcept (beyond path place rest led) := by
  unfold compute Task.demand
  cases task.root with
  | object members =>
      dsimp only
      by_cases hempty : path.any String.isEmpty = true
      · rw [if_pos hempty, if_pos hempty]
      · rw [if_neg hempty, if_neg hempty]
        cases Value.demand members path with
        | through place rest =>
            dsimp only
            congr 1
            funext led
            rcases led with _ | v
            · rfl
            · cases v
              case object inner =>
                dsimp only [beyond]
                cases Value.find inner rest <;> rfl
              all_goals rfl
        | _ => rfl
  | _ => rfl

/-- What the work has done that found something out. -/
theorem compute_ok {found : Option Value}
    (h : (compute task lookup path).runIn s = some (.ok found, t)) :
    match task.demand path with
    | .absent => found = none ∧ t = s
    | .node v =>
      (resolveNode task.lenient lookup v (some path)).runIn s = some (.ok found, t)
    | .redirect target => (lookup target).runIn s = some (.ok found, t)
    | .blocked _ => False
    | .through place rest =>
      ∃ led, (lookup place).runIn s = some (.ok led, t) ∧
        beyond path place rest led = .ok found := by
  rw [compute_eq] at h
  split at h
  · cases h
    exact ⟨rfl, rfl⟩
  · exact h
  · exact h
  · cases h
  · obtain ⟨led, u, hled, hbeyond⟩ := runIn_bind_ok_cases h
    rw [runIn_ofExcept, Option.some.injEq, Prod.mk.injEq] at hbeyond
    obtain ⟨hfound, rfl⟩ := hbeyond
    exact ⟨led, hled, hfound⟩

end Work

end LayeredConfig.Resolver
