import LayeredConfig.Resolver.Basic

/-!
# Running actions

What each primitive of an action does to the session it runs in, and the one
equation of a visit.  Later proofs run actions by these lemmas and never open
the monad.
-/

namespace LayeredConfig.Resolver

namespace Session

@[simp] theorem settled?_empty (path : Path) : empty.settled? path = none := rfl

@[simp] theorem settled?_record (s : Session) (e : Event) (path : Path) :
    (s.record e).settled? path = s.settled? path := rfl

@[simp] theorem settled?_enter (s : Session) (p path : Path) :
    (s.enter p).settled? path = s.settled? path := rfl

@[simp] theorem settled?_leave (s : Session) (path : Path) :
    s.leave.settled? path = s.settled? path := rfl

theorem settled?_settle (s : Session) (p path : Path) (found : Option Value) :
    (s.settle p found).settled? path = if path = p then some found else s.settled? path := by
  by_cases h : path = p
  · simp [settled?, settle, h]
  · have hne : (path == p) = false := by simpa using h
    simp [settled?, settle, List.lookup_cons, hne, h]

@[simp] theorem settled_record (s : Session) (e : Event) :
    (s.record e).settled = s.settled := rfl

@[simp] theorem settled_enter (s : Session) (p : Path) : (s.enter p).settled = s.settled := rfl

@[simp] theorem settled_leave (s : Session) : s.leave.settled = s.settled := rfl

@[simp] theorem settled_settle (s : Session) (p : Path) (found : Option Value) :
    (s.settle p found).settled = (p, found) :: s.settled := rfl

@[simp] theorem pending_record (s : Session) (e : Event) :
    (s.record e).pending = s.pending := rfl

@[simp] theorem pending_enter (s : Session) (p : Path) :
    (s.enter p).pending = p :: s.pending := rfl

@[simp] theorem pending_leave (s : Session) : s.leave.pending = s.pending.tail := rfl

@[simp] theorem pending_settle (s : Session) (p : Path) (found : Option Value) :
    (s.settle p found).pending = s.pending := rfl

end Session

namespace Action

variable {α β : Type}

@[simp] theorem runIn_pure (a : α) (s : Session) :
    (pure a : Action α).runIn s = some (.ok a, s) := rfl

@[simp] theorem runIn_throw (f : Fault) (s : Session) :
    (throw f : Action α).runIn s = some (.error f, s) := rfl

@[simp] theorem runIn_exhausted (s : Session) : (exhausted : Action α).runIn s = none := rfl

@[simp] theorem runIn_record (e : Event) (s : Session) :
    (record e).runIn s = some (.ok (), s.record e) := rfl

@[simp] theorem runIn_get (s : Session) :
    (get : Action Session).runIn s = some (.ok s, s) := rfl

@[simp] theorem runIn_modify (f : Session → Session) (s : Session) :
    (modify f : Action Unit).runIn s = some (.ok (), f s) := rfl

theorem runIn_bind (x : Action α) (f : α → Action β) (s : Session) :
    (x >>= f).runIn s =
      match x.runIn s with
      | none => none
      | some (.ok a, t) => (f a).runIn t
      | some (.error e, t) => some (.error e, t) := by
  change Option.bind (x s) _ = _
  change _ = match x s with
    | none => none
    | some (.ok a, t) => (f a).runIn t
    | some (.error e, t) => some (.error e, t)
  rcases x s with _ | ⟨_ | _, t⟩ <;> rfl

theorem runIn_bind_ok {x : Action α} {f : α → Action β} {s t : Session} {a : α}
    (h : x.runIn s = some (.ok a, t)) : (x >>= f).runIn s = (f a).runIn t := by
  rw [runIn_bind, h]

theorem runIn_bind_error {x : Action α} {f : α → Action β} {s t : Session} {e : Fault}
    (h : x.runIn s = some (.error e, t)) : (x >>= f).runIn s = some (.error e, t) := by
  rw [runIn_bind, h]

/-- A run of two actions in a row: the first one fails, or it has a value that
the second one goes on from. -/
theorem runIn_bind_cases {x : Action α} {f : α → Action β} {s u : Session}
    {r : Except Fault β} (h : (x >>= f).runIn s = some (r, u)) :
    (∃ e, x.runIn s = some (.error e, u) ∧ r = .error e) ∨
      ∃ a t, x.runIn s = some (.ok a, t) ∧ (f a).runIn t = some (r, u) := by
  rw [runIn_bind] at h
  cases hx : x.runIn s with
  | none => simp [hx] at h
  | some out =>
      obtain ⟨q, t⟩ := out
      cases q with
      | error e =>
          simp only [hx, Option.some.injEq, Prod.mk.injEq] at h
          exact Or.inl ⟨e, by rw [h.2], h.1.symm⟩
      | ok a =>
          simp only [hx] at h
          exact Or.inr ⟨a, t, rfl, h⟩

theorem runIn_outcome (x : Action α) (s : Session) :
    (outcome x).runIn s = (x.runIn s).map fun out ↦ (.ok out.1, out.2) := by
  change Option.bind (x s) _ = Option.map _ (x s)
  cases x s <;> rfl

theorem runIn_outcome_cases {x : Action α} {s u : Session} {r : Except Fault (Except Fault α)}
    (h : (outcome x).runIn s = some (r, u)) : ∃ q, x.runIn s = some (q, u) ∧ r = .ok q := by
  rw [runIn_outcome] at h
  obtain ⟨⟨q, t⟩, hx, hq⟩ := Option.map_eq_some_iff.mp h
  cases hq
  exact ⟨q, hx, rfl⟩

end Action

/-- What is left of a session after the work of a visit. -/
def Session.close (s : Session) (path : Path) : Except Fault (Option Value) → Session
  | .ok found => s.leave.settle path found
  | .error _ => s.leave

@[simp] theorem Session.pending_close (s : Session) (path : Path)
    (r : Except Fault (Option Value)) : (s.close path r).pending = s.pending.tail := by
  cases r <;> rfl

/-- A visit of a settled path repeats it, a visit of a pending path fails, and
any other visit does the work with the path pending. -/
theorem visit_runIn (path : Path) (work : Action (Option Value)) (s : Session) :
    (visit path work).runIn s =
      match s.settled? path with
      | some found => some (.ok found, s)
      | none =>
        if path ∈ s.pending then
          some (.error (.cyclic (Path.text path) ((s.chainFrom path).map Path.text)), s)
        else
          (work.runIn (s.enter path)).map fun out ↦ (out.1, out.2.close path out.1) := by
  unfold visit
  rw [Action.runIn_bind_ok (Action.runIn_get s)]
  cases hsettled : s.settled? path with
  | some found => rfl
  | none =>
      by_cases hpending : path ∈ s.pending
      · have hcontains : s.pending.contains path = true := by simpa using hpending
        simp only [hpending, hcontains, if_true]
        rfl
      · have hcontains : s.pending.contains path = false := by simpa using hpending
        simp only [hpending, hcontains, if_false, Bool.false_eq_true]
        rw [Action.runIn_bind_ok (Action.runIn_modify _ s), Action.runIn_bind,
          Action.runIn_outcome]
        cases hwork : work.runIn (s.enter path) with
        | none => rfl
        | some out =>
            obtain ⟨r, t⟩ := out
            cases r <;> rfl

theorem visit_of_settled {path : Path} {s : Session} {found : Option Value}
    (h : s.settled? path = some found) (work : Action (Option Value)) :
    (visit path work).runIn s = some (.ok found, s) := by
  rw [visit_runIn, h]

theorem visit_of_pending {path : Path} {s : Session} (hnone : s.settled? path = none)
    (hpending : path ∈ s.pending) (work : Action (Option Value)) :
    (visit path work).runIn s =
      some (.error (.cyclic (Path.text path) ((s.chainFrom path).map Path.text)), s) := by
  simp [visit_runIn, hnone, hpending]

theorem visit_of_fresh {path : Path} {work : Action (Option Value)} {s t : Session}
    {r : Except Fault (Option Value)} (hnone : s.settled? path = none)
    (hpending : path ∉ s.pending) (hwork : work.runIn (s.enter path) = some (r, t)) :
    (visit path work).runIn s = some (r, t.close path r) := by
  simp [visit_runIn, hnone, hpending, hwork]

/-- A visit that ends: one of a settled path, one that closes a cycle, or one
that has done its work. -/
theorem visit_cases {path : Path} {work : Action (Option Value)} {s t : Session}
    {r : Except Fault (Option Value)} (h : (visit path work).runIn s = some (r, t)) :
    (∃ found, s.settled? path = some found ∧ r = .ok found ∧ t = s) ∨
      (path ∈ s.pending ∧
        r = .error (.cyclic (Path.text path) ((s.chainFrom path).map Path.text)) ∧ t = s) ∨
      (s.settled? path = none ∧ path ∉ s.pending ∧
        ∃ u, work.runIn (s.enter path) = some (r, u) ∧ t = u.close path r) := by
  rw [visit_runIn] at h
  cases hsettled : s.settled? path with
  | some found =>
      simp only [hsettled, Option.some.injEq, Prod.mk.injEq] at h
      exact Or.inl ⟨found, rfl, h.1.symm, h.2.symm⟩
  | none =>
      by_cases hpending : path ∈ s.pending
      · simp only [hsettled, hpending, if_true, Option.some.injEq, Prod.mk.injEq] at h
        exact Or.inr (Or.inl ⟨hpending, h.1.symm, h.2.symm⟩)
      · simp only [hsettled, hpending, if_false] at h
        obtain ⟨⟨q, u⟩, hwork, hq⟩ := Option.map_eq_some_iff.mp h
        cases hq
        exact Or.inr (Or.inr ⟨rfl, hpending, u, hwork, rfl⟩)

end LayeredConfig.Resolver
