import LayeredConfig.Proofs.Resolver.Simulation

/-!
# Sessions over time

A session only grows: what is settled stays, what becomes settled was neither
settled nor pending before, and the pending paths are those of the start
again.  This holds of every visit, whatever it comes to, and so of any number
of steps on one session.
-/

namespace LayeredConfig.Resolver

namespace Session

/-- A later session, with the same paths pending. -/
structure Extends (s t : Session) : Prop where
  pending : t.pending = s.pending
  settled : ∃ new, t.settled = new ++ s.settled ∧ (new.map Prod.fst).Nodup ∧
    ∀ p ∈ new.map Prod.fst, s.settled? p = none ∧ p ∉ s.pending

namespace Extends

theorem refl (s : Session) : s.Extends s := ⟨rfl, [], by simp⟩

theorem record (s : Session) (e : Event) : s.Extends (s.record e) := ⟨rfl, [], by simp⟩

/-- A path that is settled or pending is not among what became settled since. -/
theorem settled?_eq_of_not_new {s t : Session} (h : s.Extends t) {p : Path}
    (hp : s.settled? p ≠ none ∨ p ∈ s.pending) : t.settled? p = s.settled? p := by
  obtain ⟨new, ht, _, hfresh⟩ := h.settled
  have hnew : new.lookup p = none := by
    rw [List.lookup_eq_none_iff]
    intro entry hentry
    have hne : p ≠ entry.1 := by
      rintro rfl
      obtain ⟨hnone, hnotin⟩ := hfresh entry.1 (List.mem_map_of_mem hentry)
      exact hp.elim (fun hsome ↦ hsome hnone) hnotin
    simpa using hne
  simp only [settled?, ht, List.lookup_append, hnew, Option.none_or]

theorem settled?_eq {s t : Session} (h : s.Extends t) {p : Path} {found : Option Value}
    (hp : s.settled? p = some found) : t.settled? p = some found := by
  rw [h.settled?_eq_of_not_new (Or.inl (by simp [hp])), hp]

theorem settled?_none_of_pending {s t : Session} (h : s.Extends t) {p : Path}
    (hpending : p ∈ s.pending) (hp : s.settled? p = none) : t.settled? p = none := by
  rw [h.settled?_eq_of_not_new (Or.inr hpending), hp]

theorem trans {s t u : Session} (hst : s.Extends t) (htu : t.Extends u) : s.Extends u := by
  refine ⟨htu.pending.trans hst.pending, ?_⟩
  obtain ⟨older, ht, hnodup, hfresh⟩ := hst.settled
  obtain ⟨newer, hu, hnodup', hfresh'⟩ := htu.settled
  refine ⟨newer ++ older, by rw [hu, ht, List.append_assoc], ?_, ?_⟩
  · rw [List.map_append, List.nodup_append]
    refine ⟨hnodup', hnodup, ?_⟩
    rintro p hp q hq rfl
    have hnone : t.settled.lookup p = none := (hfresh' p hp).1
    obtain ⟨entry, hentry, rfl⟩ := List.mem_map.mp hq
    rw [List.lookup_eq_none_iff] at hnone
    have hne := hnone entry (by rw [ht]; exact List.mem_append_left _ hentry)
    simp at hne
  · intro p hp
    rw [List.map_append, List.mem_append] at hp
    rcases hp with hp | hp
    · obtain ⟨hnone, hpending⟩ := hfresh' p hp
      refine ⟨?_, hst.pending ▸ hpending⟩
      cases hs : s.settled? p with
      | none => rfl
      | some found => simp [hst.settled?_eq hs] at hnone
    · exact hfresh p hp

end Extends

theorem Logged.extends {s t : Session} (h : s.Logged t) : s.Extends t := h.lift .refl .record

end Session

/-! ## One visit -/

theorem visit_extends {path : Path} {work : Action (Option Value)}
    (hwork : Moves Session.Extends work) : Moves Session.Extends (visit path work) := by
  intro s r t hrun
  rcases visit_cases hrun with ⟨_, _, _, rfl⟩ | ⟨_, _, rfl⟩ | ⟨hnone, hpending, u, hu, rfl⟩
  · exact .refl t
  · exact .refl t
  · have hextends := hwork _ _ _ hu
    obtain ⟨new, hnew, hnodup, hfresh⟩ := hextends.settled
    have hpop : u.pending.tail = s.pending := by rw [hextends.pending]; rfl
    have hold : ∀ p ∈ new.map Prod.fst, s.settled? p = none ∧ p ∉ s.pending := by
      intro p hp
      obtain ⟨h, h'⟩ := hfresh p hp
      exact ⟨by simpa using h, fun hmem ↦ h' (List.mem_cons_of_mem _ hmem)⟩
    refine ⟨by simpa using hpop, ?_⟩
    cases r with
    | error fault => exact ⟨new, by simpa [Session.close] using hnew, hnodup, hold⟩
    | ok found =>
        refine ⟨(path, found) :: new, by simp [Session.close, hnew], ?_, ?_⟩
        · rw [List.map_cons, List.nodup_cons]
          -- The path was pending during the work, so the work has not settled it.
          exact ⟨fun hmem ↦ (hfresh path hmem).2 List.mem_cons_self, hnodup⟩
        · intro p hp
          rcases List.mem_cons.mp hp with rfl | hp
          · exact ⟨hnone, hpending⟩
          · exact hold p hp

/-- A visit that succeeds leaves its path settled. -/
theorem visit_settles {path : Path} {work : Action (Option Value)} {s t : Session}
    {found : Option Value} (h : (visit path work).runIn s = some (.ok found, t)) :
    t.settled? path = some found := by
  rcases visit_cases h with ⟨_, hs, hr, rfl⟩ | ⟨_, hr, _⟩ | ⟨_, _, u, _, rfl⟩
  · cases hr
    exact hs
  · simp at hr
  · simp [Session.close, Session.settled?_settle]

section Task

variable (task : Task)

theorem compute_extends {lookup : Path → Action (Option Value)}
    (hlookup : ∀ p, Moves Session.Extends (lookup p)) (path : Path) :
    Moves Session.Extends (compute task lookup path) :=
  (compute_consults_any task path).moves .refl (fun _ _ _ ↦ .trans) .record fun p _ ↦ hlookup p

theorem lookupWithin_extends (depth : Nat) (path : Path) :
    Moves Session.Extends (lookupWithin task depth path) := by
  induction depth generalizing path with
  | zero =>
      intro s r t hrun
      simp [lookupWithin] at hrun
  | succ depth ih => exact visit_extends (compute_extends task ih path)

theorem lookupWithin_settles {depth : Nat} {path : Path} {s t : Session} {found : Option Value}
    (h : (lookupWithin task depth path).runIn s = some (.ok found, t)) :
    t.settled? path = some found := by
  cases depth with
  | zero => simp [lookupWithin] at h
  | succ depth => exact visit_settles h

/-- What every new entry keeps, every lookup keeps. -/
theorem lookupWithin_keeps {I : List (Path × Option Value) → Prop}
    (hsettle : ∀ {depth path s u found}, path.Written → u.settled? path = none →
      (compute task (lookupWithin task depth) path).runIn s = some (.ok found, u) →
        I u.settled → I ((path, found) :: u.settled))
    (depth : Nat) {path : Path} (hpath : path.Written) :
    Moves (fun s t ↦ I s.settled → I t.settled) (lookupWithin task depth path) := by
  induction depth generalizing path with
  | zero =>
      intro s r t hrun
      simp [lookupWithin] at hrun
  | succ depth ih =>
      intro s r t hrun hs
      have hconsults : Consults True Path.Written fun lookup ↦ compute task lookup path :=
        compute_consults task path (task.asks_written hpath.2) (Or.inr trivial)
      have hwork : Moves (fun s t ↦ I s.settled → I t.settled)
          (compute task (lookupWithin task depth) path) :=
        hconsults.moves (fun _ ↦ id) (fun _ _ _ hst htu ↦ htu ∘ hst) (fun _ _ ↦ id)
          fun p hp ↦ ih hp
      rcases visit_cases hrun with ⟨_, _, _, rfl⟩ | ⟨_, _, rfl⟩ | ⟨hnone, _, u, hu, rfl⟩
      · exact hs
      · exact hs
      · have hmoved := hwork _ _ _ hu hs
        cases r with
        | error fault => exact hmoved
        | ok found =>
            have hextends :=
              compute_extends task (lookupWithin_extends task depth) path _ _ _ hu
            have hfresh := hextends.settled?_none_of_pending List.mem_cons_self hnone
            have hsettled : I ((path, found) :: u.settled) := hsettle hpath hfresh hu hmoved
            exact hsettled

/-! ## Any number of steps -/

/-- The sessions that whole steps lead to: each step resolves one path or the
document, and ends with a value or a fault. -/
inductive Reaches (s : Session) : Session → Prop
  | refl : Reaches s s
  | path {t u : Session} {depth : Nat} {path : String} {r : Except Fault (Option Value)}
      (h : Reaches s t) (hrun : (resolvePath task depth path).runIn t = some (r, u)) : Reaches s u
  | document {t u : Session} {depth : Nat} {r : Except Fault Value} (h : Reaches s t)
      (hrun : (resolveDocument task depth).runIn t = some (r, u)) : Reaches s u

namespace Reaches

variable {task} {s t : Session}

/-- Lookups that move the session along a preorder make steps that do. -/
theorem moves {G : Session → Session → Prop} (h : Reaches task s t) (hrefl : ∀ s, G s s)
    (htrans : ∀ s t u, G s t → G t u → G s u) (hrecord : ∀ s e, G s (s.record e))
    (hlookup : ∀ depth path, path.Written → Moves G (lookupWithin task depth path)) : G s t := by
  induction h with
  | refl => exact hrefl s
  | path _ hrun ih => exact htrans _ _ _ ih (hlookup _ _ (Path.ofText_written _) _ _ _ hrun)
  | @document _ _ depth _ _ hrun ih =>
      have hconsults : Consults True Path.Written fun lookup ↦
          resolveNode task.lenient lookup task.root (some []) :=
        resolveNode_consults task.root (some [])
          (Value.asks_written task.root (some []) (by simp)) (Or.inr trivial)
      unfold resolveDocument at hrun
      rw [resolveRoot_runIn] at hrun
      obtain ⟨⟨q, u⟩, hu, hq⟩ := Option.map_eq_some_iff.mp hrun
      cases hq
      have hnode := hconsults.moves hrefl htrans hrecord (hlookup depth) _ _ _ hu
      refine htrans _ _ _ ih (htrans _ _ _ hnode ?_)
      cases q with
      | error fault => exact hrefl u
      | ok found => exact hrecord u _

/-- What every new entry keeps, every number of steps keeps. -/
theorem keeps (h : Reaches task s t) {I : List (Path × Option Value) → Prop}
    (hsettle : ∀ {depth path s u found}, path.Written → u.settled? path = none →
      (compute task (lookupWithin task depth) path).runIn s = some (.ok found, u) →
        I u.settled → I ((path, found) :: u.settled))
    (hs : I s.settled) : I t.settled :=
  h.moves (G := fun s t ↦ I s.settled → I t.settled) (fun _ ↦ id)
    (fun _ _ _ hst htu ↦ htu ∘ hst) (fun _ _ ↦ id)
    (fun depth _ hpath ↦ lookupWithin_keeps task hsettle depth hpath) hs

end Reaches

variable {task}

theorem Reaches.extends {s t : Session} (h : Reaches task s t) : s.Extends t :=
  h.moves .refl (fun _ _ _ ↦ .trans) .record fun depth path _ ↦
    lookupWithin_extends task depth path

end Task

/-! ## What is carried on -/

/-- What the later entries say of a path, they say as the earlier ones do. -/
def Carries (earlier later : List (Path × Option Value)) : Prop :=
  ∀ path found, earlier.lookup path = some found → later.lookup path = some found

theorem Carries.refl (settled : List (Path × Option Value)) : Carries settled settled :=
  fun _ _ hp ↦ hp

theorem Carries.trans {first second third : List (Path × Option Value)}
    (h : Carries first second) (h' : Carries second third) : Carries first third :=
  fun path found hp ↦ h' path found (h path found hp)

theorem Session.Extends.carries {s t : Session} (h : s.Extends t) :
    Carries s.settled t.settled := fun _ _ hp ↦ h.settled?_eq hp

theorem carries_cons {path : Path} {older : List (Path × Option Value)}
    (h : older.lookup path = none) (found : Option Value) :
    Carries older ((path, found) :: older) := by
  intro q led hq
  have hne : q ≠ path := by
    rintro rfl
    simp [h] at hq
  rw [List.lookup_cons, beq_false_of_ne hne]
  exact hq

theorem Carries.cons_left {earlier later : List (Path × Option Value)} (h : Carries earlier later)
    {path : Path} {found : Option Value} (hpath : later.lookup path = some found) :
    Carries ((path, found) :: earlier) later := by
  intro q led hq
  by_cases heq : q = path
  · subst heq
    rw [hpath]
    simpa using hq
  · rw [List.lookup_cons, beq_false_of_ne heq] at hq
    exact h q led hq

theorem Carries.cons_cons {earlier later : List (Path × Option Value)} (h : Carries earlier later)
    (path : Path) (found : Option Value) :
    Carries ((path, found) :: earlier) ((path, found) :: later) := by
  intro q led hq
  rw [List.lookup_cons] at hq ⊢
  split at hq
  · exact hq
  · exact h q led hq

/-- Whatever a node is resolved by, the log and what is settled are added to. -/
theorem resolve_extends {task : Task} {depth : Nat} {α : Type}
    (act : (Path → Action (Option Value)) → Action α) (h : Consults True (fun _ ↦ True) act) :
    Moves Session.Extends (act (lookupWithin task depth)) :=
  h.moves .refl (fun _ _ _ ↦ .trans) .record fun p _ ↦ lookupWithin_extends task depth p

end LayeredConfig.Resolver
