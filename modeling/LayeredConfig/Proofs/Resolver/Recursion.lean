import LayeredConfig.Proofs.Resolver.Termination

/-!
# Plain recursion

A document can be resolved by recursion alone, with nothing settled and
nothing pending.  Where that ends, a session gives the same outcome, and where
a session never closes a cycle of several visits, plain recursion ends.  What
plain recursion comes to depends on the document only, so two documents are
compared by it without a word about their sessions.
-/

namespace LayeredConfig.Resolver

section Outcomes

variable {α β : Type} {x y : Action α} {r r' : Except Fault α} {a : α} {b : β}

/-- The action has this outcome in every session. -/
def Comes (x : Action α) (r : Except Fault α) : Prop := ∀ s, ∃ t, x.runIn s = some (r, t)

/-- The outcome does not depend on the session. -/
def Steady (x : Action α) : Prop := Follows (fun _ _ ↦ True) x x

theorem comes_pure (a : α) : Comes (pure a) (.ok a) := fun s ↦ ⟨s, rfl⟩

theorem comes_throw (f : Fault) : Comes (throw f : Action α) (.error f) := fun s ↦ ⟨s, rfl⟩

theorem comes_record (e : Event) : Comes (Action.record e) (.ok ()) := fun s ↦ ⟨s.record e, rfl⟩

namespace Comes

theorem unique (h : Comes x r) (h' : Comes x r') : r = r' := by
  obtain ⟨t, ht⟩ := h .empty
  obtain ⟨u, hu⟩ := h' .empty
  rw [ht] at hu
  cases hu
  rfl

theorem follows (h : Comes x r) (hxy : Follows (fun _ _ ↦ True) x y) : Comes y r := by
  intro s
  obtain ⟨t, ht⟩ := h s
  obtain ⟨u, hu, _⟩ := hxy s s trivial r t ht
  exact ⟨u, hu⟩

theorem bind {f : α → Action β} {q : Except Fault β} (hx : Comes x (.ok a)) (hf : Comes (f a) q) :
    Comes (x >>= f) q := by
  intro s
  obtain ⟨t, ht⟩ := hx s
  obtain ⟨u, hu⟩ := hf t
  exact ⟨u, (Action.runIn_bind_ok ht).trans hu⟩

theorem bind_error {f : α → Action β} {e : Fault} (hx : Comes x (.error e)) :
    Comes (x >>= f) (.error e) := by
  intro s
  obtain ⟨t, ht⟩ := hx s
  exact ⟨t, Action.runIn_bind_error ht⟩

theorem outcome (hx : Comes x r) : Comes (Action.outcome x) (.ok r) := by
  intro s
  obtain ⟨t, ht⟩ := hx s
  exact ⟨t, by rw [Action.runIn_outcome, ht]; rfl⟩

end Comes

namespace Steady

theorem comes (hx : Steady x) {s t : Session} (h : x.runIn s = some (r, t)) : Comes x r := by
  intro s'
  obtain ⟨u, hu, _⟩ := hx s s' trivial r t h
  exact ⟨u, hu⟩

end Steady

variable {catches : Prop} {asked : Path → Prop} {act : (Path → Action (Option Value)) → Action α}
  {lookup : Path → Action (Option Value)}

theorem Consults.steady (h : Consults catches asked act)
    (hlookup : ∀ p, asked p → Steady (lookup p)) : Steady (act lookup) :=
  h.follows (fun _ _ _ _ ↦ trivial) hlookup

/-- An action is the same for lookups that agree on the paths it asks for. -/
theorem Consults.congr {l₁ l₂ : Path → Action (Option Value)} (h : Consults catches asked act)
    (hlookup : ∀ p, asked p → l₁ p = l₂ p) : act l₁ = act l₂ := by
  induction h with
  | pure | throw | record => rfl
  | lookup hp => exact hlookup _ hp
  | bind _ _ ihx ihf =>
      dsimp only
      rw [ihx]
      congr 1
      funext a
      exact ihf a
  | outcome _ _ ihx =>
      dsimp only
      rw [ihx]

/-- What an action comes to in sessions of a kind, it comes to with lookups
that are free of the session, if each lookup does at some depth. -/
theorem Consults.recurs {I : Session → Prop} (free : Nat → Path → Action (Option Value))
    (h : Consults catches asked act) (hrecord : ∀ s e, I s → I (s.record e))
    (hdeeper : ∀ p d d', d ≤ d' → Follows (fun _ _ ↦ True) (free d p) (free d' p))
    (hlookup : ∀ p, asked p → ∀ s r t, I s → (lookup p).runIn s = some (r, t) →
      I t ∧ ∃ d, Comes (free d p) r)
    {s t : Session} (hs : I s) (hrun : (act lookup).runIn s = some (r, t)) :
    I t ∧ ∃ d, Comes (act (free d)) r := by
  induction h generalizing s t with
  | pure a =>
      cases hrun
      exact ⟨hs, 0, comes_pure a⟩
  | throw f _ =>
      cases hrun
      exact ⟨hs, 0, comes_throw f⟩
  | record e =>
      cases hrun
      exact ⟨hrecord s e hs, 0, comes_record e⟩
  | lookup hp => exact hlookup _ hp s r t hs hrun
  | bind hx hf ihx ihf =>
      rcases Action.runIn_bind_cases hrun with ⟨e, hxe, rfl⟩ | ⟨a, u, hxa, hfa⟩
      · obtain ⟨ht, d, hd⟩ := ihx hs hxe
        exact ⟨ht, d, hd.bind_error⟩
      · obtain ⟨hu, d, hd⟩ := ihx hs hxa
        obtain ⟨ht, d', hd'⟩ := ihf a hu hfa
        have hx' := hx.follows (fun _ _ _ _ ↦ trivial) fun p _ ↦
          hdeeper p d (max d d') (Nat.le_max_left d d')
        have hf' := (hf a).follows (fun _ _ _ _ ↦ trivial) fun p _ ↦
          hdeeper p d' (max d d') (Nat.le_max_right d d')
        exact ⟨ht, max d d', (hd.follows hx').bind (hd'.follows hf')⟩
  | outcome _ _ ihx =>
      obtain ⟨q, hq, rfl⟩ := Action.runIn_outcome_cases hrun
      obtain ⟨ht, d, hd⟩ := ihx hs hq
      exact ⟨ht, d, hd.outcome⟩

end Outcomes

/-- Looks a path up by the work of its visit alone, with the work nested at
most so deep.  A path that the visit of the same path asks for is a cycle at
once; no longer cycle is noticed. -/
def lookupFreely (task : Task) : (depth : Nat) → (visitor : Option Path) → Path →
    Action (Option Value)
  | 0, _, _ => Action.exhausted
  | depth + 1, visitor, path =>
    if visitor = some path then throw (.cyclic (Path.text path) [Path.text path])
    else compute task (lookupFreely task depth (some path)) path

section Free

variable {task : Task} {depth depth' : Nat} {visitor : Option Path} {path : Path}
  {r r' : Except Fault (Option Value)}

theorem lookupFreely_visitor (task : Task) (depth : Nat) (path : Path) :
    lookupFreely task (depth + 1) (some path) path =
      throw (.cyclic (Path.text path) [Path.text path]) := by
  simp [lookupFreely]

theorem lookupFreely_succ (h : visitor ≠ some path) :
    lookupFreely task (depth + 1) visitor path =
      compute task (lookupFreely task depth (some path)) path := by
  simp [lookupFreely, h]

theorem lookupFreely_of_ne (h : visitor ≠ some path) :
    lookupFreely task depth visitor path = lookupFreely task depth none path := by
  cases depth with
  | zero => rfl
  | succ depth => rw [lookupFreely_succ h, lookupFreely_succ (by simp)]

theorem lookupFreely_deeper (task : Task) (h : depth ≤ depth') (visitor : Option Path)
    (path : Path) : Follows (fun _ _ ↦ True) (lookupFreely task depth visitor path)
      (lookupFreely task depth' visitor path) := by
  induction depth generalizing depth' visitor path with
  | zero =>
      intro s t _ r s' hrun
      simp [lookupFreely] at hrun
  | succ depth ih =>
      obtain ⟨deeper, rfl⟩ : ∃ k, depth' = k + 1 := ⟨depth' - 1, by omega⟩
      by_cases hvisitor : visitor = some path
      · subst hvisitor
        rw [lookupFreely_visitor, lookupFreely_visitor]
        intro s t _ r s' hrun
        cases hrun
        exact ⟨t, rfl, trivial⟩
      · rw [lookupFreely_succ hvisitor, lookupFreely_succ hvisitor]
        exact (compute_consults_any task path).follows (fun _ _ _ _ ↦ trivial) fun p _ ↦
          ih (by omega) (some path) p

theorem lookupFreely_steady (task : Task) (depth : Nat) (visitor : Option Path) (path : Path) :
    Steady (lookupFreely task depth visitor path) :=
  lookupFreely_deeper task (Nat.le_refl depth) visitor path

theorem lookupFreely_comes_of_le (hdepth : depth ≤ depth')
    (h : Comes (lookupFreely task depth visitor path) r) :
    Comes (lookupFreely task depth' visitor path) r :=
  h.follows (lookupFreely_deeper task hdepth visitor path)

theorem lookupFreely_unique (h : Comes (lookupFreely task depth visitor path) r)
    (h' : Comes (lookupFreely task depth' visitor path) r') : r = r' :=
  (lookupFreely_comes_of_le (Nat.le_max_left depth depth') h).unique
    (lookupFreely_comes_of_le (Nat.le_max_right depth depth') h')

theorem resolveNode_steady {lookup : Path → Action (Option Value)}
    (hlookup : ∀ p, Steady (lookup p)) (lenient : Bool) (v : Value) (place : Option Path) :
    Steady (resolveNode lenient lookup v place) :=
  (resolveNode_consults_any v place).steady fun p _ ↦ hlookup p

end Free

/-! ## Sessions and plain recursion -/

/-- The session is at the visits of the pending paths, none of them settled,
and plain recursion comes to whatever is settled. -/
structure Session.Tracks (task : Task) (pending : List Path) (s : Session) : Prop where
  pending_eq : s.pending = pending
  idle : ∀ q ∈ pending, s.settled? q = none
  faithful : ∀ path found, s.settled? path = some found →
    ∃ depth, Comes (lookupFreely task depth none path) (.ok found)

namespace Session.Tracks

variable {task : Task} {pending : List Path} {s : Session} {path : Path}

theorem empty (task : Task) : Session.empty.Tracks task [] :=
  ⟨rfl, by simp, by simp⟩

theorem record (h : s.Tracks task pending) (e : Event) : (s.record e).Tracks task pending :=
  ⟨h.pending_eq, h.idle, h.faithful⟩

theorem enter (h : s.Tracks task pending) (hpath : s.settled? path = none) :
    (s.enter path).Tracks task (path :: pending) := by
  refine ⟨by simp [h.pending_eq], ?_, h.faithful⟩
  intro q hq
  rcases List.mem_cons.mp hq with rfl | hq
  · exact hpath
  · exact h.idle q hq

/-- The end of a visit: what its work came to is what plain recursion does. -/
theorem close (h : s.Tracks task (path :: pending)) (hpath : path ∉ pending) {depth : Nat}
    {r : Except Fault (Option Value)} (hr : Comes (lookupFreely task depth none path) r) :
    (s.close path r).Tracks task pending := by
  have hpop : (s.close path r).pending = pending := by simp [h.pending_eq]
  cases r with
  | error fault =>
      exact ⟨hpop, fun q hq ↦ h.idle q (List.mem_cons_of_mem path hq), h.faithful⟩
  | ok found =>
      refine ⟨hpop, ?_, ?_⟩
      · intro q hq
        have hne : q ≠ path := fun heq ↦ hpath (heq ▸ hq)
        simp [Session.close, settled?_settle, hne, h.idle q (List.mem_cons_of_mem path hq)]
      · intro q led hq
        simp only [Session.close, settled?_settle, settled?_leave] at hq
        split at hq
        · cases hq
          subst path
          exact ⟨depth, hr⟩
        · exact h.faithful q led hq

theorem not_mem_of_settled (h : s.Tracks task pending) {found : Option Value}
    (hpath : s.settled? path = some found) : path ∉ pending := by
  intro hmem
  rw [h.idle path hmem] at hpath
  cases hpath

/-- The innermost visit asks for its own path: the shortest of cycles. -/
theorem visit_innermost (h : s.Tracks task (path :: pending)) (work : Action (Option Value)) :
    (visit path work).runIn s = some (.error (.cyclic (Path.text path) [Path.text path]), s) := by
  have hvisit := visit_of_pending (h.idle path List.mem_cons_self) (by simp [h.pending_eq]) work
  have hchain : s.chainFrom path = [path] := by simp [Session.chainFrom, h.pending_eq]
  rwa [hchain] at hvisit

end Session.Tracks

section Visits

variable {task : Task} {path : Path}

theorem ne_head?_of_not_mem {pending : List Path} (h : path ∉ pending) :
    pending.head? ≠ some path :=
  fun hhead ↦ h (List.mem_of_head? hhead)

/-- What plain recursion comes to, a session comes to, if it is not enough for
any pending path: then no pending path is met again. -/
theorem lookupFreely_visited (depth : Nat) (pending : List Path) (path : Path)
    (hdeep : ∀ q ∈ pending, ∀ r, ¬ Comes (lookupFreely task depth none q) r) :
    Follows (fun _ t ↦ t.Tracks task pending) (lookupFreely task depth pending.head? path)
      (lookupWithin task depth path) := by
  induction depth generalizing pending path with
  | zero =>
      intro a s _ r a' hrun
      simp [lookupFreely] at hrun
  | succ depth ih =>
      intro a s hs r a' hrun
      have hlower : ∀ q r, Comes (lookupFreely task depth none q) r →
          Comes (lookupFreely task (depth + 1) none q) r :=
        fun q r ↦ lookupFreely_comes_of_le (Nat.le_succ depth)
      have hdeep' : ∀ q ∈ pending, ∀ r, ¬ Comes (lookupFreely task depth none q) r :=
        fun q hq r hr ↦ hdeep q hq r (hlower q r hr)
      by_cases hvisitor : pending.head? = some path
      · rw [hvisitor, lookupFreely_visitor] at hrun
        cases hrun
        obtain ⟨rest, rfl⟩ := List.head?_eq_some_iff.mp hvisitor
        exact ⟨s, hs.visit_innermost _, hs⟩
      · have hcomes : Comes (lookupFreely task (depth + 1) none path) r := by
          rw [← lookupFreely_of_ne hvisitor]
          exact (lookupFreely_steady task _ _ _).comes hrun
        have hnotin : path ∉ pending := fun hmem ↦ hdeep path hmem r hcomes
        cases hsettled : s.settled? path with
        | some found =>
            obtain ⟨d, hd⟩ := hs.faithful path found hsettled
            rw [lookupFreely_unique hcomes hd]
            exact ⟨s, visit_of_settled hsettled _, hs⟩
        | none =>
            by_cases hlow : ∃ q, Comes (lookupFreely task depth none path) q
            · obtain ⟨q, hq⟩ := hlow
              obtain rfl : q = r := (hlower path q hq).unique hcomes
              obtain ⟨a'', ha''⟩ := hq a
              rw [← lookupFreely_of_ne hvisitor] at ha''
              obtain ⟨t, ht, htracks⟩ := ih pending path hdeep' a s hs q a'' ha''
              exact ⟨t, lookupWithin_eq_of_le (Nat.le_succ depth) ht, htracks⟩
            · rw [lookupFreely_succ hvisitor] at hrun
              have hpending : s.pending = pending := hs.pending_eq
              have hfollows := (compute_consults_any task path).follows
                (S := fun _ t ↦ t.Tracks task (path :: pending))
                (fun _ _ e h ↦ h.record e) fun p _ ↦ ih (path :: pending) p (by
                  intro q hq q' hq'
                  rcases List.mem_cons.mp hq with rfl | hq
                  · exact hlow ⟨q', hq'⟩
                  · exact hdeep' q hq q' hq')
              obtain ⟨u, hu, htracks⟩ := hfollows a (s.enter path) (hs.enter hsettled) r a' hrun
              refine ⟨u.close path r, visit_of_fresh hsettled (hpending ▸ hnotin) hu, ?_⟩
              exact htracks.close hnotin hcomes

/-- A document that plain recursion resolves comes to the same in a session. -/
theorem resolveDocument_of_comes {depth : Nat} {q : Except Fault (Option Value)}
    (h : Comes (resolveNode task.lenient (lookupFreely task depth none) task.root (some [])) q) :
    ∃ t, (resolveDocument task depth).runIn .empty = some (q.map (·.getD .null), t) := by
  obtain ⟨a, ha⟩ := h .empty
  obtain ⟨t, ht, _⟩ := (resolveNode_consults_any task.root (some [])).follows
    (S := fun _ t ↦ t.Tracks task []) (fun _ _ e h ↦ h.record e)
    (fun p _ ↦ lookupFreely_visited depth [] p (by simp)) .empty .empty (.empty task) q a ha
  exact ⟨t.finish q, by rw [resolveDocument, resolveRoot_runIn, ht]; rfl⟩

end Visits

/-! ## Sessions without long cycles -/

/-- The path is being visited, further out than the innermost visit. -/
def Session.closesCycle (s : Session) (path : Path) : Bool :=
  (s.settled? path).isNone && s.pending.tail.contains path

/-- Visits a path as `lookupWithin` does, and has no outcome where a cycle of
several visits is closed. -/
def lookupStraight (task : Task) : (depth : Nat) → Path → Action (Option Value)
  | 0, _ => Action.exhausted
  | depth + 1, path =>
    guarded (fun s ↦ !s.closesCycle path)
      (visit path (compute task (lookupStraight task depth) path))

section Straight

variable {task : Task} {depth : Nat} {path : Path} {s t : Session}

theorem lookupStraight_runIn (s : Session) :
    (lookupStraight task (depth + 1) path).runIn s =
      if s.closesCycle path then none
      else (visit path (compute task (lookupStraight task depth) path)).runIn s := by
  rw [lookupStraight, guarded_runIn]
  cases s.closesCycle path <;> rfl

/-- What a session comes to without closing a long cycle, plain recursion
comes to. -/
theorem lookupStraight_recurs (depth : Nat) (pending : List Path) {r : Except Fault (Option Value)}
    (hs : s.Tracks task pending) (hrun : (lookupStraight task depth path).runIn s = some (r, t)) :
    t.Tracks task pending ∧ ∃ d, Comes (lookupFreely task d pending.head? path) r := by
  induction depth generalizing s t pending path r with
  | zero => simp [lookupStraight] at hrun
  | succ depth ih =>
      rw [lookupStraight_runIn] at hrun
      split at hrun
      · cases hrun
      · rename_i hstraight
        rcases visit_cases hrun with ⟨found, hsettled, rfl, rfl⟩ | ⟨hpending, rfl, rfl⟩ |
          ⟨hnone, hnotin, u, hu, rfl⟩
        · have hnotin := hs.not_mem_of_settled hsettled
          obtain ⟨d, hd⟩ := hs.faithful path found hsettled
          exact ⟨hs, d, by rwa [lookupFreely_of_ne (ne_head?_of_not_mem hnotin)]⟩
        · -- Only the innermost visit can be the one that is met again.
          rw [hs.pending_eq] at hpending
          obtain ⟨q, rest, rfl⟩ := List.exists_cons_of_ne_nil (List.ne_nil_of_mem hpending)
          have hnone := hs.idle path hpending
          have hrest : path ∉ rest := by
            simpa [Session.closesCycle, hnone, hs.pending_eq] using hstraight
          obtain rfl : path = q := (List.mem_cons.mp hpending).resolve_right hrest
          have hchain : t.chainFrom path = [path] := by
            simp [Session.chainFrom, hs.pending_eq]
          refine ⟨hs, 1, ?_⟩
          rw [List.head?_cons, lookupFreely_visitor, hchain]
          exact comes_throw _
        · rw [hs.pending_eq] at hnotin
          obtain ⟨htracks, d, hd⟩ := (compute_consults_any task path).recurs
            (fun d ↦ lookupFreely task d (some path))
            (fun _ e h ↦ h.record e) (fun p _ _ h ↦ lookupFreely_deeper task h (some path) p)
            (fun p _ s r t hs hp ↦ ih (path :: pending) hs hp) (hs.enter hnone) hu
          have hfree : ∀ visitor, visitor ≠ some path →
              Comes (lookupFreely task (d + 1) visitor path) r := by
            intro visitor hvisitor
            rw [lookupFreely_succ hvisitor]
            exact hd
          exact ⟨htracks.close hnotin (hfree none (by simp)), d + 1,
            hfree _ (ne_head?_of_not_mem hnotin)⟩

/-- A document that is resolved without closing a long cycle is resolved by
plain recursion. -/
theorem resolveRoot_recurs {found : Value}
    (hrun : (resolveRoot task (lookupStraight task depth)).runIn .empty = some (.ok found, t)) :
    t.Tracks task [] ∧ ∃ d q, q.getD .null = found ∧
      Comes (resolveNode task.lenient (lookupFreely task d none) task.root (some [])) (.ok q) := by
  rw [resolveRoot_runIn] at hrun
  obtain ⟨⟨q, u⟩, hu, hq⟩ := Option.map_eq_some_iff.mp hrun
  obtain ⟨htracks, d, hd⟩ := (resolveNode_consults_any task.root (some [])).recurs
    (fun d ↦ lookupFreely task d none) (fun _ e h ↦ h.record e)
    (fun p _ _ h ↦ lookupFreely_deeper task h none p)
    (fun p _ s r t hs hp ↦ lookupStraight_recurs depth [] hs hp)
    (Session.Tracks.empty task) hu
  cases q with
  | error fault => cases hq
  | ok q =>
      cases hq
      exact ⟨htracks.record _, d, q, rfl, hd⟩

/-- Where no failure can be caught, a success has closed no cycle. -/
theorem Consults.straight {α : Type} {asked : Path → Prop}
    {act : (Path → Action (Option Value)) → Action α} (h : Consults False asked act)
    {l₁ l₂ : Path → Action (Option Value)}
    (hlookup : ∀ p s found t, (l₁ p).runIn s = some (.ok found, t) →
      (l₂ p).runIn s = some (.ok found, t))
    {s t : Session} {a : α} (hrun : (act l₁).runIn s = some (.ok a, t)) :
    (act l₂).runIn s = some (.ok a, t) := by
  induction h generalizing s t with
  | pure | throw | record => exact hrun
  | lookup => exact hlookup _ s a t hrun
  | bind _ _ ihx ihf =>
      obtain ⟨b, u, hb, hrest⟩ := runIn_bind_ok_cases hrun
      exact (Action.runIn_bind_ok (ihx hb)).trans (ihf b hrest)
  | outcome hcatches => exact hcatches.elim

theorem lookupStraight_of_ok (halt : task.root.lacksAlternatives = true) {found : Option Value}
    (h : (lookupWithin task depth path).runIn s = some (.ok found, t)) :
    (lookupStraight task depth path).runIn s = some (.ok found, t) := by
  induction depth generalizing path s t found with
  | zero => simp [lookupWithin] at h
  | succ depth ih =>
      rw [lookupStraight_runIn]
      rcases visit_cases h with ⟨_, hsettled, hr, rfl⟩ | ⟨_, hr, _⟩ | ⟨hnone, hnotin, u, hu, rfl⟩
      · cases hr
        simp [Session.closesCycle, hsettled, visit_of_settled hsettled]
      · cases hr
      · have hopen : s.closesCycle path = false := by
          have htail : path ∉ s.pending.tail := fun hmem ↦ hnotin (List.mem_of_mem_tail hmem)
          simp [Session.closesCycle, htail]
        have hconsults : Consults False (fun _ ↦ True) fun lookup ↦ compute task lookup path :=
          compute_consults task path (fun _ _ ↦ trivial) (Or.inl halt)
        rw [hopen]
        exact visit_of_fresh hnone hnotin
          (hconsults.straight (fun p s found t hp ↦ ih hp) hu)

theorem resolveRoot_straight_of_ok (halt : task.root.lacksAlternatives = true) {found : Value}
    (h : (resolveDocument task depth).runIn s = some (.ok found, t)) :
    (resolveRoot task (lookupStraight task depth)).runIn s = some (.ok found, t) := by
  have hconsults : Consults False (fun _ ↦ True) fun lookup ↦
      resolveNode task.lenient lookup task.root (some []) :=
    resolveNode_consults task.root (some []) (fun _ _ ↦ trivial) (Or.inl halt)
  rw [resolveDocument, resolveRoot_runIn] at h
  rw [resolveRoot_runIn]
  obtain ⟨⟨q, u⟩, hu, hq⟩ := Option.map_eq_some_iff.mp h
  cases q with
  | error fault => cases hq
  | ok q =>
      rw [hconsults.straight (fun p s found t hp ↦ lookupStraight_of_ok halt hp) hu, ← hq]
      rfl

end Straight

end LayeredConfig.Resolver
