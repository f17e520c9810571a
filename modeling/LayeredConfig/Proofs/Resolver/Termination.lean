import LayeredConfig.Proofs.Resolver.Simulation
import Mathlib.Data.Finset.Card

/-!
# Termination

Visits nest only as deep as there are paths to visit.  A finite set of paths
that is closed under what the visit of a path asks for bounds the pending
paths, which are distinct, and so it bounds the depth that is needed.
-/

namespace LayeredConfig

namespace Value

mutual

/-- The references that occur anywhere in the tree. -/
def references : Value → List Reference
  | .object members => memberReferences members
  | .array elements => itemReferences elements
  | .substitution r => [r]
  | .concatenation fragments => itemReferences fragments
  | .alternative default override => override :: default.references
  | _ => []

def memberReferences : List (Text × Value) → List Reference
  | [] => []
  | (_, v) :: rest => v.references ++ memberReferences rest

def itemReferences : List Value → List Reference
  | [] => []
  | v :: rest => v.references ++ itemReferences rest

end

theorem mem_memberReferences {members : List (Text × Value)} {r : Reference} :
    r ∈ memberReferences members ↔ ∃ entry ∈ members, r ∈ entry.2.references := by
  induction members with
  | nil => simp [memberReferences]
  | cons entry rest ih =>
      obtain ⟨key, v⟩ := entry
      simp [memberReferences, ih]

theorem mem_itemReferences {items : List Value} {r : Reference} :
    r ∈ itemReferences items ↔ ∃ v ∈ items, r ∈ v.references := by
  induction items with
  | nil => simp [itemReferences]
  | cons item rest ih => simp [itemReferences, ih]

theorem mem_memberReferences_of_walk {members : Members Text Value} {path : Path} {v : Value}
    (h : walk members path = .ok (some v)) {r : Reference} (hr : r ∈ v.references) :
    r ∈ memberReferences members := by
  refine of_walk (P := fun v ↦ ∀ r ∈ v.references, r ∈ memberReferences members) ?_ ?_ h r hr
  · intro inner hinner entry hentry r hr
    exact hinner r (by rw [references]; exact mem_memberReferences.mpr ⟨entry, hentry, hr⟩)
  · exact fun entry hentry r hr ↦ mem_memberReferences.mpr ⟨entry, hentry, hr⟩

theorem mem_references_of_asks {v : Value} {p : Path} (hp : p ∈ v.asks none) :
    ∃ r ∈ v.references, p = Path.ofText r.path := by
  induction v using tree_induction with
  | object members ih =>
      rw [asks, mem_memberAsks] at hp
      obtain ⟨entry, hentry, hasks⟩ := hp
      obtain ⟨r, hr, hpr⟩ := ih entry hentry hasks
      exact ⟨r, by rw [references]; exact mem_memberReferences.mpr ⟨entry, hentry, hr⟩, hpr⟩
  | array elements ih | concatenation elements ih =>
      rw [asks, mem_itemAsks] at hp
      obtain ⟨v, hv, hasks⟩ := hp
      obtain ⟨r, hr, hpr⟩ := ih v hv hasks
      exact ⟨r, by rw [references]; exact mem_itemReferences.mpr ⟨v, hv, hr⟩, hpr⟩
  | substitution r =>
      rw [asks, List.mem_singleton] at hp
      exact ⟨r, by simp [references], hp⟩
  | alternative default override ih =>
      rw [asks, List.mem_cons] at hp
      rcases hp with rfl | hp
      · exact ⟨override, by simp [references], rfl⟩
      · obtain ⟨r, hr, hpr⟩ := ih hp
        exact ⟨r, by simp [references, hr], hpr⟩
  | scalar v hscalar =>
      rw [asks_of_isScalar hscalar] at hp
      cases hp

theorem memberAsks_cases (members : Members Text Value) (place : Option Path) :
    ∀ p ∈ memberAsks place members,
      (∃ r ∈ memberReferences members, p = Path.ofText r.path) ∨
        ∃ path key w, place = some path ∧ p = path ++ [key] ∧
          Path.isPlainKey key = true ∧ Members.get? members key = some w := by
  intro p hp
  obtain ⟨entry, hentry, hasks⟩ := mem_memberAsks.mp hp
  rcases Resolver.named_or_inPlace place entry.1.content with ⟨path, rfl, hkey⟩ | hinplace
  · rw [memberAsk_plain hkey, List.mem_singleton] at hasks
    obtain ⟨w, hw⟩ := Members.exists_get?_of_mem_keys (List.mem_map_of_mem hentry)
    exact Or.inr ⟨path, entry.1.content, w, rfl, hasks, hkey, hw⟩
  · rw [memberAsk_inPlace hinplace] at hasks
    obtain ⟨r, hr, hpr⟩ := mem_references_of_asks hasks
    exact Or.inl ⟨r, mem_memberReferences.mpr ⟨entry, hentry, hr⟩, hpr⟩

/-- What is asked for is the path of a reference or of a member in place. -/
theorem asks_cases (v : Value) (place : Option Path) : ∀ p ∈ v.asks place,
    (∃ r ∈ v.references, p = Path.ofText r.path) ∨
      ∃ inner path key w, v = .object inner ∧ place = some path ∧ p = path ++ [key] ∧
        Path.isPlainKey key = true ∧ Members.get? inner key = some w := by
  intro p hp
  cases hobject : v.isObject with
  | false =>
      rw [asks_of_not_object hobject] at hp
      exact Or.inl (mem_references_of_asks hp)
  | true =>
      obtain ⟨members, rfl⟩ := exists_object hobject
      rw [asks] at hp
      rcases memberAsks_cases members place p hp with hreference | ⟨path, key, w, hmember⟩
      · rw [references]
        exact Or.inl hreference
      · exact Or.inr ⟨members, path, key, w, rfl, hmember⟩

end Value

namespace Resolver

/-- A finite set of paths that following a document does not lead out of: it
has every place that a path can name, the path of every reference, and what a
path of it is redirected to. -/
structure Closed (members : Members Text Value) (paths : Finset Path) : Prop where
  places : ∀ path v, (∀ key ∈ path, Path.isPlainKey key = true) →
    Value.walk members path = .ok (some v) → path ∈ paths
  references : ∀ r ∈ Value.memberReferences members, Path.ofText r.path ∈ paths
  redirects : ∀ before rest r, before ++ rest ∈ paths → rest ≠ [] →
    (before ++ rest).any String.isEmpty = false →
      Value.walk members before = .ok (some (.substitution r)) →
        Path.ofText r.path ++ rest ∈ paths

namespace Closed

variable {members : Members Text Value} {paths : Finset Path} {lenient : Bool}

theorem asks (h : Closed members paths) {path : Path} (hpath : path ∈ paths)
    (hwritten : path.Written) : ∀ p ∈ Task.asks ⟨.object members, lenient⟩ path, p ∈ paths := by
  intro p hp
  obtain ⟨_, ⟨rfl⟩, hkeys, ⟨v, hd, hv⟩ | hd | ⟨rest, hd⟩⟩ := Task.mem_asks_cases hp
  · have hwalk := Value.demand_eq_node_iff.mp hd
    rcases Value.asks_cases v (some path) p hv with ⟨r, hr, rfl⟩ |
      ⟨inner, place, key, w, rfl, hplace, rfl, hkey, hw⟩
    · exact h.references r (Value.mem_memberReferences_of_walk hwalk hr)
    · cases hplace
      refine h.places _ w ?_ ?_
      · intro k hk
        rcases List.mem_append.mp hk with hk | hk
        · exact hwritten.isPlainKey hkeys hk
        · rw [List.mem_singleton.mp hk]
          exact hkey
      · rw [← Value.demand_eq_node_iff, Value.demand_append_member hwritten.1 hd, hw]
        rfl
  · obtain ⟨before, r, rest, -, hrest, rfl, hwalk, rfl⟩ := Value.demand_redirect_cases hd
    exact h.redirects before rest r hpath hrest hkeys hwalk
  · obtain ⟨-, -, rfl, v, hwalk, -⟩ := Value.demand_through_cases hd
    exact h.places p v
      (fun key hkey ↦ hwritten.isPlainKey hkeys (List.mem_append_left _ hkey)) hwalk

theorem root_asks (h : Closed members paths) :
    ∀ p ∈ (Value.object members).asks (some []), p ∈ paths := by
  intro p hp
  rcases Value.asks_cases _ _ p hp with ⟨r, hr, rfl⟩ |
    ⟨inner, place, key, w, hinner, hplace, rfl, hkey, hw⟩
  · exact h.references r hr
  · cases hinner
    cases hplace
    exact h.places _ w (by simpa using hkey) (by simpa [Value.walk] using hw)

end Closed

/-! ## Guarded visits -/

/-- The action, without an outcome where the session does not pass the check. -/
def guarded {α : Type} (check : Session → Bool) (act : Action α) : Action α := do
  if check (← get) then act else Action.exhausted

/-- No more than so many paths are pending. -/
def Session.pendingWithin (bound : Nat) (s : Session) : Bool := s.pending.length ≤ bound

/-- Visits a path as `lookupWithin` does, and checks the session whenever a
path has become pending. -/
def lookupGuarded (check : Session → Bool) (task : Task) : (depth : Nat) → Path →
    Action (Option Value)
  | 0, _ => Action.exhausted
  | depth + 1, path =>
    visit path (guarded check (compute task (lookupGuarded check task depth) path))

section Guarded

variable {α : Type} {check : Session → Bool} {task : Task}

theorem guarded_runIn (act : Action α) (s : Session) :
    (guarded check act).runIn s = if check s then act.runIn s else none := by
  unfold guarded
  rw [Action.runIn_bind_ok (Action.runIn_get s)]
  split <;> rfl

theorem guarded_follows {x y : Action α} (h : Follows Eq x y) :
    Follows Eq (guarded check x) y := by
  intro s t hst r s' hrun
  rw [guarded_runIn] at hrun
  split at hrun
  · exact h s t hst r s' hrun
  · cases hrun

theorem guarded_ends {I : Session → Prop} {x : Action α} (hcheck : ∀ s, I s → check s = true)
    (h : Ends I x) : Ends I (guarded check x) := by
  intro s hs
  rw [guarded_runIn, if_pos (hcheck s hs)]
  exact h s hs

/-- What a guarded visit comes to, the visit comes to. -/
theorem lookupGuarded_follows (depth : Nat) (path : Path) :
    Follows Eq (lookupGuarded check task depth path) (lookupWithin task depth path) := by
  induction depth generalizing path with
  | zero =>
      intro s t _ r s' hrun
      simp [lookupGuarded] at hrun
  | succ depth ih =>
      refine visit_follows_self path (guarded_follows ?_)
      refine (compute_consults_any task path).follows ?_ fun p _ ↦ ih p
      rintro s _ e rfl
      rfl

end Guarded

/-! ## Depth that is enough -/

/-- A visit ends if its work does, and leaves the pending paths as they were. -/
theorem visit_ends {path : Path} {pending : List Path} {work : Action (Option Value)}
    (hwork : path ∉ pending → Ends (fun s ↦ s.pending = path :: pending) work) :
    Ends (fun s ↦ s.pending = pending) (visit path work) := by
  rintro s rfl
  cases hsettled : s.settled? path with
  | some found => exact ⟨_, _, visit_of_settled hsettled work, rfl⟩
  | none =>
      by_cases hpending : path ∈ s.pending
      · exact ⟨_, _, visit_of_pending hsettled hpending work, rfl⟩
      · obtain ⟨r, t, hrun, ht⟩ := hwork hpending (s.enter path) rfl
        exact ⟨r, _, visit_of_fresh hsettled hpending hrun, by simp [ht]⟩

section Depth

variable {members : Members Text Value} {paths : Finset Path} {lenient : Bool}

theorem length_le_card_of_nodup {pending : List Path} (hnodup : pending.Nodup)
    (hpaths : ∀ p ∈ pending, p ∈ paths) : pending.length ≤ paths.card := by
  rw [← List.toFinset_card_of_nodup hnodup]
  exact Finset.card_le_card fun p hp ↦ hpaths p (List.mem_toFinset.mp hp)

theorem lookupGuarded_ends (hclosed : Closed members paths) (depth : Nat) {pending : List Path}
    {path : Path} (hnodup : pending.Nodup) (hpaths : ∀ p ∈ pending, p ∈ paths)
    (hpath : path ∈ paths) (hwritten : path.Written)
    (hdepth : paths.card < pending.length + depth) :
    Ends (fun s ↦ s.pending = pending)
      (lookupGuarded (Session.pendingWithin paths.card) ⟨.object members, lenient⟩ depth path) := by
  induction depth generalizing pending path with
  | zero =>
      -- Without depth left, more paths would be pending than there are.
      have hlength := length_le_card_of_nodup hnodup hpaths
      omega
  | succ depth ih =>
      refine visit_ends fun hnotin ↦ ?_
      have hnodup' : (path :: pending).Nodup := List.nodup_cons.mpr ⟨hnotin, hnodup⟩
      have hpaths' : ∀ p ∈ path :: pending, p ∈ paths := by
        intro p hp
        rcases List.mem_cons.mp hp with rfl | hp
        · exact hpath
        · exact hpaths p hp
      refine guarded_ends ?_ ?_
      · rintro s hs
        rw [Session.pendingWithin, hs, decide_eq_true_iff]
        exact length_le_card_of_nodup hnodup' hpaths'
      · have hconsults : Consults True (fun p ↦ p ∈ paths ∧ p.Written) fun lookup ↦
            compute ⟨.object members, lenient⟩ lookup path :=
          compute_consults _ path (fun p hp ↦ ⟨hclosed.asks hpath hwritten p hp,
            Task.asks_written _ hwritten.2 p hp⟩) (Or.inr trivial)
        refine hconsults.ends (fun _ _ ↦ id) fun p hp ↦ ih hnodup' hpaths' hp.1 hp.2 ?_
        rw [List.length_cons]
        omega

/-- If the paths of a document are closed and finite in number, then the
document and its paths are resolved with visits nested one deeper than that
number, and never are more paths than that pending. -/
theorem resolve_terminates (hclosed : Closed members paths) {s : Session}
    (hs : s.pending = []) {depth : Nat} (hdepth : paths.card < depth) :
    (∃ r t, (resolveDocument ⟨.object members, lenient⟩ depth).runIn s = some (r, t) ∧
      (resolveRoot ⟨.object members, lenient⟩ (lookupGuarded
        (Session.pendingWithin paths.card) ⟨.object members, lenient⟩ depth)).runIn s =
          some (r, t)) ∧
    ∀ path, Path.ofText path ∈ paths →
      ∃ r t, (resolvePath ⟨.object members, lenient⟩ depth path).runIn s = some (r, t) ∧
        (lookupGuarded (Session.pendingWithin paths.card) ⟨.object members, lenient⟩ depth
          (Path.ofText path)).runIn s = some (r, t) := by
  have hends : ∀ path, path ∈ paths ∧ path.Written → Ends (fun s ↦ s.pending = [])
      (lookupGuarded (Session.pendingWithin paths.card) ⟨.object members, lenient⟩ depth
        path) := fun path hpath ↦
    lookupGuarded_ends hclosed depth List.nodup_nil (by simp) hpath.1 hpath.2
      (by simpa using hdepth)
  constructor
  · have hconsults : Consults True (fun p ↦ p ∈ paths ∧ p.Written) fun lookup ↦
        resolveNode lenient lookup (.object members) (some []) :=
      resolveNode_consults _ (some []) (fun p hp ↦ ⟨hclosed.root_asks p hp,
        Value.asks_written _ (some []) (by simp) p hp⟩) (Or.inr trivial)
    obtain ⟨q, u, hguarded, _⟩ := hconsults.ends (fun _ _ ↦ id) hends s hs
    obtain ⟨_, hplain, rfl⟩ := hconsults.follows (S := Eq) (by rintro a _ e rfl; rfl)
      (fun p _ ↦ lookupGuarded_follows depth p) s s rfl q u hguarded
    refine ⟨q.map (·.getD .null), u.finish q, ?_, ?_⟩
    · rw [resolveDocument, resolveRoot_runIn, hplain]
      rfl
    · rw [resolveRoot_runIn, hguarded]
      rfl
  · intro path hpath
    obtain ⟨r, t, hguarded, _⟩ := hends _ ⟨hpath, Path.ofText_written path⟩ s hs
    obtain ⟨_, hplain, rfl⟩ := lookupGuarded_follows depth _ s s rfl r t hguarded
    exact ⟨r, t, hplain, hguarded⟩

/-- A member that stands for an object behind it. -/
def nickname : Members Text Value :=
  [(⟨"a", false⟩, .substitution ⟨"b", false⟩), (⟨"b", false⟩, .object [(⟨"c", false⟩, .int 1)])]

theorem nickname_walk {path : Path} {v : Value} (h : Value.walk nickname path = .ok (some v)) :
    path = ["a"] ∧ v = .substitution ⟨"b", false⟩ ∨
      path = ["b"] ∧ v.isReference = false ∨ path = ["b", "c"] ∧ v.isReference = false := by
  rcases path with _ | ⟨key, rest⟩
  · cases h
  · by_cases ha : key = "a"
    · subst ha
      cases rest <;> cases h
      simp
    · by_cases hb : key = "b"
      · subst hb
        rcases rest with _ | ⟨next, rest⟩
        · cases h
          simp [Value.isReference, Value.kind, Kind.isReference]
        · rw [Value.walk_cons_object (List.cons_ne_nil next rest) rfl,
            Value.mapError_eq_ok_iff] at h
          by_cases hc : next = "c"
          · subst hc
            cases rest <;> cases h
            simp [Value.isReference, Value.kind, Kind.isReference]
          · rw [Value.walk_cons_none (by simp [Members.get?, Named.name, Ne.symm hc])] at h
            cases h
      · have hget : nickname.get? key = none := by
          simp [nickname, Members.get?, Named.name, Ne.symm ha, Ne.symm hb]
        rw [Value.walk_cons_none hget] at h
        cases h

theorem nickname_closed : Closed nickname {["a"], ["a", "c"], ["b"], ["b", "c"]} where
  places path v _ h := by
    rcases nickname_walk h with ⟨rfl, _⟩ | ⟨rfl, _⟩ | ⟨rfl, _⟩ <;> decide
  references r hr := by
    obtain rfl : r = ⟨"b", false⟩ := by
      simpa [nickname, Value.memberReferences, Value.references] using hr
    decide
  redirects before rest r hpath hrest _ h := by
    rcases nickname_walk h with ⟨rfl, hr⟩ | ⟨_, hr⟩ | ⟨_, hr⟩
    · cases hr
      obtain rfl : rest = ["c"] := by simpa [hrest] using hpath
      decide
    · cases hr
    · cases hr

theorem resolve_terminates_nickname :
    ∃ r t, (resolvePath ⟨.object nickname, false⟩ 5 "a.c").runIn .empty = some (r, t) ∧
      (lookupGuarded (Session.pendingWithin 4) ⟨.object nickname, false⟩ 5 ["a", "c"]).runIn
        .empty = some (r, t) :=
  (resolve_terminates nickname_closed rfl (by decide)).2 "a.c" (by decide)

end Depth

end Resolver

end LayeredConfig
