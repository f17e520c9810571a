import LayeredConfig.Proofs.Resolver.Transfer

/-!
# Resolving in place

A value that a path can name is resolved by its path or as a node without a
place.  Both ways consult different paths, and a reference in the value may lead
back to it.  In a document without alternatives no failure is caught, so a
success is one of plain recursion, and there no path that comes to a result is
visited twice on the way: both ways come to the same value, or both fail.
-/

namespace LayeredConfig.Resolver

section Recursion

variable {α : Type} {catches : Prop} {asked : Path → Prop}
  {act : (Path → Action (Option Value)) → Action α} {task : Task} {depth depth' : Nat}
  {visitor : Option Path} {a b : α}

/-- Plain recursion comes to this at some depth. -/
def Recurs (task : Task) (act : (Path → Action (Option Value)) → Action α) (a : α) : Prop :=
  ∃ depth, Comes (act (lookupFreely task depth none)) (.ok a)

theorem Consults.deeper (h : Consults catches asked act) (hdepth : depth ≤ depth')
    {r : Except Fault α} (hr : Comes (act (lookupFreely task depth visitor)) r) :
    Comes (act (lookupFreely task depth' visitor)) r :=
  hr.follows (h.follows (fun _ _ _ _ ↦ trivial) fun p _ ↦ lookupFreely_deeper task hdepth visitor p)

theorem Consults.recurs_unique (h : Consults catches asked act) (ha : Recurs task act a)
    (hb : Recurs task act b) : a = b := by
  obtain ⟨d, ha⟩ := ha
  obtain ⟨d', hb⟩ := hb
  have hsame := (h.deeper (Nat.le_max_left d d') ha).unique (h.deeper (Nat.le_max_right d d') hb)
  exact Except.ok.inj hsame

/-- Where nothing is caught, a success does not depend on lookups that fail. -/
theorem Consults.comes_of_lookups {l₁ l₂ : Path → Action (Option Value)}
    (h : Consults False asked act) (hsteady : ∀ p, Steady (l₂ p))
    (hlookup : ∀ p s found t, (l₁ p).runIn s = some (.ok found, t) →
      (l₂ p).runIn s = some (.ok found, t))
    (ha : Comes (act l₁) (.ok a)) : Comes (act l₂) (.ok a) := by
  obtain ⟨t, ht⟩ := ha .empty
  exact (h.steady fun p _ ↦ hsteady p).comes (h.straight hlookup ht)

theorem Consults.comes_unvisited (h : Consults False asked act)
    (ha : Comes (act (lookupFreely task depth visitor)) (.ok a)) :
    Comes (act (lookupFreely task depth none)) (.ok a) := by
  refine h.comes_of_lookups (lookupFreely_steady task depth none) (fun p s found t hp ↦ ?_) ha
  -- The visitor's own path is the one lookup that differs, and it fails.
  by_cases hvisitor : visitor = some p
  · subst hvisitor
    cases depth with
    | zero => cases hp
    | succ depth =>
        rw [lookupFreely_visitor] at hp
        cases hp
  · rwa [← lookupFreely_of_ne hvisitor]

/-- What comes to a result without looking up a path that comes to none does so
in a visit of that path. -/
theorem Consults.comes_visited (h : Consults False asked act) {path : Path}
    (hpath : ∀ found, ¬ Recurs task (fun lookup ↦ lookup path) found)
    (ha : Comes (act (lookupFreely task depth none)) (.ok a)) :
    Comes (act (lookupFreely task depth (some path))) (.ok a) := by
  refine h.comes_of_lookups (lookupFreely_steady task depth (some path))
    (fun p s found t hp ↦ ?_) ha
  have hne : some path ≠ some p := by
    rintro ⟨rfl⟩
    exact hpath found ⟨depth, (lookupFreely_steady task depth none _).comes hp⟩
  rwa [lookupFreely_of_ne hne]

/-! ## Fresh sessions -/

/-- Where nothing is caught, a fresh session comes to what plain recursion does. -/
theorem Consults.runs_ok_iff (h : Consults False (fun _ ↦ True) act)
    (halt : task.root.lacksAlternatives = true) :
    (∃ depth t, (act (lookupWithin task depth)).runIn .empty = some (.ok a, t)) ↔
      Recurs task act a := by
  constructor
  · rintro ⟨depth, t, ht⟩
    have hstraight := h.straight (fun p s found t hp ↦ lookupStraight_of_ok halt hp) ht
    obtain ⟨-, d, hd⟩ := h.recurs (fun d ↦ lookupFreely task d none) (fun _ e h ↦ h.record e)
      (fun p _ _ h ↦ lookupFreely_deeper task h none p)
      (fun p _ s r t hs hp ↦ lookupStraight_recurs depth [] hs hp) (Session.Tracks.empty task)
      hstraight
    exact ⟨d, hd⟩
  · rintro ⟨depth, ha⟩
    obtain ⟨u, hu⟩ := ha .empty
    obtain ⟨t, ht, -⟩ := h.follows (S := fun _ t ↦ t.Tracks task [])
      (fun _ _ e h ↦ h.record e) (fun p _ ↦ lookupFreely_visited depth [] p (by simp))
      .empty .empty (.empty task) _ u hu
    exact ⟨depth, t, ht⟩

theorem Consults.runs_unique (h : Consults catches asked act) {s t u : Session}
    {r r' : Except Fault α} (hr : (act (lookupWithin task depth)).runIn s = some (r, t))
    (hr' : (act (lookupWithin task depth')).runIn s = some (r', u)) : r = r' := by
  have hdeeper : ∀ {d}, d ≤ max depth depth' →
      Follows Eq (act (lookupWithin task d)) (act (lookupWithin task (max depth depth'))) := by
    intro d hd
    refine h.follows ?_ fun p _ ↦ lookupWithin_mono task hd p
    rintro _ _ e rfl
    rfl
  obtain ⟨_, hmax, -⟩ := hdeeper (Nat.le_max_left depth depth') s s rfl r t hr
  obtain ⟨_, hmax', -⟩ := hdeeper (Nat.le_max_right depth depth') s s rfl r' u hr'
  rw [hmax] at hmax'
  cases hmax'
  rfl

end Recursion

/-! ## Places -/

section Places

variable {task : Task} {place : Option Path} {path : Path} {v : Value} {found : Option Value}

theorem demand_of_find {members : Members Text Value} {lenient : Bool}
    (hfind : Value.find members path = .ok (some v)) :
    Task.demand ⟨.object members, lenient⟩ path = .node v := by
  obtain ⟨hkeys, hwalk⟩ := Value.find_eq_some_iff.mp hfind
  rw [Task.demand_of_object rfl hkeys]
  exact Value.demand_eq_node_iff.mpr hwalk

theorem resolveNode_consults_only (lenient : Bool) (halt : v.lacksAlternatives = true)
    (place : Option Path) :
    Consults False (fun _ ↦ True) fun lookup ↦ resolveNode lenient lookup v place :=
  resolveNode_consults v place (fun _ _ ↦ trivial) (Or.inl halt)

theorem resolveNode_place (lenient : Bool) (lookup : Path → Action (Option Value))
    (hv : v.isObject = false) (place : Option Path) :
    resolveNode lenient lookup v place = resolveNode lenient lookup v none := by
  cases v with
  | object members => cases hv
  | _ => simp only [resolveNode]

theorem recurs_place_iff (hv : v.isObject = false) :
    Recurs task (fun lookup ↦ resolveNode task.lenient lookup v none) found ↔
      Recurs task (fun lookup ↦ resolveNode task.lenient lookup v place) found := by
  simp only [resolveNode_place _ _ hv place]

/-- Looking up a path comes to what the node there is resolved to. -/
theorem recurs_lookup_iff (hlocated : Located task.root (some path) v) (hpath : path ≠ [])
    (halt : v.lacksAlternatives = true) :
    Recurs task (fun lookup ↦ lookup path) found ↔
      Recurs task (fun lookup ↦ resolveNode task.lenient lookup v (some path)) found := by
  have hconsults := resolveNode_consults_only task.lenient halt (some path)
  have hvisit (depth : Nat) : lookupFreely task (depth + 1) none path =
      resolveNode task.lenient (lookupFreely task depth (some path)) v (some path) := by
    rw [lookupFreely_succ (by simp), compute_eq, hlocated.demand hpath]
  have hforward : ∀ {found}, Recurs task (fun lookup ↦ lookup path) found →
      Recurs task (fun lookup ↦ resolveNode task.lenient lookup v (some path)) found := by
    rintro found ⟨depth, hfound⟩
    cases depth with
    | zero =>
        obtain ⟨t, ht⟩ := hfound .empty
        cases ht
    | succ depth =>
        dsimp only at hfound
        rw [hvisit] at hfound
        exact ⟨depth, hconsults.comes_unvisited hfound⟩
  refine ⟨hforward, fun hfound ↦ ?_⟩
  -- Either the path comes to a result, then to this one, or no success has used it.
  by_cases hresult : ∃ found', Recurs task (fun lookup ↦ lookup path) found'
  · obtain ⟨found', hfound'⟩ := hresult
    rwa [hconsults.recurs_unique hfound (hforward hfound')]
  · obtain ⟨depth, hcomes⟩ := hfound
    refine ⟨depth + 1, ?_⟩
    dsimp only
    rw [hvisit]
    exact hconsults.comes_visited (not_exists.mp hresult) hcomes

theorem collected_recurs {place place' : Option Path} {members out : List (Text × Value)}
    {depth : Nat}
    (h : ∀ entry ∈ members, ∀ found,
      Recurs task (fun lookup ↦ resolveMember task.lenient lookup place entry.1 entry.2) found →
      Recurs task (fun lookup ↦ resolveMember task.lenient lookup place' entry.1 entry.2) found)
    (hout : Collected (Keyed fun entry found ↦ Comes
      (resolveMember task.lenient (lookupFreely task depth none) place entry.1 entry.2)
        (.ok found)) members out) :
    ∃ depth, Collected (Keyed fun entry found ↦ Comes
      (resolveMember task.lenient (lookupFreely task depth none) place' entry.1 entry.2)
        (.ok found)) members out := by
  induction hout with
  | nil => exact ⟨0, .nil⟩
  | cons hkeyed _ ih =>
      rw [List.forall_mem_cons] at h
      obtain ⟨led, hled, rfl⟩ := hkeyed
      obtain ⟨d, hd⟩ := h.1 led ⟨depth, hled⟩
      obtain ⟨d', hd'⟩ := ih h.2
      have hdeeper {depth : Nat} (hdepth : depth ≤ max d d') (entry : Text × Value)
          {found : Option Value}
          (hfound : Comes (resolveMember task.lenient (lookupFreely task depth none) place'
            entry.1 entry.2) (.ok found)) :
          Comes (resolveMember task.lenient (lookupFreely task (max d d') none) place'
            entry.1 entry.2) (.ok found) :=
        (resolveMember_consults_any place' entry.1 entry.2).deeper hdepth hfound
      -- The member and the rest may need different depths.
      refine ⟨max d d', .cons ⟨led, hdeeper (Nat.le_max_left d d') _ hd, rfl⟩ ?_⟩
      refine hd'.imp fun entry _ kept _ hkept ↦ ?_
      obtain ⟨led, hled, hmap⟩ := hkept
      exact ⟨led, hdeeper (Nat.le_max_right d d') entry hled, hmap⟩

theorem recurs_object {place place' : Option Path} {members : List (Text × Value)}
    (h : ∀ entry ∈ members, ∀ found,
      Recurs task (fun lookup ↦ resolveMember task.lenient lookup place entry.1 entry.2) found →
      Recurs task (fun lookup ↦ resolveMember task.lenient lookup place' entry.1 entry.2) found)
    (hnode : Recurs task (fun lookup ↦
      resolveNode task.lenient lookup (.object members) place) found) :
    Recurs task (fun lookup ↦ resolveNode task.lenient lookup (.object members) place') found := by
  obtain ⟨depth, hcomes⟩ := hnode
  obtain ⟨out, hout, rfl⟩ := (comes_object_iff (lookupFreely_steady task depth none)).mp hcomes
  obtain ⟨depth', hout'⟩ := collected_recurs h hout
  exact ⟨depth', (comes_object_iff (lookupFreely_steady task depth' none)).mpr ⟨out, hout', rfl⟩⟩

/-- A node that a path can name is resolved in place to what it is resolved to
where it stands. -/
theorem recurs_inPlace_iff (hlocated : Located task.root (some path) v) (hpath : path ≠ [])
    (halt : v.lacksAlternatives = true) (hwell : v.wellFormed = true) :
    Recurs task (fun lookup ↦ resolveNode task.lenient lookup v none) found ↔
      Recurs task (fun lookup ↦ resolveNode task.lenient lookup v (some path)) found := by
  induction v using Value.tree_induction generalizing path found with
  | object members ih =>
      rw [Value.lacksAlternatives, Value.membersLackAlternatives_iff] at halt
      obtain ⟨hnodup, hmembers⟩ := Value.wellFormed_object_iff.mp hwell
      have hmember : ∀ entry ∈ members, ∀ found,
          Recurs task (fun lookup ↦ resolveMember task.lenient lookup none entry.1 entry.2) found ↔
          Recurs task (fun lookup ↦
            resolveMember task.lenient lookup (some path) entry.1 entry.2) found := by
        intro entry hentry found
        rcases named_or_inPlace (some path) entry.1.content with ⟨_, ⟨rfl⟩, hkey⟩ | hinplace
        · have hchild := hlocated.member hkey (Members.get?_of_mem hnodup hentry)
          have hnonempty : path ++ [entry.1.content] ≠ [] := by simp
          simp only [resolveMember_plain _ _ hkey]
          rw [recurs_lookup_iff hchild hnonempty (halt entry hentry)]
          exact ih entry hentry hchild hnonempty (halt entry hentry) (hmembers entry hentry)
        · simp only [resolveMember_inPlace _ _ hinplace]
          rfl
      constructor
      · exact recurs_object fun entry hentry found ↦ (hmember entry hentry found).mp
      · exact recurs_object fun entry hentry found ↦ (hmember entry hentry found).mpr
  | array | substitution | concatenation | alternative => exact recurs_place_iff rfl
  | scalar v hscalar => exact recurs_place_iff (Value.isObject_of_isScalar hscalar)

end Places

/-- In a document without alternatives, a value that a path can name comes to
the same in a fresh session by its path and in place: to one value, to nothing,
or to a failure both times. -/
theorem resolveNode_inPlace {members : Members Text Value} {lenient : Bool} {path : String}
    {v : Value} (hwell : (Value.object members).wellFormed = true)
    (halt : Value.membersLackAlternatives members = true)
    (hv : Value.find members (Path.ofText path) = .ok (some v)) {depth depth' : Nat}
    {r r' : Except Fault (Option Value)} {t t' : Session}
    (hpath : (resolvePath ⟨.object members, lenient⟩ depth path).runIn .empty = some (r, t))
    (hnode : (resolveNode lenient (lookupWithin ⟨.object members, lenient⟩ depth') v none).runIn
      .empty = some (r', t')) :
    (∃ found, r = .ok found ∧ r' = .ok found) ∨
      ∃ fault fault', r = .error fault ∧ r' = .error fault' := by
  have hwritten := Path.ofText_written path
  have hd : Task.demand ⟨.object members, lenient⟩ (Path.ofText path) = .node v :=
    demand_of_find hv
  have hwalk : Value.walk members (Path.ofText path) = .ok (some v) := by
    obtain ⟨_, ⟨rfl⟩, -, hd⟩ := Task.demand_cases hd (by simp)
    exact Value.demand_eq_node_iff.mp hd
  have hlocated := located_of_demand hwritten hd
  have hroot : (Task.mk (.object members) lenient).root.lacksAlternatives = true := halt
  have halts : v.lacksAlternatives = true := Value.lacksAlternatives_of_walk halt hwalk
  have hwells : v.wellFormed = true := Value.wellFormed_inherited.of_walk hwell hwalk
  have hlookup : Consults False (fun _ ↦ True) fun lookup ↦ lookup (Path.ofText path) :=
    .lookup trivial
  have hconsults := resolveNode_consults_only lenient halts none
  -- Fresh sessions and plain recursion have one outcome, so recursion is compared.
  have hsame (found : Option Value) := calc
    (∃ depth t, (lookupWithin ⟨.object members, lenient⟩ depth (Path.ofText path)).runIn .empty =
        some (.ok found, t))
      ↔ Recurs ⟨.object members, lenient⟩ (fun lookup ↦ lookup (Path.ofText path)) found :=
        hlookup.runs_ok_iff hroot
    _ ↔ Recurs ⟨.object members, lenient⟩
          (fun lookup ↦ resolveNode lenient lookup v (some (Path.ofText path))) found :=
        recurs_lookup_iff hlocated hwritten.1 halts
    _ ↔ Recurs ⟨.object members, lenient⟩ (fun lookup ↦ resolveNode lenient lookup v none) found :=
        (recurs_inPlace_iff hlocated hwritten.1 halts hwells).symm
    _ ↔ ∃ depth t, (resolveNode lenient (lookupWithin ⟨.object members, lenient⟩ depth) v
          none).runIn .empty = some (.ok found, t) := (hconsults.runs_ok_iff hroot).symm
  cases r with
  | ok found =>
      obtain ⟨d, u, hu⟩ := (hsame found).mp ⟨depth, t, hpath⟩
      exact Or.inl ⟨found, rfl, hconsults.runs_unique hnode hu⟩
  | error fault =>
      cases r' with
      | error fault' => exact Or.inr ⟨fault, fault', rfl, rfl⟩
      | ok found =>
          obtain ⟨d, u, hu⟩ := (hsame found).mpr ⟨depth', t', hnode⟩
          cases hlookup.runs_unique hpath hu

/-- Members that refer to each other by their paths. -/
def selfQuoted : Value :=
  .object [("a", .substitution ⟨"o.b", false⟩), ("b", .int 1),
    ("c", .array [.substitution ⟨"o.a", true⟩])]

theorem resolveNode_inPlace_selfQuoted :
    ∃ found t t', (resolvePath ⟨.object [("o", selfQuoted)], false⟩ 5 "o").runIn .empty =
        some (.ok found, t) ∧
      (resolveNode false (lookupWithin ⟨.object [("o", selfQuoted)], false⟩ 5) selfQuoted
        none).runIn .empty = some (.ok found, t') := by
  obtain ⟨found, t, hpath⟩ : ∃ found t,
      (resolvePath ⟨.object [("o", selfQuoted)], false⟩ 5 "o").runIn .empty =
        some (.ok found, t) := ⟨_, _, rfl⟩
  obtain ⟨r, t', hnode⟩ : ∃ r t', (resolveNode false (lookupWithin
      ⟨.object [("o", selfQuoted)], false⟩ 5) selfQuoted none).runIn .empty = some (r, t') :=
    ⟨_, _, rfl⟩
  rcases resolveNode_inPlace (by decide) rfl rfl hpath hnode with ⟨_, ⟨rfl⟩, rfl⟩ | ⟨_, _, ⟨⟩, -⟩
  exact ⟨found, t, t', hpath, hnode⟩

end LayeredConfig.Resolver
