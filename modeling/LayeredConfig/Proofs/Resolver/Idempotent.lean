import LayeredConfig.Proofs.Resolver.Frame

/-!
# Resolving a second time

The references that lenient resolving leaves in a document lead nowhere in the
result either.  A path that came to nothing was redirected some number of times;
in the result its way is cut short, where a reference was replaced by what it
led to, or it is redirected at a reference that stayed.  The number of
redirects that are left decreases either way.
-/

namespace LayeredConfig

namespace Value

variable {members inner : Members Text Value} {place path : Path} {key : String}

theorem demand_of_missing (hplace : (object members).descend place = some (.object inner))
    (hkey : inner.get? key = none) (rest : Path) :
    demand members (place ++ key :: rest) = .absent := by
  by_cases hnil : place = []
  · subst hnil
    rw [descend_nil, Option.some.injEq, object.injEq] at hplace
    subst hplace
    cases rest <;> simp [demand, hkey]
  · apply demand_append_missing hnil _ hkey
    rw [demand_eq_node_iff, ← descend_eq_some_iff hnil, hplace]

/-- A path leads nowhere where an object on it does not have the next key. -/
theorem demand_absent_cases (h : demand members path = .absent) :
    path = [] ∨ ∃ place key rest inner, path = place ++ key :: rest ∧
      (object members).descend place = some (.object inner) ∧ Members.get? inner key = none := by
  induction path generalizing members with
  | nil => exact Or.inl rfl
  | cons key rest ih =>
      right
      cases hget : members.get? key with
      | none => exact ⟨[], key, rest, members, rfl, descend_nil _, hget⟩
      | some v =>
          cases rest with
          | nil => simp [demand, hget] at h
          | cons next rest =>
              cases v <;> simp only [demand, hget, reduceCtorEq] at h
              case object within =>
                have hwithin : demand within (next :: rest) = .absent := by
                  cases hd : demand within (next :: rest) <;> simp_all [Demand.under]
                rcases ih hwithin with hnil | ⟨place, name, after, inner, hpath, hplace, hname⟩
                · cases hnil
                · refine ⟨key :: place, name, after, inner, by rw [hpath]; rfl, ?_, hname⟩
                  rw [descend_object_cons, hget, Option.bind_some, hplace]

/-- The object before a value that stands at a place. -/
theorem exists_parent {v : Value} (hpath : path ≠ []) (h : (object members).descend path = some v) :
    ∃ place key inner, path = place ++ [key] ∧
      (object members).descend place = some (.object inner) ∧ Members.get? inner key = some v := by
  refine ⟨path.dropLast, path.getLast hpath, ?_⟩
  have happend := List.dropLast_append_getLast hpath
  rw [← happend, descend_append] at h
  obtain ⟨w, hw, hv⟩ := Option.bind_eq_some_iff.mp h
  obtain ⟨inner, child, rfl, hchild, hnil⟩ := descend_cons_cases hv
  rw [descend_nil] at hnil
  cases hnil
  exact ⟨inner, happend.symm, hw, hchild⟩

end Value

namespace Resolver

/-- Nothing is at the path, after so many redirects, by the document and the
settled paths. -/
inductive Lost (members : Members Text Value) (settled : List (Path × Option Value)) :
    Path → Nat → Prop
  | hollow {path : Path} (h : path.any String.isEmpty = true) : Lost members settled path 0
  | absent {path : Path} (hempty : path.any String.isEmpty = false)
      (hd : Value.demand members path = .absent) : Lost members settled path 0
  | vanished {path : Path} {v : Value} (hempty : path.any String.isEmpty = false)
      (hd : Value.demand members path = .node v) (h : settled.lookup path = some none) :
      Lost members settled path 0
  | through {path place rest : Path} {led : Option Value} (hempty : path.any String.isEmpty = false)
      (hd : Value.demand members path = .through place rest)
      (hled : settled.lookup place = some led) (hfollow : Value.follow led rest = .ok none) :
      Lost members settled path 0
  | redirect {path target : Path} {n : Nat} (hempty : path.any String.isEmpty = false)
      (hd : Value.demand members path = .redirect target) (h : Lost members settled target n) :
      Lost members settled path (n + 1)

section Lost

variable {lenient : Bool} {members : Members Text Value}
  {settled older : List (Path × Option Value)} {path rest : Path} {n : Nat}

/-- A path that is settled and came to nothing is lost. -/
theorem Accounted.lost (h : Accounted lenient members settled)
    (hpath : settled.lookup path = some none) : ∃ n, Lost members settled path n := by
  refine h.forall_entries (P := fun path found ↦ found = none → ∃ n, Lost members settled path n)
    (.refl settled) ?_ path none hpath rfl
  rintro path _ earlier - hcarries hsettled haccounts hbefore rfl
  cases hempty : path.any String.isEmpty with
  | true => exact ⟨0, .hollow hempty⟩
  | false =>
      rw [accounts_iff_of_keys hempty] at haccounts
      cases hd : Value.demand members path with
      | absent => exact ⟨0, .absent hempty hd⟩
      | node v => exact ⟨0, .vanished hempty hd hsettled⟩
      | redirect target =>
          simp only [hd] at haccounts
          obtain ⟨n, hn⟩ := hbefore target none haccounts rfl
          exact ⟨n + 1, .redirect hempty hd hn⟩
      | through place after =>
          simp only [hd] at haccounts
          obtain ⟨led, hled, hfollow⟩ := haccounts
          exact ⟨0, .through hempty hd (hcarries _ _ hled) hfollow⟩
      | blocked b => simp [hd] at haccounts

/-- A lost path has come to nothing, if it is settled. -/
theorem Lost.settled_eq_none (h : Lost members settled path n)
    (haccounted : Accounted lenient members settled) {found : Option Value}
    (hpath : settled.lookup path = some found) : found = none := by
  induction h generalizing found with
  | hollow hempty =>
      have haccounts := (haccounted.accounts hpath).2
      exact (accounts_iff_of_hollow hempty).mp haccounts
  | absent hempty hd =>
      have haccounts := (haccounted.accounts hpath).2
      rwa [accounts_iff_of_keys hempty, hd] at haccounts
  | vanished _ _ hnone => exact Option.some.inj (hpath.symm.trans hnone)
  | through hempty hd hled hfollow =>
      have haccounts := (haccounted.accounts hpath).2
      rw [accounts_iff_of_keys hempty, hd] at haccounts
      obtain ⟨led, hplace, hfound⟩ := haccounts
      obtain rfl := Option.some.inj (hled.symm.trans hplace)
      exact Except.ok.inj (hfound.symm.trans hfollow)
  | redirect hempty hd _ ih =>
      have haccounts := (haccounted.accounts hpath).2
      rw [accounts_iff_of_keys hempty, hd] at haccounts
      exact ih haccounts

/-- Why a path of nonempty keys is lost, by what it demands. -/
theorem Lost.demand_cases (h : Lost members settled path n)
    (hempty : path.any String.isEmpty = false) :
    match Value.demand members path with
    | .redirect target => ∃ m, n = m + 1 ∧ Lost members settled target m
    | .through place after =>
      ∃ led, settled.lookup place = some led ∧ Value.follow led after = .ok none
    | .blocked _ => False
    | _ => True := by
  cases h with
  | hollow h =>
      rw [hempty] at h
      cases h
  | absent _ hd | vanished _ hd _ =>
      rw [hd]
      trivial
  | through _ hd hled hfollow =>
      rw [hd]
      exact ⟨_, hled, hfollow⟩
  | redirect _ hd h =>
      rw [hd]
      exact ⟨_, rfl, h⟩

/-- Where a lost path is redirected, its target is lost after one redirect
fewer. -/
theorem Lost.of_redirect (h : Lost members settled path n)
    (hempty : path.any String.isEmpty = false) {target : Path}
    (hd : Value.demand members path = .redirect target) :
    ∃ m, n = m + 1 ∧ Lost members settled target m := by
  simpa only [hd] using h.demand_cases hempty

/-- Where a lost path crosses a value, the value has nothing behind it. -/
theorem Lost.of_through (h : Lost members settled path n)
    (hempty : path.any String.isEmpty = false) {place after : Path}
    (hd : Value.demand members path = .through place after) {led : Option Value}
    (hled : settled.lookup place = some led) : Value.follow led after = .ok none := by
  have hcases := h.demand_cases hempty
  rw [hd] at hcases
  obtain ⟨led', hled', hfollow⟩ := hcases
  rwa [Option.some.inj (hled.symm.trans hled')]

theorem Lost.not_blocked (h : Lost members settled path n)
    (hempty : path.any String.isEmpty = false) {b : Blocked} :
    Value.demand members path ≠ .blocked b := by
  intro hd
  have hcases := h.demand_cases hempty
  rwa [hd] at hcases

/-- Nothing is demanded, or a path that is lost after no more redirects. -/
def Vanishes (members : Members Text Value) (settled : List (Path × Option Value)) (d : Demand)
    (n : Nat) : Prop :=
  d = .absent ∨ ∃ target m, d = .redirect target ∧ m ≤ n ∧ Lost members settled target m

theorem Vanishes.mono {d : Demand} {m : Nat} (h : Vanishes members settled d m) (hle : m ≤ n) :
    Vanishes members settled d n := by
  rcases h with habsent | ⟨target, k, hd, hk, hlost⟩
  · exact Or.inl habsent
  · exact Or.inr ⟨target, k, hd, hk.trans hle, hlost⟩

theorem Demand.below_redirect (place target : Path) :
    (Demand.redirect target).below place = .redirect target := by
  induction place with
  | nil => rfl
  | cons key rest ih => simp only [Demand.below, List.foldr_cons] at ih ⊢; rw [ih]; rfl

theorem Vanishes.below {d : Demand} (h : Vanishes members settled d n) (place : Path) :
    Vanishes members settled (d.below place) n := by
  rcases h with rfl | ⟨target, m, rfl, hm, hlost⟩
  · exact Or.inl (Demand.below_absent place)
  · exact Or.inr ⟨target, m, Demand.below_redirect place target, hm, hlost⟩

/-- Behind an object that has nothing there, nothing is demanded. -/
theorem onward_of_follow {v : Value} (h : Value.follow (some v) rest = .ok none) (place : Path) :
    (Demand.node v).onward place rest = .absent := by
  cases hv : v.isObject with
  | false =>
      rw [Value.follow_other hv] at h
      cases h
  | true =>
      obtain ⟨inner, rfl⟩ := Value.exists_object hv
      rw [Value.follow, Value.mapError_eq_ok_iff] at h
      rw [Demand.onward, Value.demand_of_walk_none h, Demand.below_absent]

/-- Behind the older paths, what is lost vanishes in the value that was settled. -/
def LostOnward (members : Members Text Value) (older settled : List (Path × Option Value)) : Prop :=
  ∀ path v rest n, older.lookup path = some (some v) → rest.Written →
    rest.any String.isEmpty = false → Lost members settled (path ++ rest) n →
      ∀ place, Vanishes members settled ((Demand.node v).onward place rest) n

section Onward

variable {v : Value}

/-- Behind an object, what is lost vanishes below the member that was settled. -/
theorem KeepsMembers.lost_onward {inner out : Members Text Value}
    (hkeeps : KeepsMembers older path inner out) (haccounted : Accounted lenient members settled)
    (hcarries : Carries older settled) (holder : LostOnward members older settled)
    (hrest : rest.Written) (hkeys : rest.any String.isEmpty = false)
    (hlost : Lost members settled (path ++ rest) n) :
    Vanishes members settled (Value.demand out rest) n := by
  obtain ⟨key, after, rfl⟩ := List.exists_cons_of_ne_nil hrest.1
  cases hout : Members.get? out key with
  | none =>
      have habsent : Value.demand out ([] ++ key :: after) = .absent :=
        Value.demand_of_missing (Value.descend_nil _) hout after
      exact Or.inl habsent
  | some x =>
      have hmember := hkeeps key (hrest.isPlainKey hkeys List.mem_cons_self)
      rw [hout] at hmember
      cases hget : Members.get? inner key with
      | none =>
          rw [hget] at hmember
          cases hmember
      | some child =>
          rw [hget] at hmember
          by_cases hafter : after = []
          · subst hafter
            have hnone := hlost.settled_eq_none haccounted (hcarries _ _ hmember)
            cases hnone
          · rw [List.any_cons, Bool.or_eq_false_iff] at hkeys
            have hdemand := Value.demand_append out (List.cons_ne_nil key []) hafter
            rw [List.singleton_append, Value.demand, hout] at hdemand
            rw [hdemand]
            rw [← List.singleton_append, ← List.append_assoc] at hlost
            exact holder _ x after n hmember (hrest.of_append_right (p := [key]) hafter) hkeys.2
              hlost [key]

theorem AccountsNode.lost_onward {node : Value}
    (h : AccountsNode lenient older path node (some v))
    (hd : Value.demand members path = .node node) (haccounted : Accounted lenient members settled)
    (hcarries : Carries older settled) (hsettled : settled.lookup path = some (some v))
    (holder : LostOnward members older settled) (hpath : path ≠ []) (hrest : rest.Written)
    (hkeys : rest.any String.isEmpty = false) (hempty : (path ++ rest).any String.isEmpty = false)
    (hlost : Lost members settled (path ++ rest) n) (place : Path) :
    Vanishes members settled ((Demand.node v).onward place rest) n := by
  have hdemand := Value.demand_append members hpath hrest.1
  rw [hd] at hdemand
  cases node
  case object inner =>
    obtain ⟨out, hv, hkeeps⟩ := h
    cases hv
    exact (hkeeps.lost_onward haccounted hcarries holder hrest hkeys hlost).below place
  case substitution r =>
    obtain ⟨m, rfl, htarget⟩ := hlost.of_redirect hempty hdemand
    obtain ⟨led, hled, rfl | ⟨-, -, -, hleft⟩⟩ := h
    · exact (holder _ v rest m hled hrest hkeys htarget place).mono m.le_succ
    · cases hleft
      exact Or.inr ⟨_, m, rfl, m.le_succ, htarget⟩
  case concatenation fragments =>
    exact Or.inl (onward_of_follow (hlost.of_through hempty hdemand hsettled) place)
  case alternative default override =>
    exact Or.inl (onward_of_follow (hlost.of_through hempty hdemand hsettled) place)
  all_goals exact absurd hdemand (hlost.not_blocked hempty)

theorem Accounts.lost_onward (h : Accounts lenient members older path (some v))
    (haccounted : Accounted lenient members settled) (hcarries : Carries older settled)
    (hsettled : settled.lookup path = some (some v)) (holder : LostOnward members older settled)
    (hpath : path ≠ []) (hrest : rest.Written) (hkeys : rest.any String.isEmpty = false)
    (hlost : Lost members settled (path ++ rest) n) (place : Path) :
    Vanishes members settled ((Demand.node v).onward place rest) n := by
  cases hnonempty : path.any String.isEmpty with
  | true => cases (accounts_iff_of_hollow hnonempty).mp h
  | false =>
      rw [accounts_iff_of_keys hnonempty] at h
      have hempty : (path ++ rest).any String.isEmpty = false := by
        rw [List.any_append, hkeys, hnonempty, Bool.or_false]
      have hdemand := Value.demand_append members hpath hrest.1
      cases hd : Value.demand members path with
      | absent =>
          rw [hd] at h
          cases h
      | node node =>
          rw [hd] at h
          exact h.lost_onward hd haccounted hcarries hsettled holder hpath hrest hkeys hempty hlost
            place
      | redirect target =>
          rw [hd] at h hdemand
          obtain ⟨m, rfl, htarget⟩ := hlost.of_redirect hempty hdemand
          exact (holder _ v rest m h hrest hkeys htarget place).mono m.le_succ
      | through first before =>
          rw [hd] at h hdemand
          obtain ⟨led, hled, hfollow⟩ := h
          have hnone := hlost.of_through hempty hdemand (hcarries _ _ hled)
          obtain ⟨-, hbefore, -⟩ := Value.demand_through_cases hd
          rw [Value.follow_append hbefore hrest.1 hfollow] at hnone
          exact Or.inl (onward_of_follow hnone place)
      | blocked b =>
          rw [hd] at h
          exact h.elim

theorem Accounted.lostOnward (h : Accounted lenient members older)
    (haccounted : Accounted lenient members settled) (hcarries : Carries older settled) :
    LostOnward members older settled := by
  have hentries := h.forall_entries (P := fun path found ↦ ∀ v, found = some v →
    ∀ rest n, rest.Written → rest.any String.isEmpty = false →
      Lost members settled (path ++ rest) n →
        ∀ place, Vanishes members settled ((Demand.node v).onward place rest) n) hcarries ?_
  · exact fun path v rest n hpath ↦ hentries path _ hpath v rfl rest n
  · rintro path _ earlier hpath hcarries hsettled haccounts hbefore v rfl rest n hrest hkeys hlost
    exact haccounts.lost_onward haccounted hcarries hsettled
      (fun q w rest n hw ↦ hbefore q _ hw w rfl rest n) hpath.1 hrest hkeys hlost

end Onward

end Lost

/-! ## The result beside the document -/

/-- The members of a document and of what it was resolved to. -/
structure Resolution (lenient : Bool) (members out : Members Text Value)
    (settled : List (Path × Option Value)) : Prop where
  accounted : Accounted lenient members settled
  object : ∀ place (inner : Members Text Value),
    (Value.object members).descend place = some (.object inner) →
      ∃ kept : Members Text Value, (Value.object out).descend place = some (.object kept) ∧
        ∀ key, inner.get? key = none → kept.get? key = none
  settled : ∀ path v, path ≠ [] → (∀ key ∈ path, Path.isPlainKey key = true) →
    (Value.object members).descend path = some v →
      settled.lookup path = some ((Value.object out).descend path)

theorem AmountsTo.settled_descend {task : Task} {settled : List (Path × Option Value)}
    (h : PlacesAmount task settled) {v : Value} (hwell : v.wellFormed = true) {place : Path}
    (hlocated : Located task.root (some place) v) {found : Option Value}
    (hv : AmountsTo task.lenient settled v (some place) found) {path : Path} (hpath : path ≠ [])
    (hplain : ∀ key ∈ path, Path.isPlainKey key = true) {w : Value}
    (hw : v.descend path = some w) :
    settled.lookup (place ++ path) = some (found.bind (·.descend path)) := by
  induction path generalizing v place found with
  | nil => exact absurd rfl hpath
  | cons key rest ih =>
      obtain ⟨members, child, rfl, hchild, hrest⟩ := Value.descend_cons_cases hw
      obtain ⟨out, rfl, hmembers⟩ := amountsTo_object_iff.mp hv
      rw [List.forall_mem_cons] at hplain
      have hnodup := (Value.wellFormed_object_iff.mp hwell).1
      have hlookup :=
        (memberAmountsTo_plain hplain.1).mp (memberAmountsTo_get? hnodup hmembers hchild)
      rw [Option.bind_some, Value.descend_object_cons]
      have hmember := hlocated.member hplain.1 hchild
      have hchild_amounts := h _ _ _ (by simp) hmember hlookup
      by_cases hnil : rest = []
      · subst hnil
        rw [hlookup]
        cases Members.get? out key with
        | none => rfl
        | some x => rw [Option.bind_some, Value.descend_nil]
      · have hlater := ih (Value.wellFormed_inherited.of_get? hwell hchild) hmember
          hchild_amounts hnil hplain.2 hrest
        rwa [List.append_assoc, List.singleton_append] at hlater

section Resolution

variable {lenient : Bool} {members out : Members Text Value}
  {settled : List (Path × Option Value)} {path : Path} {n : Nat}

theorem resolveDocument_resolution {s t : Session} {depth : Nat}
    (hwell : (Value.object members).wellFormed = true)
    (hs : Reaches ⟨.object members, lenient⟩ .empty s)
    (hrun : (resolveDocument ⟨.object members, lenient⟩ depth).runIn s =
      some (.ok (.object out), t)) : Resolution lenient members out t.settled := by
  have ht := hs.document hrun
  refine ⟨ht.accounted rfl trivial, ?_, ?_⟩
  · intro place inner hinner
    obtain ⟨_, -, -, hamounts⟩ := resolveDocument_descend hwell hs hrun rfl hinner
    obtain ⟨kept, hkept, hmembers⟩ := amountsTo_object_iff.mp hamounts
    exact ⟨kept, hkept, fun key ↦ hmembers.get?_eq_none⟩
  · intro path v hpath hplain hv
    obtain ⟨q, hq, hamounts⟩ := resolveDocument_amounts hrun
    have hsettled := hamounts.settled_descend ht.placesAmount hwell (located_root _) hpath hplain hv
    rw [List.nil_append] at hsettled
    rw [hsettled, hq]
    obtain ⟨kept, rfl, -⟩ := amountsTo_object_iff.mp hamounts
    rfl

namespace Resolution

/-- What stands at a written path of the document is settled for it. -/
theorem lookup_eq (h : Resolution lenient members out settled) (hpath : path.Written)
    (hempty : path.any String.isEmpty = false) {v : Value}
    (hv : (Value.object members).descend path = some v) :
    settled.lookup path = some ((Value.object out).descend path) :=
  h.settled path v hpath.1 (fun _ ↦ hpath.isPlainKey hempty) hv

/-- A path is absent from the result where its object does not have the key. -/
theorem demand_absent (h : Resolution lenient members out settled)
    (hd : Value.demand members path = .absent) : Value.demand out path = .absent := by
  rcases Value.demand_absent_cases hd with rfl | ⟨place, key, rest, inner, rfl, hinner, hkey⟩
  · rfl
  · obtain ⟨kept, hkept, hnone⟩ := h.object place inner hinner
    exact Value.demand_of_missing hkept (hnone key hkey) rest

/-- A path is absent from the result where a value before its end has vanished. -/
theorem demand_vanished (h : Resolution lenient members out settled) (hpath : path ≠ [])
    {v : Value} (hv : (Value.object members).descend path = some v)
    (hnone : (Value.object out).descend path = none) (rest : Path) :
    Value.demand out (path ++ rest) = .absent := by
  obtain ⟨place, key, inner, rfl, hinner, -⟩ := Value.exists_parent hpath hv
  obtain ⟨kept, hkept, -⟩ := h.object place inner hinner
  rw [Value.descend_append, hkept, Option.bind_some, Value.descend_object_cons] at hnone
  have hkey : Members.get? kept key = none := by
    cases hget : Members.get? kept key with
    | none => rfl
    | some x =>
        rw [hget, Option.bind_some, Value.descend_nil] at hnone
        cases hnone
  rw [List.append_assoc, List.singleton_append]
  exact Value.demand_of_missing hkept hkey rest

theorem demand_behind {place rest : Path} {v : Value} (hplace : place ≠ []) (hrest : rest ≠ [])
    (hv : (Value.object out).descend place = some v) :
    Value.demand out (place ++ rest) = (Demand.node v).onward place rest := by
  rw [Value.demand_append out hplace hrest,
    Value.demand_eq_node_iff.mpr ((Value.descend_eq_some_iff hplace).mp hv)]

/-- A path that vanishes from the result leads nowhere in it, if the lost paths
that it is redirected to do. -/
theorem void_of_vanishes (hpath : path.Written) (hempty : path.any String.isEmpty = false)
    (h : Vanishes members settled (Value.demand out path) n)
    (hvoid : ∀ m ≤ n, ∀ target : Path, target.Written → Lost members settled target m →
      Void (.object out) target) : Void (.object out) path := by
  rcases h with hd | ⟨target, m, hd, hm, hlost⟩
  · exact .absent rfl hempty hd
  · exact .redirect rfl hempty hd (hvoid m hm target (Value.written_of_redirect hd hpath) hlost)

/-- What is lost in a lenient session leads nowhere in the result. -/
theorem void (h : Resolution lenient members out settled) (hpath : path.Written)
    (hlost : Lost members settled path n) : Void (.object out) path := by
  induction n using Nat.strong_induction_on generalizing path with
  | _ n ih =>
      cases hlost with
      | hollow hempty => exact .hollow hempty
      | absent hempty hd => exact .absent rfl hempty (h.demand_absent hd)
      | vanished hempty hd hnone =>
          have hv := (Value.descend_eq_some_iff hpath.1).mpr (Value.demand_eq_node_iff.mp hd)
          have hout := Option.some.inj ((h.lookup_eq hpath hempty hv).symm.trans hnone)
          have hdemand := h.demand_vanished hpath.1 hv hout []
          rw [List.append_nil] at hdemand
          exact .absent rfl hempty hdemand
      | @through _ place rest led hempty hd hled hfollow =>
          obtain ⟨hplace, hrest, rfl, v, hwalk, -⟩ := Value.demand_through_cases hd
          have hv := (Value.descend_eq_some_iff hplace).mpr hwalk
          have hlookup := h.settled place v hplace
            (fun _ hkey ↦ hpath.isPlainKey hempty (List.mem_append_left rest hkey)) hv
          refine .absent rfl hempty ?_
          cases hout : (Value.object out).descend place with
          | none => exact h.demand_vanished hplace hv hout rest
          | some x =>
              rw [hlookup, hout, Option.some.injEq] at hled
              subst hled
              rw [demand_behind hplace hrest hout, onward_of_follow hfollow]
      | @redirect _ target m hempty hd htarget =>
          obtain ⟨place, r, rest, hplace, hrest, rfl, hwalk, rfl⟩ := Value.demand_redirect_cases hd
          have hv := (Value.descend_eq_some_iff hplace).mpr hwalk
          have hlookup := h.settled place _ hplace
            (fun _ hkey ↦ hpath.isPlainKey hempty (List.mem_append_left rest hkey)) hv
          have hkeys := List.any_append ▸ hempty
          rw [Bool.or_eq_false_iff] at hkeys
          have haccounts := (h.accounted.accounts hlookup).2
          rw [accounts_iff_of_keys hkeys.1, Value.demand_eq_node_iff.mpr hwalk] at haccounts
          cases hout : (Value.object out).descend place with
          | none => exact .absent rfl hempty (h.demand_vanished hplace hv hout rest)
          | some x =>
              rw [hout] at haccounts
              apply void_of_vanishes hpath hempty (n := m) _
                (fun k hk target hwritten ↦ ih k (Nat.lt_succ_of_le hk) hwritten)
              rw [demand_behind hplace hrest hout]
              -- The reference stayed, or what it led to stands in its place.
              obtain ⟨led, hled, rfl | ⟨-, -, -, hleft⟩⟩ := haccounts
              · exact h.accounted.lostOnward h.accounted (.refl settled) _ x rest m hled
                  (hpath.of_append_right hrest) hkeys.2 htarget place
              · cases hleft
                exact Or.inr ⟨_, m, rfl, le_rfl, htarget⟩

end Resolution

end Resolution

/-! ## Resolving the result -/

section Again

variable {root found : Value} {s t : Session} {depth : Nat}

/-- The paths of the references that stay lead nowhere in the result. -/
theorem void_of_settled_none (hwell : root.wellFormed = true) (hs : Reaches ⟨root, true⟩ .empty s)
    (hrun : (resolveDocument ⟨root, true⟩ depth).runIn s = some (.ok found, t))
    (hobject : root.isObject = true) {path : Path} (hpath : path.Written)
    (hnone : t.settled.lookup path = some none) : Void found path := by
  obtain ⟨members, rfl⟩ := Value.exists_object hobject
  obtain ⟨_, -, -, hamounts⟩ :=
    resolveDocument_descend hwell hs hrun rfl (Value.descend_nil (.object members))
  rw [Value.descend_nil] at hamounts
  obtain ⟨out, hout, -⟩ := amountsTo_object_iff.mp hamounts
  cases hout
  have hresolution := resolveDocument_resolution hwell hs hrun
  obtain ⟨n, hlost⟩ := hresolution.accounted.lost hnone
  exact hresolution.void hpath hlost

/-- What lenient resolving gives is resolved to itself, if the root is an object
or the references that are left lead nowhere in the result. -/
theorem resolveDocument_idempotent (hwell : root.wellFormed = true)
    (hs : Reaches ⟨root, true⟩ .empty s)
    (hrun : (resolveDocument ⟨root, true⟩ depth).runIn s = some (.ok found, t))
    (hroot : root.isObject = true ∨
      ∀ r : Reference, .substitution r ∈ found.parts → Void found (Path.ofText r.path)) :
    ∃ enough, ∀ depth, enough ≤ depth →
      ∃ u, (resolveDocument ⟨found, true⟩ depth).runIn .empty = some (.ok found, u) := by
  refine resolveDocument_of_stays ⟨found, true⟩ ?_ (resolveDocument_wellFormed hwell hs hrun)
  intro v hv hreference
  refine ⟨rfl, ?_⟩
  rcases resolveDocument_mayStay hs hrun v hv hreference with ⟨r, rfl, hoptional, hnone⟩ | hkept
  · refine Or.inl ⟨r, rfl, hoptional, ?_⟩
    rcases hroot with hobject | hvoid
    · exact void_of_settled_none hwell hs hrun hobject (Path.ofText_written r.path) hnone
    · exact hvoid r hv
  · exact Or.inr hkept

/-- A reference into a part of a reference that is replaced, and one into a
member that is dropped. -/
def shortCut : Members Text Value :=
  [(⟨"a", false⟩, .substitution ⟨"b", false⟩),
    (⟨"b", false⟩, .object [(⟨"c", false⟩, .substitution ⟨"d", true⟩)]),
    (⟨"e", false⟩, .array [.substitution ⟨"a.c", false⟩, .substitution ⟨"b.c.f", false⟩])]

theorem resolveDocument_idempotent_shortCut :
    ∃ found t, (resolveDocument ⟨.object shortCut, true⟩ 4).runIn .empty = some (.ok found, t) ∧
      .substitution ⟨"a.c", false⟩ ∈ found.parts ∧
      ∃ enough, ∀ depth, enough ≤ depth →
        ∃ u, (resolveDocument ⟨found, true⟩ depth).runIn .empty = some (.ok found, u) := by
  obtain ⟨t, ht⟩ : ∃ t, (resolveDocument ⟨.object shortCut, true⟩ 4).runIn .empty =
      some (.ok (.object [(⟨"a", false⟩, .object []), (⟨"b", false⟩, .object []),
        (⟨"e", false⟩,
          .array [.substitution ⟨"a.c", false⟩, .substitution ⟨"b.c.f", false⟩])]), t) := ⟨_, rfl⟩
  have hwell : (Value.object shortCut).wellFormed = true := by decide
  refine ⟨_, t, ht, ?_, resolveDocument_idempotent hwell .refl ht (Or.inl rfl)⟩
  simp [Value.parts, Value.memberParts, Value.itemParts]

/-- An object that stands in for an alternative has a reference to a member of
its own. -/
def standIn : Members Text Value :=
  [(⟨"a", false⟩, .substitution ⟨"b", false⟩), (⟨"b", false⟩, .int 1)]

theorem resolveDocument_twice_standIn : ¬ ∀ root found : Value, ∀ depth t,
    root.wellFormed = true →
      (resolveDocument ⟨root, true⟩ depth).runIn .empty = some (.ok found, t) →
        ∃ enough, ∀ depth, enough ≤ depth →
          ∃ u, (resolveDocument ⟨found, true⟩ depth).runIn .empty = some (.ok found, u) := by
  intro hall
  -- Nothing can be looked up where the root is an alternative.
  obtain ⟨t, ht⟩ : ∃ t, (resolveDocument
      ⟨.alternative (.object standIn) ⟨"x", true⟩, true⟩ 3).runIn .empty =
        some (.ok (.object standIn), t) := ⟨_, rfl⟩
  have hwell : (Value.alternative (.object standIn) ⟨"x", true⟩).wellFormed = true := by decide
  obtain ⟨enough, hagain⟩ := hall _ _ _ _ hwell ht
  obtain ⟨u, hu⟩ := hagain (enough + 3) (by omega)
  have hdepth : ∀ n, ∃ u, (resolveDocument ⟨.object standIn, true⟩ (n + 3)).runIn .empty =
      some (.ok (.object [(⟨"a", false⟩, .int 1), (⟨"b", false⟩, .int 1)]), u) := fun n ↦ ⟨_, rfl⟩
  obtain ⟨u', hu'⟩ := hdepth enough
  rw [hu] at hu'
  simp [standIn] at hu'

end Again

end Resolver

end LayeredConfig
