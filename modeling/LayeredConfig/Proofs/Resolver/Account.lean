import LayeredConfig.Proofs.Resolver.Amount

/-!
# Accounts of settled paths

Whatever a session has settled for a path can be read off the document and
the entries that were settled before it.  `Accounts` says how, by the demand
of the path; that holds of every entry at any time, also where failures were
caught on the way.
-/

namespace LayeredConfig

namespace Resolver

/-- The members that paths can name are those settled below `place`. -/
def KeepsMembers (settled : List (Path × Option Value)) (place : Path)
    (members out : Members Text Value) : Prop :=
  ∀ key, Path.isPlainKey key = true →
    match members.get? key with
    | none => out.get? key = none
    | some _ => settled.lookup (place ++ [key]) = some (out.get? key)

theorem KeepsMembers.mono {earlier later : List (Path × Option Value)}
    (hcarries : Carries earlier later) {place : Path} {members out : Members Text Value}
    (h : KeepsMembers earlier place members out) : KeepsMembers later place members out := by
  intro key hkey
  have hmember := h key hkey
  cases hget : members.get? key with
  | none => simpa [hget] using hmember
  | some v =>
      rw [hget] at hmember
      exact hcarries _ _ hmember

/-- What a node at a place of the document has come to. -/
def AccountsNode (lenient : Bool) (settled : List (Path × Option Value)) (place : Path) :
    Value → Option Value → Prop
  | .object members, found =>
    ∃ out, found = some (.object out) ∧ KeepsMembers settled place members out
  | .array _, found => ∃ elements, found = some (.array elements)
  | .substitution r, found =>
    ∃ led, settled.lookup (Path.ofText r.path) = some led ∧
      (found = led ∨
        lenient = true ∧ led = none ∧ r.optional = false ∧ found = some (.substitution r))
  | .concatenation _, _ => True
  | .alternative _ _, _ => True
  | v, found => found = some v

/-- What a path of the document has come to. -/
def Accounts (lenient : Bool) (members : Members Text Value)
    (settled : List (Path × Option Value)) (path : Path) (found : Option Value) : Prop :=
  if path.any String.isEmpty then found = none
  else
    match Value.demand members path with
    | .absent => found = none
    | .node v => AccountsNode lenient settled path v found
    | .redirect target => settled.lookup target = some found
    | .through place rest =>
      ∃ led, settled.lookup place = some led ∧ Value.follow led rest = .ok found
    | .blocked _ => False

section Accounts

variable {lenient : Bool} {members : Members Text Value} {settled : List (Path × Option Value)}
  {path : Path} {found : Option Value}

theorem accounts_iff_of_hollow (hempty : path.any String.isEmpty = true) :
    Accounts lenient members settled path found ↔ found = none := by
  rw [Accounts, if_pos hempty]

theorem accounts_iff_of_keys (hkeys : path.any String.isEmpty = false) :
    Accounts lenient members settled path found ↔
      match Value.demand members path with
      | .absent => found = none
      | .node v => AccountsNode lenient settled path v found
      | .redirect target => settled.lookup target = some found
      | .through place rest =>
        ∃ led, settled.lookup place = some led ∧ Value.follow led rest = .ok found
      | .blocked _ => False := by
  rw [Accounts, if_neg (by simp [hkeys])]

end Accounts

/-- Every entry is accounted for by the ones before it. -/
def Accounted (lenient : Bool) (members : Members Text Value) :
    List (Path × Option Value) → Prop
  | [] => True
  | (path, found) :: older =>
    path.Written ∧ older.lookup path = none ∧ Accounts lenient members older path found ∧
      Accounted lenient members older

section Runs

variable {task : Task} {members : Members Text Value} {depth : Nat} {lenient : Bool}
  {s t : Session}

theorem keepsMembers_of_collected {settled : List (Path × Option Value)} {place : Path}
    {members out : Members Text Value}
    (h : Collected (Keyed fun entry ↦
      MemberAmountsTo lenient settled (some place) entry.1.content entry.2) members out) :
    KeepsMembers settled place members out := by
  induction h with
  | nil =>
      intro key _
      rfl
  | @cons entry rest _ others hkeyed _ ih =>
      obtain ⟨name, child⟩ := entry
      obtain ⟨led, hled, rfl⟩ := hkeyed
      intro key hkey
      by_cases hname : name.content = key
      · subst hname
        have hsettled := (memberAmountsTo_plain hkey).mp hled
        rw [Members.get?_cons_self]
        cases led with
        | some v => simpa [Members.get?_cons_self] using hsettled
        | none =>
            -- A repetition of the key is the same visit, so it is dropped as well.
            have habsent : Members.get? others name.content = none := by
              have hmember := ih name.content hkey
              split at hmember
              · exact hmember
              · rw [hsettled] at hmember
                exact (Option.some.inj hmember).symm
            simpa [habsent] using hsettled
      · have hout : Members.get? ((led.map (name, ·)).elim others (· :: others)) key =
            Members.get? others key := by
          cases led <;> simp [Members.get?_cons_ne hname]
        rw [Members.get?_cons_ne hname, hout]
        exact ih key hkey

theorem AmountsTo.accounts {settled : List (Path × Option Value)} {v : Value} {place : Path}
    {found : Option Value} (h : AmountsTo lenient settled v (some place) found) :
    AccountsNode lenient settled place v found := by
  cases v with
  | object members =>
      obtain ⟨out, rfl, hmembers⟩ := amountsTo_object_iff.mp h
      exact ⟨out, rfl, keepsMembers_of_collected hmembers⟩
  | array elements =>
      obtain ⟨out, rfl, -⟩ := amountsTo_array_iff.mp h
      exact ⟨out, rfl⟩
  | substitution r =>
      rw [AmountsTo] at h
      obtain ⟨led, hled, hanswers⟩ := h
      refine ⟨led, hled, ?_⟩
      cases hanswers with
      | found v => exact Or.inl rfl
      | absent => exact Or.inl rfl
      | left hoptional hlenient => exact Or.inr ⟨hlenient, rfl, hoptional, rfl⟩
  | concatenation | alternative => trivial
  | _ => exact h

theorem accounts_iff (task : Task) (hroot : task.root = .object members) {path : Path}
    {settled : List (Path × Option Value)} {found : Option Value} :
    Accounts lenient members settled path found ↔
      match task.demand path with
      | .absent => found = none
      | .node v => AccountsNode lenient settled path v found
      | .redirect target => settled.lookup target = some found
      | .through place rest =>
        ∃ led, settled.lookup place = some led ∧ Value.follow led rest = .ok found
      | .blocked _ => False := by
  cases hkeys : path.any String.isEmpty with
  | true => rw [accounts_iff_of_hollow hkeys, Task.demand_of_hollow hkeys]
  | false => rw [accounts_iff_of_keys hkeys, Task.demand_of_object hroot hkeys]

theorem compute_accounts {path : Path} {found : Option Value}
    (hroot : task.root = .object members)
    (h : (compute task (lookupWithin task depth) path).runIn s = some (.ok found, t)) :
    Accounts task.lenient members t.settled path found := by
  have hstep := compute_ok h
  rw [accounts_iff task hroot]
  cases hd : task.demand path with
  | absent =>
      rw [hd] at hstep
      exact hstep.1
  | node v =>
      rw [hd] at hstep
      exact (resolveNode_amounts v (some path) hstep (.refl t.settled)).accounts
  | redirect target =>
      rw [hd] at hstep
      exact lookupWithin_settles task hstep
  | blocked b =>
      rw [hd] at hstep
      exact hstep
  | through place rest =>
      rw [hd] at hstep
      obtain ⟨led, hled, hbeyond⟩ := hstep
      obtain ⟨_, -, hkeys, hd⟩ := Task.demand_cases hd (by simp)
      obtain ⟨-, -, rfl, -⟩ := Value.demand_through_cases hd
      rw [List.any_append, Bool.or_eq_false_iff] at hkeys
      exact ⟨led, lookupWithin_settles task hled, (beyond_eq_ok_iff hkeys.2).mp hbeyond⟩

theorem Reaches.accounted (hroot : task.root = .object members) (h : Reaches task s t)
    (hs : Accounted task.lenient members s.settled) :
    Accounted task.lenient members t.settled :=
  h.keeps (fun hpath hfresh hrun holder ↦
    ⟨hpath, hfresh, compute_accounts hroot hrun, holder⟩) hs

end Runs

end Resolver

end LayeredConfig
