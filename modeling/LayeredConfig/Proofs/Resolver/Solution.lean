import LayeredConfig.Proofs.Resolver.Account
import Mathlib.Data.List.Induction
import Mathlib.Data.Nat.Find

/-!
# The resolved document as a solution

After a strict resolving of the whole document, a path that is looked up in
the session leads where it leads in the resolved document.  Both are compared
with what the settled paths say of it: a chain of redirects, to a path that is
settled or that the document alone answers.
-/

namespace LayeredConfig.Resolver

/-- Where a path leads by the document and the settled paths, after so many
redirects. -/
inductive Leads (members : Members Text Value) (settled : List (Path × Option Value)) :
    Path → Nat → Except Kind (Option Value) → Prop
  | settled {path : Path} {found : Option Value} (h : settled.lookup path = some found) :
      Leads members settled path 0 (.ok found)
  | void {path : Path} (hempty : path.any String.isEmpty = true) :
      Leads members settled path 0 (.ok none)
  | absent {path : Path} (hempty : path.any String.isEmpty = false)
      (hd : Value.demand members path = .absent) : Leads members settled path 0 (.ok none)
  | blocked {path : Path} {b : Blocked} (hempty : path.any String.isEmpty = false)
      (hd : Value.demand members path = .blocked b) : Leads members settled path 0 (.error b.kind)
  | through {path place rest : Path} {led : Option Value}
      (hempty : path.any String.isEmpty = false)
      (hd : Value.demand members path = .through place rest)
      (hled : settled.lookup place = some led) :
      Leads members settled path 0 (Value.follow led rest)
  | redirect {path target : Path} {hops : Nat} {led : Except Kind (Option Value)}
      (hempty : path.any String.isEmpty = false)
      (hd : Value.demand members path = .redirect target)
      (h : Leads members settled target hops led) : Leads members settled path (hops + 1) led

variable {members : Members Text Value} {settled older : List (Path × Option Value)}

/-! ## Reading the settled paths -/

theorem AccountsNode.mono {lenient : Bool} (hcarries : Carries older settled) {place : Path}
    {v : Value} {found : Option Value} (h : AccountsNode lenient older place v found) :
    AccountsNode lenient settled place v found := by
  cases v
  case object inner =>
    obtain ⟨out, hfound, hkeeps⟩ := h
    exact ⟨out, hfound, hkeeps.mono hcarries⟩
  case substitution r =>
    obtain ⟨led, hled, hfound⟩ := h
    exact ⟨led, hcarries _ _ hled, hfound⟩
  all_goals exact h

theorem Accounts.mono {lenient : Bool} (hcarries : Carries older settled) {path : Path}
    {found : Option Value} (h : Accounts lenient members older path found) :
    Accounts lenient members settled path found := by
  unfold Accounts at h ⊢
  split at h
  · rwa [if_pos ‹_›]
  · rw [if_neg ‹_›]
    cases hd : Value.demand members path with
    | node v =>
        simp only [hd] at h
        exact h.mono hcarries
    | redirect target =>
        simp only [hd] at h
        exact hcarries _ _ h
    | through place rest =>
        simp only [hd] at h
        obtain ⟨led, hled, hfollow⟩ := h
        exact ⟨led, hcarries _ _ hled, hfollow⟩
    | absent =>
        simp only [hd] at h
        exact h
    | blocked b => simp [hd] at h

/-- What holds of an entry if it holds of the entries before it, on which the entry
rests, holds of all. -/
theorem Accounted.forall_entries {lenient : Bool} {P : Path → Option Value → Prop}
    (h : Accounted lenient members older) (hcarries : Carries older settled)
    (hstep : ∀ path found earlier, path.Written → Carries earlier settled →
      settled.lookup path = some found → Accounts lenient members earlier path found →
        (∀ q led, earlier.lookup q = some led → P q led) → P path found) :
    ∀ path found, older.lookup path = some found → P path found := by
  induction older with
  | nil => simp
  | cons entry older ih =>
      obtain ⟨q, led⟩ := entry
      obtain ⟨hq, hfresh, haccounts, holder⟩ := h
      have hcarries' : Carries older settled := (carries_cons hfresh led).trans hcarries
      have hbefore := ih holder hcarries'
      intro path found hpath
      by_cases heq : path = q
      · subst heq
        obtain rfl : led = found := by simpa using hpath
        exact hstep path led older hq hcarries' (hcarries _ _ hpath) haccounts hbefore
      · rw [List.lookup_cons, beq_false_of_ne heq] at hpath
        exact hbefore path found hpath

/-- A settled path is accounted for by the settled paths as a whole. -/
theorem Accounted.accounts {lenient : Bool} (h : Accounted lenient members settled) {path : Path}
    {found : Option Value} (hpath : settled.lookup path = some found) :
    path.Written ∧ Accounts lenient members settled path found :=
  h.forall_entries (P := fun path found ↦
    path.Written ∧ Accounts lenient members settled path found) (.refl settled)
    (fun _ _ _ hwritten hcarries _ haccounts _ ↦ ⟨hwritten, haccounts.mono hcarries⟩)
    path found hpath

/-- What a settled path has come to is where it leads. -/
theorem Leads.settled_eq {lenient : Bool} (haccounted : Accounted lenient members settled)
    {path : Path} {hops : Nat} {led : Except Kind (Option Value)}
    (h : Leads members settled path hops led) {found : Option Value}
    (hpath : settled.lookup path = some found) : led = .ok found := by
  induction h generalizing found with
  | settled h => rw [Option.some.inj (h.symm.trans hpath)]
  | void hempty =>
      have haccounts := (haccounted.accounts hpath).2
      rw [(accounts_iff_of_hollow hempty).mp haccounts]
  | absent hempty hd =>
      have haccounts := (haccounted.accounts hpath).2
      rw [accounts_iff_of_keys hempty, hd] at haccounts
      rw [haccounts]
  | blocked hempty hd =>
      have haccounts := (haccounted.accounts hpath).2
      rw [accounts_iff_of_keys hempty, hd] at haccounts
      exact haccounts.elim
  | through hempty hd hled =>
      have haccounts := (haccounted.accounts hpath).2
      rw [accounts_iff_of_keys hempty, hd] at haccounts
      obtain ⟨led, hplace, hfollow⟩ := haccounts
      rw [Option.some.inj (hled.symm.trans hplace), hfollow]
  | redirect hempty hd _ ih =>
      have haccounts := (haccounted.accounts hpath).2
      rw [accounts_iff_of_keys hempty, hd] at haccounts
      exact ih haccounts

/-! ## Paths behind settled paths -/

/-- The paths behind the older ones lead on from what was settled. -/
def LeadsOn (members : Members Text Value) (older settled : List (Path × Option Value)) : Prop :=
  ∀ path rest found, older.lookup path = some found → rest.Written →
    rest.any String.isEmpty = false →
      ∃ hops, Leads members settled (path ++ rest) hops (Value.follow found rest)

section Behind

variable {path rest : Path} {found : Option Value}

/-- Behind an object, a path goes on at the member that was settled for it. -/
theorem leads_member {inner out : Members Text Value} {place : Path}
    (hkeeps : KeepsMembers older place inner out) (hcarries : Carries older settled)
    (holder : LeadsOn members older settled) (hrest : rest.Written)
    (hkeys : rest.any String.isEmpty = false)
    (hmissing : ∀ key after, rest = key :: after → inner.get? key = none →
      Leads members settled (place ++ rest) 0 (.ok none)) :
    ∃ hops, Leads members settled (place ++ rest) hops
      (Value.follow (some (.object out)) rest) := by
  obtain ⟨key, after, rfl⟩ := List.exists_cons_of_ne_nil hrest.1
  have hmember := hkeeps key (hrest.isPlainKey hkeys List.mem_cons_self)
  cases hget : inner.get? key with
  | none =>
      rw [hget] at hmember
      refine ⟨0, ?_⟩
      rw [Value.follow, Value.walk_cons_none hmember]
      exact hmissing key after rfl hget
  | some child =>
      rw [hget] at hmember
      by_cases hafter : after = []
      · subst hafter
        refine ⟨0, ?_⟩
        rw [Value.follow, Value.walk_singleton]
        exact .settled (hcarries _ _ hmember)
      · have hkeys' : after.any String.isEmpty = false := by
          rw [List.any_cons, Bool.or_eq_false_iff] at hkeys
          exact hkeys.2
        obtain ⟨hops, hleads⟩ :=
          holder _ after _ hmember (hrest.of_append_right (p := [key]) hafter) hkeys'
        rw [List.append_assoc, List.singleton_append] at hleads
        exact ⟨hops, by rwa [Value.follow_cons _ _ hafter]⟩

theorem AccountsNode.leads_append {v : Value} (h : AccountsNode false older path v found)
    (hd : Value.demand members path = .node v) (hcarries : Carries older settled)
    (hsettled : settled.lookup path = some found) (holder : LeadsOn members older settled)
    (hpath : path ≠ []) (hrest : rest.Written) (hkeys : rest.any String.isEmpty = false)
    (hempty : (path ++ rest).any String.isEmpty = false) :
    ∃ hops, Leads members settled (path ++ rest) hops (Value.follow found rest) := by
  have hdemand := Value.demand_append members hpath hrest.1
  rw [hd] at hdemand
  cases v
  case object inner =>
    obtain ⟨out, rfl, hkeeps⟩ := h
    refine leads_member hkeeps hcarries holder hrest hkeys fun key after hcons hmissing ↦ ?_
    subst hcons
    exact .absent hempty (Value.demand_append_missing hpath hd hmissing after)
  case substitution r =>
    obtain ⟨led, hled, rfl | ⟨hlenient, _⟩⟩ := h
    · obtain ⟨hops, hleads⟩ := holder _ _ _ hled hrest hkeys
      exact ⟨hops + 1, .redirect hempty hdemand hleads⟩
    · cases hlenient
  case concatenation fragments => exact ⟨0, .through hempty hdemand hsettled⟩
  case alternative default override => exact ⟨0, .through hempty hdemand hsettled⟩
  case array elements =>
    obtain ⟨out, rfl⟩ := h
    exact ⟨0, .blocked hempty hdemand⟩
  all_goals
    cases h
    exact ⟨0, .blocked hempty hdemand⟩

theorem Accounts.leads_append (h : Accounts false members older path found)
    (hcarries : Carries older settled) (hsettled : settled.lookup path = some found)
    (holder : LeadsOn members older settled) (hpath : path ≠ []) (hrest : rest.Written)
    (hkeys : rest.any String.isEmpty = false) :
    ∃ hops, Leads members settled (path ++ rest) hops (Value.follow found rest) := by
  cases hempty : path.any String.isEmpty with
  | true =>
      obtain rfl := (accounts_iff_of_hollow hempty).mp h
      exact ⟨0, .void (by rw [List.any_append, hempty, Bool.true_or])⟩
  | false =>
      rw [accounts_iff_of_keys hempty] at h
      have hempty' : (path ++ rest).any String.isEmpty = false := by
        rw [List.any_append, hkeys, hempty, Bool.or_false]
      have hdemand := Value.demand_append members hpath hrest.1
      cases hd : Value.demand members path with
      | absent =>
          rw [hd] at h hdemand
          subst h
          exact ⟨0, .absent hempty' hdemand⟩
      | node v =>
          rw [hd] at h
          exact h.leads_append hd hcarries hsettled holder hpath hrest hkeys hempty'
      | redirect target =>
          rw [hd] at h hdemand
          obtain ⟨hops, hleads⟩ := holder _ _ _ h hrest hkeys
          exact ⟨hops + 1, .redirect hempty' hdemand hleads⟩
      | through place before =>
          rw [hd] at h hdemand
          obtain ⟨led, hled, hfollow⟩ := h
          obtain ⟨-, hbefore, -⟩ := Value.demand_through_cases hd
          rw [← Value.follow_append hbefore hrest.1 hfollow]
          exact ⟨0, .through hempty' hdemand (hcarries _ _ hled)⟩
      | blocked b =>
          rw [hd] at h
          exact h.elim

/-- A path behind a settled one leads where it leads in what was settled. -/
theorem Accounted.leadsOn (h : Accounted false members older) (hcarries : Carries older settled) :
    LeadsOn members older settled := by
  have hentries := h.forall_entries (P := fun path found ↦ ∀ rest : Path, rest.Written →
    rest.any String.isEmpty = false →
      ∃ hops, Leads members settled (path ++ rest) hops (Value.follow found rest)) hcarries
    fun path found earlier hpath hcarries hsettled haccounts hbefore rest hrest hkeys ↦
      haccounts.leads_append hcarries hsettled (fun q rest led hled ↦ hbefore q led hled rest)
        hpath.1 hrest hkeys
  exact fun path rest found hpath ↦ hentries path found hpath rest

end Behind

/-! ## Looking paths up -/

/-- The outcome of a lookup tells where the path leads; a value that is no
object and blocks the way is told by its kind. -/
inductive Reads : Except Kind (Option Value) → Except Fault (Option Value) → Prop
  | found (found : Option Value) : Reads (.ok found) (.ok found)
  | blocked (t : Traversal) : Reads (.error t.kind) (.error (.traversal t))

section Runs

variable {task : Task} {s t : Session} {path : Path}

theorem lookupWithin_of_settled {depth : Nat} {found : Option Value} (hdepth : 0 < depth)
    (h : s.settled? path = some found) :
    (lookupWithin task depth path).runIn s = some (.ok found, s) := by
  obtain ⟨depth, rfl⟩ := Nat.exists_eq_add_of_lt hdepth
  rw [Nat.zero_add]
  exact visit_of_settled h _

/-- Behind a settled place, the rest of the path is read off what was settled. -/
theorem reads_beyond {place rest : Path} (hkeys : rest.any String.isEmpty = false)
    (led : Option Value) : Reads (Value.follow led rest) (beyond path place rest led) := by
  rcases led with _ | v
  · exact .found none
  · cases hv : v.isObject with
    | false =>
        rw [Value.follow_other hv, beyond_other hv]
        exact .blocked ⟨Path.text path, Path.text place, v.kind⟩
    | true =>
        obtain ⟨inner, rfl⟩ := Value.exists_object hv
        rw [Value.follow, beyond, Value.find_eq_of_walk hkeys]
        cases Value.walk inner rest with
        | ok found => exact .found found
        | error b => exact .blocked ⟨Path.text rest, Path.text b.place, b.kind⟩

/-- The work of a visit ends where the path leads, if the lookup that it is
redirected to does. -/
theorem compute_of_leads (hroot : task.root = .object members) {hops depth : Nat}
    {led : Except Kind (Option Value)} (h : Leads members s.settled path hops led)
    (hfresh : s.settled? path = none) (hdepth : 0 < depth)
    (hnext : ∀ target n, hops = n + 1 → path.any String.isEmpty = false →
      Value.demand members path = .redirect target → Leads members s.settled target n led →
        ∃ r t, (lookupWithin task depth target).runIn s = some (r, t) ∧ Reads led r) :
    ∃ r t, (compute task (lookupWithin task depth) path).runIn s = some (r, t) ∧ Reads led r := by
  rw [compute_eq]
  cases h with
  | settled h => simp [Session.settled?, h] at hfresh
  | void hempty =>
      rw [Task.demand_of_hollow hempty]
      exact ⟨_, _, rfl, .found none⟩
  | absent hempty hd =>
      rw [Task.demand_of_object hroot hempty, hd]
      exact ⟨_, _, rfl, .found none⟩
  | @blocked _ b hempty hd =>
      rw [Task.demand_of_object hroot hempty, hd]
      exact ⟨_, _, rfl, .blocked ⟨Path.text path, Path.text b.place, b.kind⟩⟩
  | @through _ place rest found hempty hd hled =>
      rw [Task.demand_of_object hroot hempty, hd]
      obtain ⟨-, -, rfl, -⟩ := Value.demand_through_cases hd
      rw [List.any_append, Bool.or_eq_false_iff] at hempty
      have hplace : (lookupWithin task depth place).runIn s = some (.ok found, s) :=
        lookupWithin_of_settled hdepth hled
      refine ⟨beyond (place ++ rest) place rest found, s, ?_, reads_beyond hempty.2 found⟩
      rw [← runIn_ofExcept]
      exact Action.runIn_bind_ok hplace
  | redirect hempty hd h =>
      rw [Task.demand_of_object hroot hempty, hd]
      exact hnext _ _ rfl hempty hd h

/-- A lookup ends where the path leads.  A chain of redirects that is as short
as it can be closes no cycle. -/
theorem lookupWithin_of_leads {lenient : Bool} (hroot : task.root = .object members)
    (haccounted : Accounted lenient members settled) {hops depth : Nat}
    {led : Except Kind (Option Value)} (h : Leads members settled path hops led)
    (hs : s.settled = settled)
    (hshortest : ∀ n, Leads members settled path n led → hops ≤ n)
    (hpending : ∀ q ∈ s.pending, ∀ n, Leads members settled q n led → hops < n)
    (hdepth : hops + 1 < depth) :
    ∃ r t, (lookupWithin task depth path).runIn s = some (r, t) ∧ Reads led r := by
  induction depth generalizing path s hops with
  | zero => omega
  | succ depth ih =>
      subst hs
      cases hsettled : s.settled? path with
      | some found =>
          rw [h.settled_eq haccounted hsettled]
          exact ⟨_, _, visit_of_settled hsettled _, .found found⟩
      | none =>
          -- Pending paths lead on after more hops, so this one is not among them.
          have hnotin : path ∉ s.pending :=
            fun hmem ↦ Nat.lt_irrefl _ (hpending path hmem hops h)
          have hnext : ∀ target n, hops = n + 1 → path.any String.isEmpty = false →
              Value.demand members path = .redirect target →
                Leads members s.settled target n led →
                  ∃ r t, (lookupWithin task depth target).runIn (s.enter path) = some (r, t) ∧
                    Reads led r := by
            rintro target n rfl hempty hd htarget
            refine ih htarget rfl ?_ ?_ (by omega)
            · intro m hm
              have hhops := hshortest _ (.redirect hempty hd hm)
              omega
            · intro q hq m hm
              rcases List.mem_cons.mp hq with rfl | hq
              · exact hshortest m hm
              · exact Nat.lt_of_succ_lt (hpending q hq m hm)
          have hpositive : 0 < depth := by omega
          obtain ⟨r, t, hrun, hreads⟩ :=
            compute_of_leads (s := s.enter path) hroot h hsettled hpositive hnext
          exact ⟨r, _, visit_of_fresh hsettled hnotin hrun, hreads⟩

end Runs

/-! ## The whole document -/

section Document

variable {out : Members Text Value} {path : Path}

/-- Every path leads where the resolved document has it. -/
theorem leads_find (haccounted : Accounted false members settled)
    (hkeeps : KeepsMembers settled [] members out) (hpath : path.Written) :
    ∃ hops, Leads members settled path hops ((Value.find out path).mapError Traversal.kind) := by
  by_cases hempty : path.any String.isEmpty = true
  · refine ⟨0, ?_⟩
    rw [Value.find, if_pos hempty]
    exact .void hempty
  · have hfind : (Value.find out path).mapError Traversal.kind =
        Value.follow (some (.object out)) path := by
      rw [Value.find, if_neg hempty, Value.follow]
      cases Value.walk out path <;> rfl
    have hkeys : path.any String.isEmpty = false := Bool.not_eq_true _ ▸ hempty
    rw [hfind, ← List.nil_append path]
    refine leads_member hkeeps (.refl settled) (haccounted.leadsOn (.refl settled)) hpath hkeys ?_
    rintro key after rfl hmissing
    refine .absent hkeys ?_
    cases after <;> simp [Value.demand, hmissing]

theorem find_of_settled (haccounted : Accounted false members settled)
    (hkeeps : KeepsMembers settled [] members out) {found : Option Value}
    (h : settled.lookup path = some found) : Value.find out path = .ok found := by
  obtain ⟨hops, hleads⟩ := leads_find haccounted hkeeps (haccounted.accounts h).1
  exact Value.mapError_eq_ok_iff.mp (hleads.settled_eq haccounted h)

/-- Every value that stands in the document has been visited. -/
theorem accountsNode_of_walk (haccounted : Accounted false members settled)
    (hkeeps : KeepsMembers settled [] members out)
    (hplain : ∀ key ∈ path, Path.isPlainKey key = true) {v : Value}
    (h : Value.walk members path = .ok (some v)) :
    ∃ found, settled.lookup path = some found ∧ AccountsNode false settled path v found := by
  -- From the end of the path: the object before the last key has kept its members.
  induction path using List.reverseRecOn generalizing v with
  | nil => simp [Value.walk] at h
  | append_singleton place key ih =>
      obtain ⟨inner, kept, hkept, hget⟩ : ∃ inner kept,
          KeepsMembers settled place inner kept ∧ inner.get? key = some v := by
        by_cases hplace : place = []
        · subst hplace
          exact ⟨members, out, hkeeps, by simpa [Value.walk] using h⟩
        · obtain ⟨inner, hwalk, hget⟩ := Value.walk_append_singleton hplace h
          obtain ⟨_, _, kept, _, hkept⟩ :=
            ih (fun key hkey ↦ hplain key (List.mem_append_left _ hkey)) hwalk
          exact ⟨inner, kept, hkept, hget⟩
      have hmember := hkept key (hplain key (by simp))
      rw [hget] at hmember
      have haccounts := (haccounted.accounts hmember).2
      have hempty : (place ++ [key]).any String.isEmpty = false := by
        rw [List.any_eq_false]
        intro k hk
        simp [Path.isEmpty_of_isPlainKey (hplain k hk)]
      rw [accounts_iff_of_keys hempty, Value.demand_eq_node_iff.mpr h] at haccounts
      exact ⟨_, hmember, haccounts⟩

end Document

variable {depth : Nat} {s s' t : Session} {found : Value}

/-- A document that was resolved, as the settled paths have it. -/
theorem resolveDocument_accounts
    (hs : Reaches ⟨.object members, false⟩ .empty s)
    (hrun : (resolveDocument ⟨.object members, false⟩ depth).runIn s = some (.ok found, s'))
    (ht : Reaches ⟨.object members, false⟩ s' t) :
    t.pending = [] ∧ Accounted false members t.settled ∧
      ∃ out, found = .object out ∧ KeepsMembers t.settled [] members out := by
  have hs' : Reaches ⟨.object members, false⟩ .empty s' := .document hs hrun
  have hpending : t.pending = [] := ht.extends.pending.trans hs'.extends.pending
  have haccounted : Accounted false members t.settled :=
    ht.accounted rfl (hs'.accounted rfl trivial)
  obtain ⟨q, rfl, hamounts⟩ := resolveDocument_amounts hrun
  obtain ⟨out, rfl, hkeeps⟩ := hamounts.accounts
  exact ⟨hpending, haccounted, out, rfl, hkeeps.mono ht.extends.carries⟩

/-- Once a document is resolved, a path is found in the result as the session
looks it up, whatever was looked up before or since; and a reference that
stands in the document comes to what its target comes to. -/
theorem resolveDocument_solves
    (hs : Reaches ⟨.object members, false⟩ .empty s)
    (hrun : (resolveDocument ⟨.object members, false⟩ depth).runIn s = some (.ok found, s'))
    (ht : Reaches ⟨.object members, false⟩ s' t) :
    ∃ out, found = .object out ∧
      (∀ path, ∃ enough, ∀ depth ≥ enough, ∃ r u,
        (resolvePath ⟨.object members, false⟩ depth path).runIn t = some (r, u) ∧
          Reads ((Value.find out (Path.ofText path)).mapError Traversal.kind) r) ∧
      ∀ path r, Value.find members (Path.ofText path) = .ok (some (.substitution r)) →
        ∃ led, Value.find out (Path.ofText path) = .ok led ∧
          Value.find out (Path.ofText r.path) = .ok led := by
  obtain ⟨hpending, haccounted, out, rfl, hkeeps⟩ := resolveDocument_accounts hs hrun ht
  refine ⟨out, rfl, ?_, ?_⟩
  · intro path
    have hleads := leads_find haccounted hkeeps (Path.ofText_written path)
    classical
    refine ⟨Nat.find hleads + 2, fun depth hdepth ↦ ?_⟩
    exact lookupWithin_of_leads rfl haccounted (Nat.find_spec hleads) rfl
      (fun n hn ↦ Nat.find_min' hleads hn) (by simp [hpending]) hdepth
  · intro path r hfind
    obtain ⟨hkeys, hwalk⟩ := Value.find_eq_some_iff.mp hfind
    obtain ⟨led, hled, led', hled', rfl | ⟨hlenient, _⟩⟩ :=
      accountsNode_of_walk haccounted hkeeps
        (fun key hkey ↦ (Path.ofText_written path).isPlainKey hkeys hkey) hwalk
    · exact ⟨led, find_of_settled haccounted hkeeps hled, find_of_settled haccounted hkeeps hled'⟩
    · cases hlenient

/-- A member that refers to another one behind it. -/
def forward : Members Text Value :=
  [(⟨"a", false⟩, .substitution ⟨"b.c", false⟩), (⟨"b", false⟩, .object [(⟨"c", false⟩, .int 1)])]

theorem resolveDocument_solves_forward :
    ∃ found s, (resolveDocument ⟨.object forward, false⟩ 4).runIn .empty = some (.ok found, s) ∧
      ∃ out, found = .object out ∧
        (∀ path, ∃ enough, ∀ depth ≥ enough, ∃ r u,
          (resolvePath ⟨.object forward, false⟩ depth path).runIn s = some (r, u) ∧
            Reads ((Value.find out (Path.ofText path)).mapError Traversal.kind) r) ∧
        ∃ led, Value.find out ["a"] = .ok led ∧ Value.find out ["b", "c"] = .ok led := by
  obtain ⟨found, s, hrun⟩ : ∃ found s,
      (resolveDocument ⟨.object forward, false⟩ 4).runIn .empty = some (.ok found, s) :=
    ⟨_, _, rfl⟩
  obtain ⟨out, hout, hpaths, hreferences⟩ := resolveDocument_solves .refl hrun .refl
  exact ⟨found, s, hrun, out, hout, hpaths, hreferences "a" ⟨"b.c", false⟩ rfl⟩

end LayeredConfig.Resolver
