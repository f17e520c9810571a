import LayeredConfig.Proofs.Resolver.Account
import LayeredConfig.Proofs.Resolver.Rules

/-!
# Members that nothing refers to

A member of a document that no other member refers to has no influence on
them.  A path that starts at another key is followed without a look at it, and
so is every path that this one asks for, so plain recursion comes to the same
in two documents that agree apart from that member.
-/

namespace LayeredConfig

namespace Members

variable {α : Type} {members : Members Text α} {name key : String}

/-- The members under other keys. -/
def without (members : Members Text α) (name : String) : Members Text α :=
  members.filter fun entry ↦ entry.1.content ≠ name

theorem without_cons_self {k : Text} (h : k.content = name) (v : α) (rest : Members Text α) :
    without ((k, v) :: rest) name = without rest name := by
  simp [without, h]

theorem without_cons_ne {k : Text} (h : k.content ≠ name) (v : α) (rest : Members Text α) :
    without ((k, v) :: rest) name = (k, v) :: without rest name := by
  simp [without, h]

theorem get?_without (hkey : key ≠ name) : (members.without name).get? key = members.get? key := by
  induction members with
  | nil => rfl
  | cons entry rest ih =>
      obtain ⟨k, v⟩ := entry
      by_cases hk : k.content = name
      · have hne : k.content ≠ key := fun h ↦ hkey (h.symm.trans hk)
        rw [without_cons_self hk, get?_cons_ne hne, ih]
      · rw [without_cons_ne hk]
        by_cases heq : k.content = key
        · rw [← heq, get?_cons_self, get?_cons_self]
        · rw [get?_cons_ne heq, get?_cons_ne heq, ih]

theorem get?_without_self (members : Members Text α) (name : String) :
    (members.without name).get? name = none := by
  induction members with
  | nil => rfl
  | cons entry rest ih =>
      obtain ⟨k, v⟩ := entry
      by_cases hk : k.content = name
      · rw [without_cons_self hk, ih]
      · rw [without_cons_ne hk, get?_cons_ne hk, ih]

end Members

namespace Resolver

variable {members : Members Text Value} {name : String} {lenient : Bool}

/-- No reference under another key starts at the key. -/
def Unreferenced (members : Members Text Value) (name : String) : Prop :=
  ∀ r ∈ Value.memberReferences (members.without name), (Path.ofText r.path).head? ≠ some name

/-- A reference that stands where the path starts at another key starts at
another key. -/
theorem Unreferenced.of_walk (h : Unreferenced members name) {path : Path}
    (hpath : path.head? ≠ some name) {v : Value} (hv : Value.walk members path = .ok (some v))
    {r : Reference} (hr : r ∈ v.references) : (Path.ofText r.path).head? ≠ some name := by
  apply h
  cases path with
  | nil => simp [Value.walk] at hv
  | cons key rest =>
      have hkey : key ≠ name := by simpa using hpath
      rw [← Value.walk_congr (Members.get?_without hkey)] at hv
      exact Value.mem_memberReferences_of_walk hv hr

theorem head?_append_ne {place rest : Path} (hplace : place ≠ [])
    (h : place.head? ≠ some name) : (place ++ rest).head? ≠ some name := by
  cases place with
  | nil => exact absurd rfl hplace
  | cons key before => simpa using h

/-- From a path that starts at another key, only such paths are asked for. -/
theorem Unreferenced.asks (h : Unreferenced members name) {path : Path}
    (hpath : path.head? ≠ some name) :
    ∀ p ∈ Task.asks ⟨.object members, lenient⟩ path, p.head? ≠ some name := by
  intro p hp
  obtain ⟨_, ⟨rfl⟩, -, ⟨v, hd, hv⟩ | hd | ⟨rest, hd⟩⟩ := Task.mem_asks_cases hp
  · rcases Value.asks_cases v (some path) p hv with ⟨r, hr, rfl⟩ |
      ⟨_, place, key, _, _, hplace, rfl, _⟩
    · exact h.of_walk hpath (Value.demand_eq_node_iff.mp hd) hr
    · cases hplace
      refine head?_append_ne ?_ hpath
      rintro rfl
      simp [Value.demand] at hd
  · obtain ⟨before, r, rest, hbefore, -, rfl, hwalk, rfl⟩ := Value.demand_redirect_cases hd
    have hhead : before.head? ≠ some name := by
      cases before with
      | nil => exact absurd rfl hbefore
      | cons key after => simpa using hpath
    refine head?_append_ne (Path.ofText_written r.path).1 ?_
    exact h.of_walk hhead hwalk (by simp [Value.references])
  · obtain ⟨hplace, -, rfl, -⟩ := Value.demand_through_cases hd
    cases p with
    | nil => exact absurd rfl hplace
    | cons key after => simpa using hpath

theorem Unreferenced.memberAsks (h : Unreferenced members name) :
    ∀ p ∈ Value.memberAsks (some []) (members.without name), p.head? ≠ some name := by
  intro p hp
  rcases Value.memberAsks_cases _ _ p hp with ⟨r, hr, rfl⟩ |
    ⟨place, key, w, hplace, rfl, _, hget⟩
  · exact h r hr
  · cases hplace
    intro hhead
    obtain rfl : key = name := by simpa using hhead
    rw [Members.get?_without_self] at hget
    cases hget

section Runs

variable {members' : Members Text Value}

theorem compute_congr {path : Path}
    (hd : Value.demand members path = Value.demand members' path)
    (lookup : Path → Action (Option Value)) :
    compute ⟨.object members, lenient⟩ lookup path =
      compute ⟨.object members', lenient⟩ lookup path := by
  simp only [compute_eq, Task.demand, hd]

/-- Documents that agree apart from one key, to which the others do not refer,
answer the paths from other keys alike. -/
theorem lookupFreely_congr (hsame : members.without name = members'.without name)
    (h : Unreferenced members name) (depth : Nat) (visitor : Option Path) {path : Path}
    (hpath : path.head? ≠ some name) :
    lookupFreely ⟨.object members, lenient⟩ depth visitor path =
      lookupFreely ⟨.object members', lenient⟩ depth visitor path := by
  induction depth generalizing visitor path with
  | zero => rfl
  | succ depth ih =>
      have hdemand : Value.demand members path = Value.demand members' path := by
        cases path with
        | nil => rfl
        | cons key rest =>
            have hkey : key ≠ name := by simpa using hpath
            apply Value.demand_congr
            rw [← Members.get?_without hkey, hsame, Members.get?_without hkey]
      have hconsults : Consults True (fun p ↦ p.head? ≠ some name) fun lookup ↦
          compute ⟨.object members, lenient⟩ lookup path :=
        compute_consults _ path (h.asks hpath) (Or.inr trivial)
      rw [lookupFreely, lookupFreely, ← compute_congr hdemand]
      rw [hconsults.congr fun p hp ↦ ih (some path) hp]

theorem Collected.without {R : Text × Value → Option Value → Prop} {out : Members Text Value}
    (h : Collected (Keyed R) members out) (name : String) :
    Collected (Keyed R) (members.without name) (out.without name) := by
  induction h with
  | nil => exact .nil
  | @cons entry rest _ others hkeyed _ ih =>
      obtain ⟨key, child⟩ := entry
      have hled := hkeyed
      obtain ⟨led, -, rfl⟩ := hled
      by_cases hkey : key.content = name
      · rw [Members.without_cons_self hkey]
        cases led with
        | none => exact ih
        | some v => rwa [Option.map_some, Option.elim_some, Members.without_cons_self hkey]
      · rw [Members.without_cons_ne hkey]
        have hout : Members.without ((led.map (key, ·)).elim others (· :: others)) name =
            (led.map (key, ·)).elim (Members.without others name)
              (· :: Members.without others name) := by
          cases led with
          | none => rfl
          | some v => exact Members.without_cons_ne hkey v others
        rw [hout]
        exact .cons hkeyed ih

/-- The members under other keys come to what they come to by themselves. -/
theorem resolveMembers_without {lookup : Path → Action (Option Value)}
    (hlookup : ∀ p, Steady (lookup p)) (name : String) {out : Members Text Value}
    (h : Comes (resolveMembers lenient lookup (some []) members) (.ok out)) :
    Comes (resolveMembers lenient lookup (some []) (members.without name))
      (.ok (out.without name)) := by
  rw [comes_members_iff hlookup] at h ⊢
  exact h.without name

/-- A document without alternatives that was resolved, by plain recursion. -/
theorem resolveDocument_comes (halt : (Value.object members).lacksAlternatives = true)
    {depth : Nat} {found : Value} {t : Session}
    (hrun : (resolveDocument ⟨.object members, lenient⟩ depth).runIn .empty =
      some (.ok found, t)) :
    ∃ d out, found = .object out ∧ ∀ d' ≥ d,
      Comes (resolveMembers lenient (lookupFreely ⟨.object members, lenient⟩ d' none) (some [])
        members) (.ok out) := by
  obtain ⟨_, d, q, rfl, hq⟩ := resolveRoot_recurs (resolveRoot_straight_of_ok halt hrun)
  have hsteady := lookupFreely_steady ⟨.object members, lenient⟩ d none
  obtain ⟨out, hout, rfl⟩ := (comes_object_iff hsteady).mp hq
  refine ⟨d, out, rfl, fun d' hd' ↦ ?_⟩
  have hmembers := (comes_members_iff hsteady).mpr hout
  exact hmembers.follows ((resolveMembers_consults_any (some []) members).follows
    (fun _ _ _ _ ↦ trivial) fun p _ ↦ lookupFreely_deeper _ hd' none p)

/-- Two documents without alternatives that agree apart from one key, to which
nothing under the other keys refers, are resolved alike apart from that key. -/
theorem resolveDocument_without (hsame : members.without name = members'.without name)
    (hfree : Unreferenced members name)
    (halt : (Value.object members).lacksAlternatives = true)
    (halt' : (Value.object members').lacksAlternatives = true) {depth depth' : Nat}
    {found found' : Value} {t t' : Session}
    (hrun : (resolveDocument ⟨.object members, lenient⟩ depth).runIn .empty =
      some (.ok found, t))
    (hrun' : (resolveDocument ⟨.object members', lenient⟩ depth').runIn .empty =
      some (.ok found', t')) :
    ∃ out out' : Members Text Value, found = .object out ∧ found' = .object out' ∧
      out.without name = out'.without name := by
  obtain ⟨d, out, rfl, hout⟩ := resolveDocument_comes halt hrun
  obtain ⟨d', out', rfl, hout'⟩ := resolveDocument_comes halt' hrun'
  refine ⟨out, out', rfl, rfl, ?_⟩
  have hmembers := resolveMembers_without
    (lookupFreely_steady ⟨.object members, lenient⟩ (max d d') none) name
    (hout (max d d') (Nat.le_max_left d d'))
  have hmembers' := resolveMembers_without
    (lookupFreely_steady ⟨.object members', lenient⟩ (max d d') none) name
    (hout' (max d d') (Nat.le_max_right d d'))
  have hconsults : Consults True (fun p ↦ p.head? ≠ some name) fun lookup ↦
      resolveMembers lenient lookup (some []) (members.without name) :=
    resolveMembers_consults _ _ hfree.memberAsks (Or.inr trivial)
  rw [← hsame, ← hconsults.congr fun p hp ↦
    lookupFreely_congr hsame hfree (max d d') none hp] at hmembers'
  exact Except.ok.inj (hmembers.unique hmembers')

/-- A member `k` that refers to another one, which does not refer to it. -/
def onlooker : Members Text Value :=
  [(⟨"a", false⟩, .substitution ⟨"b", false⟩), (⟨"k", false⟩, .substitution ⟨"a", false⟩),
    (⟨"b", false⟩, .int 1)]

theorem resolveDocument_without_onlooker :
    ∃ found found' t t',
      (resolveDocument ⟨.object onlooker, false⟩ 4).runIn .empty = some (.ok found, t) ∧
      (resolveDocument ⟨.object (onlooker.without "k"), false⟩ 4).runIn .empty =
        some (.ok found', t') ∧
      ∃ out out' : Members Text Value, found = .object out ∧ found' = .object out' ∧
        out.without "k" = out'.without "k" := by
  have hwithout : onlooker.without "k" =
      [(⟨"a", false⟩, .substitution ⟨"b", false⟩), (⟨"b", false⟩, .int 1)] := by
    simp [Members.without, onlooker]
  have hfree : Unreferenced onlooker "k" := by
    intro r hr
    obtain rfl : r = ⟨"b", false⟩ := by
      simpa [hwithout, Value.memberReferences, Value.references] using hr
    decide
  have hsame : onlooker.without "k" = (onlooker.without "k").without "k" := by
    simp [Members.without, onlooker]
  obtain ⟨found, t, hrun⟩ : ∃ found t,
      (resolveDocument ⟨.object onlooker, false⟩ 4).runIn .empty = some (.ok found, t) :=
    ⟨_, _, rfl⟩
  obtain ⟨found', t', hrun'⟩ : ∃ found' t',
      (resolveDocument ⟨.object (onlooker.without "k"), false⟩ 4).runIn .empty =
        some (.ok found', t') := by
    rw [hwithout]
    exact ⟨_, _, rfl⟩
  have halt : (Value.object (onlooker.without "k")).lacksAlternatives = true := by
    rw [hwithout]
    rfl
  exact ⟨found, found', t, t', hrun, hrun',
    resolveDocument_without hsame hfree rfl halt hrun hrun'⟩

end Runs

end Resolver

end LayeredConfig
