import LayeredConfig.Proofs.Resolver.Action
import LayeredConfig.Proofs.Resolver.Collected

/-!
# How a node succeeds

The steps of each function that resolves a part of a node, for the runs that
succeed: what was looked up or resolved before, and how the result is made of
it.  Between the steps only the log changes.
-/

namespace LayeredConfig.Resolver

/-- The later session differs by a line of the log at most. -/
def Session.Logged (s t : Session) : Prop := t = s ∨ ∃ e, t = s.record e

theorem Session.Logged.lift {G : Session → Session → Prop} {s t : Session} (h : s.Logged t)
    (hrefl : ∀ s, G s s) (hrecord : ∀ s e, G s (s.record e)) : G s t := by
  rcases h with rfl | ⟨e, rfl⟩
  · exact hrefl t
  · exact hrecord s e

/-- What a reference comes to if its path leads to `led`. -/
inductive Answers (lenient : Bool) (r : Reference) : Option Value → Option Value → Prop
  | found (v : Value) : Answers lenient r (some v) (some v)
  | absent (h : r.optional = true) : Answers lenient r none none
  | left (h : r.optional = false) (hlenient : lenient = true) :
      Answers lenient r none (some (.substitution r))

/-- What fragments come to that are all there. -/
inductive Joined : List Value → Option Value → Prop
  | nothing : Joined [] none
  | kept {fragments : List Value} (h : fragments.any Value.isReference = true) :
      Joined fragments (some (.concatenation fragments))
  | joined {fragments : List Value} {v : Value} (h : fragments.any Value.isReference = false)
      (hv : Fragments.join fragments = .ok v) : Joined fragments (some v)

/-- What a member comes to: a member that a path can name is looked up, any
other is resolved in place. -/
def resolveMember (lenient : Bool) (lookup : Path → Action (Option Value))
    (place : Option Path) (key : Text) (child : Value) : Action (Option Value) :=
  match place with
  | none => resolveNode lenient lookup child none
  | some path =>
    if Path.isPlainKey key.content then lookup (path ++ [key.content])
    else resolveNode lenient lookup child none

/-- A member that comes to something keeps its key. -/
def resolveEntry (lenient : Bool) (lookup : Path → Action (Option Value))
    (place : Option Path) (entry : Text × Value) : Action (Option (Text × Value)) := do
  return (← resolveMember lenient lookup place entry.1 entry.2).map (entry.1, ·)

/-- What the items come to, in turn, without those that come to nothing. -/
def collect {ι α : Type} (resolve : ι → Action (Option α)) (miss : ι → Action Unit) :
    List ι → Action (List α)
  | [] => return []
  | item :: rest => do
    match ← resolve item with
    | some a => return a :: (← collect resolve miss rest)
    | none =>
      miss item
      collect resolve miss rest

section Equations

variable (lenient : Bool) (lookup : Path → Action (Option Value))

theorem resolveMembers_nil (place : Option Path) :
    resolveMembers lenient lookup place [] = pure [] := by
  unfold resolveMembers
  rfl

theorem resolveMembers_cons (place : Option Path) (key : Text) (child : Value)
    (rest : List (Text × Value)) :
    resolveMembers lenient lookup place ((key, child) :: rest) = (do
      match ← resolveMember lenient lookup place key child with
      | some v => return (key, v) :: (← resolveMembers lenient lookup place rest)
      | none =>
        Action.record (.keyDropped key.shown)
        resolveMembers lenient lookup place rest) := by
  conv =>
    lhs
    unfold resolveMembers
  unfold resolveMember
  cases place with
  | none => rfl
  | some path => by_cases hkey : Path.isPlainKey key.content = true <;> simp only [hkey] <;> rfl

theorem resolveMember_plain {key : Text} (hkey : Path.isPlainKey key.content = true)
    (path : Path) (child : Value) :
    resolveMember lenient lookup (some path) key child = lookup (path ++ [key.content]) := by
  simp [resolveMember, hkey]

theorem resolveMember_inPlace {place : Option Path} {key : Text}
    (h : place = none ∨ Path.isPlainKey key.content = false) (child : Value) :
    resolveMember lenient lookup place key child = resolveNode lenient lookup child none := by
  rcases h with rfl | hkey
  · rfl
  · cases place <;> simp [resolveMember, hkey]

/-- A path can name a member, or it cannot. -/
theorem named_or_inPlace (place : Option Path) (key : String) :
    (∃ path, place = some path ∧ Path.isPlainKey key = true) ∨
      place = none ∨ Path.isPlainKey key = false := by
  cases place with
  | none => exact .inr (.inl rfl)
  | some path =>
      cases hkey : Path.isPlainKey key with
      | true => exact .inl ⟨path, rfl, rfl⟩
      | false => exact .inr (.inr rfl)

/-! Members, elements and fragments are collected alike.  They differ in what is resolved
for an item, and in what is told of one that is missed out. -/

theorem resolveMembers_eq (place : Option Path) (members : List (Text × Value)) :
    resolveMembers lenient lookup place members =
      collect (resolveEntry lenient lookup place)
        (fun entry ↦ Action.record (.keyDropped entry.1.shown)) members := by
  induction members with
  | nil => rw [resolveMembers_nil, collect]
  | cons entry rest ih =>
      obtain ⟨key, child⟩ := entry
      rw [resolveMembers_cons, collect, resolveEntry, bind_assoc, ih]
      congr 1
      funext found
      cases found <;> simp

theorem resolveElements_eq (elements : List Value) :
    resolveElements lenient lookup elements =
      collect (resolveNode lenient lookup · none) (fun _ ↦ Action.record .elementDropped)
        elements := by
  induction elements with
  | nil => rw [resolveElements, collect]
  | cons element rest ih =>
      rw [resolveElements, collect, ih]
      congr 1
      funext found
      cases found <;> rfl

theorem resolveFragments_eq (fragments : List Value) :
    resolveFragments lenient lookup fragments =
      collect (resolveNode lenient lookup · none) (fun _ ↦ pure ()) fragments := by
  induction fragments with
  | nil => rw [resolveFragments, collect]
  | cons fragment rest ih =>
      rw [resolveFragments, collect, ih]
      congr 1
      funext found
      cases found <;> simp

end Equations

section Success

variable {lenient : Bool} {lookup : Path → Action (Option Value)} {s t : Session}
  {α β γ : Type}

theorem runIn_bind_ok_cases {x : Action α} {f : α → Action β} {b : β}
    (h : (x >>= f).runIn s = some (.ok b, t)) :
    ∃ a u, x.runIn s = some (.ok a, u) ∧ (f a).runIn u = some (.ok b, t) := by
  rcases Action.runIn_bind_cases h with ⟨_, _, hr⟩ | hok
  · simp at hr
  · exact hok

theorem followReference_ok {r : Reference} {found : Option Value}
    (h : (followReference lenient lookup r).runIn s = some (.ok found, t)) :
    ∃ led u, (lookup (Path.ofText r.path)).runIn s = some (.ok led, u) ∧ u.Logged t ∧
      Answers lenient r led found := by
  unfold followReference at h
  obtain ⟨led, u, hled, hrest⟩ := runIn_bind_ok_cases h
  refine ⟨led, u, hled, ?_⟩
  cases led with
  | some v =>
      dsimp only at hrest
      rw [Action.runIn_bind_ok (Action.runIn_record _ u)] at hrest
      cases hrest
      exact ⟨Or.inr ⟨_, rfl⟩, .found v⟩
  | none =>
      dsimp only at hrest
      by_cases hoptional : r.optional = true
      · rw [if_pos hoptional] at hrest
        cases hrest
        exact ⟨Or.inl rfl, .absent hoptional⟩
      · rw [if_neg hoptional] at hrest
        by_cases hlenient : lenient = true
        · rw [if_pos hlenient, Action.runIn_bind_ok (Action.runIn_record _ u)] at hrest
          cases hrest
          exact ⟨Or.inr ⟨_, rfl⟩, .left (by simpa using hoptional) hlenient⟩
        · rw [if_neg hlenient] at hrest
          cases hrest

/-- What a run collects that does not fail.  It is read off the session at the end,
so `I` is passed back to the sessions before. -/
theorem collected_of_run {ι : Type} {I : Session → Prop} {R : ι → Option α → Prop}
    {resolve : ι → Action (Option α)} {miss : ι → Action Unit} {items : List ι} {out : List α}
    (hresolve : ∀ item ∈ items, ∀ s t found, (resolve item).runIn s = some (.ok found, t) → I t →
      I s ∧ R item found)
    (hmiss : ∀ item s t, (miss item).runIn s = some (.ok (), t) → I t → I s)
    (h : (collect resolve miss items).runIn s = some (.ok out, t)) (ht : I t) :
    I s ∧ Collected R items out := by
  induction items generalizing s out with
  | nil =>
      cases h
      exact ⟨ht, .nil⟩
  | cons item rest ih =>
      rw [List.forall_mem_cons] at hresolve
      rw [collect] at h
      obtain ⟨found, u, hfound, hrest⟩ := runIn_bind_ok_cases h
      cases found with
      | some a =>
          obtain ⟨others, u', hothers, hout⟩ := runIn_bind_ok_cases hrest
          cases hout
          obtain ⟨hu, hcollected⟩ := ih hresolve.2 hothers
          obtain ⟨hs, hitem⟩ := hresolve.1 s u (some a) hfound hu
          exact ⟨hs, .cons hitem hcollected⟩
      | none =>
          obtain ⟨_, u', hmissed, hothers⟩ := runIn_bind_ok_cases hrest
          obtain ⟨hu', hcollected⟩ := ih hresolve.2 hothers
          obtain ⟨hs, hitem⟩ := hresolve.1 s u none hfound (hmiss item u u' hmissed hu')
          exact ⟨hs, .cons hitem hcollected⟩

section Parts

/-! The property `I` of sessions is passed back over the records that are made for what is
missed out. -/

variable {I : Session → Prop} (hrecord : ∀ s e, I (Session.record s e) → I s)

include hrecord

theorem collectedMembers_of_run {place : Option Path} {members out : List (Text × Value)}
    {R : Text × Value → Option Value → Prop}
    (hmember : ∀ entry ∈ members, ∀ s t found,
      (resolveMember lenient lookup place entry.1 entry.2).runIn s = some (.ok found, t) → I t →
        I s ∧ R entry found)
    (h : (resolveMembers lenient lookup place members).runIn s = some (.ok out, t)) (ht : I t) :
    Collected (Keyed R) members out := by
  rw [resolveMembers_eq] at h
  refine (collected_of_run (fun entry hentry s t found hrun ht ↦ ?_) ?_ h ht).2
  · obtain ⟨led, u, hled, hpure⟩ := runIn_bind_ok_cases hrun
    cases hpure
    obtain ⟨hs, hR⟩ := hmember entry hentry s t led hled ht
    exact ⟨hs, led, hR, rfl⟩
  · rintro entry s _ ⟨⟩
    exact hrecord s _

theorem collectedElements_of_run {elements out : List Value} {R : Value → Option Value → Prop}
    (helement : ∀ v ∈ elements, ∀ s t found,
      (resolveNode lenient lookup v none).runIn s = some (.ok found, t) → I t → I s ∧ R v found)
    (h : (resolveElements lenient lookup elements).runIn s = some (.ok out, t)) (ht : I t) :
    Collected R elements out := by
  rw [resolveElements_eq] at h
  refine (collected_of_run helement ?_ h ht).2
  rintro element s _ ⟨⟩
  exact hrecord s _

omit hrecord in
theorem collectedFragments_of_run {fragments out : List Value} {R : Value → Option Value → Prop}
    (hfragment : ∀ v ∈ fragments, ∀ s t found,
      (resolveNode lenient lookup v none).runIn s = some (.ok found, t) → I t → I s ∧ R v found)
    (h : (resolveFragments lenient lookup fragments).runIn s = some (.ok out, t)) (ht : I t) :
    Collected R fragments out := by
  rw [resolveFragments_eq] at h
  refine (collected_of_run hfragment ?_ h ht).2
  rintro fragment s _ ⟨⟩
  exact id

end Parts

theorem joinFragments_ok {fragments : List Value} {found : Option Value}
    (h : (joinFragments fragments).runIn s = some (.ok found, t)) :
    s.Logged t ∧ Joined fragments found := by
  unfold joinFragments at h
  split at h
  · rename_i hempty
    rw [List.isEmpty_iff] at hempty
    subst hempty
    cases h
    exact ⟨Or.inl rfl, .nothing⟩
  · split at h
    · cases h
      exact ⟨Or.inl rfl, .kept ‹_›⟩
    · rename_i hreference
      have hreference := Bool.not_eq_true _ ▸ hreference
      split at h
      · cases h
      · rename_i v hv
        split at h
        · rw [Action.runIn_bind_ok (Action.runIn_record _ s)] at h
          cases h
          exact ⟨Or.inr ⟨_, rfl⟩, .joined hreference hv⟩
        · cases h
          exact ⟨Or.inl rfl, .joined hreference hv⟩

/-- An override that is used is a value that its path leads to. -/
theorem followOverride_ok {r : Reference} {v : Value}
    (h : (followOverride lenient lookup r).runIn s = some (.ok (some v), t)) :
    v.isReference = false ∧
      ∃ u, (lookup (Path.ofText r.path)).runIn s = some (.ok (some v), u) ∧ u.Logged t := by
  unfold followOverride at h
  obtain ⟨result, u, hresult, hrest⟩ := runIn_bind_ok_cases h
  obtain ⟨q, hq, hr⟩ := Action.runIn_outcome_cases hresult
  cases hr
  rcases result with fault | _ | w
  · dsimp only at hrest
    split at hrest
    · rw [Action.runIn_bind_ok (Action.runIn_record _ u)] at hrest
      cases hrest
    · cases hrest
  · cases hrest
  · dsimp only at hrest
    split at hrest
    · cases hrest
    · rename_i hw
      cases hrest
      obtain ⟨led, u', hled, hlogged, hanswers⟩ := followReference_ok hq
      cases hanswers with
      | found => exact ⟨Bool.not_eq_true _ ▸ hw, u', hled, hlogged⟩
      | left => exact absurd rfl hw

end Success

end LayeredConfig.Resolver
