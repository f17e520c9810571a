import LayeredConfig.Proofs.Members
import LayeredConfig.Value.Basic

/-!
# Collected results

Members, elements and fragments are gone through in turn, and what comes to
something is kept.  `Collected` says so for any rule by which the items come to
something; what holds of a result follows by induction on it.
-/

namespace LayeredConfig.Resolver

/-- What the items come to by `R`, in turn, without those that come to nothing. -/
inductive Collected {ι α : Type} (R : ι → Option α → Prop) : List ι → List α → Prop
  | nil : Collected R [] []
  | cons {item : ι} {rest : List ι} {found : Option α} {others : List α} (h : R item found)
      (hrest : Collected R rest others) :
      Collected R (item :: rest) (found.elim others (· :: others))

/-- A member keeps its key with what it comes to by `R`. -/
def Keyed (R : Text × Value → Option Value → Prop) (entry : Text × Value)
    (found : Option (Text × Value)) : Prop :=
  ∃ led, R entry led ∧ found = led.map (entry.1, ·)

namespace Collected

section Items

variable {ι α : Type} {R S : ι → Option α → Prop} {item : ι} {items rest : List ι} {out : List α}

theorem nil_iff : Collected R [] out ↔ out = [] := by
  constructor
  · rintro ⟨⟩
    rfl
  · rintro rfl
    exact .nil

theorem cons_iff :
    Collected R (item :: rest) out ↔ ∃ found others, R item found ∧ Collected R rest others ∧
      out = found.elim others (· :: others) := by
  constructor
  · rintro ⟨⟩
    exact ⟨_, _, ‹_›, ‹_›, rfl⟩
  · rintro ⟨found, others, h, hrest, rfl⟩
    exact .cons h hrest

/-- The rules need to agree only on what is kept. -/
theorem imp (h : Collected R items out)
    (himp : ∀ item ∈ items, ∀ found, (∀ a ∈ found, a ∈ out) → R item found → S item found) :
    Collected S items out := by
  induction h with
  | nil => exact .nil
  | @cons item rest found others h _ ih =>
      rw [List.forall_mem_cons] at himp
      refine .cons (himp.1 found ?_ h) (ih fun item hitem led hled ↦ himp.2 item hitem led ?_)
      · rintro a ⟨⟩
        exact List.mem_cons_self
      · intro a ha
        cases found with
        | none => exact hled a ha
        | some _ => exact List.mem_cons_of_mem _ (hled a ha)

theorem forall_mem {Q : α → Prop} (h : Collected R items out)
    (hitems : ∀ item ∈ items, ∀ a, R item (some a) → Q a) : ∀ a ∈ out, Q a := by
  induction h with
  | nil => simp
  | @cons item rest found others h _ ih =>
      rw [List.forall_mem_cons] at hitems
      cases found with
      | none => exact ih hitems.2
      | some a => exact List.forall_mem_cons.mpr ⟨hitems.1 a h, ih hitems.2⟩

theorem exists_of_mem (h : Collected R items out) (hitem : item ∈ items) :
    ∃ found, R item found ∧ ∀ a ∈ found, a ∈ out := by
  induction h with
  | nil => cases hitem
  | @cons head rest led others h _ ih =>
      rcases List.mem_cons.mp hitem with rfl | hitem
      · refine ⟨led, h, ?_⟩
        rintro a ⟨⟩
        exact List.mem_cons_self
      · obtain ⟨found, hfound, hout⟩ := ih hitem
        refine ⟨found, hfound, fun a ha ↦ ?_⟩
        cases led with
        | none => exact hout a ha
        | some _ => exact List.mem_cons_of_mem _ (hout a ha)

theorem exists_of_forall (h : ∀ item ∈ items, ∃ found, R item found) :
    ∃ out, Collected R items out := by
  induction items with
  | nil => exact ⟨[], .nil⟩
  | cons item rest ih =>
      rw [List.forall_mem_cons] at h
      obtain ⟨⟨found, hfound⟩, hrest⟩ := h
      obtain ⟨others, hothers⟩ := ih hrest
      exact ⟨_, .cons hfound hothers⟩

/-- Items that come to themselves are collected as they are. -/
theorem eq_of_self {R : ι → Option ι → Prop} {out : List ι} (h : Collected R items out)
    (hself : ∀ item ∈ items, ∀ found, R item found → found = some item) : out = items := by
  induction h with
  | nil => rfl
  | cons h _ ih =>
      rw [List.forall_mem_cons] at hself
      rw [hself.1 _ h, ih hself.2]
      rfl

end Items

section Members

variable {R : Text × Value → Option Value → Prop} {members out : Members Text Value}

/-- Members are dropped, and the others keep their keys and their order. -/
theorem keys_sublist (h : Collected (Keyed R) members out) :
    (out.map Prod.fst).Sublist (members.map Prod.fst) := by
  induction h with
  | nil => exact .slnil
  | cons hkeyed _ ih =>
      obtain ⟨led, -, rfl⟩ := hkeyed
      cases led with
      | none => exact ih.cons _
      | some v => exact ih.cons_cons _

theorem get?_eq_none (h : Collected (Keyed R) members out) {name : String}
    (hname : members.get? name = none) : out.get? name = none :=
  Members.get?_eq_none_of_sublist h.keys_sublist hname

/-- A key has what its member comes to. -/
theorem rule_get? (h : Collected (Keyed R) members out) (hnodup : members.keys.Nodup)
    {name : String} {v : Value} (hv : members.get? name = some v) :
    ∃ key : Text, key.content = name ∧ (key, v) ∈ members ∧ R (key, v) (out.get? name) := by
  induction h with
  | nil => cases hv
  | @cons entry rest _ others hkeyed hrest ih =>
      obtain ⟨key, child⟩ := entry
      obtain ⟨led, hled, rfl⟩ := hkeyed
      rw [Members.keys_cons, List.nodup_cons] at hnodup
      by_cases hkey : key.content = name
      · subst hkey
        rw [Members.get?_cons_self] at hv
        cases hv
        refine ⟨key, rfl, List.mem_cons_self, ?_⟩
        have hnone := hrest.get?_eq_none (Members.get?_eq_none_iff.mpr hnodup.1)
        cases led with
        | none => rwa [Option.map_none, Option.elim_none, hnone]
        | some w => rwa [Option.map_some, Option.elim_some, Members.get?_cons_self]
      · rw [Members.get?_cons_ne hkey] at hv
        obtain ⟨k, hk, hmem, hR⟩ := ih hnodup.2 hv
        refine ⟨k, hk, List.mem_cons_of_mem _ hmem, ?_⟩
        cases led with
        | none => exact hR
        | some w => rwa [Option.map_some, Option.elim_some, Members.get?_cons_ne hkey]

end Members

end Collected

end LayeredConfig.Resolver
