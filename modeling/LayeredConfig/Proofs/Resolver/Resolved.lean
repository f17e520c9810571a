import LayeredConfig.Config.Basic
import LayeredConfig.Proofs.Resolved
import LayeredConfig.Proofs.Resolver.History
import Mathlib.Algebra.Ring.Int.Defs

/-!
# Strict resolving

If no reference may stay, then whatever is settled is resolved, and so is all
that is made of it.  The invariant of the session and the property of the
value are carried through an action together.
-/

namespace LayeredConfig.Resolver

/-- Every outcome keeps the invariant of the session, and a value has the
property. -/
def Yields {α : Type} (I : Session → Prop) (P : α → Prop) (x : Action α) : Prop :=
  ∀ s r t, I s → x.runIn s = some (r, t) → I t ∧ ∀ a, r = .ok a → P a

namespace Yields

variable {α β : Type} {I : Session → Prop} {P : α → Prop} {Q : β → Prop}

theorem pure {a : α} (h : P a) : Yields I P (pure a) := by
  intro s r t hs hrun
  cases hrun
  exact ⟨hs, fun b hb ↦ by cases hb; exact h⟩

theorem throw (f : Fault) : Yields I P (throw f) := by
  intro s r t hs hrun
  cases hrun
  exact ⟨hs, fun b hb ↦ by cases hb⟩

theorem bind {x : Action α} {f : α → Action β} (hx : Yields I P x)
    (hf : ∀ a, P a → Yields I Q (f a)) : Yields I Q (x >>= f) := by
  intro s r u hs hrun
  rcases Action.runIn_bind_cases hrun with ⟨e, hxe, rfl⟩ | ⟨a, t, hxa, hfa⟩
  · exact ⟨(hx s _ u hs hxe).1, fun b hb ↦ by cases hb⟩
  · obtain ⟨ht, ha⟩ := hx s _ t hs hxa
    exact hf a (ha a rfl) t r u ht hfa

theorem outcome {x : Action α} (hx : Yields I P x) :
    Yields I (fun r ↦ ∀ a, r = .ok a → P a) (Action.outcome x) := by
  intro s r t hs hrun
  obtain ⟨q, hq, rfl⟩ := Action.runIn_outcome_cases hrun
  obtain ⟨ht, hP⟩ := hx s q t hs hq
  exact ⟨ht, fun r hr ↦ by cases hr; exact hP⟩

end Yields

/-- No settled value holds a reference. -/
def Session.Resolved (s : Session) : Prop :=
  ∀ path v, s.settled? path = some (some v) → v.isResolved = true

/-- Nothing, or a value that holds no reference. -/
def Final (found : Option Value) : Prop := ∀ v, found = some v → v.isResolved = true

theorem Final.none : Final none := fun _ h ↦ by cases h

theorem final_some_iff {v : Value} : Final (some v) ↔ v.isResolved = true :=
  ⟨fun h ↦ h v rfl, fun h w hw ↦ by cases hw; exact h⟩

section Nodes

variable {lookup : Path → Action (Option Value)}

theorem record_yields (e : Event) : Yields Session.Resolved (fun _ ↦ True) (Action.record e) := by
  rintro s r t hs ⟨⟩
  exact ⟨hs, fun _ _ ↦ trivial⟩

theorem followReference_yields (hlookup : ∀ p, Yields Session.Resolved Final (lookup p))
    (r : Reference) : Yields Session.Resolved Final (followReference false lookup r) := by
  unfold followReference
  refine (hlookup _).bind fun found hfound ↦ ?_
  cases found with
  | some v => exact (record_yields _).bind fun _ _ ↦ .pure hfound
  | none =>
      dsimp only
      split
      · exact .pure .none
      · exact .throw _

theorem followOverride_yields (hlookup : ∀ p, Yields Session.Resolved Final (lookup p))
    (r : Reference) : Yields Session.Resolved Final (followOverride false lookup r) := by
  unfold followOverride
  refine (followReference_yields hlookup r).outcome.bind fun result hresult ↦ ?_
  rcases result with fault | _ | v
  · dsimp only
    split
    · exact (record_yields _).bind fun _ _ ↦ .pure .none
    · exact .throw _
  · exact .pure .none
  · dsimp only
    split
    · exact .pure .none
    · exact .pure (hresult _ rfl)

theorem joinFragments_yields {fragments : List Value}
    (h : Value.elementsResolved fragments = true) :
    Yields Session.Resolved Final (joinFragments fragments) := by
  unfold joinFragments
  split
  · exact .pure .none
  · split
    · -- A fragment that is a reference is not resolved.
      rename_i hreference
      obtain ⟨v, hv, hany⟩ := List.any_eq_true.mp hreference
      rw [Value.isReference_of_isResolved (Value.elementsResolved_iff.mp h v hv)] at hany
      cases hany
    · split
      · exact .throw _
      · rename_i v hv
        have hfinal : Final (some v) := final_some_iff.mpr (Fragments.join_isResolved h hv)
        split
        · exact (record_yields _).bind fun _ _ ↦ .pure hfinal
        · exact .bind (P := fun _ ↦ True) (.pure (a := PUnit.unit) trivial) fun _ _ ↦ .pure hfinal

theorem collect_yields {ι α : Type} {I : Session → Prop} {P : α → Prop}
    {resolve : ι → Action (Option α)} {miss : ι → Action Unit} {items : List ι}
    (h : ∀ item ∈ items, Yields I (fun found ↦ ∀ a ∈ found, P a) (resolve item))
    (hmiss : ∀ item, Yields I (fun _ ↦ True) (miss item)) :
    Yields I (fun out ↦ ∀ a ∈ out, P a) (collect resolve miss items) := by
  induction items with
  | nil => exact .pure (by simp)
  | cons item rest ih =>
      rw [List.forall_mem_cons] at h
      refine h.1.bind fun found hfound ↦ ?_
      cases found with
      | some a =>
          exact (ih h.2).bind fun others hothers ↦
            .pure (List.forall_mem_cons.mpr ⟨hfound a rfl, hothers⟩)
      | none => exact (hmiss item).bind fun _ _ ↦ ih h.2

theorem resolveNode_yields (hlookup : ∀ p, Yields Session.Resolved Final (lookup p)) (v : Value)
    (place : Option Path) : Yields Session.Resolved Final (resolveNode false lookup v place) := by
  induction v using Value.tree_induction generalizing place with
  | object members ih =>
      rw [resolveNode, resolveMembers_eq]
      refine (collect_yields (P := fun entry ↦ entry.2.isResolved = true) (fun entry hentry ↦ ?_)
        fun _ ↦ record_yields _).bind fun out hout ↦ .pure (final_some_iff.mpr ?_)
      · have hmember : Yields Session.Resolved Final
            (resolveMember false lookup place entry.1 entry.2) := by
          rcases named_or_inPlace place entry.1.content with ⟨path, rfl, hkey⟩ | hinplace
          · rw [resolveMember_plain _ _ hkey]
            exact hlookup _
          · rw [resolveMember_inPlace _ _ hinplace]
            exact ih entry hentry none
        refine hmember.bind fun found hfound ↦ .pure fun kept hkept ↦ ?_
        obtain ⟨w, hw, rfl⟩ := Option.map_eq_some_iff.mp hkept
        exact hfound w hw
      · rw [Value.isResolved, Value.membersResolved_iff]
        exact hout
  | array elements ih =>
      rw [resolveNode, resolveElements_eq]
      refine (collect_yields (fun v hv ↦ ih v hv none) fun _ ↦ record_yields _).bind
        fun out hout ↦ .pure (final_some_iff.mpr ?_)
      rw [Value.isResolved, Value.elementsResolved_iff]
      exact hout
  | substitution r =>
      rw [resolveNode]
      exact followReference_yields hlookup r
  | concatenation fragments ih =>
      rw [resolveNode, resolveFragments_eq]
      exact (collect_yields (fun v hv ↦ ih v hv none) fun _ ↦ .pure trivial).bind
        fun out hout ↦ joinFragments_yields (Value.elementsResolved_iff.mpr hout)
  | alternative default override ih =>
      rw [resolveNode]
      refine (followOverride_yields hlookup override).bind fun found hfound ↦ ?_
      cases found with
      | some v => exact .pure hfound
      | none => exact ih none
  | scalar v hscalar =>
      rw [resolveNode_scalar hscalar]
      exact .pure (final_some_iff.mpr (Value.isResolved_of_isScalar hscalar))

theorem compute_yields {root : Value} (hlookup : ∀ p, Yields Session.Resolved Final (lookup p))
    (path : Path) : Yields Session.Resolved Final (compute ⟨root, false⟩ lookup path) := by
  rw [compute_eq]
  cases Task.demand ⟨root, false⟩ path with
  | absent => exact .pure .none
  | node v => exact resolveNode_yields hlookup v (some path)
  | redirect target => exact hlookup target
  | blocked b => exact .throw _
  | through place rest =>
      refine (hlookup place).bind fun led hled ↦ ?_
      cases hbeyond : beyond path place rest led with
      | error fault => exact .throw _
      | ok found =>
          refine .pure fun v hv ↦ ?_
          subst hv
          obtain ⟨inner, rfl, hfind⟩ := beyond_some_cases hbeyond
          have hinner := final_some_iff.mp hled
          rw [Value.isResolved] at hinner
          exact Value.isResolved_of_find hinner hfind

end Nodes

theorem visit_yields {path : Path} {work : Action (Option Value)}
    (hwork : Yields Session.Resolved Final work) :
    Yields Session.Resolved Final (visit path work) := by
  intro s r t hs hrun
  rcases visit_cases hrun with ⟨found, hsettled, rfl, rfl⟩ | ⟨_, rfl, rfl⟩ | ⟨_, _, u, hu, rfl⟩
  · refine ⟨hs, fun found' hfound v hv ↦ ?_⟩
    cases hfound
    subst hv
    exact hs path v hsettled
  · exact ⟨hs, fun _ h ↦ by cases h⟩
  · obtain ⟨hresolved, hfinal⟩ := hwork (s.enter path) r u hs hu
    refine ⟨?_, hfinal⟩
    cases r with
    | error fault => exact hresolved
    | ok found =>
        intro q v hq
        simp only [Session.close, Session.settled?_settle, Session.settled?_leave] at hq
        split at hq
        · cases hq
          exact hfinal _ rfl v rfl
        · exact hresolved q v hq

section Task

variable {root : Value} {depth : Nat}

theorem lookupWithin_yields (path : Path) :
    Yields Session.Resolved Final (lookupWithin ⟨root, false⟩ depth path) := by
  induction depth generalizing path with
  | zero =>
      intro s r t _ hrun
      simp [lookupWithin] at hrun
  | succ depth ih => exact visit_yields (compute_yields ih path)

theorem resolveDocument_yields :
    Yields Session.Resolved (fun v ↦ v.isResolved = true)
      (resolveDocument ⟨root, false⟩ depth) := by
  intro s r t hs hrun
  unfold resolveDocument at hrun
  rw [resolveRoot_runIn] at hrun
  obtain ⟨⟨q, u⟩, hu, hq⟩ := Option.map_eq_some_iff.mp hrun
  cases hq
  obtain ⟨hresolved, hfinal⟩ :=
    resolveNode_yields lookupWithin_yields root (some []) s q u hs hu
  rcases q with fault | _ | v
  · exact ⟨hresolved, fun _ h ↦ by cases h⟩
  · exact ⟨hresolved, fun _ h ↦ by cases h; rfl⟩
  · exact ⟨hresolved, fun _ h ↦ by cases h; exact hfinal _ rfl v rfl⟩

theorem Reaches.resolved {s t : Session} (h : Reaches ⟨root, false⟩ s t) (hs : s.Resolved) :
    t.Resolved :=
  h.moves (G := fun s t ↦ s.Resolved → t.Resolved) (fun _ ↦ id)
    (fun _ _ _ hst htu ↦ htu ∘ hst) (fun _ _ ↦ id)
    (fun _ path _ s r t hrun hs ↦ (lookupWithin_yields path s r t hs hrun).1) hs

end Task

/-- What strict resolving makes of a document holds no reference, whatever was
looked up before, and so it has plain data unless a span of time is too long.
Without that exception the values with plain data are the resolved ones.  Any
other is refused for its first reference, except that the text of the reference
may be too long to be written. -/
theorem resolveDocument_toPlain {root found v : Value} {depth : Nat} {s t : Session}
    (hs : Reaches ⟨root, false⟩ .empty s)
    (hrun : (resolveDocument ⟨root, false⟩ depth).runIn s = some (.ok found, t))
    (hspans : v.spansFit = true) :
    (found.isResolved = true ∧
      ∀ fault, (Config.mk found).toPlain = .error fault → ∃ o, fault = .span o) ∧
    ((∃ p, v.toPlain = .ok p) ↔ v.isResolved = true) ∧
    ((v.isResolved = false → ∃ kind text, v.toPlain = .error (.unresolved kind text)) ↔
      ∀ w, v.firstReference? = some w → w.textFits = true) ∧
    ∀ w, v.firstReference? = some w → w.textFits = false → v.toPlain = .error .overlong := by
  have hresolved : s.Resolved := hs.resolved fun _ _ h ↦ by cases h
  have hfound := (resolveDocument_yields s _ t hresolved hrun).2 found rfl
  refine ⟨⟨hfound, fun fault hfault ↦ ?_⟩, Value.exists_toPlain_iff hspans, ?_, ?_⟩
  · rcases Value.toPlain_of_isResolved found hfound with ⟨p, hp⟩ | ⟨_, o, ho⟩
    · cases hp.symm.trans hfault
    · exact ⟨o, (Except.error.inj (ho.symm.trans hfault)).symm⟩
  · cases hfirst : v.firstReference? with
    | none => simp [(Value.firstReference?_eq_none_iff v).mp hfirst]
    | some w =>
        have hv : v.isResolved = false := by
          rw [Bool.eq_false_iff, Ne, ← Value.firstReference?_eq_none_iff, hfirst]
          simp
        rw [Value.toPlain_eq_error hspans hfirst]
        cases htext : w.textFits <;> simp [hv, htext]
  · intro w hw hlong
    rw [Value.toPlain_eq_error hspans hw, hlong]
    rfl

theorem resolveDocument_toPlain_fragments :
    ∃ found s, (resolveDocument
        ⟨.array [.concatenation [.string ⟨"a", false⟩, .string ⟨"b", false⟩]], false⟩ 1).runIn
          .empty = some (.ok found, s) ∧ found.isResolved = true ∧
      (Value.substitution ⟨"a", false⟩).spansFit = true ∧
      ∃ kind text, (Value.substitution ⟨"a", false⟩).toPlain = .error (.unresolved kind text) := by
  obtain ⟨s, hrun⟩ : ∃ s, (resolveDocument
      ⟨.array [.concatenation [.string ⟨"a", false⟩, .string ⟨"b", false⟩]], false⟩ 1).runIn
        .empty = some (.ok (.array [.string ⟨"ab", false⟩]), s) := ⟨_, rfl⟩
  have hspans : (Value.substitution ⟨"a", false⟩).spansFit = true := rfl
  obtain ⟨⟨hfound, _⟩, _, hrefused, _⟩ := resolveDocument_toPlain .refl hrun hspans
  refine ⟨_, s, hrun, hfound, hspans, hrefused.mpr ?_ rfl⟩
  rintro w hw
  cases hw
  rfl

/-- A reference is refused without its text when the text cannot be written. -/
theorem toPlain_overlong_fragment :
    ∃ v : Value, v = .concatenation [.int (10 ^ Numeral.digitLimit)] ∧ v.spansFit = true ∧
      v.isResolved = false ∧ v.toPlain = .error .overlong := by
  have hpow : ∀ n, Nat.pow 10 n ≤ ((10 : Int) ^ n).natAbs := fun n ↦ by
    rw [Int.natAbs_pow]
    exact Nat.le_refl _
  have hlong : Numeral.isOverlong (10 ^ Numeral.digitLimit) = true :=
    decide_eq_true (hpow Numeral.digitLimit)
  refine ⟨_, rfl, rfl, rfl, ?_⟩
  simp [Value.toPlain, Value.refused, Value.render, Value.textFits, Value.fragmentsFit, hlong]

end LayeredConfig.Resolver
