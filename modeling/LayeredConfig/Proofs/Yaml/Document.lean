import LayeredConfig.Proofs.Yaml.Data
import LayeredConfig.Proofs.Yaml.Scanner
import LayeredConfig.Yaml.Document

/-!
# Faults of loading a text

A text is loaded as an object or as an array, or it is refused as a document.
Other faults come from a graph without a bottom, from the readers of some scalars
and from keys, each at a place of the text or of its graph that calls for it.
-/

namespace LayeredConfig.Yaml

/-- The text is refused as a document. -/
def LoadFault.isOwn : LoadFault → Bool
  | .malformed | .problem _ | .badRoot _ | .unreadableFile => true
  | .unsupported (.unsupported _) | .unsupported (.badKey ..) => true
  | .unsupported .noCount | .unsupported .overlong => false
  | .endless | .scalar _ | .undecodable _ => false

/-- What escapes from the loading of a text: an escape beyond the last code point, a
number of too many digits in a directive, a graph without a bottom, and what
escapes where the nodes of its graph become data. -/
inductive EscapesLoading (text : String) : LoadFault → Prop
  | codePoint {digits : List Char} {n : Nat} (hin : '\\' :: 'U' :: digits <:+: text.toList)
      (hbeyond : WritesBeyond digits n) : EscapesLoading text (.scalar (.badCodePoint n))
  | number {digits : List Char} (hin : digits <:+: text.toList)
      (hdigits : ∀ c ∈ digits, c.isDigit = true) (hlong : Numeral.digitLimit < digits.length) :
      EscapesLoading text (.scalar (.tooManyDigits digits.length))
  | endless {g : Graph} {root : NodeId}
      (hgraph : Graph.ofSource (.ofText text.toList) = .ok (g, some root)) (h : SelfContaining g) :
      EscapesLoading text .endless
  | escape {g : Graph} {root : NodeId} {f : ScalarFault}
      (hgraph : Graph.ofSource (.ofText text.toList) = .ok (g, some root)) (h : Escapes g f) :
      EscapesLoading text (.scalar f)

section Text

variable {text : String} {f : LoadFault}

/-- A text is taken in as a whole, or not at all. -/
theorem Source.ofText_eq (cs : List Char) :
    ofText cs = ⟨cs, none⟩ ∨ ofText cs = ⟨[], some .malformed⟩ := by
  unfold ofText ofBlocks
  split
  · left
    simp [ofBlocks]
  · exact .inr rfl

theorem Source.Refuses.own_or_escapes (h : (Source.ofText text.toList).Refuses f) :
    f.isOwn = true ∨ EscapesLoading text f := by
  -- Either all of the text is in the source, or nothing is.
  have hin : ∀ cs, cs <:+: (Source.ofText text.toList).chars → cs <:+: text.toList := by
    intro cs hcs
    rcases Source.ofText_eq text.toList with hsource | hsource
    · rwa [hsource] at hcs
    · rw [hsource, List.infix_nil] at hcs
      exact hcs ▸ List.nil_infix
  cases h with
  | malformed => exact .inl rfl
  | ending hending =>
      rcases Source.ofText_eq text.toList with hsource | hsource
      · rw [hsource] at hending
        cases hending
      · rw [hsource] at hending
        cases hending
        exact .inl rfl
  | codePoint hdigits hbeyond => exact .inr (.codePoint (hin _ hdigits) hbeyond)
  | number hdigits hdigit hlong => exact .inr (.number (hin _ hdigits) hdigit hlong)

theorem Admits.own_or_escapes {g : Graph} {root : NodeId}
    (hgraph : Graph.ofSource (.ofText text.toList) = .ok (g, some root)) (h : Admits g f) :
    f.isOwn = true ∨ EscapesLoading text f := by
  cases h with
  | endless h => exact .inr (.endless hgraph h)
  | escape h => exact .inr (.escape hgraph h)
  | _ => exact .inl rfl

theorem valueOfSource_yields (text : String) (document : Nat) :
    Yields (fun f ↦ f.isOwn = true ∨ EscapesLoading text f)
      (valueOfSource (.ofText text.toList) document) fun _ ↦ True := by
  unfold valueOfSource
  cases hgraph : Graph.ofSource (.ofText text.toList) with
  | error f => exact yields_error (Graph.ofSource_refuses hgraph).own_or_escapes
  | ok p =>
      obtain ⟨g, _ | root⟩ := p
      · exact yields_ok trivial
      · obtain ⟨-, hroot⟩ := triple_iff_runs.mp (Store.makeRoot_makes root) _ (.ofGraph g document)
        have hmade : Yields (fun f ↦ f.isOwn = true ∨ EscapesLoading text f)
            ((Store.makeRoot root).run (.ofGraph g document)) fun _ ↦ True :=
          ⟨fun _ _ ↦ trivial, fun f hf ↦ (hroot f hf).own_or_escapes hgraph⟩
        exact hmade.bind fun _ _ ↦ yields_ok trivial

theorem rootOf_yields (v? : Option Value) :
    Yields (fun f ↦ f.isOwn = true) (rootOf v?) fun v ↦ v.kind = .object ∨ v.kind = .array := by
  unfold rootOf
  split
  · exact yields_ok (.inl rfl)
  · exact yields_ok (.inl rfl)
  · exact yields_ok (.inr rfl)
  · exact yields_error rfl

end Text

/-- A text is loaded as an object or an array, or it is refused as a document; any
other fault has its cause in the text or in its graph. -/
theorem load_faults (text : String) (document : Nat) :
    (∀ c, load text document = .ok c → c.root.kind = .object ∨ c.root.kind = .array) ∧
      ∀ f, load text document = .error f → f.isOwn = true ∨ EscapesLoading text f := by
  have hload : Yields (fun f ↦ f.isOwn = true ∨ EscapesLoading text f) (load text document)
      fun c ↦ c.root.kind = .object ∨ c.root.kind = .array := by
    unfold load loadSource
    apply (valueOfSource_yields text document).bind
    intro v? _
    apply ((rootOf_yields v?).weaken fun _ ↦ .inl).bind
    intro v hv
    exact yields_ok hv
  exact ⟨hload.ok, hload.error⟩

/-- Every node is made of later ones. -/
def Graph.isAscending (g : Graph) : Bool :=
  (List.range g.size).all fun id ↦ (g[id]?.map Node.children).all fun parts ↦ parts.all (id < ·)

theorem not_selfContaining_of_isAscending {g : Graph} (h : g.isAscending = true) :
    ¬ SelfContaining g := by
  have hchild : ∀ id part, Child g id part → id < part := by
    rintro id part ⟨node, hnode, hpart⟩
    have hid := List.all_eq_true.mp h id
      (List.mem_range.mpr (Array.getElem?_eq_some_iff.mp hnode).1)
    rw [hnode] at hid
    exact of_decide_eq_true (List.all_eq_true.mp hid part hpart)
  have hbelow : ∀ id part, Below g id part → id < part := Relation.transGen_minimal hchild
  rintro ⟨id, hid⟩
  exact Nat.lt_irrefl id (hbelow id id hid)

/-- Days beyond the calendar, in a graph that has a bottom, are not refused as a
document. -/
theorem load_tooManyDays :
    (∃ g root, Graph.ofSource (.ofText "a: !duration\n  days: 1000000000\n".toList) =
      .ok (g, some root) ∧ ¬ SelfContaining g) ∧
      ∃ f, load "a: !duration\n  days: 1000000000\n" = .error f ∧
        f = .scalar (.span (.days 1000000000)) ∧ f.isOwn = false := by
  constructor
  · have hgraph :
        ((Graph.ofSource (.ofText "a: !duration\n  days: 1000000000\n".toList)).toOption.any
          fun p ↦ p.2.isSome && p.1.isAscending) = true := by decide +kernel
    generalize Graph.ofSource _ = r at hgraph ⊢
    obtain _ | ⟨g, _ | root⟩ := r
    · cases hgraph
    · cases hgraph
    · exact ⟨g, root, rfl, not_selfContaining_of_isAscending hgraph⟩
  · have hload : (load "a: !duration\n  days: 1000000000\n").map (fun _ ↦ ()) =
        .error (.scalar (.span (.days 1000000000))) := by decide +kernel
    generalize load _ = r at hload ⊢
    cases r with
    | ok c => cases hload
    | error f =>
        cases hload
        exact ⟨_, rfl, rfl, rfl⟩

end LayeredConfig.Yaml
