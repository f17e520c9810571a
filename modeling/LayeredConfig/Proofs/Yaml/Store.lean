import LayeredConfig.Proofs.Yaml.Guarded
import LayeredConfig.Proofs.Yaml.Nodes

/-!
# A store while its data is made

A store keeps to the graph that it began with: nodes keep their kind and their
text, the pairs of a mapping are pairs that it has or merges, and what is made so
far is data of its nodes.
-/

namespace LayeredConfig.Yaml

open Std.Do

variable {g : Graph} {id : NodeId}

/-! ## Faults -/

/-- An amount that a node is read as. -/
inductive AmountAt (g : Graph) (id : NodeId) : Components.Amount → Prop
  | int {n} (h : Reads g id (.int n)) : AmountAt g id (.int n)
  | boolean {b} (h : Reads g id (.boolean b)) : AmountAt g id (.int (if b then 1 else 0))
  | double {x} (h : Reads g id (.double x)) : AmountAt g id (.double x)
  | other (typeName : String) : AmountAt g id (.other typeName)

/-- A component of a span: its unit is a key of the mapping, and its amount a
value of it. -/
def ComponentOf (g : Graph) (id : NodeId) (component : String × Components.Amount) : Prop :=
  (∃ pair, PairOf g id pair ∧ TextAt g pair.1 component.1) ∧
    ∃ pair, PairOf g id pair ∧ AmountAt g pair.2 component.2

/-- What is refused where the nodes of a graph become data, by the reader of some
scalar or as part of a key. -/
inductive Escapes (g : Graph) : ScalarFault → Prop
  | misread {id tag text f} (htag : HasTag g id tag) (htext : TextAt g id text)
      (h : Misreads tag text f) : Escapes g f
  | longKey {id key value} (hkey : PairOf g id (key, value)) (hlong : IsLong g key) :
      Escapes g .overlong
  | longDefault {id key value part} (hkey : PairOf g id (key, value)) (htag : HasTag g key "!alt")
      (hpart : Below g key part) (hlong : IsLong g part) : Escapes g .overlong
  | heldDefault {id key value part name} (hkey : PairOf g id (key, value))
      (htag : HasTag g key "!alt") (hpart : Below g key part) (hgathers : Gathers g part) :
      Escapes g (.notKey (.changeable name))
  | infinite {id pair x} (htag : HasTag g id "!duration") (hpair : PairOf g id pair)
      (hread : Reads g pair.2 (.double x)) (hinfinite : x.isInfinite = true) :
      Escapes g .infiniteComponent
  | span {id components total o} (htag : HasTag g id "!duration")
      (hcomponents : ∀ c ∈ components, ComponentOf g id c)
      (hsum : Components.sum components = .ok total)
      (hspan : Span.ofMicroseconds total = .error o) :
      Escapes g (.span o)

/-- The faults of a document: those that are told as such, a graph without a
bottom, and the refusals that escape. -/
inductive Admits (g : Graph) : LoadFault → Prop
  | malformed : Admits g .malformed
  | problem (text : String) : Admits g (.problem text)
  | unsupported (name : String) : Admits g (.unsupported (.unsupported name))
  | badKey (name form : String) : Admits g (.unsupported (.badKey name form))
  | endless (h : SelfContaining g) : Admits g .endless
  | escape {f : ScalarFault} (h : Escapes g f) : Admits g (.scalar f)

/-! ## Nodes -/

/-- A tag that a node has, or had before it was written as a string. -/
def TagKept (original tag : String) : Prop :=
  tag = original ∨ (original = Tag.value ∧ tag = Tag.string)

/-- A node of a graph as a store may have it. -/
inductive NodeAt (g : Graph) (id : NodeId) : Node → Prop
  | scalar {original tag text} (h : g[id]? = some (.scalar original text))
      (htag : TagKept original tag) : NodeAt g id (.scalar tag text)
  | sequence {original tag items} (h : g[id]? = some (.sequence original items))
      (htag : TagKept original tag) : NodeAt g id (.sequence tag items)
  | mapping {original tag own pairs} (h : g[id]? = some (.mapping original own))
      (htag : TagKept original tag) (hpairs : ∀ pair ∈ pairs, PairOf g id pair) :
      NodeAt g id (.mapping tag pairs)

theorem TagKept.refl (tag : String) : TagKept tag tag := .inl rfl

theorem TagKept.asString {original : String} (h : TagKept original Tag.value) :
    TagKept original Tag.string := by
  rcases h with h | ⟨h, -⟩
  · exact .inr ⟨h.symm, rfl⟩
  · exact .inr ⟨h, rfl⟩

namespace NodeAt

variable {node : Node}

theorem of_graph (h : g[id]? = some node) : NodeAt g id node := by
  cases node with
  | scalar tag text => exact .scalar h (.refl tag)
  | sequence tag items => exact .sequence h (.refl tag)
  | mapping tag pairs => exact .mapping h (.refl tag) fun _ hpair ↦ .own h hpair

theorem exists_original (h : NodeAt g id node) :
    ∃ original, g[id]? = some original ∧ TagKept original.tag node.tag := by
  cases h with
  | scalar h htag => exact ⟨_, h, htag⟩
  | sequence h htag => exact ⟨_, h, htag⟩
  | mapping h htag _ => exact ⟨_, h, htag⟩

/-- Only a tag of strings may have come in place of another. -/
theorem hasTag (h : NodeAt g id node) (hstring : node.tag ≠ Tag.string) : HasTag g id node.tag := by
  obtain ⟨original, hnode, htag⟩ := h.exists_original
  rcases htag with htag | ⟨-, htag⟩
  · exact ⟨original, hnode, htag.symm⟩
  · exact absurd htag hstring

/-- A tag that a node has now, other than that of strings, is its own. -/
theorem hasTag_of_beq {tag : String} (h : NodeAt g id node) (htag : (node.tag == tag) = true)
    (hstring : tag ≠ Tag.string) : HasTag g id tag := by
  rw [← eq_of_beq htag] at hstring ⊢
  exact h.hasTag hstring

theorem withTag_string (h : NodeAt g id node) (htag : node.tag = Tag.value) :
    NodeAt g id (node.withTag Tag.string) := by
  cases h with
  | scalar h hkept =>
      cases htag
      exact .scalar h hkept.asString
  | sequence h hkept =>
      cases htag
      exact .sequence h hkept.asString
  | mapping h hkept hpairs =>
      cases htag
      exact .mapping h hkept.asString hpairs

theorem pairs (h : NodeAt g id node) {tag : String} {pairs : List (NodeId × NodeId)}
    (hnode : node = .mapping tag pairs) : ∀ pair ∈ pairs, PairOf g id pair := by
  cases h with
  | mapping _ _ hpairs =>
      cases hnode
      exact hpairs
  | _ => cases hnode

theorem below_item {tag : String} {items : List NodeId} {item : NodeId}
    (h : NodeAt g id (.sequence tag items)) (hitem : item ∈ items) : Below g id item := by
  cases h with
  | sequence hlist _ => exact Yaml.below_item hlist hitem

end NodeAt

/-! ## Contents -/

/-- Data of a node that another is made of. -/
def PartOf (g : Graph) (id : NodeId) (d : Datum) : Prop :=
  ∃ part, Below g id part ∧ DatumOf g part d

/-- Data of a node that may be tried as a key. -/
structure KeyAt (g : Graph) (id : NodeId) (k : Plain) : Prop where
  reads : Reads g id k
  single : ∀ vs, k ≠ .node (.concatenation vs)

/-- The entry of a map: a key of the mapping, and the data of a value of it.  An
entry that was put over another has the key of that. -/
def EntryOf (g : Graph) (id : NodeId) (entry : Plain × Datum) : Prop :=
  (∃ pair, PairOf g id pair ∧ KeyAt g pair.1 entry.1) ∧
    ∃ pair, PairOf g id pair ∧ DatumOf g pair.2 entry.2

def ContentOf (g : Graph) (id : NodeId) : Content → Prop
  | .items ds => ∀ d ∈ ds, PartOf g id d
  | .entries es => ∀ e ∈ es, EntryOf g id e
  | .members _ => True
  | .pairs ps => ∀ p ∈ ps, PartOf g id p.1 ∧ PartOf g id p.2

theorem EntryOf.partOf {entry : Plain × Datum} (h : EntryOf g id entry) : PartOf g id entry.2 := by
  obtain ⟨-, pair, hpair, hdatum⟩ := h
  exact ⟨pair.2, hpair.below_both.2, hdatum⟩

theorem PartOf.of_below {part : NodeId} {d : Datum} (h : PartOf g part d)
    (hpart : Below g id part) : PartOf g id d := by
  obtain ⟨i, hi, hd⟩ := h
  exact ⟨i, hpart.trans hi, hd⟩

/-- The store keeps to a graph. -/
structure Faithful (g : Graph) (s : Store) : Prop where
  size : s.graph.size = g.size
  nodes : ∀ id node, s.graph[id]? = some node → NodeAt g id node
  contents : ∀ id c, s.contents[id]?.join = some c → ContentOf g id c
  made : ∀ id d, s.made[id]?.join = some d → DatumOf g id d

namespace Faithful

theorem ofGraph (g : Graph) (document : Nat) : Faithful g (.ofGraph g document) where
  size := rfl
  nodes _ _ := .of_graph
  contents id c h := by
    simp only [Store.ofGraph, Array.getElem?_replicate] at h
    split at h <;> cases h
  made id d h := by
    simp only [Store.ofGraph, Array.getElem?_replicate] at h
    split at h <;> cases h

variable {s : Store}

theorem setNode {node : Node} (hs : Faithful g s) (hnode : NodeAt g id node) :
    Faithful g { s with graph := s.graph.setIfInBounds id node } where
  size := by rw [Array.size_setIfInBounds, hs.size]
  nodes i other h := by
    rw [Array.getElem?_setIfInBounds] at h
    split at h
    · next heq =>
      split at h
      · cases h
        exact heq ▸ hnode
      · cases h
    · exact hs.nodes i other h
  contents := hs.contents
  made := hs.made

theorem setContent {c : Content} (hs : Faithful g s) (hc : ContentOf g id c) :
    Faithful g { s with contents := s.contents.setIfInBounds id (some c) } where
  size := hs.size
  nodes := hs.nodes
  contents i other h := by
    rw [Array.getElem?_setIfInBounds] at h
    split at h
    · next heq =>
      split at h
      · cases h
        exact heq ▸ hc
      · cases h
    · exact hs.contents i other h
  made := hs.made

theorem hasTag {tag : String} (hs : Faithful g s) (htag : s.graph[id]?.map Node.tag = some tag)
    (hstring : tag ≠ Tag.string) : HasTag g id tag := by
  obtain ⟨node, hnode, rfl⟩ := Option.map_eq_some_iff.mp htag
  exact (hs.nodes id node hnode).hasTag hstring

theorem setMade {d : Datum} (hs : Faithful g s) (hd : DatumOf g id d) :
    Faithful g { s with made := s.made.setIfInBounds id (some d) } where
  size := hs.size
  nodes := hs.nodes
  contents := hs.contents
  made i other h := by
    rw [Array.getElem?_setIfInBounds] at h
    split at h
    · next heq =>
      split at h
      · cases h
        exact heq ▸ hd
      · cases h
    · exact hs.made i other h

theorem setMaking (hs : Faithful g s) (making : List NodeId) :
    Faithful g { s with making := making } where
  size := hs.size
  nodes := hs.nodes
  contents := hs.contents
  made := hs.made

theorem setWaiting (hs : Faithful g s) (waiting : List NodeId) :
    Faithful g { s with waiting := waiting } where
  size := hs.size
  nodes := hs.nodes
  contents := hs.contents
  made := hs.made

end Faithful

/-! ## Steps on nodes -/

/-- A step of making data keeps to the graph, and fails as documents may. -/
abbrev Makes {α : Type} (g : Graph) (act : Store.Make α) (P : α → Prop) : Prop :=
  Gives (Faithful g) (Admits g) act P

namespace Store

variable {α : Type}

theorem makes_malformed {P : α → Prop} : Makes g malformed P := gives_throw .malformed

theorem makes_problem {P : α → Prop} (text : String) : Makes g (problem text) P :=
  gives_throw (.problem text)

theorem nodeOf_makes (id : NodeId) : Makes g (nodeOf id) (NodeAt g id) := by
  unfold nodeOf
  apply gives_get.bind
  intro s hs
  split
  · next h => exact gives_pure (hs.nodes _ _ h)
  · exact makes_malformed

theorem setNode_keeps {node : Node} (h : NodeAt g id node) :
    Keeps (Faithful g) (Admits g) (setNode id node) :=
  keeps_modify fun _ hs ↦ hs.setNode h

theorem setContent_keeps {c : Content} (h : ContentOf g id c) :
    Keeps (Faithful g) (Admits g) (setContent id c) :=
  keeps_modify fun _ hs ↦ hs.setContent h

theorem pairsOf_makes (id : NodeId) :
    Makes g (pairsOf id) fun pairs? ↦ ∀ pair ∈ pairs?.getD [], PairOf g id pair := by
  unfold pairsOf
  apply (nodeOf_makes id).bind
  intro node hnode
  split
  · exact gives_pure (hnode.pairs rfl)
  · exact gives_pure (by simp)

theorem tagOf_makes (id : NodeId) :
    Makes g (tagOf id) fun tag ↦ ∃ node, g[id]? = some node ∧ TagKept node.tag tag := by
  unfold tagOf
  apply (nodeOf_makes id).bind
  intro node hnode
  exact gives_pure hnode.exists_original

theorem asStringKey_keeps (id : NodeId) : Keeps (Faithful g) (Admits g) (asStringKey id) := by
  apply Gives.keeps
  unfold asStringKey
  apply (nodeOf_makes id).bind
  intro node hnode
  split
  · next htag => exact (setNode_keeps (hnode.withTag_string (eq_of_beq htag))).gives
  · exact gives_pure trivial

theorem asStringKeys_keeps (pairs : List (NodeId × NodeId)) :
    Keeps (Faithful g) (Admits g) (pairs.forM fun pair ↦ asStringKey pair.1) :=
  forM_keeps fun pair _ ↦ asStringKey_keeps pair.1

/-- The value of a merge key of a mapping. -/
def IsMerged (g : Graph) (id value : NodeId) : Prop :=
  ∃ key, PairOf g id (key, value) ∧ HasTag g key Tag.merge

theorem firstMerge?_makes (id : NodeId) :
    Makes g (firstMerge? id) fun merge? ↦ ∀ place value, merge? = some (place, value) →
      IsMerged g id value := by
  unfold firstMerge?
  apply (pairsOf_makes id).bind
  intro pairs? hpairs
  apply gives_get.bind
  intro s hs
  dsimp only
  split
  · next place hplace =>
    apply gives_pure
    intro place' value hpair
    -- A key that became a string is no merge key, so this one has its tag from the graph.
    obtain ⟨hbound, htag, -⟩ := List.findIdx?_eq_some_iff_getElem.mp hplace
    rw [List.getElem?_eq_getElem hbound] at hpair
    cases hpair
    exact ⟨_, hpairs _ (List.getElem_mem hbound), hs.hasTag (eq_of_beq htag) (by decide)⟩
  · exact gives_pure nofun

theorem takeMerge?_makes (id : NodeId) :
    Makes g (takeMerge? id) fun value? ↦ ∀ value, value? = some value → IsMerged g id value := by
  unfold takeMerge?
  apply (pairsOf_makes id).bind
  intro pairs? hpairs
  apply (firstMerge?_makes id).bind
  rintro (_ | ⟨place, value⟩) hmerge
  · apply (asStringKeys_keeps _).bind
    intro _
    exact gives_pure nofun
  · apply (asStringKeys_keeps _).bind
    intro _
    apply (tagOf_makes id).bind
    rintro tag ⟨node, hnode, htag⟩
    obtain ⟨key, hpair, -⟩ := hmerge place value rfl
    obtain ⟨original, own, hmapping⟩ := hpair.exists_mapping
    -- Without the merge pair the mapping still has pairs of the graph only.
    have hnodeAt : NodeAt g id (.mapping tag ((pairs?.getD []).eraseIdx place)) := by
      rw [hmapping] at hnode
      cases hnode
      exact .mapping hmapping htag fun pair hpair ↦ hpairs pair (List.mem_of_mem_eraseIdx hpair)
    apply (setNode_keeps hnodeAt).bind
    intro _
    apply gives_pure
    rintro _ ⟨⟩
    exact hmerge place value rfl

/-! ## Merging -/

/-- A pair of a mapping, or of one that a list holds. -/
def PairFrom (g : Graph) (source : NodeId) (pair : NodeId × NodeId) : Prop :=
  PairOf g source pair ∨ ∃ tag items item, g[source]? = some (.sequence tag items) ∧ item ∈ items ∧
    PairOf g item pair

theorem IsMerged.pairOf {value : NodeId} (h : IsMerged g id value) {pair : NodeId × NodeId}
    (hpair : PairFrom g value pair) : PairOf g id pair := by
  obtain ⟨key, hmerge, hkey⟩ := h
  rcases hpair with hpair | ⟨tag, items, item, hlist, hitem, hpair⟩
  · exact .merged hmerge hkey hpair
  · exact .listed hmerge hkey hlist hitem hpair

/-- Merging within a limit gives pairs of the graph. -/
structure Merges (g : Graph) (limit : Nat) : Prop where
  flatten : ∀ id, Makes g (flatten limit id) fun _ ↦ True
  mergedPairs : ∀ id, Makes g (mergedPairs limit id) fun pairs ↦ ∀ pair ∈ pairs, PairOf g id pair
  mergeSource : ∀ id, Makes g (mergeSource limit id) fun pairs ↦ ∀ pair ∈ pairs, PairFrom g id pair
  flattenedPairs : ∀ id,
    Makes g (flattenedPairs limit id) fun pairs ↦ ∀ pair ∈ pairs, PairOf g id pair

section Step

variable {limit : Nat}

theorem flatten_step (h : Merges g limit) (id : NodeId) :
    Makes g (flatten (limit + 1) id) fun _ ↦ True := by
  unfold flatten
  apply (nodeOf_makes id).bind
  intro node hnode
  split
  · next tag own =>
    apply (h.mergedPairs id).bind
    intro merged hmerged
    split
    · apply (pairsOf_makes id).bind
      intro pairs? hpairs
      have hnodeAt : NodeAt g id (.mapping tag (merged ++ pairs?.getD [])) := by
        cases hnode with
        | mapping hmapping htag _ =>
            refine .mapping hmapping htag fun pair hpair ↦ ?_
            rcases List.mem_append.mp hpair with hpair | hpair
            · exact hmerged pair hpair
            · exact hpairs pair hpair
      exact (setNode_keeps hnodeAt).gives
    · exact gives_pure trivial
  · exact gives_pure trivial

theorem mergedPairs_step (h : Merges g limit) (id : NodeId) :
    Makes g (mergedPairs (limit + 1) id) fun pairs ↦ ∀ pair ∈ pairs, PairOf g id pair := by
  unfold mergedPairs
  apply (takeMerge?_makes id).bind
  rintro (_ | value) hvalue
  · exact gives_pure (by simp)
  · apply (h.mergeSource value).bind
    intro pairs hpairs
    apply (h.mergedPairs id).bind
    intro more hmore
    apply gives_pure
    intro pair hpair
    rcases List.mem_append.mp hpair with hpair | hpair
    · exact (hvalue value rfl).pairOf (hpairs pair hpair)
    · exact hmore pair hpair

theorem mergeSource_step (h : Merges g limit) (id : NodeId) :
    Makes g (mergeSource (limit + 1) id) fun pairs ↦ ∀ pair ∈ pairs, PairFrom g id pair := by
  unfold mergeSource
  apply (nodeOf_makes id).bind
  intro node hnode
  split
  · exact (h.flattenedPairs id).mono fun pairs hpairs pair hpair ↦ .inl (hpairs pair hpair)
  · next tag items =>
    have hlist : ∃ original, g[id]? = some (.sequence original items) := by
      cases hnode with
      | sequence hlist _ => exact ⟨_, hlist⟩
    obtain ⟨original, hlist⟩ := hlist
    refine Gives.bind (mapM_gives_all (P := fun pairs ↦ ∀ pair ∈ pairs, PairFrom g id pair)
      fun item hitem ↦ ?_) fun parts hparts ↦ ?_
    · apply (nodeOf_makes item).bind
      intro node _
      split
      · exact (h.flattenedPairs item).mono fun pairs hpairs pair hpair ↦
          .inr ⟨original, items, item, hlist, hitem, hpairs pair hpair⟩
      · exact makes_malformed
    · apply gives_pure
      intro pair hpair
      obtain ⟨part, hpart, hpair⟩ := List.mem_flatten.mp hpair
      exact hparts part (List.mem_reverse.mp hpart) pair hpair
  · exact makes_malformed

theorem flattenedPairs_step (h : Merges g limit) (id : NodeId) :
    Makes g (flattenedPairs (limit + 1) id) fun pairs ↦ ∀ pair ∈ pairs, PairOf g id pair := by
  unfold flattenedPairs
  apply (h.flatten id).bind
  intro _ _
  apply (pairsOf_makes id).bind
  intro pairs? hpairs
  exact gives_pure hpairs

end Step

theorem merges (limit : Nat) : Merges g limit := by
  induction limit with
  | zero =>
      constructor <;> intro id
      · rw [flatten]
        exact makes_malformed
      · rw [mergedPairs]
        exact makes_malformed
      · rw [mergeSource]
        exact makes_malformed
      · rw [flattenedPairs]
        exact makes_malformed
  | succ limit ih =>
      exact {
        flatten := flatten_step ih
        mergedPairs := mergedPairs_step ih
        mergeSource := mergeSource_step ih
        flattenedPairs := flattenedPairs_step ih }

end Store

end LayeredConfig.Yaml
