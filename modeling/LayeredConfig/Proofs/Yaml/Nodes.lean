import LayeredConfig.Yaml.Data
import Mathlib.Data.List.Perm.Subperm
import Mathlib.Logic.Relation

/-!
# What nodes stand for

The pairs of a mapping with those that it merges, the text of a scalar, and the
data that a node is read as are told here of the graph as it was composed.  Nodes
that are rewritten while data is made of them are told from it.
-/

namespace LayeredConfig.Yaml

/-- The nodes that a node is made of. -/
def Node.children : Node → List NodeId
  | .scalar .. => []
  | .sequence _ items => items
  | .mapping _ pairs => pairs.flatMap fun pair ↦ [pair.1, pair.2]

/-- A node is made of another, in one step. -/
def Child (g : Graph) (id part : NodeId) : Prop := ∃ node, g[id]? = some node ∧ part ∈ node.children

/-- A node is made of another, in some steps. -/
abbrev Below (g : Graph) : NodeId → NodeId → Prop := Relation.TransGen (Child g)

/-- Some node is made of itself. -/
def SelfContaining (g : Graph) : Prop := ∃ id, Below g id id

def HasTag (g : Graph) (id : NodeId) (tag : String) : Prop :=
  ∃ node, g[id]? = some node ∧ node.tag = tag

/-- The pairs of a mapping: its own, and those of the mappings that the value of a
merge key is or lists. -/
inductive PairOf (g : Graph) : NodeId → NodeId × NodeId → Prop
  | own {id tag pairs pair} (h : g[id]? = some (.mapping tag pairs)) (hpair : pair ∈ pairs) :
      PairOf g id pair
  | merged {id key value pair} (hmerge : PairOf g id (key, value)) (hkey : HasTag g key Tag.merge)
      (hpair : PairOf g value pair) : PairOf g id pair
  | listed {id key value tag items item pair} (hmerge : PairOf g id (key, value))
      (hkey : HasTag g key Tag.merge) (hlist : g[value]? = some (.sequence tag items))
      (hitem : item ∈ items) (hpair : PairOf g item pair) : PairOf g id pair

/-- The text of a scalar, or of the scalar that a mapping has under its value
key. -/
inductive TextAt (g : Graph) : NodeId → String → Prop
  | scalar {id tag text} (h : g[id]? = some (.scalar tag text)) : TextAt g id text
  | value {id key value text} (hpair : PairOf g id (key, value)) (hkey : HasTag g key Tag.value)
      (htext : TextAt g value text) : TextAt g id text

section Pairs

variable {g : Graph} {id : NodeId} {pair : NodeId × NodeId}

theorem below_item {tag : String} {items : List NodeId} {item : NodeId}
    (h : g[id]? = some (.sequence tag items)) (hitem : item ∈ items) : Below g id item :=
  .single ⟨_, h, hitem⟩

theorem PairOf.exists_mapping (h : PairOf g id pair) :
    ∃ tag pairs, g[id]? = some (.mapping tag pairs) := by
  induction h with
  | own h _ => exact ⟨_, _, h⟩
  | merged _ _ _ ih _ => exact ih
  | listed _ _ _ _ _ ih _ => exact ih

theorem PairOf.below_both (h : PairOf g id pair) : Below g id pair.1 ∧ Below g id pair.2 := by
  induction h with
  | @own id tag pairs pair h hpair =>
      have hchildren : ∀ part ∈ [pair.1, pair.2], part ∈ (Node.mapping tag pairs).children :=
        fun part hpart ↦ List.mem_flatMap.mpr ⟨pair, hpair, hpart⟩
      exact ⟨.single ⟨_, h, hchildren _ (by simp)⟩, .single ⟨_, h, hchildren _ (by simp)⟩⟩
  | merged _ _ _ ihmerge ihpair =>
      exact ⟨ihmerge.2.trans ihpair.1, ihmerge.2.trans ihpair.2⟩
  | listed _ _ hlist hitem _ ihmerge ihpair =>
      have hbelow := ihmerge.2.trans (below_item hlist hitem)
      exact ⟨hbelow.trans ihpair.1, hbelow.trans ihpair.2⟩

end Pairs

/-! ## Going down a graph -/

/-- Nodes that were passed on the way down to a node, and how many more the graph
has at most, unless it has no bottom. -/
inductive Descends (g : Graph) (limit : Nat) (passed : List NodeId) (id : NodeId) : Prop
  | endless (h : SelfContaining g)
  | apart (hnodup : passed.Nodup) (hnodes : ∀ i ∈ passed, i < g.size)
      (hbelow : ∀ i ∈ passed, Below g i id) (hlimit : passed.length + limit = g.size + 1)

namespace Descends

variable {g : Graph} {limit : Nat} {passed : List NodeId} {id part : NodeId}

theorem start (g : Graph) (id : NodeId) : Descends g (g.size + 1) [] id :=
  .apart List.nodup_nil (by simp) (by simp) (Nat.zero_add _)

theorem selfContaining_of_mem (h : Descends g limit passed id) (hid : id ∈ passed) :
    SelfContaining g := by
  cases h with
  | endless h => exact h
  | apart _ _ hbelow _ => exact ⟨id, hbelow id hid⟩

/-- There are no more nodes to pass than the graph has. -/
theorem selfContaining_of_zero (h : Descends g 0 passed id) : SelfContaining g := by
  cases h with
  | endless h => exact h
  | apart hnodup hnodes _ hlimit =>
      have hsubset : passed ⊆ List.range g.size := fun i hi ↦ List.mem_range.mpr (hnodes i hi)
      have hlength := (hnodup.subperm hsubset).length_le
      rw [List.length_range] at hlength
      omega

theorem step (h : Descends g (limit + 1) passed id) (hid : id < g.size) (hpart : Below g id part) :
    Descends g limit (id :: passed) part := by
  -- A node that is passed again was made of itself.
  by_cases hmem : id ∈ passed
  · exact .endless (h.selfContaining_of_mem hmem)
  · cases h with
    | endless h => exact .endless h
    | apart hnodup hnodes hbelow hlimit =>
        refine .apart (List.nodup_cons.mpr ⟨hmem, hnodup⟩) (List.forall_mem_cons.mpr ⟨hid, hnodes⟩)
          (List.forall_mem_cons.mpr ⟨hpart, fun i hi ↦ (hbelow i hi).trans hpart⟩) ?_
        rw [List.length_cons]
        omega

end Descends

/-! ## What is read at a node -/

/-- The reader of a tag refuses a text. -/
inductive Misreads : (tag text : String) → ScalarFault → Prop
  | bool {text f} (h : CoreScalar.bool text = .error f) : Misreads Tag.bool text f
  | int {text f} (h : CoreScalar.int text = .error f) : Misreads Tag.int text f
  | float {text f} (h : CoreScalar.float text = .error f) : Misreads Tag.float text f

/-- A node that is read as an integer too long to be written. -/
def IsLong (g : Graph) (id : NodeId) : Prop :=
  ∃ text n, HasTag g id Tag.int ∧ TextAt g id text ∧ CoreScalar.int text = .ok n ∧
    Numeral.isOverlong n = true

/-- A node that gathers others: a collection or a concatenation. -/
def Gathers (g : Graph) (id : NodeId) : Prop :=
  ∃ tag, HasTag g id tag ∧ ((Store.emptyContent? tag).isSome = true ∨ tag = "!concat")

/-- What keeps a value from being written, or from being part of a key, is a node
that the value was made of. -/
structure MadeFrom (nodes : NodeId → Prop) (g : Graph) (v : Value) : Prop where
  long : v.formFits = false → ∃ id, nodes id ∧ IsLong g id
  gathers : (Plain.valueBarrier? v).isSome = true → ∃ id, nodes id ∧ Gathers g id

/-- What a node is read as, if that is no collection. -/
inductive Reads (g : Graph) (id : NodeId) : Plain → Prop
  | null : Reads g id .null
  | boolean {text b} (htag : HasTag g id Tag.bool) (htext : TextAt g id text)
      (hread : CoreScalar.bool text = .ok b) : Reads g id (.boolean b)
  | int {text n} (htag : HasTag g id Tag.int) (htext : TextAt g id text)
      (hread : CoreScalar.int text = .ok n) : Reads g id (.int n)
  | double {text x origin} (htag : HasTag g id Tag.float) (htext : TextAt g id text)
      (hread : CoreScalar.float text = .ok x) : Reads g id (.double (x.withOrigin origin))
  | bytes (data : List UInt8) : Reads g id (.bytes data)
  | string {text} (htext : TextAt g id text) : Reads g id (.string text)
  | substitution (r : Reference) : Reads g id (.node (.substitution r))
  | single (x : Single) : Reads g id (.node (.single x))
  | duration {n} (hfits : Numeral.isOverlong n = false) : Reads g id (.node (.duration n))
  | concatenation {vs} (htag : HasTag g id "!concat")
      (hparts : ∀ v ∈ vs, MadeFrom (Below g id) g v) :
      Reads g id (.node (.concatenation vs))
  | alternative {v r} (htag : HasTag g id "!alt") (hdefault : MadeFrom (Below g id) g v) :
      Reads g id (.node (.alternative v r))

/-- The data of a node. -/
inductive DatumOf (g : Graph) (id : NodeId) : Datum → Prop
  | plain {p} (h : Reads g id p) : DatumOf g id (.plain p)
  | held (h : Gathers g id) : DatumOf g id (.held id)

end LayeredConfig.Yaml
