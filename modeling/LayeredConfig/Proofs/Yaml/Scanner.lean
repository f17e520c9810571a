import LayeredConfig.Proofs.Yaml.Lexeme
import LayeredConfig.Yaml.Graph

/-!
# Faults of scanning

Tokens and nodes are made of what is read: the scanner and the builder of a graph
fail only with faults of their source.
-/

namespace LayeredConfig.Yaml

open Std.Do

set_option mvcgen.warning false

variable {α : Type} {source : Source}

/-- The scanner stands in a source. -/
def Scanner.Within (source : Source) (s : Scanner) : Prop := s.cursor.Within source

/-- Scans on in a source, and fails only with a fault of it. -/
abbrev ScansIn (source : Source) (act : Scan α) : Prop :=
  Keeps (Scanner.Within source) source.Refuses act

namespace Scanner

@[spec] theorem read_spec {r : Read α} (h : ReadsIn source r) : ScansIn source (read r) := by
  apply Keeps.lift cursor (fun s c ↦ { s with cursor := c }) h fun _ _ ↦ rfl
  intro s
  unfold read
  simp only [StateT.run_bind, StateT.run_get, pure_bind]
  cases r.run s.cursor <;> rfl

@[spec] theorem dropKey_spec : ScansIn source dropKey := by
  mvcgen [dropKey, forgetKey]
  exact .malformed

@[spec] theorem dropStaleKeys_spec : ScansIn source dropStaleKeys := by
  mvcgen [dropStaleKeys]
  exact .malformed

@[spec] theorem saveKey_spec : ScansIn source saveKey := by
  mvcgen [saveKey]

theorem unwind_go_spec (column : Int) (outers : List Int) :
    ScansIn source (unwind.go column outers) := by
  induction outers with
  | nil => mvcgen [unwind.go]
  | cons outer rest ih => mvcgen [unwind.go, emit, ih]

@[spec] theorem unwind_spec (column : Int) : ScansIn source (unwind column) := by
  mvcgen [unwind, unwind_go_spec]

@[spec] theorem deepen_spec (column : Nat) : ScansIn source (deepen column) := by
  mvcgen [deepen]

@[spec] theorem skipBlank_spec (limit : Nat) : ScansIn source (skipBlank limit) := by
  induction limit with
  | zero => mvcgen [skipBlank]
  | succ limit ih => mvcgen [skipBlank, allowKey, ih]

@[spec] theorem leaveDocument_spec : ScansIn source leaveDocument := by
  mvcgen [leaveDocument, allowKey]

@[spec] theorem directive_spec : ScansIn source directive := by
  mvcgen [directive, emit]

@[spec] theorem divider_spec (t : Token) : ScansIn source (divider t) := by
  mvcgen [divider, emit]

@[spec] theorem mark_spec (t : Token) : ScansIn source (mark t) := by
  mvcgen [mark, emit]

@[spec] theorem openFlow_spec (t : Token) : ScansIn source (openFlow t) := by
  mvcgen [openFlow]

@[spec] theorem closeFlow_spec (t : Token) : ScansIn source (closeFlow t) := by
  mvcgen [closeFlow]

@[spec] theorem flowEntry_spec : ScansIn source flowEntry := by
  mvcgen [flowEntry, allowKey]

@[spec] theorem openBlock_spec (t : Token) : ScansIn source (openBlock t) := by
  mvcgen [openBlock, emit]
  exact .malformed

@[spec] theorem blockEntry_spec : ScansIn source blockEntry := by
  mvcgen [blockEntry, allowKey]

@[spec] theorem key_spec : ScansIn source key := by
  mvcgen [key, allowKey]

@[spec] theorem value_spec : ScansIn source value := by
  mvcgen [value, forgetKey, insert, allowKey]

@[spec] theorem simple_spec {lexeme : Read α} (h : ReadsIn source lexeme) (t : α → Token) :
    ScansIn source (simple lexeme t) := by
  mvcgen [simple, allowKey, emit, h]

@[spec] theorem blockScalar_spec (folded : Bool) : ScansIn source (blockScalar folded) := by
  mvcgen [blockScalar, allowKey, emit]

@[spec] theorem plainScalar_spec : ScansIn source plainScalar := by
  mvcgen [plainScalar, allowKey, emit]

@[spec] theorem standsAlone_spec : ScansIn source standsAlone := by
  mvcgen [standsAlone]

@[spec] theorem atPlain_spec (ch : Char) : ScansIn source (atPlain ch) := by
  mvcgen [atPlain]

@[spec] theorem atDivider_spec (mark : Char) : ScansIn source (atDivider mark) := by
  mvcgen [atDivider]

@[spec] theorem atPairMark_spec : ScansIn source atPairMark := by
  mvcgen [atPairMark]

@[spec] theorem plainToken_spec (ch : Char) : ScansIn source (plainToken ch) := by
  mvcgen [plainToken]
  exact .malformed

@[spec] theorem token_spec (ch : Char) : ScansIn source (token ch) := by
  mvcgen [token]

@[spec] theorem advance_spec : ScansIn source advance := by
  mvcgen [advance]

@[spec] theorem needsMore_spec : ScansIn source needsMore := by
  mvcgen [needsMore]

@[spec] theorem prepare_spec (limit : Nat) : ScansIn source (prepare limit) := by
  induction limit with
  | zero => mvcgen [prepare]
  | succ limit ih => mvcgen [prepare, ih]

@[spec] theorem peek_spec : ScansIn source peek := by
  mvcgen [peek]

end Scanner

/-! ## The builder of a graph -/

/-- The builder stands in a source. -/
def Builder.Within (source : Source) (b : Builder) : Prop := b.scanner.Within source

/-- Builds on in a source, and fails only with a fault of it. -/
abbrev BuildsIn (source : Source) (act : Builder.Build α) : Prop :=
  Keeps (Builder.Within source) source.Refuses act

namespace Builder

@[spec] theorem scan_spec {x : Scan α} (h : ScansIn source x) : BuildsIn source (scan x) := by
  apply Keeps.lift scanner (fun b s ↦ { b with scanner := s }) h fun _ _ ↦ rfl
  intro b
  unfold scan
  simp only [StateT.run_bind, StateT.run_get, pure_bind]
  cases x.run b.scanner <;> rfl

@[spec] theorem malformed_spec {result : α → Assertion (.arg Builder (.except LoadFault .pure))} :
    ⦃fun _ ↦ ⌜True⌝⦄ (@malformed α) ⦃(result, fun f ↦ ⌜source.Refuses f⌝, ())⦄ := by
  mvcgen [malformed]
  exact .malformed

@[spec] theorem peek_spec : BuildsIn source peek := by
  mvcgen [peek]

@[spec] theorem drop_spec : BuildsIn source drop := by
  mvcgen [drop, Scanner.drop]

@[spec] theorem nextIs_spec (p : Token → Bool) : BuildsIn source (nextIs p) := by
  mvcgen [nextIs]

@[spec] theorem expect_spec (p : Token → Bool) : BuildsIn source (expect p) := by
  mvcgen [expect]

@[spec] theorem accept_spec (p : Token → Bool) : BuildsIn source (accept p) := by
  mvcgen [accept]

@[spec] theorem addNode_spec (node : Node) : BuildsIn source (addNode node) := by
  mvcgen [addNode]

@[spec] theorem setNode_spec (id : NodeId) (node : Node) : BuildsIn source (setNode id node) := by
  mvcgen [setNode]

@[spec] theorem emptyScalar_spec : BuildsIn source emptyScalar := by
  mvcgen [emptyScalar]

@[spec] theorem anchor?_spec : BuildsIn source anchor? := by
  mvcgen [anchor?]

@[spec] theorem tag?_spec : BuildsIn source tag? := by
  mvcgen [tag?]

@[spec] theorem properties_spec : BuildsIn source properties := by
  mvcgen [properties]

@[spec] theorem tagText_spec (mark : Option TagMark) : BuildsIn source (tagText mark) := by
  mvcgen [tagText]

@[spec] theorem checkAnchor_spec (anchor : Option String) :
    BuildsIn source (checkAnchor anchor) := by
  mvcgen [checkAnchor]

@[spec] theorem addAnchored_spec (anchor : Option String) (node : Node) :
    BuildsIn source (addAnchored anchor node) := by
  mvcgen [addAnchored]

/-- Nodes, and the members of collections, are built within a limit. -/
structure BuildsWithin (source : Source) (limit : Nat) : Prop where
  node : ∀ block indentless, BuildsIn source (node limit block indentless)
  nodeUnless : ∀ stop block indentless, BuildsIn source (nodeUnless limit stop block indentless)
  blockItems : BuildsIn source (blockItems limit)
  indentlessItems : BuildsIn source (indentlessItems limit)
  blockPairs : BuildsIn source (blockPairs limit)
  flowItems : ∀ first, BuildsIn source (flowItems limit first)
  flowPairs : ∀ first, BuildsIn source (flowPairs limit first)

section Step

variable {limit : Nat}

theorem node_step (h : BuildsWithin source limit) (block indentless : Bool) :
    BuildsIn source (Builder.node (limit + 1) block indentless) := by
  obtain ⟨-, -, hblockItems, hindentless, hblockPairs, hflowItems, hflowPairs⟩ := h
  mvcgen [Builder.node, hblockItems, hindentless, hblockPairs, hflowItems, hflowPairs]

theorem nodeUnless_step (h : BuildsWithin source limit) (stop : Token → Bool)
    (block indentless : Bool) :
    BuildsIn source (Builder.nodeUnless (limit + 1) stop block indentless) := by
  have hnode := h.node
  mvcgen [Builder.nodeUnless, hnode]

theorem blockItems_step (h : BuildsWithin source limit) :
    BuildsIn source (Builder.blockItems (limit + 1)) := by
  have hnode := h.nodeUnless
  have hitems := h.blockItems
  mvcgen [Builder.blockItems, hnode, hitems]

theorem indentlessItems_step (h : BuildsWithin source limit) :
    BuildsIn source (Builder.indentlessItems (limit + 1)) := by
  have hnode := h.nodeUnless
  have hitems := h.indentlessItems
  mvcgen [Builder.indentlessItems, hnode, hitems]

theorem blockPairs_step (h : BuildsWithin source limit) :
    BuildsIn source (Builder.blockPairs (limit + 1)) := by
  have hnode := h.nodeUnless
  have hpairs := h.blockPairs
  mvcgen [Builder.blockPairs, hnode, hpairs]

theorem flowItems_step (h : BuildsWithin source limit) (first : Bool) :
    BuildsIn source (Builder.flowItems (limit + 1) first) := by
  obtain ⟨hnode, hnodeUnless, -, -, -, hitems, -⟩ := h
  mvcgen [Builder.flowItems, hnode, hnodeUnless, hitems]

theorem flowPairs_step (h : BuildsWithin source limit) (first : Bool) :
    BuildsIn source (Builder.flowPairs (limit + 1) first) := by
  obtain ⟨hnode, hnodeUnless, -, -, -, -, hpairs⟩ := h
  mvcgen [Builder.flowPairs, hnode, hnodeUnless, hpairs]

end Step

theorem buildsWithin (limit : Nat) : BuildsWithin source limit := by
  induction limit with
  | zero =>
      constructor <;> intros
      · mvcgen [Builder.node]
      · mvcgen [Builder.nodeUnless]
      · mvcgen [Builder.blockItems]
      · mvcgen [Builder.indentlessItems]
      · mvcgen [Builder.blockPairs]
      · mvcgen [Builder.flowItems]
      · mvcgen [Builder.flowPairs]
  | succ limit ih =>
      exact {
        node := node_step ih
        nodeUnless := nodeUnless_step ih
        blockItems := blockItems_step ih
        indentlessItems := indentlessItems_step ih
        blockPairs := blockPairs_step ih
        flowItems := flowItems_step ih
        flowPairs := flowPairs_step ih }

@[spec] theorem node_spec (limit : Nat) (block indentless : Bool) :
    BuildsIn source (node limit block indentless) :=
  (buildsWithin limit).node block indentless

@[spec] theorem directives_spec (limit : Nat) (versioned : Bool) :
    BuildsIn source (directives limit versioned) := by
  induction limit generalizing versioned with
  | zero => mvcgen [directives]
  | succ limit ih => mvcgen [directives, ih]

@[spec] theorem explicitDocument_spec (limit : Nat) : BuildsIn source (explicitDocument limit) := by
  mvcgen [explicitDocument]

@[spec] theorem documentEnds_spec (limit : Nat) : BuildsIn source (documentEnds limit) := by
  induction limit with
  | zero => mvcgen [documentEnds]
  | succ limit ih => mvcgen [documentEnds, ih]

@[spec] theorem endOfText_spec (limit : Nat) : BuildsIn source (endOfText limit) := by
  mvcgen [endOfText]

@[spec] theorem document_spec (limit : Nat) : BuildsIn source (document limit) := by
  mvcgen [document]

end Builder

theorem Cursor.start_within (source : Source) : (Cursor.start source).Within source :=
  ⟨List.suffix_rfl, rfl⟩

/-- No graph is built only where a source is at fault. -/
theorem Graph.ofSource_refuses {f : LoadFault} (h : Graph.ofSource source = .error f) :
    source.Refuses f := by
  have hdocument := triple_iff_runs.mp (Builder.document_spec (16 * source.chars.length + 16))
    { scanner := .start source, nodes := #[], anchors := [], handles := Builder.standardHandles }
    (Cursor.start_within source)
  unfold Graph.ofSource at h
  cases hrun : (Builder.document (16 * source.chars.length + 16)).run
      { scanner := .start source, nodes := #[], anchors := [],
        handles := Builder.standardHandles } with
  | ok p =>
      simp only [hrun] at h
      cases h
  | error f' =>
      simp only [hrun] at h
      cases h
      exact hdocument.2 f hrun

end LayeredConfig.Yaml
