import LayeredConfig.Proofs.Members
import LayeredConfig.Proofs.Resolver.History
import LayeredConfig.Proofs.Tree
import Mathlib.Data.List.Chain
import Mathlib.Logic.Relation

/-!
# Cycles that are reported

A path demands another one when its visit asks for it, as the document alone
tells.  Each pending path is demanded by the one that was entered before it, so
a path that is met while it is pending stands at the start of a chain of demands
that leads back to it.  The chain in the report is that chain.
-/

namespace LayeredConfig

/-- A reference to the path is in a part of the value that is resolved where it
stands. -/
inductive Value.Refers : Value → Path → Prop
  | substitution (r : Reference) : Refers (.substitution r) (Path.ofText r.path)
  | element {elements : List Value} {v : Value} {q : Path} (hv : v ∈ elements) (h : Refers v q) :
      Refers (.array elements) q
  | fragment {fragments : List Value} {v : Value} {q : Path} (hv : v ∈ fragments)
      (h : Refers v q) : Refers (.concatenation fragments) q
  | override (default : Value) (r : Reference) :
      Refers (.alternative default r) (Path.ofText r.path)
  | default {default : Value} {q : Path} (h : Refers default q) (r : Reference) :
      Refers (.alternative default r) q
  | member {members : List (Text × Value)} {entry : Text × Value} {q : Path}
      (hentry : entry ∈ members) (h : Refers entry.2 q) : Refers (.object members) q

/-- The visit of the first path asks for the second one. -/
inductive Demands : Value → Path → Path → Prop
  /-- A member that a path can name, of the object that stands there. -/
  | member {members inner : Members Text Value} {p : Path} {key : String}
      (hp : Value.walk members p = .ok (some (.object inner))) (hkey : key ∈ inner.keys)
      (hplain : Path.isPlainKey key = true) : Demands (.object members) p (p ++ [key])
  /-- A reference in a member that no path can name. -/
  | hidden {members inner : Members Text Value} {p q : Path} {entry : Text × Value}
      (hp : Value.walk members p = .ok (some (.object inner))) (hentry : entry ∈ inner)
      (hplain : Path.isPlainKey entry.1.content = false) (h : entry.2.Refers q) :
      Demands (.object members) p q
  /-- A reference in another value that stands there. -/
  | inPlace {members : Members Text Value} {p q : Path} {v : Value}
      (hp : Value.walk members p = .ok (some v)) (hv : v.isObject = false) (h : v.Refers q) :
      Demands (.object members) p q
  /-- A reference on the way. -/
  | redirect {members : Members Text Value} {before rest : Path} {r : Reference}
      (hbefore : before ≠ []) (hrest : rest ≠ [])
      (hwalk : Value.walk members before = .ok (some (.substitution r))) :
      Demands (.object members) (before ++ rest) (Path.ofText r.path ++ rest)
  /-- A value on the way that is resolved first. -/
  | through {members : Members Text Value} {place rest : Path} {v : Value} (hplace : place ≠ [])
      (hrest : rest ≠ []) (hwalk : Value.walk members place = .ok (some v))
      (hkind : v.kind = .concatenation ∨ v.kind = .alternative) :
      Demands (.object members) (place ++ rest) place

namespace Value

/-- Without a place everything is resolved where it stands. -/
theorem refers_of_mem_asks {v : Value} {p : Path} (hp : p ∈ v.asks none) : v.Refers p := by
  induction v using tree_induction with
  | object members ih =>
      rw [asks, mem_memberAsks] at hp
      obtain ⟨entry, hentry, hasks⟩ := hp
      exact .member hentry (ih entry hentry hasks)
  | array elements ih =>
      rw [asks, mem_itemAsks] at hp
      obtain ⟨v, hv, hasks⟩ := hp
      exact .element hv (ih v hv hasks)
  | substitution r =>
      rw [asks, List.mem_singleton] at hp
      rw [hp]
      exact .substitution r
  | concatenation fragments ih =>
      rw [asks, mem_itemAsks] at hp
      obtain ⟨v, hv, hasks⟩ := hp
      exact .fragment hv (ih v hv hasks)
  | alternative default override ih =>
      rw [asks, List.mem_cons] at hp
      rcases hp with rfl | hp
      · exact .override default override
      · exact .default (ih hp) override
  | scalar v hscalar =>
      rw [asks_of_isScalar hscalar] at hp
      cases hp

theorem mem_memberAsks_cases {members : Members Text Value} {place p : Path}
    (hp : p ∈ memberAsks (some place) members) :
    (∃ key ∈ members.keys, Path.isPlainKey key = true ∧ p = place ++ [key]) ∨
      ∃ entry ∈ members, Path.isPlainKey entry.1.content = false ∧ entry.2.Refers p := by
  obtain ⟨entry, hentry, hasks⟩ := mem_memberAsks.mp hp
  cases hkey : Path.isPlainKey entry.1.content with
  | true =>
      rw [memberAsk_plain hkey, List.mem_singleton] at hasks
      exact Or.inl ⟨entry.1.content, List.mem_map_of_mem hentry, hkey, hasks⟩
  | false =>
      rw [memberAsk_inPlace (Or.inr hkey)] at hasks
      exact Or.inr ⟨entry, hentry, hkey, refers_of_mem_asks hasks⟩

end Value

namespace Resolver

/-- What the visit of a path asks for, the path demands. -/
theorem demands_of_mem_asks {task : Task} {p q : Path} (hq : q ∈ task.asks p) :
    Demands task.root p q := by
  obtain ⟨members, hroot, -, ⟨v, hd, hv⟩ | hd | ⟨rest, hd⟩⟩ := Task.mem_asks_cases hq
  · rw [hroot]
    have hwalk := Value.demand_eq_node_iff.mp hd
    cases hobject : v.isObject with
    | false =>
        rw [Value.asks_of_not_object hobject] at hv
        exact .inPlace hwalk hobject (Value.refers_of_mem_asks hv)
    | true =>
        obtain ⟨inner, rfl⟩ := Value.exists_object hobject
        rw [Value.asks] at hv
        rcases Value.mem_memberAsks_cases hv with ⟨key, hkey, hplain, rfl⟩ |
          ⟨entry, hentry, hplain, hrefers⟩
        · exact .member hwalk hkey hplain
        · exact .hidden hwalk hentry hplain hrefers
  · rw [hroot]
    obtain ⟨before, r, rest, hbefore, hrest, rfl, hwalk, rfl⟩ := Value.demand_redirect_cases hd
    exact .redirect hbefore hrest hwalk
  · rw [hroot]
    obtain ⟨hplace, hrest, rfl, v, hwalk, -⟩ := Value.demand_through_cases hd
    exact .through hplace hrest hwalk (Value.kind_of_through hd hwalk)

/-! ## Where cycles are reported -/

/-- Every outcome keeps the invariant, and every failure has the property. -/
def Raises {α : Type} (I : Session → Prop) (P : Fault → Prop) (x : Action α) : Prop :=
  ∀ s r t, I s → x.runIn s = some (r, t) → I t ∧ ∀ f, r = .error f → P f

/-- A failure that is a cycle comes from a lookup. -/
theorem Consults.raises {α : Type} {catches : Prop} {asked : Path → Prop} {I : Session → Prop}
    {P : Fault → Prop} {act : (Path → Action (Option Value)) → Action α}
    {lookup : Path → Action (Option Value)} (h : Consults catches asked act)
    (hrecord : ∀ s e, I s → I (s.record e)) (hP : ∀ f, f.isCyclic = false → P f)
    (hlookup : ∀ p, asked p → Raises I P (lookup p)) : Raises I P (act lookup) := by
  induction h with
  | pure a =>
      intro s r t hs hrun
      cases hrun
      exact ⟨hs, fun f hf ↦ by cases hf⟩
  | throw f hf =>
      intro s r t hs hrun
      cases hrun
      exact ⟨hs, fun g hg ↦ by cases hg; exact hP f hf⟩
  | record e =>
      intro s r t hs hrun
      cases hrun
      exact ⟨hrecord s e hs, fun f hf ↦ by cases hf⟩
  | lookup hp => exact hlookup _ hp
  | bind _ _ ihx ihf =>
      intro s r t hs hrun
      rcases Action.runIn_bind_cases hrun with ⟨e, hxe, rfl⟩ | ⟨a, u, hxa, hfa⟩
      · obtain ⟨ht, he⟩ := ihx s _ t hs hxe
        exact ⟨ht, fun f hf ↦ by cases hf; exact he e rfl⟩
      · exact ihf a u r t (ihx s _ u hs hxa).1 hfa
  | outcome _ _ ihx =>
      intro s r t hs hrun
      obtain ⟨q, hq, rfl⟩ := Action.runIn_outcome_cases hrun
      exact ⟨(ihx s q t hs hq).1, fun f hf ↦ by cases hf⟩

/-- The first path demands the second one, both by their texts. -/
abbrev DemandsAt (root : Value) (p q : String) : Prop :=
  Demands root (Path.ofText p) (Path.ofText q)

/-- The chain starts at the path, holds nothing twice, and goes from demand to
demand back to the path. -/
structure ClosesCycle (root : Value) (path : String) (chain : List String) : Prop where
  starts : chain.head? = some path
  distinct : chain.Nodup
  demands : List.IsChain (DemandsAt root) (chain ++ [path])

/-- If the failure is a cycle, it is a cycle of demands. -/
def Fault.IsReal (root : Value) : Fault → Prop
  | .cyclic path chain => ClosesCycle root path chain
  | _ => True

theorem Fault.isReal_of_not_cyclic {root : Value} {f : Fault} (hf : f.isCyclic = false) :
    f.IsReal root := by
  cases f with
  | cyclic path chain => cases hf
  | unresolved | traversal | unjoinable => trivial

section Pending

variable {root : Value} {path : Path} {pending : List Path}

/-- The pending paths, innermost first, each of them demanded by the next. -/
structure Chained (root : Value) (pending : List Path) : Prop where
  written : ∀ p ∈ pending, p.Written
  demands : List.IsChain (fun inner outer ↦ Demands root outer inner) pending

theorem takeWhile_append_self (h : path ∈ pending) :
    pending.takeWhile (· ≠ path) ++ [path] <+: pending := by
  induction pending with
  | nil => cases h
  | cons p rest ih =>
      by_cases hp : p = path
      · subst hp
        simp
      · have hrest : path ∈ rest := (List.mem_cons.mp h).resolve_left fun heq ↦ hp heq.symm
        rw [List.takeWhile_cons_of_pos (by simpa using hp), List.cons_append]
        exact List.cons_prefix_cons.mpr ⟨rfl, ih hrest⟩

/-- A pending path that is demanded once more closes a cycle. -/
theorem Chained.closesCycle (h : Chained root (path :: pending)) (hnodup : pending.Nodup)
    (hpath : path ∈ pending) {s : Session} (hs : s.pending = pending) :
    ClosesCycle root (Path.text path) ((s.chainFrom path).map Path.text) := by
  have hfront := takeWhile_append_self hpath
  rw [Session.chainFrom, hs]
  generalize hinner : pending.takeWhile (· ≠ path) = inner at hfront ⊢
  have hwritten : ∀ p ∈ inner ++ [path], p.Written := fun p hp ↦
    h.written p (List.mem_cons_of_mem path (hfront.subset hp))
  have hreverse : ∀ p ∈ (inner ++ [path]).reverse ++ [path], p.Written := by
    intro p hp
    apply hwritten p
    rcases List.mem_append.mp hp with hp | hp
    · exact List.mem_reverse.mp hp
    · exact List.mem_append_right inner hp
  refine ⟨by simp, ?_, ?_⟩
  · apply Path.map_text_nodup fun p hp ↦ hwritten p (List.mem_reverse.mp hp)
    exact List.nodup_reverse.mpr (hnodup.sublist hfront.sublist)
  · have hchain : List.IsChain (fun inner outer ↦ Demands root outer inner)
        (path :: (inner ++ [path])) :=
      h.demands.prefix (List.cons_prefix_cons.mpr ⟨rfl, hfront⟩)
    have htexts : (inner ++ [path]).reverse.map Path.text ++ [Path.text path] =
        ((inner ++ [path]).reverse ++ [path]).map Path.text := by
      rw [List.map_append, List.map_singleton]
    rw [htexts, ← List.isChain_map Path.ofText (R := Demands root), Path.map_ofText_text hreverse,
      ← List.reverse_cons, List.isChain_reverse]
    exact hchain

/-- A lookup of a demanded path reports real cycles only. -/
theorem lookupWithin_raises {task : Task} (depth : Nat) (hnodup : pending.Nodup)
    (h : Chained task.root (path :: pending)) :
    Raises (fun s ↦ s.pending = pending) (Fault.IsReal task.root)
      (lookupWithin task depth path) := by
  induction depth generalizing path pending with
  | zero =>
      intro s r t _ hrun
      simp [lookupWithin] at hrun
  | succ depth ih =>
      rintro s r t hs hrun
      rcases visit_cases hrun with ⟨found, _, rfl, rfl⟩ | ⟨hpending, rfl, rfl⟩ |
        ⟨_, hnotin, u, hu, rfl⟩
      · exact ⟨hs, fun f hf ↦ by cases hf⟩
      · refine ⟨hs, fun f hf ↦ ?_⟩
        cases hf
        exact h.closesCycle hnodup (hs ▸ hpending) hs
      · rw [hs] at hnotin
        have hconsults : Consults True (· ∈ task.asks path) fun lookup ↦ compute task lookup path :=
          compute_consults task path (fun _ hp ↦ hp) (Or.inr trivial)
        have hraises := hconsults.raises (P := Fault.IsReal task.root)
          (I := fun s ↦ s.pending = path :: pending) (fun _ _ hs ↦ hs)
          (fun _ ↦ Fault.isReal_of_not_cyclic) fun q hq ↦ by
            apply ih (List.nodup_cons.mpr ⟨hnotin, hnodup⟩)
            refine ⟨?_, List.isChain_cons_cons.mpr ⟨demands_of_mem_asks hq, h.demands⟩⟩
            intro p hp
            rcases List.mem_cons.mp hp with rfl | hp
            · exact task.asks_written (h.written path List.mem_cons_self).2 p hq
            · exact h.written p hp
        have henter : (s.enter path).pending = path :: pending := by rw [Session.pending_enter, hs]
        obtain ⟨hu', hreal⟩ := hraises _ _ _ henter hu
        have hclose : (u.close path r).pending = pending := by
          rw [Session.pending_close, hu', List.tail_cons]
        exact ⟨hclose, hreal⟩

end Pending

theorem Chained.singleton {root : Value} {path : Path} (h : path.Written) :
    Chained root [path] :=
  ⟨fun p hp ↦ by rwa [List.mem_singleton.mp hp], List.isChain_singleton path⟩

/-- A chain of demands back to its start makes the start demand itself. -/
theorem ClosesCycle.transGen {root : Value} {path : String} {chain : List String}
    (h : ClosesCycle root path chain) : Relation.TransGen (DemandsAt root) path path := by
  obtain ⟨first, rest, rfl⟩ : ∃ first rest, chain = first :: rest := by
    cases chain with
    | nil => cases h.starts
    | cons first rest => exact ⟨first, rest, rfl⟩
  obtain rfl : first = path := by simpa using h.starts
  have hchain := h.demands
  rw [List.cons_append] at hchain
  suffices H : ∀ (rest : List String) (p : String),
      List.IsChain (DemandsAt root) (p :: (rest ++ [first])) →
        Relation.TransGen (DemandsAt root) p first from H rest first hchain
  intro rest
  induction rest with
  | nil =>
      intro p hp
      exact .single (List.isChain_cons_cons.mp hp).1
  | cons q rest ih =>
      intro p hp
      obtain ⟨hpq, hq⟩ := List.isChain_cons_cons.mp hp
      exact .head hpq (ih q hq)

/-- Every cycle that is reported, after any steps on the session, is a cycle of
demands, and a document without such a cycle has none reported. -/
theorem cyclic_closesCycle {task : Task} {s : Session} (hs : Reaches task .empty s) :
    (∀ depth p path chain t, (resolvePath task depth p).runIn s =
      some (.error (.cyclic path chain), t) → ClosesCycle task.root path chain) ∧
    (∀ depth path chain t, (resolveDocument task depth).runIn s =
      some (.error (.cyclic path chain), t) → ClosesCycle task.root path chain) ∧
    ((∀ path, ¬ Relation.TransGen (DemandsAt task.root) path path) →
      ∀ depth path chain t,
        (∀ p, (resolvePath task depth p).runIn s ≠ some (.error (.cyclic path chain), t)) ∧
        (resolveDocument task depth).runIn s ≠ some (.error (.cyclic path chain), t)) := by
  have hpending : s.pending = [] := hs.extends.pending
  have hpath : ∀ depth p path chain t, (resolvePath task depth p).runIn s =
      some (.error (.cyclic path chain), t) → ClosesCycle task.root path chain := by
    intro depth p path chain t hrun
    have hchained : Chained task.root [Path.ofText p] := .singleton (Path.ofText_written p)
    exact (lookupWithin_raises depth List.nodup_nil hchained s _ t hpending hrun).2 _ rfl
  have hdocument : ∀ depth path chain t, (resolveDocument task depth).runIn s =
      some (.error (.cyclic path chain), t) → ClosesCycle task.root path chain := by
    intro depth path chain t hrun
    rw [resolveDocument, resolveRoot_runIn] at hrun
    obtain ⟨⟨q, u⟩, hu, hq⟩ := Option.map_eq_some_iff.mp hrun
    cases q with
    | ok found => cases hq
    | error fault =>
        cases hq
        have hconsults : Consults True Path.Written fun lookup ↦
            resolveNode task.lenient lookup task.root (some []) :=
          resolveNode_consults task.root (some [])
            (Value.asks_written task.root (some []) (by simp)) (Or.inr trivial)
        have hraises := hconsults.raises (P := Fault.IsReal task.root)
          (I := fun s ↦ s.pending = []) (fun _ _ hs ↦ hs)
          (fun _ ↦ Fault.isReal_of_not_cyclic) fun p hp ↦
            lookupWithin_raises depth List.nodup_nil (.singleton hp)
        exact (hraises s _ u hpending hu).2 _ rfl
  refine ⟨hpath, hdocument, ?_⟩
  intro hnone depth path chain t
  exact ⟨fun p hrun ↦ hnone path (hpath depth p path chain t hrun).transGen,
    fun hrun ↦ hnone path (hdocument depth path chain t hrun).transGen⟩

/-- A member that refers to itself behind another one. -/
def detour : Members Text Value :=
  [(⟨"a", false⟩, .substitution ⟨"b", false⟩), (⟨"b", false⟩, .array [.substitution ⟨"a", true⟩])]

theorem cyclic_closesCycle_detour :
    ∃ s, (resolvePath ⟨.object detour, false⟩ 3 "a").runIn .empty =
        some (.error (.cyclic "a" ["a", "b"]), s) ∧
      ClosesCycle (.object detour) "a" ["a", "b"] ∧
      ∃ t, (resolveDocument ⟨.object detour, false⟩ 3).runIn s =
          some (.error (.cyclic "a" ["a", "b"]), t) ∧
        ClosesCycle (.object detour) "a" ["a", "b"] := by
  obtain ⟨s, hs⟩ : ∃ s, (resolvePath ⟨.object detour, false⟩ 3 "a").runIn .empty =
      some (.error (.cyclic "a" ["a", "b"]), s) := ⟨_, rfl⟩
  obtain ⟨t, ht⟩ : ∃ t, (resolveDocument ⟨.object detour, false⟩ 3).runIn s =
      some (.error (.cyclic "a" ["a", "b"]), t) := by
    cases hs
    exact ⟨_, rfl⟩
  have hstart : Reaches ⟨.object detour, false⟩ .empty .empty := .refl
  obtain ⟨hpath, -⟩ := cyclic_closesCycle hstart
  obtain ⟨-, hdocument, -⟩ := cyclic_closesCycle (.path .refl hs)
  exact ⟨s, hs, hpath 3 "a" _ _ s hs, t, ht, hdocument 3 _ _ t ht⟩

end Resolver

end LayeredConfig
