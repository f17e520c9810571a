import LayeredConfig.Proofs.Yaml.Spans

/-!
# Data of nodes

Each node becomes data of itself, within whatever limit.  A collection is filled
with data of the nodes that it is made of.
-/

namespace LayeredConfig.Yaml

variable {g : Graph} {id : NodeId}

theorem PartOf.valueOf_makes {d : Datum} (h : PartOf g id d) :
    Makes g (Store.valueOf d) (MadeFrom (Below g id) g) := by
  obtain ⟨part, hpart, hd⟩ := h
  apply (Yaml.valueOf_makes hd).mono
  intro v hv
  exact hv.mono fun i hi ↦ hpart.trans_left hi

namespace Store

/-! ## Scalars -/

theorem liftScalar_gives {α : Type} {E : ScalarFault → Prop} {F : LoadFault → Prop}
    {P : α → Prop} {x : Except ScalarFault α} (hx : Yields E x P) (hE : ∀ f, E f → F (.scalar f)) :
    Gives (Faithful g) F (liftScalar x) P := by
  unfold liftScalar
  split
  · exact gives_pure (hx.ok _ rfl)
  · exact gives_throw (hE _ (hx.error _ rfl))

/-- The text of a node that has a tag, read by the reader of that tag. -/
theorem readText_makes {α β : Type} {tag : String} {read : String → Except ScalarFault α}
    {text : Make String} {next : α → Make β} {P : β → Prop} (htag : HasTag g id tag)
    (hmisreads : ∀ t f, read t = .error f → Misreads tag t f) (htext : Makes g text (TextAt g id))
    (hnext : ∀ t a, TextAt g id t → read t = .ok a → Makes g (next a) P) :
    Makes g (do next (← liftScalar (read (← text)))) P := by
  apply htext.bind
  intro t ht
  have hread : Yields (Escapes g) (read t) fun a ↦ read t = .ok a :=
    ⟨fun _ ha ↦ ha, fun f hf ↦ .misread htag ht (hmisreads t f hf)⟩
  exact (liftScalar_gives hread fun _ ↦ .escape).bind fun a ha ↦ hnext t a ht ha

theorem binary_yields (text : String) :
    Yields (Admits g) (CoreScalar.binary text) fun _ ↦ True := by
  unfold CoreScalar.binary
  split
  · exact yields_error (.problem _)
  · split
    · exact yields_ok trivial
    · exact yields_error (.problem _)

theorem numberAt_makes {f : Format} (x : Binary f) :
    Makes g (numberAt id x) fun y ↦ ∃ origin, y = x.withOrigin origin := by
  unfold numberAt
  apply gives_get.bind
  intro s _
  exact gives_pure ⟨_, rfl⟩

theorem singleOf_makes (text : String) :
    Makes g (singleOf id text) fun v ↦ Reads g id (.node v) := by
  unfold singleOf
  split
  · apply (numberAt_makes _).bind
    intro x _
    exact gives_pure (.single x)
  · exact makes_problem _

theorem gathers_of_emptyContent {node : Node} {c : Content} (h : NodeAt g id node)
    (hc : emptyContent? node.tag = some c) : Gathers g id := by
  refine ⟨node.tag, h.hasTag fun hstring ↦ ?_, .inl (Option.isSome_of_mem hc)⟩
  rw [hstring] at hc
  cases hc

theorem emptyContent_contentOf {tag : String} {c : Content} (hc : emptyContent? tag = some c) :
    ContentOf g id c := by
  unfold emptyContent? at hc
  split_ifs at hc <;> cases hc
  · exact List.forall_mem_nil _
  · exact List.forall_mem_nil _
  · exact trivial
  · exact List.forall_mem_nil _

theorem addPair_keeps {pair : Datum × Datum} (hfirst : PartOf g id pair.1)
    (hsecond : PartOf g id pair.2) : Keeps (Faithful g) (Admits g) (addPair id pair) := by
  apply Gives.keeps
  unfold addPair
  apply gives_get.bind
  intro s hs
  split
  · next ps hcontent =>
    have hps : ContentOf g id (.pairs (ps ++ [pair])) := by
      intro p hp
      rcases List.mem_append.mp hp with hp | hp
      · exact hs.contents _ _ hcontent p hp
      · rw [List.mem_singleton.mp hp]
        exact ⟨hfirst, hsecond⟩
    exact (setContent_keeps hps).gives
  · have hpair : ContentOf g id (.pairs [pair]) := by
      intro p hp
      rw [List.mem_singleton.mp hp]
      exact ⟨hfirst, hsecond⟩
    exact (setContent_keeps hpair).gives

/-! ## Making -/

/-- What is made within a limit is data of the node that it is made for. -/
structure MakesData (g : Graph) (limit : Nat) : Prop where
  make : ∀ deep id, Makes g (make limit deep id) (DatumOf g id)
  makeNew : ∀ deep id, Makes g (makeNew limit deep id) (DatumOf g id)
  makeConcatenation : ∀ id, HasTag g id "!concat" →
    Makes g (makeConcatenation limit id) fun v ↦ Reads g id (.node v)
  makeAlternative : ∀ id, HasTag g id "!alt" →
    Makes g (makeAlternative limit id) fun v ↦ Reads g id (.node v)
  makeDuration : ∀ id, HasTag g id "!duration" → Gives (Faithful g)
    (fun f ↦ Admits g f ∨ ∃ s, f = .scalar s ∧ IsSpanProblem s) (makeDuration limit id)
    fun n ↦ Numeral.isOverlong n = false
  makeEntries : ∀ deep id, Makes g (makeEntries limit deep id) fun es ↦ ∀ e ∈ es, EntryOf g id e
  makeOrdered : ∀ deep id,
    Makes g (makeOrdered limit deep id) fun p ↦ PartOf g id p.1 ∧ PartOf g id p.2
  fill : ∀ deep id, Makes g (fill limit deep id) fun _ ↦ True

section Step

variable {limit : Nat}

theorem make_step (h : MakesData g limit) (deep : Bool) (id : NodeId) :
    Makes g (make (limit + 1) deep id) (DatumOf g id) := by
  unfold make
  apply gives_get.bind
  intro s hs
  split
  · next d hmade => exact gives_pure (hs.made _ _ hmade)
  · apply gives_get.bind
    intro s _
    -- What follows the check, whether it fails or not.
    extract_lets making
    have hmaking : ∀ u, Makes g (making u) (DatumOf g id) := by
      intro u
      apply (keeps_modify fun s hs ↦ hs.setMaking _).bind
      intro _
      apply (h.makeNew deep id).bind
      intro d hd
      apply (keeps_modify fun s hs ↦ (hs.setMade hd).setMaking _).bind
      intro _
      exact gives_pure hd
    split
    · exact (makes_problem (P := fun _ ↦ True) _).bind fun u _ ↦ hmaking u
    · exact hmaking ()

theorem makeConcatenation_step (h : MakesData g limit) (htag : HasTag g id "!concat") :
    Makes g (makeConcatenation (limit + 1) id) fun v ↦ Reads g id (.node v) := by
  unfold makeConcatenation
  apply (nodeOf_makes id).bind
  intro node hnode
  split
  · next tag items =>
    have hparts : Makes g (items.mapM (make limit true)) fun ds ↦ ∀ d ∈ ds, PartOf g id d := by
      apply mapM_gives_all
      intro item hitem
      apply (h.make true item).mono
      intro d hd
      exact ⟨item, hnode.below_item hitem, hd⟩
    apply hparts.bind
    intro ds hds
    extract_lets joined
    have hjoined : ∀ u, Makes g (joined u) fun v ↦ Reads g id (.node v) := by
      intro u
      apply (mapM_gives_all fun d hd ↦ (hds d hd).valueOf_makes).bind
      intro vs hvs
      exact gives_pure (.concatenation htag hvs)
    split
    · exact (makes_problem (P := fun _ ↦ True) _).bind fun u _ ↦ hjoined u
    · exact hjoined ()
  · exact makes_problem _

theorem makeEntries_step (h : MakesData g limit) (deep : Bool) (id : NodeId) :
    Makes g (makeEntries (limit + 1) deep id) fun es ↦ ∀ e ∈ es, EntryOf g id e := by
  unfold makeEntries
  apply (nodeOf_makes id).bind
  intro node hnode
  split
  -- The pairs are taken after merging; the store still has them from the graph.
  · apply gives_get.bind
    intro s _
    apply ((merges _).flatten id).bind
    intro _ _
    apply (pairsOf_makes id).bind
    intro pairs? hpairs
    refine foldlM_gives (fun es hes pair hpair ↦ ?_) (List.forall_mem_nil _)
    obtain ⟨key, value⟩ := pair
    apply (h.make deep key).bind
    intro keyDatum hkeyDatum
    apply (keyOf_makes hkeyDatum).bind
    intro k hk
    apply (h.make deep value).bind
    intro d hd
    exact putEntry_makes hk (hpairs _ hpair) hd hes
  · exact makes_problem _

theorem makeOrdered_step (h : MakesData g limit) (deep : Bool) (id : NodeId) :
    Makes g (makeOrdered (limit + 1) deep id) fun p ↦ PartOf g id p.1 ∧ PartOf g id p.2 := by
  unfold makeOrdered
  apply (nodeOf_makes id).bind
  intro node hnode
  split
  · next tag key value =>
    obtain ⟨hkey, hvalue⟩ := (hnode.pairs rfl (key, value) (by simp)).below_both
    apply (h.make deep key).bind
    intro k hk
    apply (h.make deep value).bind
    intro d hd
    exact gives_pure ⟨⟨key, hkey, hk⟩, value, hvalue, hd⟩
  · exact makes_malformed

theorem fill_step (h : MakesData g limit) (deep : Bool) (id : NodeId) :
    Makes g (fill (limit + 1) deep id) fun _ ↦ True := by
  unfold fill
  apply (nodeOf_makes id).bind
  intro node hnode
  split
  · split
    · next tag items _ =>
      have hparts : Makes g (items.mapM (make limit deep)) fun ds ↦ ∀ d ∈ ds, PartOf g id d := by
        apply mapM_gives_all
        intro item hitem
        apply (h.make deep item).mono
        intro d hd
        exact ⟨item, hnode.below_item hitem, hd⟩
      apply hparts.bind
      intro ds hds
      exact (setContent_keeps (c := .items ds) hds).gives
    · exact makes_problem _
  · split
    · apply (h.makeEntries deep id).bind
      intro es hes
      exact (setContent_keeps (c := .entries es) hes).gives
    · split
      · apply (h.makeEntries deep id).bind
        intro es _
        exact (setContent_keeps (c := .members _) trivial).gives
      · split
        · next tag items _ _ _ =>
          refine (forM_keeps fun item hitem ↦ Gives.keeps (P := fun _ ↦ True) ?_).gives
          have hitem := hnode.below_item hitem
          apply (h.makeOrdered deep item).bind
          intro pair hpair
          exact (addPair_keeps (hpair.1.of_below hitem) (hpair.2.of_below hitem)).gives
        · exact makes_malformed

theorem makeDuration_step (h : MakesData g limit) (htag : HasTag g id "!duration") :
    Gives (Faithful g) (fun f ↦ Admits g f ∨ ∃ s, f = .scalar s ∧ IsSpanProblem s)
      (makeDuration (limit + 1) id) fun n ↦ Numeral.isOverlong n = false := by
  have hlift : ∀ f : ScalarFault, IsSpanProblem f ∨ Escapes g f →
      Admits g (.scalar f) ∨ ∃ s, LoadFault.scalar f = .scalar s ∧ IsSpanProblem s := by
    rintro f (hf | hf)
    · exact .inr ⟨f, rfl, hf⟩
    · exact .inl (.escape hf)
  unfold makeDuration
  apply ((nodeOf_makes id).weaken fun _ ↦ .inl).bind
  intro node hnode
  split
  · apply ((h.makeEntries true id).weaken fun _ ↦ .inl).bind
    intro es hes
    apply gives_get.bind
    intro s _
    exact liftScalar_gives (spanOf_yields htag hes) hlift
  · apply gives_get.bind
    intro s hs
    apply ((fullText_makes hs id).weaken fun _ ↦ .inl).bind
    intro text _
    exact liftScalar_gives (CoreScalar.integer_ten_yields _) fun f hf ↦ hlift f (.inl hf)

theorem makeAlternative_step (h : MakesData g limit) (htag : HasTag g id "!alt") :
    Makes g (makeAlternative (limit + 1) id) fun v ↦ Reads g id (.node v) := by
  unfold makeAlternative
  apply (nodeOf_makes id).bind
  intro node hnode
  split
  · apply (h.makeEntries true id).bind
    intro es hes
    extract_lets find
    split
    · next d r hvalue _ =>
      obtain ⟨⟨k, d'⟩, he, hfound⟩ := List.exists_of_findSome?_eq_some hvalue
      have hd : PartOf g id d := by
        dsimp only at hfound
        split at hfound
        · cases hfound
          exact (hes _ he).partOf
        · cases hfound
      apply hd.valueOf_makes.bind
      intro v hv
      exact gives_pure (.alternative htag hv)
    · exact makes_problem _
  · exact makes_problem _

theorem makeNew_step (h : MakesData g limit) (deep : Bool) (id : NodeId) :
    Makes g (makeNew (limit + 1) deep id) (DatumOf g id) := by
  unfold makeNew
  apply (nodeOf_makes id).bind
  intro node hnode
  extract_lets tag held text finished
  -- One case for each tag.  None that matters is the tag of strings, which a node may
  -- have been given in place of its own.
  have hheld : Gathers g id → ∀ u, Makes g (held u) (DatumOf g id) :=
    fun hgathers u ↦ gives_pure (.held hgathers)
  have hfinished : ∀ p, Reads g id p → Makes g (finished p) (DatumOf g id) :=
    fun p hp ↦ gives_pure (.plain hp)
  -- Most tags make something of the node first, and finish with it.
  have hafter : ∀ {α : Type} {x : Make α} {P : α → Prop} {f : α → Plain}, Makes g x P →
      (∀ a, P a → Reads g id (f a)) → Makes g (do finished (f (← x))) (DatumOf g id) :=
    fun hx hf ↦ hx.bind fun a ha ↦ hfinished _ (hf a ha)
  have htext : Makes g text (TextAt g id) := text_makes id
  have htag : ∀ name, (tag == name) = true → name ≠ Tag.string → HasTag g id name :=
    fun _ ↦ hnode.hasTag_of_beq
  split
  · next content hcontent =>
    have hgathers := gathers_of_emptyContent hnode hcontent
    apply (setContent_keeps (emptyContent_contentOf hcontent)).bind
    intro _
    split
    · apply (h.fill true id).bind
      intro u _
      exact hheld hgathers u
    · apply (keeps_modify fun s hs ↦ hs.setWaiting _).bind
      exact hheld hgathers
  · apply gives_ite
    · intro _
      exact hafter htext fun _ _ ↦ .null
    intro _
    apply gives_ite
    · intro hname
      have hbool := htag _ hname (by decide)
      apply readText_makes hbool (fun _ _ ↦ .bool) htext
      intro t b ht hb
      exact hfinished _ (.boolean hbool ht hb)
    intro _
    apply gives_ite
    · intro hname
      have hint := htag _ hname (by decide)
      apply readText_makes hint (fun _ _ ↦ .int) htext
      intro t n ht hn
      exact hfinished _ (.int hint ht hn)
    intro _
    apply gives_ite
    · intro hname
      have hfloat := htag _ hname (by decide)
      apply readText_makes hfloat (fun _ _ ↦ .float) htext
      intro t x ht hx
      apply (numberAt_makes x).bind
      rintro _ ⟨origin, rfl⟩
      exact hfinished _ (.double hfloat ht hx)
    intro _
    apply gives_ite
    · intro _
      apply htext.bind
      intro t _
      exact hafter (gives_lift (binary_yields t)) fun data _ ↦ .bytes data
    intro _
    apply gives_ite
    · intro _
      exact hafter htext fun _ ht ↦ .string ht
    intro _
    apply gives_ite
    · intro _
      exact hafter htext fun _ _ ↦ .substitution _
    intro _
    apply gives_ite
    · intro _
      exact hafter htext fun _ _ ↦ .substitution _
    intro _
    apply gives_ite
    · intro hname
      exact hafter (h.makeConcatenation id (htag _ hname (by decide))) fun _ hv ↦ hv
    intro _
    apply gives_ite
    · intro hname
      exact hafter (h.makeAlternative id (htag _ hname (by decide))) fun _ hv ↦ hv
    intro _
    apply gives_ite
    · intro _
      apply htext.bind
      intro t _
      exact hafter (singleOf_makes t) fun _ hv ↦ hv
    intro _
    apply gives_ite
    · intro hname
      have hduration := h.makeDuration id (htag _ hname (by decide))
      exact hafter (asDurationProblem_makes hduration) fun _ hn ↦ .duration hn
    intro _
    exact makes_problem _

end Step

theorem makesData (limit : Nat) : MakesData g limit := by
  induction limit with
  | zero =>
      constructor <;> intros
      · rw [make]
        exact makes_malformed
      · rw [makeNew]
        exact makes_malformed
      · rw [makeConcatenation]
        exact makes_malformed
      · rw [makeAlternative]
        exact makes_malformed
      · rw [makeDuration]
        exact gives_throw (.inl .malformed)
      · rw [makeEntries]
        exact makes_malformed
      · rw [makeOrdered]
        exact makes_malformed
      · rw [fill]
        exact makes_malformed
  | succ limit ih =>
      exact {
        make := make_step ih
        makeNew := makeNew_step ih
        makeConcatenation := fun _ ↦ makeConcatenation_step ih
        makeAlternative := fun _ ↦ makeAlternative_step ih
        makeDuration := fun _ ↦ makeDuration_step ih
        makeEntries := makeEntries_step ih
        makeOrdered := makeOrdered_step ih
        fill := fill_step ih }

/-! ## The root -/

theorem fillAll_makes (limit rounds : Nat) : Makes g (fillAll limit rounds) fun _ ↦ True := by
  induction rounds with
  | zero => exact gives_pure trivial
  | succ rounds ih =>
      unfold fillAll
      apply gives_get.bind
      intro s hs
      apply gives_ite
      · intro _
        exact gives_pure trivial
      · intro _
        apply (keeps_set (hs.setWaiting [])).bind
        intro _
        apply (forM_keeps fun id _ ↦ ((makesData limit).fill false id).keeps).bind
        intro _
        exact ih

theorem makeRoot_makes (root : NodeId) : Makes g (makeRoot root) fun _ ↦ True := by
  unfold makeRoot
  apply gives_get.bind
  intro s _
  apply ((makesData _).make false root).bind
  intro d hd
  apply (fillAll_makes _ _).bind
  intro _ _
  split
  · exact gives_pure trivial
  · apply (valueOf_makes hd).bind
    intro v _
    exact gives_pure trivial

end Store

end LayeredConfig.Yaml
