import LayeredConfig.Proofs.Members
import LayeredConfig.Proofs.Yaml.Store

/-!
# Values and keys of data

What is made of data is made of the nodes of that data: a value that is too long
to be written, or that keeps a key from being one, comes of such a node.
-/

namespace LayeredConfig.Yaml

variable {g : Graph} {id : NodeId} {s : Store}

/-- A node, or one that it is made of. -/
abbrev Under (g : Graph) : NodeId → NodeId → Prop := Relation.ReflTransGen (Child g)

theorem HasTag.lt_size {tag : String} (h : HasTag g id tag) : id < g.size := by
  obtain ⟨node, hnode, -⟩ := h
  exact (Array.getElem?_eq_some_iff.mp hnode).1

theorem Gathers.lt_size (h : Gathers g id) : id < g.size := by
  obtain ⟨tag, htag, -⟩ := h
  exact htag.lt_size

/-! ## Texts of scalars -/

namespace Store

theorem scalarText_makes {limit : Nat} {passed : List NodeId} (h : Descends g limit passed id) :
    Makes g (scalarText limit id) (TextAt g id) := by
  induction limit generalizing passed id with
  | zero => exact gives_throw (.endless h.selfContaining_of_zero)
  | succ limit ih =>
      unfold scalarText
      apply (nodeOf_makes id).bind
      intro node hnode
      split
      · cases hnode with
        | scalar hscalar _ => exact gives_pure (.scalar hscalar)
      · exact makes_problem _
      · next tag pairs =>
        apply gives_get.bind
        intro s hs
        dsimp only
        split
        · next key value hfound =>
          have hpair := hnode.pairs rfl _ (List.mem_of_find?_eq_some hfound)
          have htag := List.find?_some hfound
          have hkey : HasTag g key Tag.value := hs.hasTag (eq_of_beq htag) (by decide)
          obtain ⟨original, own, hmapping⟩ := hpair.exists_mapping
          have hvalue := h.step (Array.getElem?_eq_some_iff.mp hmapping).1 hpair.below_both.2
          exact (ih hvalue).mono fun _ ↦ .value hpair hkey
        · exact makes_problem _

theorem fullText_makes (hs : Faithful g s) (id : NodeId) :
    Makes g (scalarText (s.graph.size + 1) id) (TextAt g id) := by
  rw [hs.size]
  exact scalarText_makes (.start g id)

theorem text_makes (id : NodeId) :
    Makes g (do scalarText ((← get).graph.size + 1) id) (TextAt g id) :=
  gives_get.bind fun _ hs ↦ fullText_makes hs id

end Store

/-! ## Values -/

namespace MadeFrom

variable {nodes others : NodeId → Prop} {v : Value} {r : Reference} {vs : List Value}

theorem mono (h : MadeFrom nodes g v) (hnodes : ∀ id, nodes id → others id) :
    MadeFrom others g v where
  long hv := by
    obtain ⟨id, hid, hlong⟩ := h.long hv
    exact ⟨id, hnodes id hid, hlong⟩
  gathers hv := by
    obtain ⟨id, hid, hgathers⟩ := h.gathers hv
    exact ⟨id, hnodes id hid, hgathers⟩

theorem of_plain (hfits : v.formFits = true) (hbarrier : Plain.valueBarrier? v = none) :
    MadeFrom nodes g v where
  long hv := by
    rw [hfits] at hv
    cases hv
  gathers hv := by
    rw [hbarrier] at hv
    cases hv

theorem alternative (h : MadeFrom nodes g v) : MadeFrom nodes g (.alternative v r) where
  long hv := h.long (by rwa [Value.formFits] at hv)
  gathers hv := h.gathers (by rwa [Plain.valueBarrier?] at hv)

theorem exists_long_of_elements (h : ∀ v ∈ vs, MadeFrom nodes g v)
    (hvs : Value.elementFormsFit vs = false) : ∃ id, nodes id ∧ IsLong g id := by
  induction vs with
  | nil => cases hvs
  | cons v rest ih =>
      rw [Value.elementFormsFit, Bool.and_eq_false_iff] at hvs
      rcases hvs with hv | hrest
      · exact (h v List.mem_cons_self).long hv
      · exact ih (fun w hw ↦ h w (List.mem_cons_of_mem v hw)) hrest

theorem exists_long_of_members {members : Members Text Value}
    (h : ∀ v ∈ members.values, MadeFrom nodes g v) (hms : Value.memberFormsFit members = false) :
    ∃ id, nodes id ∧ IsLong g id := by
  induction members with
  | nil => cases hms
  | cons m rest ih =>
      obtain ⟨k, v⟩ := m
      rw [Value.memberFormsFit, Bool.and_eq_false_iff] at hms
      rcases hms with hv | hrest
      · exact (h v List.mem_cons_self).long hv
      · exact ih (fun w hw ↦ h w (List.mem_cons_of_mem v hw)) hrest

theorem array (hid : nodes id) (hgathers : Gathers g id) (h : ∀ v ∈ vs, MadeFrom nodes g v) :
    MadeFrom nodes g (.array vs) where
  long hv := exists_long_of_elements h (by rwa [Value.formFits] at hv)
  gathers _ := ⟨id, hid, hgathers⟩

theorem concatenation (hid : nodes id) (hgathers : Gathers g id)
    (h : ∀ v ∈ vs, MadeFrom nodes g v) : MadeFrom nodes g (.concatenation vs) where
  long hv := exists_long_of_elements h (by rwa [Value.formFits] at hv)
  gathers _ := ⟨id, hid, hgathers⟩

theorem object {members : Members Text Value} (hid : nodes id) (hgathers : Gathers g id)
    (h : ∀ v ∈ members.values, MadeFrom nodes g v) : MadeFrom nodes g (.object members) where
  long hv := exists_long_of_members h (by rwa [Value.formFits] at hv)
  gathers _ := ⟨id, hid, hgathers⟩

end MadeFrom

theorem Reads.toValue_yields {p : Plain} (h : Reads g id p) :
    Yields (Admits g) (Store.liftPlain p.toValue) (MadeFrom (Under g id) g) := by
  cases h with
  | int htag htext hread =>
      refine yields_ok ⟨fun hlong ↦ ?_, nofun⟩
      rw [Value.formFits, Bool.not_eq_false'] at hlong
      exact ⟨id, .refl, _, _, htag, htext, hread, hlong⟩
  | bytes => exact yields_error (.unsupported "bytes")
  | duration hfits => exact yields_ok (.of_plain (by rw [Value.formFits, hfits]; rfl) rfl)
  | concatenation htag hparts =>
      apply yields_ok
      apply MadeFrom.concatenation .refl ⟨_, htag, .inr rfl⟩
      exact fun v hv ↦ (hparts v hv).mono fun _ ↦ Relation.TransGen.to_reflTransGen
  | alternative htag hdefault =>
      apply yields_ok
      exact hdefault.alternative.mono fun _ ↦ Relation.TransGen.to_reflTransGen
  | _ => exact yields_ok (.of_plain rfl rfl)

/-! ## Keys -/

section Keys

variable {key value : NodeId} {k : Plain}

/-- All but texts and integers are refused as keys of objects, if they can be
shown. -/
theorem keyText_yields_of_refused (hstring : ∀ s, k ≠ .string s) (hint : ∀ n, k ≠ .int n)
    (hfits : k.formFits = false → Escapes g .overlong) :
    Yields (Admits g) (Store.liftPlain (Plain.keyText k)) fun _ ↦ True := by
  rw [Plain.keyText.eq_3 k (fun s ↦ hstring s) (fun n ↦ hint n)]
  cases hk : k.formFits
  · exact yields_error (.escape (hfits hk))
  · exact yields_error (.badKey _ _)

theorem KeyAt.keyText_yields (h : KeyAt g key k) (hpair : PairOf g id (key, value)) :
    Yields (Admits g) (Store.liftPlain (Plain.keyText k)) fun _ ↦ True := by
  obtain ⟨hreads, hsingle⟩ := h
  cases hreads with
  | string => exact yields_ok trivial
  | @int _ n htag htext hread =>
      rw [Plain.keyText]
      by_cases hlong : Numeral.isOverlong n = true
      · rw [if_pos hlong]
        exact yields_error (.escape (.longKey hpair ⟨_, _, htag, htext, hread, hlong⟩))
      · rw [if_neg hlong]
        exact yields_ok trivial
  | duration hfits =>
      refine keyText_yields_of_refused (by simp) (by simp) fun hlong ↦ ?_
      rw [Plain.formFits, Value.formFits, hfits] at hlong
      cases hlong
  | concatenation => exact absurd rfl (hsingle _)
  -- The key is shown in the refusal, and the default with it.
  | alternative htag hdefault =>
      apply keyText_yields_of_refused (by simp) (by simp)
      intro hfits
      obtain ⟨part, hpart, hlong⟩ := hdefault.long hfits
      exact .longDefault hpair htag hpart hlong
  | _ => exact keyText_yields_of_refused (by simp) (by simp) nofun

theorem KeyAt.escapes_of_barrier (h : KeyAt g key k) (hpair : PairOf g id (key, value))
    {f : Plain.KeyFault} (hbarrier : k.keyBarrier? = some f) : Escapes g (.notKey f) := by
  obtain ⟨hreads, hsingle⟩ := h
  cases hreads with
  | concatenation => exact absurd rfl (hsingle _)
  | @alternative v r htag hdefault =>
      rw [Plain.keyBarrier?, Option.map_eq_some_iff] at hbarrier
      obtain ⟨kind, hkind, rfl⟩ := hbarrier
      obtain ⟨part, hpart, hgathers⟩ := hdefault.gathers (Option.isSome_of_mem hkind)
      exact .heldDefault hpair htag hpart hgathers
  | _ => cases hbarrier

theorem keyOf_makes {d : Datum} (h : DatumOf g id d) : Makes g (Store.keyOf d) (KeyAt g id) := by
  unfold Store.keyOf
  split
  · exact Store.makes_malformed
  · exact Store.makes_malformed
  · next p hsingle =>
    cases h with
    | plain hreads => exact gives_pure ⟨hreads, fun vs hp ↦ hsingle vs (hp ▸ rfl)⟩

theorem mem_putEntry {α : Type} {es : List (Plain × α)} {k : Plain} {d : α} {e : Plain × α}
    (h : e ∈ Plain.putEntry es k d) :
    e ∈ es ∨ (e.2 = d ∧ (e.1 = k ∨ ∃ old ∈ es, old.1 = e.1)) := by
  induction es with
  | nil =>
      rw [Plain.putEntry, List.mem_singleton] at h
      subst h
      exact .inr ⟨rfl, .inl rfl⟩
  | cons first rest ih =>
      obtain ⟨key, old⟩ := first
      rw [Plain.putEntry] at h
      split at h
      · rcases List.mem_cons.mp h with rfl | h
        · exact .inr ⟨rfl, .inr ⟨(key, old), List.mem_cons_self, rfl⟩⟩
        · exact .inl (List.mem_cons_of_mem _ h)
      · rcases List.mem_cons.mp h with rfl | h
        · exact .inl List.mem_cons_self
        · rcases ih h with h | ⟨hd, hk | ⟨other, hother, hk⟩⟩
          · exact .inl (List.mem_cons_of_mem _ h)
          · exact .inr ⟨hd, .inl hk⟩
          · exact .inr ⟨hd, .inr ⟨other, List.mem_cons_of_mem _ hother, hk⟩⟩

theorem putEntry_makes {es : List (Plain × Datum)} {d : Datum} (hk : KeyAt g key k)
    (hpair : PairOf g id (key, value)) (hd : DatumOf g value d) (hes : ∀ e ∈ es, EntryOf g id e) :
    Makes g (Store.putEntry es k d) fun es ↦ ∀ e ∈ es, EntryOf g id e := by
  unfold Store.putEntry
  split
  · next hbarrier => exact gives_throw (.escape (hk.escapes_of_barrier hpair hbarrier))
  · apply gives_pure
    intro e he
    rcases mem_putEntry he with he | ⟨hdatum, hkey | ⟨old, hold, hkey⟩⟩
    · exact hes e he
    · exact ⟨⟨_, hpair, hkey ▸ hk⟩, _, hpair, hdatum ▸ hd⟩
    · exact ⟨hkey ▸ (hes old hold).1, _, hpair, hdatum ▸ hd⟩

end Keys

/-! ## Values of collections -/

section Parts

variable {member : Datum → Except LoadFault Value}
  (hmember : ∀ d, PartOf g id d → Yields (Admits g) (member d) (MadeFrom (Under g id) g))

include hmember

theorem entries_yields {es : List (Plain × Datum)} (hes : ∀ e ∈ es, EntryOf g id e) :
    Yields (Admits g)
      (es.mapM fun (k, d) ↦ do
        let key ← Store.liftPlain (Plain.keyText k)
        return (key, ← member d))
      fun members ↦ ∀ m ∈ members, MadeFrom (Under g id) g m.2 := by
  apply mapM_yields
  intro e he
  obtain ⟨pair, hpair, hkey⟩ := (hes e he).1
  apply (hkey.keyText_yields hpair).bind
  intro key _
  apply (hmember e.2 (hes e he).partOf).bind
  intro v hv
  exact yields_ok hv

theorem pairs_yields (hgathers : Gathers g id) {ps : List (Datum × Datum)}
    (hps : ∀ p ∈ ps, PartOf g id p.1 ∧ PartOf g id p.2) :
    Yields (Admits g) (ps.mapM fun (a, b) ↦ do return Value.array [← member a, ← member b])
      fun vs ↦ ∀ v ∈ vs, MadeFrom (Under g id) g v := by
  apply mapM_yields
  intro p hp
  obtain ⟨hfirst, hsecond⟩ := hps p hp
  apply (hmember p.1 hfirst).bind
  intro v hv
  apply (hmember p.2 hsecond).bind
  intro w hw
  exact yields_ok (.array .refl hgathers (by simp [hv, hw]))

end Parts

/-- The value of the data of a node, as it is now, is made from the node and those
below it. -/
theorem convert_yields (hs : Faithful g s) {depth : Nat} {inside : List NodeId} {d : Datum}
    (hd : DatumOf g id d) (h : Descends g depth inside id) :
    Yields (Admits g) (Store.convert s depth inside d) (MadeFrom (Under g id) g) := by
  -- The collections around the data are distinct nodes above it, so a depth that runs
  -- out has passed more nodes than there are.
  induction depth generalizing inside id d with
  | zero =>
      cases hd with
      | plain hreads =>
          unfold Store.convert
          exact hreads.toValue_yields
      | held => exact yields_error (.endless h.selfContaining_of_zero)
  | succ depth ih =>
      cases hd with
      | plain hreads =>
          unfold Store.convert
          exact hreads.toValue_yields
      | held hgathers =>
          have hmember : ∀ part, PartOf g id part → Yields (Admits g)
              (Store.convert s depth (id :: inside) part) (MadeFrom (Under g id) g) := by
            rintro part ⟨i, hbelow, hdatum⟩
            apply (ih hdatum (h.step hgathers.lt_size hbelow)).mono
            intro v hv
            exact hv.mono fun j hj ↦ hbelow.to_reflTransGen.trans hj
          unfold Store.convert
          split
          · next hmem =>
            exact yields_error (.endless (h.selfContaining_of_mem (List.contains_iff_mem.mp hmem)))
          · dsimp only
            split
            · next ds hcontent =>
              apply (mapM_yields fun d hd ↦ hmember d (hs.contents _ _ hcontent d hd)).map
              exact fun vs hvs ↦ .array .refl hgathers hvs
            · next es hcontent =>
              apply (entries_yields hmember (hs.contents _ _ hcontent)).bind
              intro members hmembers
              apply yields_ok
              apply MadeFrom.object .refl hgathers
              intro v hv
              obtain ⟨m, hm, rfl⟩ := List.mem_map.mp (Members.mem_values_ofEntries hv)
              exact hmembers m hm
            · next ps hcontent =>
              apply (pairs_yields hmember hgathers (hs.contents _ _ hcontent)).bind
              exact fun vs hvs ↦ yields_ok (.array .refl hgathers hvs)
            · exact yields_error (.unsupported "set")
            · exact yields_error .malformed

theorem valueOf_makes {d : Datum} (hd : DatumOf g id d) :
    Makes g (Store.valueOf d) (MadeFrom (Under g id) g) := by
  unfold Store.valueOf
  apply gives_get.bind
  intro s hs
  have hconvert := convert_yields hs hd (.start g id)
  rw [← hs.size] at hconvert
  split
  · next hv => exact gives_pure (hconvert.ok _ hv)
  · next hf => exact gives_throw (hconvert.error _ hf)

end LayeredConfig.Yaml
