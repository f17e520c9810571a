import LayeredConfig.Proofs.Layer
import LayeredConfig.Proofs.Numeral
import Mathlib.Data.List.DropRight

/-!
# Joining in groups

Fragments may be joined from the left in groups, and texts in any groups: what
comes of it is what comes of joining all fragments at once.
-/

namespace LayeredConfig

/-! ## Quotation marks at the ends of a text -/

namespace Value

/-- The text has no quotation mark at either end. -/
def Bare (cs : List Char) : Prop :=
  (∀ c, cs.head? = some c → c ≠ '\x22') ∧ ∀ c, cs.getLast? = some c → c ≠ '\x22'

theorem Bare.append {cs ds : List Char} (hcs : Bare cs) (hds : Bare ds) : Bare (cs ++ ds) := by
  constructor
  · intro c hc
    rcases cs with _ | ⟨d, rest⟩
    · exact hds.1 c hc
    · exact hcs.1 c hc
  · intro c hc
    rw [List.getLast?_append] at hc
    rcases hlast : ds.getLast? with _ | d
    · rw [hlast] at hc
      exact hcs.2 c hc
    · rw [hlast] at hc
      exact hds.2 c (hlast.trans hc)

theorem bare_unquoted (s : String) : Bare (unquoted s).toList := by
  have htoList :
      (unquoted s).toList = (s.toList.dropWhile (· == '\x22')).rdropWhile (· == '\x22') :=
    String.toList_ofList
  rw [htoList]
  constructor
  · intro c hc
    -- What is left has the first character of a text without leading marks.
    have hhead : (s.toList.dropWhile (· == '\x22')).head? = some c := by
      obtain ⟨dropped, hdropped⟩ :=
        List.rdropWhile_prefix (· == '\x22') (s.toList.dropWhile (· == '\x22'))
      rw [← hdropped, List.head?_append, hc]
      rfl
    have hnot := List.head?_dropWhile_not (· == '\x22') s.toList
    rw [hhead] at hnot
    simpa using hnot
  · intro c hc
    obtain ⟨hne, rfl⟩ := List.mem_getLast?_eq_getLast hc
    simpa using List.rdropWhile_last_not (· == '\x22') _ hne

theorem unquoted_of_bare {s : String} (h : Bare s.toList) : unquoted s = s := by
  have hfirst : s.toList.dropWhile (· == '\x22') = s.toList := by
    rcases hs : s.toList with _ | ⟨c, rest⟩
    · rfl
    · apply List.dropWhile_cons_of_neg
      have hc : c ≠ '\x22' := h.1 c (by rw [hs]; rfl)
      simpa using hc
  have hlast : s.toList.rdropWhile (· == '\x22') = s.toList := by
    rw [List.rdropWhile_eq_self_iff]
    intro hne
    simpa using h.2 _ (List.getLast?_eq_some_getLast hne)
  calc unquoted s
      = String.ofList ((s.toList.dropWhile (· == '\x22')).rdropWhile (· == '\x22')) := rfl
    _ = s := by rw [hfirst, hlast, String.ofList_toList]

theorem fragmentTexts_append (xs ys : List Value) :
    fragmentTexts (xs ++ ys) = fragmentTexts xs ++ fragmentTexts ys := by
  induction xs with
  | nil => rfl
  | cons v rest ih => rw [List.cons_append, fragmentTexts, fragmentTexts, ih, List.cons_append]

theorem fragmentsFit_append (xs ys : List Value) :
    fragmentsFit (xs ++ ys) = (fragmentsFit xs && fragmentsFit ys) := by
  induction xs with
  | nil => rfl
  | cons v rest ih => rw [List.cons_append, fragmentsFit, fragmentsFit, ih, Bool.and_assoc]

theorem fragmentsFit_iff {fragments : List Value} :
    fragmentsFit fragments = true ↔ ∀ v ∈ fragments, v.textFits = true := by
  induction fragments with
  | nil => simp [fragmentsFit]
  | cons v rest ih => simp [fragmentsFit, ih]

theorem bare_join_fragmentTexts (fragments : List Value) :
    Bare (String.join (fragmentTexts fragments)).toList := by
  induction fragments with
  | nil => exact ⟨nofun, nofun⟩
  | cons v rest ih =>
      rw [fragmentTexts, String.join_cons, String.toList_append]
      exact (bare_unquoted v.text).append ih

end Value

/-! ## Joining -/

namespace Fragments

open Value

variable {fragments xs ys zs : List Value} {v : Value} {f : Fault}

/-- Objects stand beside values of other kinds. -/
def Mixed (fragments : List Value) : Prop :=
  (∃ v ∈ fragments, v.isObject = true) ∧ ∃ v ∈ fragments, v.isObject = false

/-- The text of every fragment that is no object can be written. -/
def Writable (fragments : List Value) : Prop :=
  ∀ v ∈ fragments, v.isObject = false → v.textFits = true

/-- Why fragments fail to join: they are mixed, or the text of one is too long. -/
def Fails (fragments : List Value) (f : Fault) : Prop :=
  ((∃ text kind, f = .mixed text kind) ∧ Mixed fragments) ∨ (f = .overlong ∧ ¬ Writable fragments)

theorem exists_eq_map_object (h : ∀ v ∈ fragments, v.isObject = true) :
    ∃ layers : List (Members Text Value), fragments = layers.map Value.object := by
  induction fragments with
  | nil => exact ⟨[], rfl⟩
  | cons v rest ih =>
      rw [List.forall_mem_cons] at h
      obtain ⟨layers, rfl⟩ := ih h.2
      cases v
      case object members => exact ⟨members :: layers, rfl⟩
      all_goals cases h.1

theorem objects_cases (fragments : List Value) :
    (∃ layers : List (Members Text Value), fragments = layers.map Value.object) ∨
      (∀ v ∈ fragments, v.isObject = false) ∨ Mixed fragments := by
  by_cases hobjects : ∀ v ∈ fragments, v.isObject = true
  · exact Or.inl (exists_eq_map_object hobjects)
  · by_cases hothers : ∀ v ∈ fragments, v.isObject = false
    · exact Or.inr (Or.inl hothers)
    · push Not at hobjects hothers
      simp only [Bool.not_eq_true, Bool.not_eq_false] at hobjects hothers
      exact Or.inr (Or.inr ⟨hothers, hobjects⟩)

theorem allMembers_map (layers : List (Members Text Value)) :
    allMembers (layers.map Value.object) = .ok layers := by
  induction layers with
  | nil => rfl
  | cons members rest ih =>
      rw [List.map_cons, allMembers, ih]
      rfl

/-- Objects are layered from the left. -/
theorem join_objects (first : Members Text Value) (rest : List (Members Text Value)) :
    join ((first :: rest).map Value.object) = .ok (.object (layerAll (first :: rest))) := by
  have hany : ((first :: rest).map Value.object).any Value.isObject = true := rfl
  rw [join, hany, allMembers_map]
  rfl

/-- Other values are joined as texts. -/
theorem join_texts (hne : fragments ≠ []) (h : ∀ v ∈ fragments, v.isObject = false) :
    join fragments = if fragmentsFit fragments then
      .ok (.string (String.join (fragmentTexts fragments))) else .error .overlong := by
  have hempty : fragments.isEmpty = false := by simpa using hne
  have hany : fragments.any Value.isObject = false := by simpa using h
  rw [join, hempty, hany]
  by_cases hfits : fragmentsFit fragments = true
  · simp [joinTexts, render, textFits, text, hfits]
  · simp [joinTexts, render, textFits, hfits]

theorem allMembers_of_mixed (h : ∃ v ∈ fragments, v.isObject = false) :
    ∃ v ∈ fragments, v.isObject = false ∧ allMembers fragments = .error v := by
  induction fragments with
  | nil => simp at h
  | cons w rest ih =>
      cases w
      case object members =>
        obtain ⟨v, hv, hobject, hrest⟩ := ih (by simpa [isObject] using h)
        exact ⟨v, List.mem_cons_of_mem _ hv, hobject, by rw [allMembers, hrest]; rfl⟩
      all_goals exact ⟨_, List.mem_cons_self, rfl, rfl⟩

theorem join_mixed (h : Mixed fragments) : ∃ f, join fragments = .error f ∧ Fails fragments f := by
  have hempty : fragments.isEmpty = false := by
    obtain ⟨⟨v, hv, -⟩, -⟩ := h
    simpa using List.ne_nil_of_mem hv
  have hany : fragments.any Value.isObject = true := by simpa using h.1
  obtain ⟨v, hv, hobject, hmembers⟩ := allMembers_of_mixed h.2
  rw [join, hempty, hany]
  by_cases hfits : v.textFits = true
  · exact ⟨.mixed v.text v.kind, by simp [hmembers, render, hfits], Or.inl ⟨⟨_, _, rfl⟩, h⟩⟩
  · exact ⟨.overlong, by simp [hmembers, render, hfits],
      Or.inr ⟨rfl, fun hall ↦ hfits (hall v hv hobject)⟩⟩

/-- The last value of a group stands for the group. -/
theorem layerAll_append (first : Members Text Value) (rest others : List (Members Text Value)) :
    layerAll (layerAll (first :: rest) :: others) = layerAll (first :: rest ++ others) := by
  rw [List.cons_append, layerAll, layerAll, layerAll, List.foldl_append]

theorem not_writable_of_overlong (hobjects : ∀ v ∈ xs, v.isObject = false)
    (hfits : fragmentsFit xs = false) (hxs : xs ⊆ fragments) : ¬ Writable fragments := by
  intro hall
  have hfit : fragmentsFit xs = true :=
    fragmentsFit_iff.mpr fun v hv ↦ hall v (hxs hv) (hobjects v hv)
  rw [hfits] at hfit
  cases hfit

/-- Joined texts stand for their fragments among further texts. -/
theorem join_texts_within (hobjects : ∀ v ∈ xs ++ ys ++ zs, v.isObject = false) (hys : ys ≠ []) :
    (join ys >>= fun v ↦ join (xs ++ v :: zs)) = join (xs ++ ys ++ zs) := by
  have hgroup : ∀ v ∈ ys, v.isObject = false := fun v hv ↦ hobjects v (by simp [hv])
  rw [join_texts hys hgroup, join_texts (by simp [hys]) hobjects]
  cases hfits : fragmentsFit ys with
  | false =>
      rw [fragmentsFit_append, fragmentsFit_append, hfits, Bool.and_false, Bool.false_and]
      rfl
  | true =>
      -- The joined text has no marks at its ends, so it is kept as it is.
      have hbare := unquoted_of_bare (bare_join_fragmentTexts ys)
      have houter : ∀ v ∈ xs ++ Value.string (String.join (fragmentTexts ys)) :: zs,
          v.isObject = false := by
        intro v hv
        rcases List.mem_append.mp hv with hv | hv
        · exact hobjects v (by simp [hv])
        · rcases List.mem_cons.mp hv with rfl | hv
          · rfl
          · exact hobjects v (by simp [hv])
      have hinner : (Value.string (String.join (fragmentTexts ys))).textFits = true := rfl
      have htext : (Value.string (String.join (fragmentTexts ys))).text =
          String.join (fragmentTexts ys) := rfl
      rw [if_pos rfl]
      change join (xs ++ Value.string (String.join (fragmentTexts ys)) :: zs) = _
      rw [join_texts (by simp) houter]
      simp only [fragmentsFit_append, fragmentTexts_append, fragmentsFit, fragmentTexts, hfits,
        hinner, htext, hbare, String.join_append, String.join_cons, Bool.and_true, Bool.true_and,
        String.append_assoc]

/-- Two results of joining the fragments: the same value, which mixed fragments
do not have, or failures for reasons in the fragments. -/
def Alike (fragments : List Value) (r s : Except Fault Value) : Prop :=
  (∃ v, r = .ok v ∧ s = .ok v ∧ ¬ Mixed fragments) ∨
    ∃ f g, r = .error f ∧ s = .error g ∧ Fails fragments f ∧ Fails fragments g

theorem Alike.of_mixed {r : Except Fault Value} (h : Mixed fragments)
    (hr : ∃ f, r = .error f ∧ Fails fragments f) : Alike fragments r (join fragments) := by
  obtain ⟨f, hf, hfails⟩ := hr
  obtain ⟨g, hg, hgfails⟩ := join_mixed h
  exact Or.inr ⟨f, g, hf, hg, hfails, hgfails⟩

theorem Mixed.mono (h : Mixed xs) (hsub : xs ⊆ ys) : Mixed ys := by
  obtain ⟨⟨v, hv, hobject⟩, w, hw, hother⟩ := h
  exact ⟨⟨v, hsub hv, hobject⟩, w, hsub hw, hother⟩

theorem Fails.mono (h : Fails xs f) (hsub : xs ⊆ ys) : Fails ys f := by
  rcases h with ⟨hf, hmixed⟩ | ⟨hf, hlong⟩
  · exact Or.inl ⟨hf, hmixed.mono hsub⟩
  · exact Or.inr ⟨hf, fun hall ↦ hlong fun v hv ↦ hall v (hsub hv)⟩

/-- A value that stands for the first of mixed fragments is mixed with the others. -/
theorem fails_group (hmixed : Mixed (xs ++ ys)) (hfits : v.isObject = false → v.textFits = true)
    (hgroup : Mixed (v :: ys)) : ∃ f, join (v :: ys) = .error f ∧ Fails (xs ++ ys) f := by
  obtain ⟨f, hf, hfails⟩ := join_mixed hgroup
  refine ⟨f, hf, ?_⟩
  rcases hfails with ⟨hkind, -⟩ | ⟨hlong, hwritable⟩
  · exact Or.inl ⟨hkind, hmixed⟩
  · refine Or.inr ⟨hlong, fun hall ↦ hwritable ?_⟩
    intro w hw hother
    rcases List.mem_cons.mp hw with rfl | hw
    · exact hfits hother
    · exact hall w (List.mem_append_right xs hw) hother

theorem not_mixed_of_forall {b : Bool} (h : ∀ v ∈ fragments, v.isObject = b) :
    ¬ Mixed fragments := by
  rintro ⟨⟨v, hv, hobject⟩, w, hw, hother⟩
  rw [h v hv] at hobject
  rw [h w hw, hobject] at hother
  cases hother

theorem exists_ne {b : Bool} (h : ¬ ∀ v ∈ fragments, v.isObject = b) :
    ∃ v ∈ fragments, v.isObject = !b := by
  push Not at h
  obtain ⟨v, hv, hne⟩ := h
  exact ⟨v, hv, Bool.eq_not.mpr hne⟩

theorem alike_objects (first : Members Text Value) (rest : List (Members Text Value))
    (ys : List Value) :
    Alike ((first :: rest).map Value.object ++ ys)
      (join (.object (layerAll (first :: rest)) :: ys))
      (join ((first :: rest).map Value.object ++ ys)) := by
  by_cases hobjects : ∀ v ∈ ys, v.isObject = true
  · obtain ⟨others, rfl⟩ := exists_eq_map_object hobjects
    rw [← List.map_append]
    refine Or.inl ⟨.object (layerAll (first :: rest ++ others)), ?_, ?_, ?_⟩
    · rw [← List.map_cons, join_objects, layerAll_append]
    · exact join_objects first (rest ++ others)
    · apply not_mixed_of_forall (b := true)
      intro v hv
      obtain ⟨members, -, rfl⟩ := List.mem_map.mp hv
      rfl
  · obtain ⟨v, hv, hother⟩ := exists_ne hobjects
    have hflat : Mixed ((first :: rest).map Value.object ++ ys) :=
      ⟨⟨.object first, by simp, rfl⟩, v, by simp [hv], hother⟩
    apply Alike.of_mixed hflat
    exact fails_group hflat nofun
      ⟨⟨_, List.mem_cons_self, rfl⟩, v, List.mem_cons_of_mem _ hv, hother⟩

theorem alike_texts (hxs : xs ≠ []) (hobjects : ∀ v ∈ xs, v.isObject = false) (ys : List Value) :
    Alike (xs ++ ys) (join xs >>= fun v ↦ join (v :: ys)) (join (xs ++ ys)) := by
  by_cases hothers : ∀ v ∈ ys, v.isObject = false
  · have hall : ∀ v ∈ xs ++ ys, v.isObject = false :=
      fun v hv ↦ (List.mem_append.mp hv).elim (hobjects v) (hothers v)
    have hsame := @join_texts_within [] xs ys hall hxs
    rw [List.nil_append] at hsame
    simp only [List.nil_append] at hsame
    rw [hsame, join_texts (by simp [hxs]) hall]
    cases hfits : fragmentsFit (xs ++ ys) with
    | true => exact Or.inl ⟨_, rfl, rfl, not_mixed_of_forall hall⟩
    | false =>
        have hlong := not_writable_of_overlong hall hfits (List.Subset.refl _)
        exact Or.inr ⟨.overlong, .overlong, rfl, rfl, Or.inr ⟨rfl, hlong⟩, Or.inr ⟨rfl, hlong⟩⟩
  · obtain ⟨w, hw, hobject⟩ := exists_ne hothers
    obtain ⟨v, hv⟩ := List.exists_mem_of_ne_nil xs hxs
    have hflat : Mixed (xs ++ ys) :=
      ⟨⟨w, by simp [hw], hobject⟩, v, by simp [hv], hobjects v hv⟩
    apply Alike.of_mixed hflat
    rw [join_texts hxs hobjects]
    cases hfits : fragmentsFit xs with
    | true =>
        exact fails_group hflat (fun _ ↦ rfl)
          ⟨⟨w, List.mem_cons_of_mem _ hw, hobject⟩, _, List.mem_cons_self, rfl⟩
    | false =>
        exact ⟨.overlong, rfl, Or.inr ⟨rfl,
          not_writable_of_overlong hobjects hfits (List.subset_append_left xs ys)⟩⟩

/-- Joining from the left in groups comes to what joining all at once comes to, and
fails when objects stand beside other kinds, or when a text is too long to be
written.  Texts may be joined in any groups. -/
theorem join_grouped (xs ys zs : List Value) :
    (xs ≠ [] → Alike (xs ++ ys) (join xs >>= fun v ↦ join (v :: ys)) (join (xs ++ ys))) ∧
      ((∀ v ∈ xs ++ ys ++ zs, v.isObject = false) → ys ≠ [] →
        (join ys >>= fun v ↦ join (xs ++ v :: zs)) = join (xs ++ ys ++ zs)) := by
  refine ⟨fun hxs ↦ ?_, join_texts_within⟩
  rcases objects_cases xs with ⟨layers, rfl⟩ | hobjects | hmixed
  · cases layers with
    | nil => exact absurd rfl hxs
    | cons first rest =>
        rw [join_objects]
        exact alike_objects first rest ys
  · exact alike_texts hxs hobjects ys
  · obtain ⟨f, hf, hfails⟩ := join_mixed hmixed
    have hsub := List.subset_append_left xs ys
    exact Alike.of_mixed (hmixed.mono hsub) ⟨f, by rw [hf]; rfl, hfails.mono hsub⟩

/-- Objects of which the second overrides a member of the first, and texts of which
one is nothing but quotation marks. -/
theorem join_grouped_marks :
    (([object [("a", int 1), ("b", null)], object [("a", int 2)]] : List Value) ≠ [] ∧
      Alike ([object [("a", int 1), ("b", null)], object [("a", int 2)]] ++ [int 3])
        (join [object [("a", int 1), ("b", null)], object [("a", int 2)]] >>=
          fun v ↦ join (v :: [int 3]))
        (join ([object [("a", int 1), ("b", null)], object [("a", int 2)]] ++ [int 3]))) ∧
    (∀ v ∈ ([int 8] ++ [string "\x22\x22", string "\x22a"] ++ [string "b\x22"] : List Value),
      v.isObject = false) ∧
    ([string "\x22\x22", string "\x22a"] : List Value) ≠ [] ∧
    (join [string "\x22\x22", string "\x22a"] >>=
        fun v ↦ join ([int 8] ++ v :: [string "b\x22"])) =
      join ([int 8] ++ [string "\x22\x22", string "\x22a"] ++ [string "b\x22"]) :=
  ⟨⟨by simp, (join_grouped _ _ []).1 (by simp)⟩, by simp [isObject], by simp,
    (join_grouped _ _ _).2 (by simp [isObject]) (by simp)⟩

/-- An integer that is too long to be written hides that it is no object. -/
theorem join_overlong_beside_object :
    Mixed [.object [], .int (10 ^ Numeral.digitLimit)] ∧
      join [.object [], .int (10 ^ Numeral.digitLimit)] = .error .overlong := by
  refine ⟨⟨⟨.object [], by simp, rfl⟩, .int (10 ^ Numeral.digitLimit), by simp, rfl⟩, ?_⟩
  have hmembers : allMembers [.object [], .int (10 ^ Numeral.digitLimit)] =
      .error (.int (10 ^ Numeral.digitLimit)) := rfl
  simp [join, isObject, hmembers, render, textFits, Numeral.isOverlong_pow]

end Fragments

end LayeredConfig
