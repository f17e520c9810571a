import LayeredConfig.Plain.Conversion
import LayeredConfig.Proofs.Json.Spelling
import LayeredConfig.Proofs.Tree
import LayeredConfig.Value.Same
import LayeredConfig.Value.Text

/-!
# What the JSON form of a value reads as

The JSON form is read back as the view of the value: numbers with a fraction and
references as their texts, spans as whole milliseconds, everything else as
itself.  A tree of plain data comes back from its JSON form as the same tree.
-/

namespace LayeredConfig

namespace Json

/-! ## Texts without escapes -/

/-- The character stands for itself inside a quoted string. -/
def IsLiteral (c : Char) : Prop := quotedChar c = [c]

theorem isLiteral_of_all (cs : List Char) (h : cs.all (fun c ↦ quotedChar c == [c]) = true)
    {c : Char} (hc : c ∈ cs) : IsLiteral c :=
  eq_of_beq (List.all_eq_true.mp h c hc)

theorem isLiteral_of_isDigit {c : Char} (hc : c.isDigit = true) : IsLiteral c := by
  have hne : c ∉ ['\x22', '\\', '\n', '\r', '\t', '\x08', '\x0c', '\u2028', '\u2029'] :=
    digit_notMem hc rfl
  have hprintable : ¬ c.toNat < 0x20 := by
    simp only [Char.isDigit, Bool.and_eq_true, decide_eq_true_eq, ge_iff_le,
      UInt32.le_iff_toNat_le] at hc
    have hcode : 48 ≤ c.toNat := hc.1
    omega
  simp only [List.mem_cons, List.not_mem_nil, or_false, not_or] at hne
  simp [IsLiteral, quotedChar, hne, hprintable]

theorem isLiteral_of_mem_toDigits {n : Nat} {c : Char} (hc : c ∈ Nat.toDigits 10 n) :
    IsLiteral c :=
  isLiteral_of_isDigit (Numeral.isDigit_of_mem_toDigits hc)

theorem quote_of_isLiteral {s : String} (h : ∀ c ∈ s.toList, IsLiteral c) :
    quote s = "\x22" ++ s ++ "\x22" := by
  rw [← String.toList_inj, toList_quote, flatMap_eq_self h]
  simp

end Json

namespace Layout

open Json

theorem isLiteral_exponentText {e : Int} {c : Char} (hc : c ∈ exponentText e) : IsLiteral c := by
  simp only [exponentText, List.mem_cons] at hc
  rcases hc with rfl | rfl | hc
  · rfl
  · split <;> rfl
  · split at hc
    · rcases List.mem_cons.mp hc with rfl | hc
      · rfl
      · exact isLiteral_of_mem_toDigits hc
    · exact isLiteral_of_mem_toDigits hc

theorem isLiteral_scientificText {digits : List Char} (hdigits : ∀ c ∈ digits, IsLiteral c)
    {e : Int} {c : Char} (hc : c ∈ scientificText digits e) : IsLiteral c := by
  match digits, hdigits with
  | [], _ => exact isLiteral_exponentText hc
  | [d], hdigits =>
      rcases List.mem_cons.mp hc with rfl | hc
      · exact hdigits c List.mem_cons_self
      · exact isLiteral_exponentText hc
  | d :: d' :: rest, hdigits =>
      simp only [scientificText, List.mem_cons, List.cons_append, List.mem_append] at hc
      rcases hc with rfl | rfl | rfl | hc | hc
      · exact hdigits c (by simp)
      · rfl
      · exact hdigits c (by simp)
      · exact hdigits c (by simp [hc])
      · exact isLiteral_exponentText hc

theorem isLiteral_magnitudeText {x : Scientific} {c : Char} (hc : c ∈ scientific.magnitudeText x) :
    IsLiteral c := by
  refine isLiteral_scientificText (fun d hd ↦ ?_) hc
  split at hd
  · rw [List.mem_singleton.mp hd]
    rfl
  · simp only [Scientific.digits, List.mem_reverse] at hd
    have hdigit := List.mem_reverse.mp ((List.dropWhile_sublist _).subset hd)
    exact isLiteral_of_mem_toDigits hdigit

theorem isLiteral_render {f : Format} (x : Binary f) {c : Char}
    (hc : c ∈ (scientific.render x).toList) : IsLiteral c := by
  cases x with
  | nan =>
      exact isLiteral_of_all "NaN".toList (by decide) hc
  | infinite negative =>
      cases negative with
      | false => exact isLiteral_of_all "+Inf".toList (by decide) hc
      | true => exact isLiteral_of_all "-Inf".toList (by decide) hc
  | finite negative code =>
      rw [render, String.toList_ofList] at hc
      split at hc
      · rcases List.mem_cons.mp hc with rfl | hc
        · rfl
        · exact isLiteral_magnitudeText hc
      · exact isLiteral_magnitudeText hc

theorem quote_render {f : Format} (x : Binary f) :
    quote (scientific.render x) = "\x22" ++ scientific.render x ++ "\x22" :=
  quote_of_isLiteral fun _ hc ↦ isLiteral_render x hc

end Layout

/-! ## Views -/

namespace Value

mutual

/-- The data that the JSON form of a value stands for. -/
def view : Value → Json
  | .null => .null
  | .boolean b => .boolean b
  | .int n => .int n
  | .duration n => .int (Duration.milliseconds n)
  | .object members => .object (memberViews members)
  | .array elements => .array (elementViews elements)
  | v => .string v.text

def elementViews : List Value → List Json
  | [] => []
  | v :: rest => v.view :: elementViews rest

def memberViews : List (Text × Value) → List (String × Json)
  | [] => []
  | (k, v) :: rest => (k.content, v.view) :: memberViews rest

end

theorem elementsFit_iff {elements : List Value} :
    elementsFit elements = true ↔ ∀ v ∈ elements, v.jsonFits = true := by
  induction elements with
  | nil => simp [elementsFit]
  | cons v rest ih => simp [elementsFit, ih]

theorem membersFit_iff {members : List (Text × Value)} :
    membersFit members = true ↔ ∀ entry ∈ members, entry.2.jsonFits = true := by
  induction members with
  | nil => simp [membersFit]
  | cons entry rest ih => simp [membersFit, ih]

theorem keys_memberViews (members : Members Text Value) :
    Members.keys (memberViews members) = members.keys := by
  induction members with
  | nil => rfl
  | cons entry rest ih =>
      obtain ⟨k, v⟩ := entry
      exact congrArg (k.content :: ·) ih

theorem forall₂_elementTexts {elements : List Value}
    (h : ∀ v ∈ elements, Json.Spells v.json v.view) :
    List.Forall₂ Json.Spells (elementTexts elements) (elementViews elements) := by
  induction elements with
  | nil => exact .nil
  | cons v rest ih =>
      rw [List.forall_mem_cons] at h
      exact .cons h.1 (ih h.2)

theorem forall₂_memberTexts {members : List (Text × Value)}
    (h : ∀ entry ∈ members, Json.Spells entry.2.json entry.2.view) :
    List.Forall₂ Json.SpellsMember (memberTexts members) (memberViews members) := by
  induction members with
  | nil => exact .nil
  | cons entry rest ih =>
      rw [List.forall_mem_cons] at h
      exact .cons ⟨entry.2.json, rfl, h.1⟩ (ih h.2)

/-- The JSON form of every value spells its view. -/
theorem spells_json {v : Value} (hwell : v.wellFormed = true) (hfits : v.jsonFits = true) :
    Json.Spells v.json v.view := by
  induction v using tree_induction with
  | object members ih =>
      obtain ⟨hnodup, hmembers⟩ := wellFormed_object_iff.mp hwell
      rw [jsonFits, membersFit_iff] at hfits
      rw [json, view]
      apply Json.spells_braced ⟨[' '], rfl, by simp [Json.isSpace]⟩
      · exact forall₂_memberTexts fun entry hentry ↦
          ih entry hentry (hmembers entry hentry) (hfits entry hentry)
      · rwa [keys_memberViews]
  | array elements ih =>
      rw [wellFormed, elementsWellFormed_iff] at hwell
      rw [jsonFits, elementsFit_iff] at hfits
      rw [json, view]
      apply Json.spells_bracketed ⟨[], rfl, by simp⟩
      exact forall₂_elementTexts fun v hv ↦ ih v hv (hwell v hv) (hfits v hv)
  | substitution r => exact Json.spells_quote _
  | concatenation fragments => exact Json.spells_quote _
  | alternative default override => exact Json.spells_quote _
  | scalar v hv =>
      cases v with
      | null => exact Json.spells_null
      | boolean b =>
          cases b with
          | false => exact Json.spells_boolean false
          | true => exact Json.spells_boolean true
      | string s => exact Json.spells_quote s.content
      | int n => exact Json.spells_ofInt (by simpa [jsonFits] using hfits)
      | single x =>
          rw [json, singleText, ← Layout.quote_render]
          exact Json.spells_quote _
      | double x =>
          rw [json, doubleText, ← Layout.quote_render]
          exact Json.spells_quote _
      | duration n => exact Json.spells_ofInt (by simpa [jsonFits] using hfits)
      | _ => cases hv

/-! ## Plain data -/

mutual

/-- The text without a fixed width, in every place of the tree. -/
def unsized : Value → Value
  | .string s => .string ⟨s.content, false⟩
  | .object members => .object (unsizedMembers members)
  | .array elements => .array (unsizedElements elements)
  | v => v

def unsizedElements : List Value → List Value
  | [] => []
  | v :: rest => v.unsized :: unsizedElements rest

def unsizedMembers : List (Text × Value) → List (Text × Value)
  | [] => []
  | (k, v) :: rest => (⟨k.content, false⟩, v.unsized) :: unsizedMembers rest

end

end Value

namespace Json

mutual

/-- JSON data as plain data. -/
def toPlain : Json → Plain
  | .null => .null
  | .boolean b => .boolean b
  | .int n => .int n
  | .double x => .double x
  | .string s => .string s
  | .array elements => .list (elementsToPlain elements)
  | .object members => .dict (membersToPlain members)

def elementsToPlain : List Json → List Plain
  | [] => []
  | j :: rest => j.toPlain :: elementsToPlain rest

def membersToPlain : List (String × Json) → List (Plain × Plain)
  | [] => []
  | (k, j) :: rest => (.string k, j.toPlain) :: membersToPlain rest

end

end Json

namespace Value

/-- A tree of the kinds that JSON has. -/
def IsPlainData (v : Value) : Prop :=
  v.Everywhere fun part ↦ part.kind ∈ [.null, .boolean, .int, .string, .array, .object]

theorem unsizedMembers_eq_map (members : List (Text × Value)) :
    unsizedMembers members =
      members.map fun entry ↦ (⟨entry.1.content, false⟩, entry.2.unsized) := by
  induction members with
  | nil => rfl
  | cons entry rest ih => rw [unsizedMembers, ih, List.map_cons]

theorem keys_unsizedMembers (members : Members Text Value) :
    Members.keys (unsizedMembers members) = members.keys := by
  rw [unsizedMembers_eq_map, Members.keys, List.map_map]
  rfl

theorem itemsToValues_views {elements : List Value}
    (h : ∀ v ∈ elements, v.view.toPlain.toValue = .ok v.unsized) :
    Plain.itemsToValues (Json.elementsToPlain (elementViews elements)) =
      .ok (unsizedElements elements) := by
  induction elements with
  | nil => rfl
  | cons v rest ih =>
      rw [List.forall_mem_cons] at h
      rw [elementViews, Json.elementsToPlain, Plain.itemsToValues, h.1, ih h.2]
      rfl

theorem entriesToValues_views {members : List (Text × Value)}
    (h : ∀ entry ∈ members, entry.2.view.toPlain.toValue = .ok entry.2.unsized) :
    Plain.entriesToValues (Json.membersToPlain (memberViews members)) =
      .ok (unsizedMembers members) := by
  induction members with
  | nil => rfl
  | cons entry rest ih =>
      rw [List.forall_mem_cons] at h
      rw [memberViews, Json.membersToPlain, Plain.entriesToValues, h.1, ih h.2]
      rfl

theorem toValue_view {v : Value} (hwell : v.wellFormed = true) (hplain : v.IsPlainData) :
    v.view.toPlain.toValue = .ok v.unsized := by
  induction v using tree_induction with
  | object members ih =>
      obtain ⟨hnodup, hmembers⟩ := wellFormed_object_iff.mp hwell
      have hentries := entriesToValues_views fun entry hentry ↦
        ih entry hentry (hmembers entry hentry) ((everywhere_object_iff.mp hplain).2 entry hentry)
      rw [view, Json.toPlain, Plain.toValue, hentries, unsized]
      rw [← keys_unsizedMembers] at hnodup
      exact congrArg (fun ms ↦ Except.ok (object ms)) (Members.ofEntries_of_nodup hnodup)
  | array elements ih =>
      rw [wellFormed, elementsWellFormed_iff] at hwell
      have hitems := itemsToValues_views fun v hv ↦
        ih v hv (hwell v hv) ((everywhere_array_iff.mp hplain).2 v hv)
      rw [view, Json.toPlain, Plain.toValue, hitems, unsized]
      rfl
  | substitution r => exact absurd (hplain _ (self_mem_parts _)) (by simp [kind])
  | concatenation fragments => exact absurd (hplain _ (self_mem_parts _)) (by simp [kind])
  | alternative default override => exact absurd (hplain _ (self_mem_parts _)) (by simp [kind])
  | scalar v hv =>
      have hkind := hplain v (self_mem_parts v)
      cases v with
      | null | boolean | string | int => rfl
      | _ => simp [kind, isScalar] at hkind hv

theorem sameElements_unsized {elements : List Value} (h : ∀ v ∈ elements, v.unsized.same v = true) :
    sameElements (unsizedElements elements) elements = true := by
  induction elements with
  | nil => rfl
  | cons v rest ih =>
      rw [List.forall_mem_cons] at h
      rw [unsizedElements, sameElements, h.1, ih h.2]
      rfl

theorem sameMembers_of_forall {entries members : List (Text × Value)}
    (h : ∀ entry ∈ entries, ∃ w, Members.get? members entry.1.content = some w ∧
      entry.2.same w = true) :
    sameMembers entries members = true := by
  induction entries with
  | nil => rfl
  | cons entry rest ih =>
      rw [List.forall_mem_cons] at h
      obtain ⟨w, hget, hsame⟩ := h.1
      rw [sameMembers, hget, ih h.2]
      simpa using hsame

/-- A tree of plain data is the same without the widths of its texts. -/
theorem same_unsized {v : Value} (hwell : v.wellFormed = true) (hplain : v.IsPlainData) :
    v.unsized.same v = true := by
  induction v using tree_induction with
  | object members ih =>
      obtain ⟨hnodup, hmembers⟩ := wellFormed_object_iff.mp hwell
      have hsame : sameMembers (unsizedMembers members) members = true := by
        apply sameMembers_of_forall
        rw [unsizedMembers_eq_map, List.forall_mem_map]
        intro entry hentry
        have hget : Members.get? members entry.1.content = some entry.2 :=
          Members.get?_of_mem hnodup hentry
        exact ⟨entry.2, hget, ih entry hentry (hmembers entry hentry)
          ((everywhere_object_iff.mp hplain).2 entry hentry)⟩
      rw [unsized, same, hsame, unsizedMembers_eq_map, List.length_map]
      simp
  | array elements ih =>
      rw [wellFormed, elementsWellFormed_iff] at hwell
      rw [unsized, same]
      exact sameElements_unsized fun v hv ↦
        ih v hv (hwell v hv) ((everywhere_array_iff.mp hplain).2 v hv)
  | substitution r => exact absurd (hplain _ (self_mem_parts _)) (by simp [kind])
  | concatenation fragments => exact absurd (hplain _ (self_mem_parts _)) (by simp [kind])
  | alternative default override => exact absurd (hplain _ (self_mem_parts _)) (by simp [kind])
  | scalar v hv =>
      have hkind := hplain v (self_mem_parts v)
      cases v with
      | null => rfl
      | boolean b => simp [unsized, same]
      | string s => simp [unsized, same]
      | int n => simp [unsized, same]
      | _ => simp [kind, isScalar] at hkind hv

/-- The JSON form of every value whose integers can be written reads as the
view of the value and has a canonical form, and plain data comes back from it. -/
theorem renderJson_reads {v : Value} (hwell : v.wellFormed = true) (hfits : v.jsonFits = true) :
    ∃ text, v.renderJson = .ok text ∧ Json.read text = .ok v.view ∧
      Json.canonical text = .ok v.view.sorted.text ∧
      (v.IsPlainData → v.view.toPlain.toValue = .ok v.unsized ∧ v.unsized.same v = true) := by
  have hread := (spells_json hwell hfits).read
  refine ⟨v.json, if_pos hfits, hread, ?_, fun hplain ↦ ?_⟩
  · rw [Json.canonical, hread]
    rfl
  · exact ⟨toValue_view hwell hplain, same_unsized hwell hplain⟩

/-- An object whose key has to be escaped, with a line separator and a number
in it. -/
def quotation : Value :=
  .object [(⟨"say \x22hi\x22", false⟩, .array [.string ⟨"a\u2028b", true⟩, .int (-7)])]

theorem renderJson_reads_quotation :
    (quotation.wellFormed = true ∧ quotation.jsonFits = true) ∧
      Json.read quotation.json = .ok quotation.view ∧
      quotation.view.toPlain.toValue = .ok quotation.unsized := by
  have hwell : quotation.wellFormed = true := by decide
  have hfits : quotation.jsonFits = true := by decide +kernel
  have hplain : quotation.IsPlainData := by
    simp [IsPlainData, Everywhere, quotation, parts, memberParts, itemParts, kind]
  obtain ⟨text, htext, hread, -, hback⟩ := renderJson_reads hwell hfits
  have hjson : quotation.json = text := by
    simpa [renderJson, hfits] using htext
  exact ⟨⟨hwell, hfits⟩, hjson ▸ hread, (hback hplain).1⟩

end Value

end LayeredConfig
