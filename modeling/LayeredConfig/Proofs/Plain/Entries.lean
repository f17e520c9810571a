import LayeredConfig.Plain.Conversion
import LayeredConfig.Proofs.Members
import LayeredConfig.Proofs.Numeral
import Mathlib.Data.List.Forall2

/-!
# Maps with texts and integers for keys

An object has texts for keys only, so an integer of a map and the text of that
integer are one key of its object.  Other keys of the map stay apart.
-/

namespace LayeredConfig

namespace Plain

/-! ## Names of keys -/

/-- Keys that an object can take. -/
def isKey : Plain → Bool
  | .string _ | .int _ => true
  | _ => false

/-- The text of a key in an object. -/
def keyName : Plain → String
  | .string s => s.content
  | key => key.form

/-- A text among the keys is the text of an integer among them. -/
def KeysMeet (entries : List (Plain × Plain)) : Prop :=
  ∃ s n, (∃ item, (string s, item) ∈ entries) ∧ (∃ item, (int n, item) ∈ entries) ∧
    s.content = Numeral.ofInt n

section Keys

variable {key other : Plain} {entries : List (Plain × Plain)}

theorem keyText_of_isKey (h : key.isKey = true) :
    (key.formFits = true ∧ ∃ name, keyText key = .ok name ∧ name.content = key.keyName) ∨
      (key.formFits = false ∧ keyText key = .error .overlong) := by
  cases key with
  | string s => exact .inl ⟨rfl, s, rfl, rfl⟩
  | int n =>
      rw [keyText, formFits]
      cases Numeral.isOverlong n
      · exact .inl ⟨rfl, ⟨Numeral.ofInt n, false⟩, rfl, rfl⟩
      · exact .inr ⟨rfl, rfl⟩
  | _ => cases h

theorem sameKey_int (m n : Int) : sameKey (int m) (int n) = decide (m = n) := by
  simp [sameKey, sameNumber, number?, filed?, Parts.same, Number.same, beq_eq_decide]

theorem keyName_ne (hkey : key.isKey = true) (hother : other.isKey = true)
    (hdistinct : sameKey key other = false) (hapart : ∀ s n, (key = string s ∧ other = int n) ∨
      (key = int n ∧ other = string s) → s.content ≠ Numeral.ofInt n) :
    key.keyName ≠ other.keyName := by
  cases key with
  | string s =>
      cases other with
      | string t => simpa [sameKey, keyName] using hdistinct
      | int n => exact hapart s n (.inl ⟨rfl, rfl⟩)
      | _ => cases hother
  | int m =>
      cases other with
      | string s => exact fun heq ↦ hapart s m (.inr ⟨rfl, rfl⟩) heq.symm
      | int n =>
          intro heq
          rw [sameKey_int, Numeral.ofInt_inj heq] at hdistinct
          simp at hdistinct
      | _ => cases hother
  | _ => cases hkey

/-- Keys of a map that are told apart as data meet as names only where an integer
meets its text. -/
theorem nodup_keyNames_iff (hkeys : ∀ entry ∈ entries, entry.1.isKey = true)
    (hdistinct : entries.Pairwise fun a b ↦ sameKey a.1 b.1 = false) :
    (entries.map fun entry ↦ entry.1.keyName).Nodup ↔ ¬ KeysMeet entries := by
  constructor
  · rintro hnodup ⟨s, n, ⟨item, hs⟩, ⟨other, hn⟩, hname⟩
    have hsame := List.inj_on_of_nodup_map hnodup hs hn hname
    cases hsame
  · intro hapart
    rw [List.Nodup, List.pairwise_map]
    refine hdistinct.imp_of_mem ?_
    intro a b ha hb hab
    apply keyName_ne (hkeys a ha) (hkeys b hb) hab
    rintro s n (⟨hs, hn⟩ | ⟨hn, hs⟩) hname
    · exact hapart ⟨s, n, ⟨a.2, hs ▸ ha⟩, ⟨b.2, hn ▸ hb⟩, hname⟩
    · exact hapart ⟨s, n, ⟨b.2, hs ▸ hb⟩, ⟨a.2, hn ▸ ha⟩, hname⟩

end Keys

/-! ## Converting the entries -/

/-- What a member of an object is for an entry of a map. -/
def Becomes (entry : Plain × Plain) (member : Text × Value) : Prop :=
  member.1.content = entry.1.keyName ∧ entry.2.toValue = .ok member.2

section Entries

variable {entries : List (Plain × Plain)} {members : Members Text Value}

theorem keys_of_becomes (h : List.Forall₂ Becomes entries members) :
    members.keys = entries.map fun entry ↦ entry.1.keyName := by
  induction h with
  | nil => rfl
  | cons hentry _ ih => rw [Members.keys, List.map_cons, List.map_cons, ← ih, ← hentry.1]; rfl

theorem entriesToValues_becomes (hkeys : ∀ entry ∈ entries, entry.1.isKey = true)
    (hitems : ∀ entry ∈ entries, ∃ v, entry.2.toValue = .ok v) :
    ((∃ entry ∈ entries, entry.1.formFits = false) ∧
        entriesToValues entries = .error .overlong) ∨
      ((∀ entry ∈ entries, entry.1.formFits = true) ∧ ∃ members,
        entriesToValues entries = .ok members ∧ List.Forall₂ Becomes entries members) := by
  induction entries with
  | nil => exact .inr ⟨by simp, [], rfl, .nil⟩
  | cons entry rest ih =>
      obtain ⟨key, item⟩ := entry
      obtain ⟨v, hv⟩ := hitems (key, item) List.mem_cons_self
      have hrest := ih (fun entry hmem ↦ hkeys entry (List.mem_cons_of_mem _ hmem))
        fun entry hmem ↦ hitems entry (List.mem_cons_of_mem _ hmem)
      rcases keyText_of_isKey (hkeys (key, item) List.mem_cons_self) with
        ⟨hfits, name, hname, hcontent⟩ | ⟨hlong, hfault⟩
      · rcases hrest with ⟨⟨entry, hmem, hlong⟩, hfault⟩ | ⟨hfit, members, hmembers, hall⟩
        · refine .inl ⟨⟨entry, List.mem_cons_of_mem _ hmem, hlong⟩, ?_⟩
          rw [entriesToValues, hname, hv, hfault]
          rfl
        · refine .inr ⟨List.forall_mem_cons.mpr ⟨hfits, hfit⟩, (name, v) :: members, ?_,
            .cons ⟨hcontent, hv⟩ hall⟩
          rw [entriesToValues, hname, hv, hmembers]
          rfl
      · refine .inl ⟨⟨(key, item), List.mem_cons_self, hlong⟩, ?_⟩
        rw [entriesToValues, hfault]
        rfl

theorem get?_of_last {before after : List (Plain × Plain)} {key item : Plain}
    (h : List.Forall₂ Becomes (before ++ (key, item) :: after) members)
    (hlast : ∀ entry ∈ after, entry.1.keyName ≠ key.keyName) :
    ∃ v, item.toValue = .ok v ∧ (Members.ofEntries members).get? key.keyName = some v := by
  obtain ⟨member, lasts, hmember, hlasts, hrest⟩ :=
    List.forall₂_cons_right_iff.mp (List.forall₂_drop_append members before _ h.flip)
  refine ⟨member.2, hmember.2, ?_⟩
  rw [← hmember.1, ← List.take_append_drop before.length members, hrest]
  apply Members.get?_ofEntries_of_last
  rw [keys_of_becomes hlasts.flip, hmember.1, List.mem_map]
  rintro ⟨entry, hentry, hname⟩
  exact hlast entry hentry hname

end Entries

/-! ## The object of a map -/

/-- The members of the object of a map: each name stands where it stood first and
holds what its last entry holds. -/
structure ObjectOf (entries : List (Plain × Plain)) (members : Members Text Value) : Prop where
  keys : Members.keys members = (entries.map fun entry ↦ entry.1.keyName).eraseDups
  last : ∀ before key item after, entries = before ++ (key, item) :: after →
    (∀ entry ∈ after, entry.1.keyName ≠ key.keyName) →
      ∃ v, item.toValue = .ok v ∧ Members.get? members key.keyName = some v

theorem objectOf_ofEntries {entries : List (Plain × Plain)} {members : Members Text Value}
    (h : List.Forall₂ Becomes entries members) : ObjectOf entries (Members.ofEntries members) where
  keys := by rw [Members.keys_ofEntries, keys_of_becomes h]
  last := by
    rintro before key item after rfl hlast
    exact get?_of_last h hlast

theorem ObjectOf.held {entries : List (Plain × Plain)} {members : Members Text Value}
    (h : ObjectOf entries members) (hnodup : (entries.map fun entry ↦ entry.1.keyName).Nodup)
    {entry : Plain × Plain} (hentry : entry ∈ entries) :
    ∃ v, entry.2.toValue = .ok v ∧ members.get? entry.1.keyName = some v := by
  obtain ⟨before, after, rfl⟩ := List.append_of_mem hentry
  apply h.last before entry.1 entry.2 after rfl
  intro other hother
  rw [List.map_append, List.map_cons, List.nodup_append, List.nodup_cons] at hnodup
  intro hname
  exact hnodup.2.1.1 (List.mem_map.mpr ⟨other, hother, hname⟩)

/-- A map with texts and integers for keys becomes an object unless an integer is
too long to be written.  The object holds every entry exactly when no integer
among the keys meets its text there; else it has fewer keys. -/
theorem toValue_dict {entries : List (Plain × Plain)}
    (hkeys : ∀ entry ∈ entries, entry.1.isKey = true)
    (hdistinct : entries.Pairwise fun a b ↦ sameKey a.1 b.1 = false)
    (hitems : ∀ entry ∈ entries, ∃ v, entry.2.toValue = .ok v) :
    ((∃ entry ∈ entries, entry.1.formFits = false) ∧
        (dict entries).toValue = .error .overlong) ∨
      ((∀ entry ∈ entries, entry.1.formFits = true) ∧
        ∃ members, (dict entries).toValue = .ok (.object members) ∧ ObjectOf entries members ∧
          (¬ KeysMeet entries → members.length = entries.length ∧ ∀ entry ∈ entries,
            ∃ v, entry.2.toValue = .ok v ∧ Members.get? members entry.1.keyName = some v) ∧
          (KeysMeet entries → members.length < entries.length)) := by
  rcases entriesToValues_becomes hkeys hitems with ⟨hlong, hfault⟩ | ⟨hfit, members, hvalues, hall⟩
  · refine .inl ⟨hlong, ?_⟩
    rw [toValue, hfault]
    rfl
  · have hobject := objectOf_ofEntries hall
    have hnodup := nodup_keyNames_iff hkeys hdistinct
    refine .inr ⟨hfit, Members.ofEntries members, by rw [toValue, hvalues]; rfl, hobject, ?_, ?_⟩
    · intro hapart
      refine ⟨?_, fun entry ↦ hobject.held (hnodup.mpr hapart)⟩
      have hdistinctNames := hnodup.mpr hapart
      rw [← keys_of_becomes hall] at hdistinctNames
      rw [Members.ofEntries_of_nodup hdistinctNames, hall.length_eq]
    · intro hmeet
      rw [hall.length_eq]
      apply Members.length_ofEntries_lt
      rw [keys_of_becomes hall]
      exact fun h ↦ hnodup.mp h hmeet

/-- A port with its settings beside a name: every entry is held. -/
theorem toValue_dict_port :
    ∃ members,
      (dict [(int 8080, dict [(string "tls", boolean true)]), (string "name", null)]).toValue =
        .ok (.object members) ∧ members.length = 2 ∧
      Members.get? members "8080" = some (.object [("tls", .boolean true)]) := by
  have hapart :
      ¬ KeysMeet [(int 8080, dict [(string "tls", boolean true)]), (string "name", null)] := by
    rintro ⟨s, n, ⟨item, hs⟩, ⟨other, hn⟩, hname⟩
    simp only [List.mem_cons, Prod.mk.injEq, reduceCtorEq, false_and, false_or, List.not_mem_nil,
      or_false, string.injEq, int.injEq] at hs hn
    rw [hs.1, hn.1] at hname
    revert hname
    decide
  have hitems : ∀ entry ∈ [(int 8080, dict [(string "tls", boolean true)]), (string "name", null)],
      ∃ v, entry.2.toValue = .ok v := by
    simp only [List.forall_mem_cons]
    exact ⟨⟨.object [("tls", .boolean true)], rfl⟩, ⟨.null, rfl⟩, by simp⟩
  rcases toValue_dict (by decide) (by decide) hitems with
    ⟨⟨entry, hentry, hlong⟩, -⟩ | ⟨-, members, hvalue, -, hheld, -⟩
  · have hfit : [(int 8080, dict [(string "tls", boolean true)]), (string "name", null)].all
        (fun entry ↦ entry.1.formFits) = true := by decide +kernel
    rw [List.all_eq_true.mp hfit entry hentry] at hlong
    cases hlong
  · obtain ⟨hlength, hall⟩ := hheld hapart
    obtain ⟨v, hv, hget⟩ := hall _ List.mem_cons_self
    cases hv
    exact ⟨members, hvalue, hlength, hget⟩

/-- An integer and its text are two keys of the map, and one of its object. -/
theorem toValue_dict_meeting :
    sameKey (int 1) (string "1") = false ∧
      (dict [(int 1, string "a"), (string "1", string "b")]).toValue =
        .ok (.object [("1", .string "b")]) := by
  have hfits : Numeral.isOverlong 1 = false := by decide +kernel
  have hkey : keyText (int 1) = .ok ⟨"1", false⟩ := by
    rw [keyText, hfits]
    rfl
  refine ⟨rfl, ?_⟩
  rw [toValue, entriesToValues, hkey]
  rfl

end Plain

end LayeredConfig
