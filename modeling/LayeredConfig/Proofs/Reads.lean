import LayeredConfig.Config.Basic
import LayeredConfig.Proofs.Resolved

/-!
# Faults of typed reads

A read fails because nothing is at the path, because something bars the path, or
because the value is of the wrong kind or cannot be read.  Other faults come from
integers with too many digits and from spans of time that no calendar has, and
only from these.
-/

namespace LayeredConfig

/-- Nothing is at the path, something bars it, or the value cannot be read or is of
the wrong kind. -/
def ReadFault.isOwn : ReadFault → Bool
  | .notFound _ | .traversal _ | .unreadable .. | .mismatch .. => true
  | .tooManyDigits _ | .span _ | .overlong => false

/-- The kinds that are read as the target. -/
def Target.takes : Target → Kind → Bool
  | .int, kind => kind == .int || kind == .string
  | .single, kind | .double, kind => kind == .single || kind == .double || kind == .string
  | .boolean, kind => kind == .boolean || kind == .string

/-- The reads of a configuration. -/
inductive Getter where
  | value | string | scalar (target : Target) | duration | object | config | stringMap
  | stringMapString | array | intList | stringList

namespace Getter

/-- The fault of a result, if it is one. -/
def faultOf {α : Type} : Except ReadFault α → Option ReadFault
  | .ok _ => none
  | .error f => some f

/-- The fault of a read, if it has one. -/
def fault? (c : Config) (path : String) : Getter → Option ReadFault
  | .value => faultOf ((c.get path).mapError .traversal)
  | .string => faultOf (c.getString path)
  | .scalar .int => faultOf (c.getInt path)
  | .scalar .single => faultOf (c.getSingle path)
  | .scalar .double => faultOf (c.getDouble path)
  | .scalar .boolean => faultOf (c.getBoolean path)
  | .duration => faultOf (c.getDuration path)
  | .object => faultOf (c.getObject path)
  | .config => faultOf (c.getConfig path)
  | .stringMap => faultOf (c.getStringMap path)
  | .stringMapString => faultOf (c.getStringMapString path)
  | .array => faultOf (c.getArray path)
  | .intList => faultOf (c.getIntList path)
  | .stringList => faultOf (c.getStringList path)

/-- A value that a read fails on with a fault of another sort. -/
inductive Spoils : Getter → Value → ReadFault → Prop
  /-- A numeral of more digits than are read. -/
  | digits {s : Text} {ds : List Nat} :
      (Numeral.takeSign s.content.toList).2.mapM Text.asciiDigit? = some ds →
      Numeral.digitLimit < ds.length →
      Spoils (.scalar .int) (.string s) (.tooManyDigits ⟨ds.length⟩)
  /-- A span of time beyond the calendar. -/
  | span {n : Int} {o : Span.Overflow} :
      Duration.toSpan n = .error o → Spoils .duration (.duration n) (.span o)
  | text {v : Value} : v.textFits = false → Spoils .string v .overlong
  /-- A value that is refused, and whose text is to be told. -/
  | refused {target : Target} {v : Value} :
      target.takes v.kind = false → v.textFits = false → Spoils (.scalar target) v .overlong
  | member {members : Members Text Value} {entry : Text × Value} :
      entry ∈ members → entry.2.textFits = false →
      Spoils .stringMapString (.object members) .overlong
  | element {elements : List Value} {v : Value} :
      v ∈ elements → v.textFits = false → Spoils .stringList (.array elements) .overlong

end Getter

namespace Config

variable {c : Config} {path : String} {v : Value}

theorem require_of_get (h : c.get path = .ok (some v)) : c.require path = .ok v := by
  rw [require, h]

theorem require_of_get_ne (h : ∀ v, c.get path ≠ .ok (some v)) :
    ∃ f : ReadFault, c.require path = .error f ∧ f.isOwn = true := by
  unfold require
  match hget : c.get path with
  | .ok (some v) => exact absurd hget (h v)
  | .ok none => exact ⟨.notFound path, rfl, rfl⟩
  | .error t => exact ⟨.traversal t, rfl, rfl⟩

theorem textOf_eq (v : Value) :
    textOf v = if v.textFits then .ok v.text else .error .overlong := by
  unfold textOf Value.render
  split_ifs <;> rfl

theorem unreadable_eq {α : Type} (target : Target) (path : String) (v : Value) :
    (unreadable target path v : Except ReadFault α) =
      .error (if v.textFits then .unreadable target path v.text else .overlong) := by
  unfold unreadable
  rw [textOf_eq]
  cases v.textFits <;> rfl

end Config

namespace Getter

open Config

variable {c : Config} {path : String} {v : Value} {f : ReadFault}

/-- The result is a fault of another sort. -/
def IsForeign {α : Type} (r : Except ReadFault α) (f : ReadFault) : Prop :=
  faultOf r = some f ∧ f.isOwn = false

section Results

variable {α β : Type}

theorem ok_bind (a : α) (k : α → Except ReadFault β) : (Except.ok a >>= k) = k a := rfl

theorem not_isForeign_ok (a : α) : ¬ IsForeign (.ok a) f := by
  rintro ⟨h, -⟩
  cases h

theorem isForeign_error {g : ReadFault} :
    IsForeign (.error g : Except ReadFault α) f ↔ f = g ∧ g.isOwn = false := by
  constructor
  · rintro ⟨h, hown⟩
    cases h
    exact ⟨rfl, hown⟩
  · rintro ⟨rfl, hown⟩
    exact ⟨rfl, hown⟩

theorem not_isForeign_own {g : ReadFault} (h : g.isOwn = true) :
    ¬ IsForeign (.error g : Except ReadFault α) f := by
  rw [isForeign_error, h]
  simp

theorem isForeign_textOf : IsForeign (textOf v) f ↔ v.textFits = false ∧ f = .overlong := by
  rw [textOf_eq]
  cases hfits : v.textFits
  · simp [isForeign_error, ReadFault.isOwn]
  · simp [not_isForeign_ok]

theorem isForeign_unreadable {target : Target} :
    IsForeign (unreadable target path v : Except ReadFault α) f ↔
      v.textFits = false ∧ f = .overlong := by
  rw [unreadable_eq, isForeign_error]
  cases hfits : v.textFits <;> simp [ReadFault.isOwn]

/-- Texts of several values, of which one is too long to be written. -/
theorem isForeign_mapM {read : α → Except ReadFault β} {g : α → Value}
    (hread : ∀ a, faultOf (read a) = faultOf (textOf (g a))) {l : List α} :
    IsForeign (l.mapM read) f ↔ (∃ a ∈ l, (g a).textFits = false) ∧ f = .overlong := by
  induction l with
  | nil =>
      rw [List.mapM_nil]
      exact iff_of_false (not_isForeign_ok _) (by simp)
  | cons a rest ih =>
      have ha := hread a
      rw [textOf_eq] at ha
      rw [List.mapM_cons]
      cases hfits : (g a).textFits with
      | false =>
          rw [hfits] at ha
          cases hr : read a with
          | ok b =>
              rw [hr] at ha
              cases ha
          | error g =>
              rw [hr] at ha
              cases ha
              simp [bind, Except.bind, isForeign_error, ReadFault.isOwn, hfits]
      | true =>
          rw [hfits] at ha
          cases hr : read a with
          | error g =>
              rw [hr] at ha
              cases ha
          | ok b =>
              rw [ok_bind]
              have hrest : IsForeign (rest.mapM read >>= fun bs ↦ pure (b :: bs)) f ↔
                  IsForeign (rest.mapM read) f := by
                cases rest.mapM read with
                | ok bs => exact iff_of_false (not_isForeign_ok _) (not_isForeign_ok _)
                | error g => exact isForeign_error.trans isForeign_error.symm
              rw [hrest, ih]
              simp [hfits]

end Results

/-! ## Numbers and truth values -/

theorem spoils_of_not_takes {α : Type} {target : Target} (htakes : target.takes v.kind = false) :
    IsForeign (unreadable target path v : Except ReadFault α) f ↔ Spoils (.scalar target) v f := by
  rw [isForeign_unreadable]
  constructor
  · intro h
    rw [h.2]
    exact .refused htakes h.1
  · intro h
    cases h with
    | refused _ hfits => exact ⟨hfits, rfl⟩
    | digits => cases htakes

theorem spoils_of_takes {α : Type} {target : Target} {a : α} (htakes : target.takes v.kind = true)
    (hstring : v.kind ≠ .string) : IsForeign (.ok a) f ↔ Spoils (.scalar target) v f := by
  refine iff_of_false (not_isForeign_ok a) fun h ↦ ?_
  cases h with
  | refused hnot _ => simp [htakes] at hnot
  | digits => exact hstring rfl

/-- A text that is refused can be told. -/
theorem not_isForeign_text {α : Type} {target : Target} {s : Text} :
    ¬ IsForeign (unreadable target path (.string s) : Except ReadFault α) f := by
  rw [isForeign_unreadable]
  exact fun h ↦ absurd h.1 (by simp [Value.textFits])

theorem not_spoils_text {target : Target} (htarget : target ≠ .int) {s : Text} :
    ¬ Spoils (.scalar target) (.string s) f := by
  intro h
  cases h with
  | refused htakes _ => cases target <;> cases htakes
  | digits => exact htarget rfl

theorem int?_eq (text : String) : Scalar.int? text =
    match (Numeral.takeSign text.toList).2.mapM Text.asciiDigit? with
    | none | some [] => .ok none
    | some ds =>
      if Numeral.digitLimit < ds.length then .error ⟨ds.length⟩
      else
        let magnitude : Int := Numeral.ofDigits 10 ds
        let n := if (Numeral.takeSign text.toList).1 then -magnitude else magnitude
        .ok (if Scalar.intMin ≤ n && n ≤ Scalar.intMax then some n else none) := rfl

theorem int?_error_iff {text : String} {t : Scalar.TooManyDigits} :
    Scalar.int? text = .error t ↔ ∃ ds,
      (Numeral.takeSign text.toList).2.mapM Text.asciiDigit? = some ds ∧
        Numeral.digitLimit < ds.length ∧ t = ⟨ds.length⟩ := by
  rw [int?_eq]
  generalize (Numeral.takeSign text.toList).2.mapM Text.asciiDigit? = digits
  match digits with
  | none => simp
  | some [] => simp
  | some (d :: rest) =>
      simp only [Option.some.injEq, exists_eq_left']
      by_cases hlimit : Numeral.digitLimit < (d :: rest).length
      · rw [if_pos hlimit, Except.error.injEq]
        exact ⟨fun h ↦ ⟨hlimit, h.symm⟩, fun h ↦ h.2.symm⟩
      · rw [if_neg hlimit]
        exact iff_of_false nofun fun h ↦ hlimit h.1

theorem int_spoils (h : c.get path = .ok (some v)) :
    IsForeign (c.getInt path) f ↔ Spoils (.scalar .int) v f := by
  rw [getInt, require_of_get h, ok_bind]
  cases v
  case int n => exact spoils_of_takes rfl (by simp [Value.kind])
  case string s =>
    have hspoils : Spoils (.scalar .int) (.string s) f ↔
        ∃ t, Scalar.int? s.content = .error t ∧ f = .tooManyDigits t := by
      constructor
      · intro h
        cases h with
        | digits hds hlimit => exact ⟨_, int?_error_iff.mpr ⟨_, hds, hlimit, rfl⟩, rfl⟩
        | refused htakes _ => cases htakes
      · rintro ⟨t, ht, rfl⟩
        obtain ⟨ds, hds, hlimit, rfl⟩ := int?_error_iff.mp ht
        exact .digits hds hlimit
    rw [hspoils]
    dsimp only
    cases hint : Scalar.int? s.content with
    | error t =>
        rw [isForeign_error]
        simp [ReadFault.isOwn]
    | ok n =>
        refine iff_of_false ?_ (by simp)
        cases n with
        | some n => exact not_isForeign_ok n
        | none => exact not_isForeign_text
  all_goals exact spoils_of_not_takes rfl

theorem single_spoils (h : c.get path = .ok (some v)) :
    IsForeign (c.getSingle path) f ↔ Spoils (.scalar .single) v f := by
  rw [getSingle, require_of_get h, ok_bind]
  cases v
  case single x => exact spoils_of_takes rfl (by simp [Value.kind])
  case double x => exact spoils_of_takes rfl (by simp [Value.kind])
  case string s =>
    refine iff_of_false ?_ (not_spoils_text (by simp))
    dsimp only
    cases Scalar.single? s.content with
    | none => exact not_isForeign_text
    | some x => exact not_isForeign_ok x
  all_goals exact spoils_of_not_takes rfl

theorem double_spoils (h : c.get path = .ok (some v)) :
    IsForeign (c.getDouble path) f ↔ Spoils (.scalar .double) v f := by
  rw [getDouble, require_of_get h, ok_bind]
  cases v
  case single x => exact spoils_of_takes rfl (by simp [Value.kind])
  case double x => exact spoils_of_takes rfl (by simp [Value.kind])
  case string s =>
    refine iff_of_false ?_ (not_spoils_text (by simp))
    dsimp only
    cases Scalar.double? s.content with
    | none => exact not_isForeign_text
    | some x => exact not_isForeign_ok x
  all_goals exact spoils_of_not_takes rfl

theorem boolean_spoils (h : c.get path = .ok (some v)) :
    IsForeign (c.getBoolean path) f ↔ Spoils (.scalar .boolean) v f := by
  rw [getBoolean, require_of_get h, ok_bind]
  cases v
  case boolean b => exact spoils_of_takes rfl (by simp [Value.kind])
  case string s =>
    refine iff_of_false ?_ (not_spoils_text (by simp))
    dsimp only
    cases Scalar.boolean? s.content with
    | none => exact not_isForeign_text
    | some b => exact not_isForeign_ok b
  all_goals exact spoils_of_not_takes rfl

/-! ## Other reads -/

theorem string_spoils (h : c.get path = .ok (some v)) :
    IsForeign (c.getString path) f ↔ Spoils .string v f := by
  rw [getString, require_of_get h, ok_bind, isForeign_textOf]
  constructor
  · rintro ⟨hfits, rfl⟩
    exact .text hfits
  · intro h
    cases h with
    | text hfits => exact ⟨hfits, rfl⟩

theorem duration_spoils (h : c.get path = .ok (some v)) :
    IsForeign (c.getDuration path) f ↔ Spoils .duration v f := by
  rw [getDuration, require_of_get h, ok_bind]
  have hinv : Spoils .duration v f ↔
      ∃ n o, v = .duration n ∧ Duration.toSpan n = .error o ∧ f = .span o := by
    constructor
    · intro h
      cases h with
      | span ho => exact ⟨_, _, rfl, ho, rfl⟩
    · rintro ⟨n, o, rfl, ho, rfl⟩
      exact .span ho
  rw [hinv]
  cases v
  case duration n =>
    dsimp only
    cases hspan : Duration.toSpan n with
    | ok s => exact iff_of_false (not_isForeign_ok s) (by simp [hspan])
    | error o =>
        rw [isForeign_error]
        simp [ReadFault.isOwn, hspan]
  all_goals exact iff_of_false (not_isForeign_own rfl) (by simp)

theorem stringMapString_spoils (h : c.get path = .ok (some v)) :
    IsForeign (c.getStringMapString path) f ↔ Spoils .stringMapString v f := by
  rw [getStringMapString, getObject, require_of_get h, ok_bind]
  have hinv : Spoils .stringMapString v f ↔ ∃ members : Members Text Value, v = .object members ∧
      (∃ entry ∈ members, entry.2.textFits = false) ∧ f = .overlong := by
    constructor
    · intro h
      cases h with
      | member hmem hfits => exact ⟨_, rfl, ⟨_, hmem, hfits⟩, rfl⟩
    · rintro ⟨members, rfl, ⟨entry, hmem, hfits⟩, rfl⟩
      exact .member hmem hfits
  rw [hinv]
  cases v
  case object members =>
    refine (isForeign_mapM (g := Prod.snd) ?_).trans (by simp)
    rintro ⟨key, v⟩
    dsimp only
    cases textOf v <;> rfl
  all_goals exact iff_of_false (not_isForeign_own rfl) (by simp)

theorem stringList_spoils (h : c.get path = .ok (some v)) :
    IsForeign (c.getStringList path) f ↔ Spoils .stringList v f := by
  rw [getStringList, getArray, require_of_get h, ok_bind]
  have hinv : Spoils .stringList v f ↔ ∃ elements, v = .array elements ∧
      (∃ w ∈ elements, w.textFits = false) ∧ f = .overlong := by
    constructor
    · intro h
      cases h with
      | element hmem hfits => exact ⟨_, rfl, ⟨_, hmem, hfits⟩, rfl⟩
    · rintro ⟨elements, rfl, ⟨w, hmem, hfits⟩, rfl⟩
      exact .element hmem hfits
  rw [hinv]
  cases v
  case array elements => exact (isForeign_mapM (g := id) fun _ ↦ rfl).trans (by simp)
  all_goals exact iff_of_false (not_isForeign_own rfl) (by simp)

/-- Reads that neither compute nor tell a text have faults of their own only. -/
theorem not_isForeign_shape (h : c.get path = .ok (some v)) :
    ¬ IsForeign (c.getObject path) f ∧ ¬ IsForeign (c.getConfig path) f ∧
      ¬ IsForeign (c.getArray path) f ∧ ¬ IsForeign (c.getIntList path) f := by
  rw [getConfig, getObject, getArray, getIntList, require_of_get h]
  simp only [ok_bind]
  cases v
  case object members =>
    exact ⟨not_isForeign_ok _, not_isForeign_ok _, not_isForeign_own rfl, not_isForeign_own rfl⟩
  case array elements =>
    refine ⟨not_isForeign_own rfl, not_isForeign_own rfl, not_isForeign_ok _, ?_⟩
    dsimp only
    cases elements.mapM intOf? with
    | none => exact not_isForeign_own rfl
    | some ns => exact not_isForeign_ok ns
  all_goals
    exact ⟨not_isForeign_own rfl, not_isForeign_own rfl, not_isForeign_own rfl,
      not_isForeign_own rfl⟩

theorem foreign_of_found (h : c.get path = .ok (some v)) (getter : Getter) :
    getter.fault? c path = some f ∧ f.isOwn = false ↔ Spoils getter v f := by
  obtain ⟨hobject, hconfig, harray, hints⟩ := not_isForeign_shape (f := f) h
  cases getter with
  | value =>
      rw [fault?, h]
      exact iff_of_false (not_isForeign_ok _) nofun
  | string => exact string_spoils h
  | scalar target =>
      cases target with
      | int => exact int_spoils h
      | single => exact single_spoils h
      | double => exact double_spoils h
      | boolean => exact boolean_spoils h
  | duration => exact duration_spoils h
  | stringMapString => exact stringMapString_spoils h
  | stringList => exact stringList_spoils h
  | object => exact iff_of_false hobject nofun
  | config => exact iff_of_false hconfig nofun
  | stringMap => exact iff_of_false hobject nofun
  | array => exact iff_of_false harray nofun
  | intList => exact iff_of_false hints nofun

/-- Where no value is found, the fault is that of the path. -/
theorem isOwn_of_not_found (h : ∀ v, c.get path ≠ .ok (some v)) (getter : Getter)
    (hf : getter.fault? c path = some f) : f.isOwn = true := by
  obtain ⟨g, hrequire, hown⟩ := require_of_get_ne h
  cases getter with
  | value =>
      rw [fault?] at hf
      cases hget : c.get path with
      | ok found =>
          rw [hget] at hf
          cases hf
      | error t =>
          rw [hget] at hf
          cases hf
          rfl
  | scalar target =>
      cases target
      all_goals
        simp only [fault?, getInt, getSingle, getDouble, getBoolean, hrequire] at hf
        cases hf
        exact hown
  | _ =>
      simp only [fault?, getString, getDuration, getConfig, getStringMap, getStringMapString,
        getStringList, getObject, getArray, getIntList, hrequire] at hf
      cases hf
      exact hown

end Getter

/-- A read has no result because nothing is at the path, because something bars it,
because the value cannot be read or because it is of the wrong kind; the exceptions
are exactly the values that spoil the read. -/
theorem Config.read_faults (c : Config) (path : String) (getter : Getter) (f : ReadFault) :
    getter.fault? c path = some f ∧ f.isOwn = false ↔
      ∃ v, c.get path = .ok (some v) ∧ getter.Spoils v f := by
  constructor
  · rintro ⟨hf, hown⟩
    by_cases hfound : ∃ v, c.get path = .ok (some v)
    · obtain ⟨v, hv⟩ := hfound
      exact ⟨v, hv, (Getter.foreign_of_found hv getter).mp ⟨hf, hown⟩⟩
    · rw [Getter.isOwn_of_not_found (not_exists.mp hfound) getter hf] at hown
      cases hown
  · rintro ⟨v, hv, hspoils⟩
    exact (Getter.foreign_of_found hv getter).mpr hspoils

/-- A numeral of one digit more than are read. -/
theorem Config.getInt_too_many_digits :
    (Getter.scalar .int).fault?
        ⟨.object [("n", .string (String.ofList (List.replicate 4301 '1')))]⟩ "n" =
      some (.tooManyDigits ⟨4301⟩) ∧ (ReadFault.tooManyDigits ⟨4301⟩).isOwn = false := by
  have hdigits : ∀ count, (List.replicate count '1').mapM Text.asciiDigit? =
      some (List.replicate count 1) := by
    intro count
    induction count with
    | zero => rfl
    | succ count ih =>
        rw [List.replicate_succ, List.mapM_cons, ih]
        rfl
  apply (Getter.foreign_of_found rfl _).mpr
  have hspoils := @Getter.Spoils.digits (String.ofList (List.replicate 4301 '1'))
    (List.replicate 4301 1) ?_ ?_
  · rwa [List.length_replicate] at hspoils
  · rw [String.toList_ofList]
    exact hdigits 4301
  · rw [List.length_replicate]
    decide

end LayeredConfig
