import LayeredConfig.Config.Basic
import LayeredConfig.Proofs.Layer

/-!
# Paths through layered objects

A path is followed through two layered objects at once.  As long as both hold
objects, so do the layers.  Where the upper one holds another value, that value
stands in the way; where the lower one does, it is hidden; and where the upper
one holds nothing, only the lower one counts.
-/

namespace LayeredConfig.Value

variable {upper lower inner : Members Text Value} {path : Path} {key : String}

/-- What a walk finds; a walk that is blocked finds nothing. -/
def reached (members : Members Text Value) (path : Path) : Option Value :=
  match walk members path with
  | .ok found => found
  | .error _ => none

theorem reached_of_ok {found : Option Value} (h : walk upper path = .ok found) :
    reached upper path = found := by
  simp [reached, h]

theorem reached_cons_object (hpath : path ≠ [])
    (hget : upper.get? key = some (.object inner)) :
    reached upper (key :: path) = reached inner path := by
  rw [reached, walk_cons_object hpath hget, reached]
  cases walk inner path <;> rfl

theorem reached_cons_other (hpath : path ≠ [])
    (hget : ∀ inner, upper.get? key ≠ some (.object inner)) :
    reached upper (key :: path) = none := by
  cases hkey : upper.get? key with
  | none => rw [reached, walk_cons_none hkey]
  | some v =>
      cases hv : v.isObject with
      | false => rw [reached, walk_cons_other hpath hkey hv]
      | true =>
          obtain ⟨inner, rfl⟩ := exists_object hv
          exact absurd hkey (hget _)

/-- Where the lower object holds no object, the upper one shows whole. -/
theorem showing_object_of_not_object (h : ∀ inner, upper.get? key ≠ some (.object inner))
    (v : Value) : showing (some v) (upper.get? key) = some v := by
  cases hkey : upper.get? key with
  | none => rfl
  | some w =>
      cases hw : w.isObject with
      | false => rw [showing, overlay_over_not_object v hw]
      | true =>
          obtain ⟨inner, rfl⟩ := exists_object hw
          exact absurd hkey (h _)

/-! ## Where the upper object holds nothing -/

/-- The shortest way along a path that ends at nothing. -/
structure FirstMissing (members : Members Text Value) (path place : Path) : Prop where
  nonempty : place ≠ []
  along : place <+: path
  missing : walk members place = .ok none
  least : ∀ before, before ≠ [] → before <+: place → before ≠ place →
    walk members before ≠ .ok none

theorem FirstMissing.of_get?_none (hget : upper.get? key = none) (rest : Path) :
    FirstMissing upper (key :: rest) [key] := by
  constructor
  · exact List.cons_ne_nil key []
  · exact List.cons_prefix_cons.mpr ⟨rfl, List.nil_prefix⟩
  · rw [walk_singleton, hget]
  · intro before hbefore hle hne
    have hlength := hle.length_le
    have hlong : before.length ≠ 0 := fun h ↦ hbefore (List.length_eq_zero_iff.mp h)
    exact absurd (hle.eq_of_length (by rw [List.length_singleton] at hlength ⊢; omega)) hne

theorem walk_cons_object_eq_ok_iff (hpath : path ≠ [])
    (hget : upper.get? key = some (.object inner)) {found : Option Value} :
    walk upper (key :: path) = .ok found ↔ walk inner path = .ok found := by
  rw [walk_cons_object hpath hget, mapError_eq_ok_iff]

theorem firstMissing_cons_iff (hget : upper.get? key = some (.object inner)) {rest place : Path} :
    FirstMissing upper (key :: rest) (key :: place) ↔ FirstMissing inner rest place := by
  constructor
  · intro h
    have hplace : place ≠ [] := by
      rintro rfl
      have hmissing := h.missing
      rw [walk_singleton, hget] at hmissing
      cases hmissing
    refine ⟨hplace, (List.cons_prefix_cons.mp h.along).2,
      (walk_cons_object_eq_ok_iff hplace hget).mp h.missing, ?_⟩
    intro before hbefore hle hne hwalk
    apply h.least (key :: before) (List.cons_ne_nil key before)
      (List.cons_prefix_cons.mpr ⟨rfl, hle⟩)
    · exact fun heq ↦ hne (List.cons.inj heq).2
    · exact (walk_cons_object_eq_ok_iff hbefore hget).mpr hwalk
  · intro h
    refine ⟨List.cons_ne_nil key place, List.cons_prefix_cons.mpr ⟨rfl, h.along⟩,
      (walk_cons_object_eq_ok_iff h.nonempty hget).mpr h.missing, ?_⟩
    intro before hbefore hle hne hwalk
    obtain ⟨first, others, rfl⟩ := List.exists_cons_of_ne_nil hbefore
    obtain ⟨rfl, hothers_le⟩ := List.cons_prefix_cons.mp hle
    by_cases hothers : others = []
    · subst hothers
      rw [walk_singleton, hget] at hwalk
      cases hwalk
    · apply h.least others hothers hothers_le
      · exact fun heq ↦ hne (by rw [heq])
      · exact (walk_cons_object_eq_ok_iff hothers hget).mp hwalk

/-- Only an object lets a walk go on. -/
theorem get?_of_walk_cons (hpath : path ≠ []) {v : Value} (hget : upper.get? key = some v)
    {found : Option Value} (h : walk upper (key :: path) = .ok found) :
    ∃ inner, v = .object inner ∧ walk inner path = .ok found := by
  cases hv : v.isObject with
  | false =>
      rw [walk_cons_other hpath hget hv] at h
      cases h
  | true =>
      obtain ⟨inner, rfl⟩ := exists_object hv
      exact ⟨_, rfl, (walk_cons_object_eq_ok_iff hpath hget).mp h⟩

theorem exists_firstMissing (hpath : path ≠ []) (h : walk upper path = .ok none) :
    ∃ place, FirstMissing upper path place := by
  induction path generalizing upper with
  | nil => exact absurd rfl hpath
  | cons key rest ih =>
      cases hget : upper.get? key with
      | none => exact ⟨[key], .of_get?_none hget rest⟩
      | some v =>
          have hrest : rest ≠ [] := by
            rintro rfl
            rw [walk_singleton, hget] at h
            cases h
          obtain ⟨inner, rfl, hinner⟩ := get?_of_walk_cons hrest hget h
          obtain ⟨place, hplace⟩ := ih hrest hinner
          exact ⟨key :: place, (firstMissing_cons_iff hget).mpr hplace⟩

theorem FirstMissing.cons_cases {rest place : Path} (h : FirstMissing upper (key :: rest) place) :
    (upper.get? key = none ∧ place = [key]) ∨
      ∃ inner others, upper.get? key = some (.object inner) ∧ place = key :: others ∧
        others ≠ [] ∧ rest ≠ [] ∧ FirstMissing inner rest others := by
  obtain ⟨first, others, rfl⟩ := List.exists_cons_of_ne_nil h.nonempty
  obtain ⟨rfl, hle⟩ := List.cons_prefix_cons.mp h.along
  cases hget : upper.get? first with
  | none =>
      refine Or.inl ⟨rfl, ?_⟩
      by_contra hne
      apply h.least [first] (List.cons_ne_nil first [])
        (List.cons_prefix_cons.mpr ⟨rfl, List.nil_prefix⟩) (fun heq ↦ hne heq.symm)
      rw [walk_singleton, hget]
  | some v =>
      have hothers : others ≠ [] := by
        rintro rfl
        have hmissing := h.missing
        rw [walk_singleton, hget] at hmissing
        cases hmissing
      have hrest : rest ≠ [] := by
        rintro rfl
        exact hothers (List.prefix_nil.mp hle)
      obtain ⟨inner, rfl, -⟩ := get?_of_walk_cons hothers hget h.missing
      exact Or.inr ⟨inner, others, rfl, rfl, hothers, hrest, (firstMissing_cons_iff hget).mp h⟩

theorem FirstMissing.walk_eq_none {place : Path} (h : FirstMissing upper path place) :
    walk upper path = .ok none := by
  induction path generalizing upper place with
  | nil => exact absurd (List.prefix_nil.mp h.along) h.nonempty
  | cons key rest ih =>
      rcases h.cons_cases with ⟨hget, -⟩ | ⟨inner, others, hget, -, -, hrest, hinner⟩
      · exact walk_cons_none hget rest
      · exact (walk_cons_object_eq_ok_iff hrest hget).mpr (ih hinner)

/-- The place is a member of the whole, or of an object in it. -/
def Adjoins (members : Members Text Value) (place : Path) : Prop :=
  place.length = 1 ∨ ∃ inner, reached members place.dropLast = some (.object inner)

theorem adjoins_cons_iff (hpath : path ≠ []) (hget : upper.get? key = some (.object inner)) :
    Adjoins upper (key :: path) ↔ Adjoins inner path := by
  have hlength := List.length_pos_iff.mpr hpath
  rw [Adjoins, Adjoins, List.dropLast_cons_of_ne_nil hpath, List.length_cons]
  by_cases hone : path.length = 1
  · have hdrop : path.dropLast = [] := by
      rw [← List.length_eq_zero_iff, List.length_dropLast, hone]
    rw [hdrop, reached_of_ok (walk_singleton upper key), hget]
    exact ⟨fun _ ↦ Or.inl hone, fun _ ↦ Or.inr ⟨inner, rfl⟩⟩
  · have hdrop : path.dropLast ≠ [] := by
      rw [Ne, ← List.length_eq_zero_iff, List.length_dropLast]
      omega
    rw [reached_cons_object hdrop hget]
    constructor
    · rintro (hzero | hinner)
      · omega
      · exact Or.inr hinner
    · rintro (hone' | hinner)
      · exact absurd hone' hone
      · exact Or.inr hinner

theorem not_adjoins_cons (hpath : path ≠ [])
    (hget : ∀ inner, upper.get? key ≠ some (.object inner)) : ¬ Adjoins upper (key :: path) := by
  rw [Adjoins, List.dropLast_cons_of_ne_nil hpath, List.length_cons]
  rintro (hzero | ⟨inner, hinner⟩)
  · have := List.length_pos_iff.mpr hpath
    omega
  · by_cases hdrop : path.dropLast = []
    · rw [hdrop, reached_of_ok (walk_singleton upper key)] at hinner
      exact hget inner hinner
    · rw [reached_cons_other hdrop hget] at hinner
      cases hinner

/-! ## Walks through layers -/

/-- What the upper object holds shows, laid over what the lower one holds. -/
theorem walk_layer_of_some (hupper : (object upper).wellFormed = true)
    (lower : Members Text Value) {v : Value}
    (h : walk upper path = .ok (some v)) :
    walk (layer upper lower) path = .ok (showing (some v) (reached lower path)) := by
  induction path generalizing upper lower with
  | nil => cases h
  | cons key rest ih =>
      have hnodup := (wellFormed_object_iff.mp hupper).1
      by_cases hrest : rest = []
      · subst hrest
        rw [walk_singleton, Except.ok.injEq] at h
        rw [walk_singleton, get?_layer hnodup, h, reached_of_ok (walk_singleton lower key)]
      · cases hget : upper.get? key with
        | none =>
            rw [walk_cons_none hget] at h
            cases h
        | some w =>
            obtain ⟨inner, rfl, hinner⟩ := get?_of_walk_cons hrest hget h
            have hlayer := get?_layer hnodup lower key
            have hwell := wellFormed_inherited.of_get? hupper hget
            by_cases hlower : ∃ f, lower.get? key = some (.object f)
            · obtain ⟨f, hf⟩ := hlower
              rw [hget, hf, showing, overlay_object] at hlayer
              rw [walk_cons_object_eq_ok_iff hrest hlayer, reached_cons_object hrest hf]
              exact ih hwell f hinner
            · have hnot : ∀ f, lower.get? key ≠ some (.object f) := fun f hf ↦ hlower ⟨f, hf⟩
              rw [hget, showing_object_of_not_object hnot] at hlayer
              rw [walk_cons_object_eq_ok_iff hrest hlayer, reached_cons_other hrest hnot]
              exact hinner

/-- What stands in the way in the upper object does so in the layers. -/
theorem walk_layer_of_error (hupper : (object upper).wellFormed = true)
    (lower : Members Text Value) {b : Blocked}
    (h : walk upper path = .error b) : walk (layer upper lower) path = .error b := by
  induction path generalizing upper lower b with
  | nil => cases h
  | cons key rest ih =>
      have hnodup := (wellFormed_object_iff.mp hupper).1
      have hlayer := get?_layer hnodup lower key
      have hrest : rest ≠ [] := by
        rintro rfl
        cases h
      cases hget : upper.get? key with
      | none =>
          rw [walk_cons_none hget] at h
          cases h
      | some v =>
          cases hv : v.isObject with
          | false =>
              have hshow : (layer upper lower).get? key = some v := by
                rw [hlayer, hget]
                cases lower.get? key with
                | none => rfl
                | some w => rw [showing, overlay_of_not_object hv]
              rw [walk_cons_other hrest hshow hv, ← walk_cons_other hrest hget hv, h]
          | true =>
              obtain ⟨inner, rfl⟩ := exists_object hv
              have hwell := wellFormed_inherited.of_get? hupper hget
              rw [walk_cons_object hrest hget] at h
              by_cases hlower : ∃ f, lower.get? key = some (.object f)
              · obtain ⟨f, hf⟩ := hlower
                rw [hget, hf, showing, overlay_object] at hlayer
                cases hinner : walk inner rest with
                | ok found =>
                    rw [hinner] at h
                    cases h
                | error b' =>
                    rw [walk_cons_object hrest hlayer, ih hwell f hinner, ← h, hinner]
              · have hnot : ∀ f, lower.get? key ≠ some (.object f) := fun f hf ↦ hlower ⟨f, hf⟩
                rw [hget, showing_object_of_not_object hnot] at hlayer
                rw [walk_cons_object hrest hlayer, h]

/-- Behind a place that the upper object misses only the lower one counts, if
the place adjoins an object of it. -/
theorem walk_layer_of_missing (hupper : (object upper).wellFormed = true)
    (lower : Members Text Value) {place : Path}
    (h : FirstMissing upper path place) :
    (Adjoins lower place → walk (layer upper lower) path = walk lower path) ∧
      (¬ Adjoins lower place → walk (layer upper lower) path = .ok none) := by
  induction path generalizing upper lower place with
  | nil => exact absurd (List.prefix_nil.mp h.along) h.nonempty
  | cons key rest ih =>
      have hlayer := get?_layer (wellFormed_object_iff.mp hupper).1 lower key
      rcases h.cons_cases with ⟨hget, rfl⟩ | ⟨inner, others, hget, rfl, hothers, hrest, hinner⟩
      · rw [hget, showing] at hlayer
        exact ⟨fun _ ↦ walk_congr hlayer rest, fun hnot ↦ absurd (Or.inl rfl) hnot⟩
      · have hwell := wellFormed_inherited.of_get? hupper hget
        by_cases hlower : ∃ f, lower.get? key = some (.object f)
        · obtain ⟨f, hf⟩ := hlower
          obtain ⟨hin, hout⟩ := ih hwell f hinner
          rw [hget, hf, showing, overlay_object] at hlayer
          rw [adjoins_cons_iff hothers hf, walk_cons_object hrest hlayer, walk_cons_object hrest hf]
          constructor
          · intro hadjoins
            rw [hin hadjoins]
          · intro hadjoins
            rw [hout hadjoins]
            rfl
        · have hnot : ∀ f, lower.get? key ≠ some (.object f) := fun f hf ↦ hlower ⟨f, hf⟩
          rw [hget, showing_object_of_not_object hnot] at hlayer
          constructor
          · intro hadjoins
            exact absurd hadjoins (not_adjoins_cons hothers hnot)
          · intro _
            exact (walk_cons_object_eq_ok_iff hrest hlayer).mpr hinner.walk_eq_none

/-! ## What is found in layers -/

section Found

variable (hupper : (object upper).wellFormed = true) (lower : Members Text Value)
  (hkeys : path.any String.isEmpty = false)

include hupper hkeys

theorem find_layer_of_error {t : Traversal} (ht : find upper path = .error t) :
    find (layer upper lower) path = .error t := by
  rw [find_eq_of_walk hkeys] at ht ⊢
  cases hwalk : walk upper path with
  | ok found =>
      rw [hwalk] at ht
      cases ht
  | error b => rw [walk_layer_of_error hupper lower hwalk, ← ht, hwalk]

theorem find_layer_of_other {v : Value} (hv : find upper path = .ok (some v))
    (hother : v.isObject = false) : find (layer upper lower) path = .ok (some v) := by
  rw [find_eq_ok_iff hkeys] at hv ⊢
  rw [walk_layer_of_some hupper lower hv]
  cases reached lower path with
  | none => rfl
  | some w => rw [showing, overlay_of_not_object hother]

theorem find_layer_of_objects {o f : Members Text Value}
    (ho : find upper path = .ok (some (.object o)))
    (hf : find lower path = .ok (some (.object f))) :
    find (layer upper lower) path = .ok (some (.object (layer o f))) := by
  rw [find_eq_ok_iff hkeys] at ho hf ⊢
  rw [walk_layer_of_some hupper lower ho, reached_of_ok hf, showing, overlay_object]

theorem find_layer_of_object {o : Members Text Value}
    (ho : find upper path = .ok (some (.object o)))
    (hnot : ∀ f, find lower path ≠ .ok (some (.object f))) :
    find (layer upper lower) path = .ok (some (.object o)) := by
  rw [find_eq_ok_iff hkeys] at ho ⊢
  rw [walk_layer_of_some hupper lower ho]
  cases hwalk : walk lower path with
  | error b => simp [reached, hwalk, showing]
  | ok found =>
      rcases found with _ | w
      · simp [reached, hwalk, showing]
      · cases hw : w.isObject with
        | false => rw [reached_of_ok hwalk, showing, overlay_over_not_object _ hw]
        | true =>
            obtain ⟨inner, rfl⟩ := exists_object hw
            exact absurd ((find_eq_ok_iff hkeys).mpr hwalk) (hnot _)

theorem find_layer_of_none (hpath : path ≠ []) (hnone : find upper path = .ok none) :
    ∃ place, FirstMissing upper path place ∧
      (Adjoins lower place → find (layer upper lower) path = find lower path) ∧
      (¬ Adjoins lower place → find (layer upper lower) path = .ok none) := by
  rw [find_eq_ok_iff hkeys] at hnone
  obtain ⟨place, hplace⟩ := exists_firstMissing hpath hnone
  obtain ⟨hin, hout⟩ := walk_layer_of_missing hupper lower hplace
  refine ⟨place, hplace, ?_, ?_⟩
  · intro hadjoins
    rw [find_eq_of_walk hkeys, find_eq_of_walk hkeys, hin hadjoins]
  · intro hadjoins
    rw [find_eq_ok_iff hkeys, hout hadjoins]

end Found

/-- Where both have an object, the layers have the keys of the lower one first. -/
theorem walk_layer_of_objects (hupper : (object upper).wellFormed = true)
    (lower : Members Text Value) {o f : Members Text Value}
    (ho : walk upper path = .ok (some (.object o)))
    (hf : walk lower path = .ok (some (.object f))) :
    ∃ m : Members Text Value, walk (layer upper lower) path = .ok (some (.object m)) ∧
      m.keys = f.keys ++ o.keys.filter (· ∉ f.keys) := by
  have hwell := wellFormed_inherited.of_walk hupper ho
  refine ⟨layer o f, ?_, keys_layer (wellFormed_object_iff.mp hwell).1 f⟩
  rw [walk_layer_of_some hupper lower ho, reached_of_ok hf, showing, overlay_object]

/-- The outcome of a path through two layered objects, and the order of their
keys, by the outcomes in each of them. -/
theorem find_layer (hupper : (object upper).wellFormed = true) (lower : Members Text Value)
    (hpath : path ≠ []) (hkeys : path.any String.isEmpty = false) :
    (∀ t, find upper path = .error t → find (layer upper lower) path = .error t) ∧
    (∀ v, find upper path = .ok (some v) → v.isObject = false →
      find (layer upper lower) path = .ok (some v)) ∧
    (∀ o, find upper path = .ok (some (.object o)) →
      (∀ f, find lower path = .ok (some (.object f)) →
        find (layer upper lower) path = .ok (some (.object (layer o f)))) ∧
      ((∀ f, find lower path ≠ .ok (some (.object f))) →
        find (layer upper lower) path = .ok (some (.object o)))) ∧
    (find upper path = .ok none → ∃ place, FirstMissing upper path place ∧
      (Adjoins lower place → find (layer upper lower) path = find lower path) ∧
      (¬ Adjoins lower place → find (layer upper lower) path = .ok none)) ∧
    (layer upper lower).keys = lower.keys ++ upper.keys.filter (· ∉ lower.keys) ∧
    ∀ (place : Path) (o f : Members Text Value), walk upper place = .ok (some (.object o)) →
      walk lower place = .ok (some (.object f)) →
        ∃ m : Members Text Value, walk (layer upper lower) place = .ok (some (.object m)) ∧
          m.keys = f.keys ++ o.keys.filter (· ∉ f.keys) := by
  refine ⟨fun t ↦ find_layer_of_error hupper lower hkeys,
    fun v ↦ find_layer_of_other hupper lower hkeys, fun o ho ↦ ⟨fun f ↦ ?_, ?_⟩,
    find_layer_of_none hupper lower hkeys hpath,
    keys_layer (wellFormed_object_iff.mp hupper).1 lower,
    fun place o f ↦ walk_layer_of_objects hupper lower⟩
  · exact find_layer_of_objects hupper lower hkeys ho
  · exact find_layer_of_object hupper lower hkeys ho

/-- A port over a host and a port. -/
theorem find_layer_host :
    find (layer [(⟨"http", false⟩, object [(⟨"port", false⟩, int 80)])]
      [(⟨"http", false⟩, object [(⟨"port", false⟩, int 8080), (⟨"host", false⟩, null)])])
        ["http", "host"] = .ok (some null) := by
  have hupper :
      (object [(⟨"http", false⟩, object [(⟨"port", false⟩, int 80)])]).wellFormed = true := by
    decide
  have hkeys : ["http", "host"].any String.isEmpty = false := by decide
  obtain ⟨-, -, -, habsent, -⟩ := find_layer hupper
    [(⟨"http", false⟩, object [(⟨"port", false⟩, int 8080), (⟨"host", false⟩, null)])]
    (List.cons_ne_nil _ _) hkeys
  obtain ⟨place, hplace, hin, -⟩ := habsent rfl
  have heq : place = ["http", "host"] := by
    rcases hplace.cons_cases with ⟨hget, -⟩ | ⟨inner, others, hget, rfl, hothers, -, hinner⟩
    · cases hget
    · obtain ⟨key, rest, rfl⟩ := List.exists_cons_of_ne_nil hothers
      obtain ⟨rfl, hle⟩ := List.cons_prefix_cons.mp hinner.along
      rw [List.prefix_nil.mp hle]
  subst heq
  exact hin (Or.inr ⟨_, rfl⟩)

/-! ## Three layers -/

/-- At some place a value of the middle object hides an object of the lower one
from an object of the upper one. -/
def Masks (upper middle lower : Members Text Value) : Prop :=
  ∃ place a b c, walk upper place = .ok (some (object a)) ∧
    walk middle place = .ok (some b) ∧ b.isObject = false ∧
      walk lower place = .ok (some (object c))

theorem Masks.under {a b c upper middle lower : Members Text Value} (h : Masks a b c)
    (hupper : upper.get? key = some (object a)) (hmiddle : middle.get? key = some (object b))
    (hlower : lower.get? key = some (object c)) : Masks upper middle lower := by
  obtain ⟨place, a', b', c', ha, hb, hother, hc⟩ := h
  have hplace : place ≠ [] := by
    rintro rfl
    cases ha
  exact ⟨key :: place, a', b', c', (walk_cons_object_eq_ok_iff hplace hupper).mpr ha,
    (walk_cons_object_eq_ok_iff hplace hmiddle).mpr hb, hother,
    (walk_cons_object_eq_ok_iff hplace hlower).mpr hc⟩

/-- Under one key, three layers may be regrouped if the objects there may be. -/
theorem showing_assoc {middle : Members Text Value} (hmask : ¬ Masks upper middle lower)
    (hassoc : ∀ a b c, upper.get? key = some (object a) → middle.get? key = some (object b) →
      lower.get? key = some (object c) → layer a (layer b c) = layer (layer a b) c) :
    showing (upper.get? key) (showing (middle.get? key) (lower.get? key)) =
      showing (showing (upper.get? key) (middle.get? key)) (lower.get? key) := by
  cases hu : upper.get? key with
  | none => rfl
  | some u =>
      cases hm : middle.get? key with
      | none => cases lower.get? key <;> rfl
      | some m =>
          cases hl : lower.get? key with
          | none => rfl
          | some l =>
              simp only [showing, Option.some.injEq]
              cases huo : u.isObject with
              | false => simp only [overlay_of_not_object huo]
              | true =>
                  obtain ⟨a, rfl⟩ := exists_object huo
                  cases hlo : l.isObject with
                  | false => rw [overlay_over_not_object m hlo, overlay_over_not_object _ hlo]
                  | true =>
                      obtain ⟨c, rfl⟩ := exists_object hlo
                      cases hmo : m.isObject with
                      | false =>
                          refine absurd ⟨[key], a, m, c, ?_, ?_, hmo, ?_⟩ hmask
                          · rw [walk_singleton, hu]
                          · rw [walk_singleton, hm]
                          · rw [walk_singleton, hl]
                      | true =>
                          obtain ⟨b, rfl⟩ := exists_object hmo
                          simp only [overlay_object, hassoc a b c hu hm hl]

theorem map_fst_layer_assoc {middle : Members Text Value} (hupper : upper.keys.Nodup)
    (hmiddle : middle.keys.Nodup) (lower : Members Text Value) :
    (layer upper (layer middle lower)).map Prod.fst =
      (layer (layer upper middle) lower).map Prod.fst := by
  rw [map_fst_layer hupper, map_fst_layer hmiddle,
    map_fst_layer (keys_layer_nodup hupper hmiddle), map_fst_layer hupper, keys_layer hmiddle,
    List.filter_append, List.append_assoc, List.filter_filter]
  congr 2
  apply List.filter_congr
  intro k _
  by_cases hlower : k.content ∈ lower.keys <;> by_cases hmiddle : k.content ∈ middle.keys <;>
    simp [hlower, hmiddle]

theorem layer_assoc_of_not_masks {middle : Members Text Value}
    (hupper : (object upper).wellFormed = true) (hmiddle : (object middle).wellFormed = true)
    (hlower : (object lower).wellFormed = true) (hmask : ¬ Masks upper middle lower) :
    layer upper (layer middle lower) = layer (layer upper middle) lower := by
  suffices H : ∀ v : Value, ∀ upper middle lower, v = object upper → v.wellFormed = true →
      (object middle).wellFormed = true → (object lower).wellFormed = true →
        ¬ Masks upper middle lower →
          layer upper (layer middle lower) = layer (layer upper middle) lower from
    H _ upper middle lower rfl hupper hmiddle hlower hmask
  intro v
  induction v using tree_induction with
  | object members ih =>
      rintro upper middle lower ⟨rfl⟩ hupper hmiddle hlower hmask
      have hu := wellFormed_object_iff.mp hupper
      have hm := wellFormed_object_iff.mp hmiddle
      have hl := wellFormed_object_iff.mp hlower
      apply Members.ext_of_nodup (keys_layer_nodup hu.1 (keys_layer_nodup hm.1 hl.1))
        (map_fst_layer_assoc hu.1 hm.1 lower)
      intro name
      rw [get?_layer hu.1, get?_layer hm.1, get?_layer (keys_layer_nodup hu.1 hm.1),
        get?_layer hu.1]
      apply showing_assoc hmask
      intro a b c ha hb hc
      obtain ⟨k, -, hmem⟩ := Members.exists_key_of_get? ha
      exact ih (k, object a) hmem a b c rfl (wellFormed_inherited.of_get? hupper ha)
        (wellFormed_inherited.of_get? hmiddle hb) (wellFormed_inherited.of_get? hlower hc)
        fun h ↦ hmask (h.under ha hb hc)
  | scalar v hv =>
      rintro upper middle lower ⟨rfl⟩
      cases hv
  | _ =>
      intro upper middle lower heq
      cases heq

/-- Three layers may be regrouped, unless the middle one masks. -/
theorem layer_assoc {middle : Members Text Value} (hupper : (object upper).wellFormed = true)
    (hmiddle : (object middle).wellFormed = true) (hlower : (object lower).wellFormed = true)
    (hmask : ¬ Masks upper middle lower) :
    layer upper (layer middle lower) = layer (layer upper middle) lower ∧
      ∃ first second all : Config,
        (Config.mk (object upper)).withFallback ⟨object middle⟩ = .merged first ∧
        first.withFallback ⟨object lower⟩ = .merged all ∧
        (Config.mk (object middle)).withFallback ⟨object lower⟩ = .merged second ∧
        (Config.mk (object upper)).withFallback second = .merged all := by
  have hassoc := layer_assoc_of_not_masks hupper hmiddle hlower hmask
  refine ⟨hassoc, _, _, _, rfl, rfl, rfl, ?_⟩
  rw [← hassoc]
  rfl

/-- The middle layer has no such key, so nothing is masked. -/
theorem layer_assoc_port :
    layer [(⟨"http", false⟩, object [(⟨"port", false⟩, int 80)])]
        (layer [(⟨"name", false⟩, null)]
          [(⟨"http", false⟩, object [(⟨"host", false⟩, null)])]) =
      layer (layer [(⟨"http", false⟩, object [(⟨"port", false⟩, int 80)])]
          [(⟨"name", false⟩, null)])
        [(⟨"http", false⟩, object [(⟨"host", false⟩, null)])] := by
  apply (layer_assoc (by decide) (by decide) (by decide) _).1
  rintro ⟨place, a, b, c, ha, hb, -, -⟩
  cases place with
  | nil => cases ha
  | cons key rest =>
      by_cases hkey : "http" = key
      · subst hkey
        rw [walk_cons_none rfl] at hb
        cases hb
      · rw [walk_cons_none (by simp [Members.get?, Named.name, hkey])] at ha
        cases ha

end LayeredConfig.Value
