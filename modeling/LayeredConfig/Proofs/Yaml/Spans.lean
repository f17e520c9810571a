import LayeredConfig.Proofs.Numeral
import LayeredConfig.Proofs.Plain.RoundTrip
import LayeredConfig.Proofs.Yaml.Values

/-!
# Spans of documents

A span that is written by its components is refused as a problem of its node,
unless it is beyond the calendar or has an infinite component.  What is not
refused can be written.
-/

namespace LayeredConfig

/-! ## Spans that can be written -/

theorem Duration.isOverlong_ofSpan {total : Int} {s : Span}
    (h : Span.ofMicroseconds total = .ok s) :
    Numeral.isOverlong (ofSpan s) = false := by
  have hdays := (Span.ofMicroseconds_eq_ok_iff.mp h).1
  rw [Span.normal_eq, Span.dayLimit] at hdays
  dsimp only at hdays
  apply @Numeral.isOverlong_of_lt _ 24 (by decide)
  rw [ofSpan, Span.toMicroseconds_of_ofMicroseconds h]
  omega

namespace Yaml

variable {g : Graph} {id : NodeId} {s : Store}

/-- A refusal that is told as a problem of the span. -/
def IsSpanProblem (f : ScalarFault) : Prop := f.category = .badValue ∨ f.category = .badType

theorem CoreScalar.integer_ten_yields (cs : List Char) :
    Yields IsSpanProblem (CoreScalar.integer 10 cs) fun n ↦ Numeral.isOverlong n = false := by
  unfold CoreScalar.integer
  split
  · next h => exact yields_ok (Numeral.isOverlong_of_readInt_ten h)
  · exact yields_error (.inl rfl)
  · exact yields_error (.inl rfl)

/-! ## Sums of components -/

theorem isInfinite_of_truncate?_eq_none {x : Double} (h : x.truncate? = none)
    (hnan : ¬ x.isNaN = true) : x.isInfinite = true := by
  cases x with
  | nan origin => exact absurd rfl hnan
  | infinite negative => rfl
  | finite negative c => cases h

section Components

variable {components : List (String × Components.Amount)}

theorem Components.add_yields (htag : HasTag g id "!duration")
    (hcomponents : ∀ c ∈ components, ComponentOf g id c) {unit : String} {amount : Amount}
    (hlookup : components.lookup unit = some amount) (sum : Sum) (factor : Nat) :
    Yields (fun f ↦ IsSpanProblem f ∨ Escapes g f) (sum.add unit factor amount) fun _ ↦ True := by
  obtain ⟨before, after, rfl, -⟩ := List.lookup_eq_some_iff.mp hlookup
  obtain ⟨-, pair, hpair, hamount⟩ := hcomponents (unit, amount) (by simp)
  fun_cases Sum.add sum unit factor amount with
  | case2 => exact yields_error (.inl (.inr rfl))
  -- What has no whole part is no number, which is told, or infinite.
  | case3 x hwhole =>
      by_cases hnan : x.isNaN = true
      · rw [if_pos hnan]
        exact yields_error (.inl (.inl rfl))
      · rw [if_neg hnan]
        cases hamount with
        | double hread =>
            have hinfinite := isInfinite_of_truncate?_eq_none hwhole hnan
            exact yields_error (.inr (.infinite htag hpair hread hinfinite))
  | _ => exact yields_ok (P := fun _ ↦ True) trivial

theorem Components.sum_yields (htag : HasTag g id "!duration")
    (hcomponents : ∀ c ∈ components, ComponentOf g id c) :
    Yields (fun f ↦ IsSpanProblem f ∨ Escapes g f) (Components.sum components) fun _ ↦ True := by
  unfold Components.sum
  refine Yields.bind (foldlM_yields fun sum unit _ ↦ ?_) fun _ _ ↦ yields_ok trivial
  obtain ⟨unit, factor⟩ := unit
  dsimp only
  split
  · next hlookup => exact Components.add_yields htag hcomponents hlookup sum factor
  · exact yields_ok trivial

end Components

namespace Store

theorem amountAt_amountOf {d : Datum} (hd : DatumOf g id d) : AmountAt g id (amountOf s d) := by
  cases hd with
  | held => exact .other _
  | plain hreads =>
      cases hreads with
      | boolean htag htext hread => exact .boolean (.boolean htag htext hread)
      | int htag htext hread => exact .int (.int htag htext hread)
      | double htag htext hread => exact .double (.double htag htext hread)
      | _ => exact .other _

theorem componentsOf_yields {es : List (Plain × Datum)} (hes : ∀ e ∈ es, EntryOf g id e) :
    Yields IsSpanProblem (componentsOf s es) fun cs ↦ ∀ c ∈ cs, ComponentOf g id c := by
  induction es with
  | nil => exact yields_ok (List.forall_mem_nil _)
  | cons e rest ih =>
      have hrest := ih fun e he ↦ hes e (List.mem_cons_of_mem _ he)
      obtain ⟨k, d⟩ := e
      obtain ⟨⟨pair, hpair, hkey⟩, other, hother, hdatum⟩ := hes (k, d) List.mem_cons_self
      dsimp only at hkey hdatum
      cases hkey.reads with
      | string htext =>
          rw [componentsOf]
          split
          · apply hrest.map
            intro cs hcs
            exact List.forall_mem_cons.mpr
              ⟨⟨⟨pair, hpair, htext⟩, other, hother, amountAt_amountOf hdatum⟩, hcs⟩
          · exact yields_error (.inr rfl)
      | _ => exact yields_error (.inr rfl)

theorem spanOf_yields (htag : HasTag g id "!duration") {es : List (Plain × Datum)}
    (hes : ∀ e ∈ es, EntryOf g id e) :
    Yields (fun f ↦ IsSpanProblem f ∨ Escapes g f) (spanOf s es)
      fun n ↦ Numeral.isOverlong n = false := by
  unfold spanOf
  split
  · exact yields_error (.inl (.inr rfl))
  · apply ((componentsOf_yields hes).weaken fun _ ↦ .inl).bind
    intro components hcomponents
    have hsum := Components.sum_yields htag hcomponents
    cases htotal : Components.sum components with
    | error f => exact yields_error (hsum.error f htotal)
    | ok total =>
        dsimp only [bind, Except.bind]
        split
        · next hspan => exact yields_ok (Duration.isOverlong_ofSpan hspan)
        · next hspan => exact yields_error (.inr (.span htag hcomponents htotal hspan))

/-- Inside a duration only the refusals that escape it are left. -/
theorem asDurationProblem_makes {α : Type} {act : Make α} {P : α → Prop}
    (h : Gives (Faithful g) (fun f ↦ Admits g f ∨ ∃ s, f = .scalar s ∧ IsSpanProblem s) act P) :
    Makes g (asDurationProblem act) P := by
  apply triple_iff_runs.mpr
  intro s hs
  obtain ⟨hok, herror⟩ := triple_iff_runs.mp h s hs
  change (∀ a s', asDurationProblem act s = .ok (a, s') → Faithful g s' ∧ P a) ∧
    ∀ f, asDurationProblem act s = .error f → Admits g f
  unfold asDurationProblem
  split
  · next f hrun =>
    split
    · exact ⟨nofun, by rintro _ ⟨⟩; exact .problem _⟩
    · exact ⟨nofun, by rintro _ ⟨⟩; exact .problem _⟩
    · next hvalue htype =>
      refine ⟨nofun, ?_⟩
      rintro _ ⟨⟩
      rcases herror _ hrun with h | ⟨_, ⟨⟩, h | h⟩
      · exact h
      · exact absurd h hvalue
      · exact absurd h htype
  · next hother =>
    refine ⟨hok, fun f hrun ↦ ?_⟩
    rcases herror f hrun with h | ⟨s, rfl, -⟩
    · exact h
    · exact absurd hrun (hother s)

end Store

end Yaml

end LayeredConfig
