import LayeredConfig.Yaml.Fault
import Mathlib.Data.List.Forall2

/-!
# Steps that keep an invariant

A step of a reader or of a builder either fails with a fault or gives a result
and a new state.  What is shown of every such step has one form: from a state
with the invariant it comes to a state with the invariant, and its faults are of
certain kinds.
-/

namespace LayeredConfig.Yaml

open Std.Do

set_option mvcgen.warning false

variable {σ α β : Type} {I : σ → Prop} {E : LoadFault → Prop}

/-- The step keeps an invariant of the state, and fails with certain faults only. -/
abbrev Keeps (I : σ → Prop) (E : LoadFault → Prop) (act : StateT σ (Except LoadFault) α) : Prop :=
  ⦃fun s ↦ ⌜I s⌝⦄ act ⦃post⟨fun _ s ↦ ⌜I s⌝, fun f ↦ ⌜E f⌝⟩⦄

/-- The step also gives what has a property. -/
abbrev Gives (I : σ → Prop) (E : LoadFault → Prop) (act : StateT σ (Except LoadFault) α)
    (P : α → Prop) : Prop :=
  ⦃fun s ↦ ⌜I s⌝⦄ act ⦃post⟨fun a s ↦ ⌜I s ∧ P a⌝, fun f ↦ ⌜E f⌝⟩⦄

@[spec high] theorem throw_spec (f : LoadFault)
    (Q : PostCond α (.arg σ (.except LoadFault .pure))) :
    ⦃fun _ ↦ Q.2.1 f⦄ (throw f : StateT σ (Except LoadFault) α) ⦃Q⦄ :=
  fun _ h ↦ h

section Runs

variable {act : StateT σ (Except LoadFault) α} {P : α → Prop}

/-- What is shown of a step is shown of each of its runs. -/
theorem triple_iff_runs {pre : σ → Prop} {post : α → σ → Prop} :
    ⦃fun s ↦ ⌜pre s⌝⦄ act ⦃post⟨fun a s ↦ ⌜post a s⌝, fun f ↦ ⌜E f⌝⟩⦄ ↔
      ∀ s, pre s → (∀ a s', act.run s = .ok (a, s') → post a s') ∧
        ∀ f, act.run s = .error f → E f := by
  constructor
  · intro h s hs
    have hpost := h s hs
    simp only [wp, PredTrans.apply_pushArg] at hpost
    constructor
    · intro a s' hrun
      rw [hrun] at hpost
      exact hpost
    · intro f hrun
      rw [hrun] at hpost
      exact hpost
  · intro h s hs
    obtain ⟨hok, herror⟩ := h s hs
    simp only [wp, PredTrans.apply_pushArg]
    cases hrun : act.run s with
    | ok r => exact hok r.1 r.2 hrun
    | error f => exact herror f hrun

theorem Keeps.gives (h : Keeps I E act) : Gives I E act fun _ ↦ True := by
  mvcgen [h]
  exact id

theorem Gives.keeps (h : Gives I E act P) : Keeps I E act := by
  mvcgen [h]
  exact fun hs _ ↦ hs

theorem Gives.weaken {E' : LoadFault → Prop} (h : Gives I E act P) (hE : ∀ f, E f → E' f) :
    Gives I E' act P := by
  rw [Gives, triple_iff_runs] at h ⊢
  intro s hs
  exact ⟨(h s hs).1, fun f hf ↦ hE f ((h s hs).2 f hf)⟩

theorem Gives.mono {Q : α → Prop} (h : Gives I E act P) (hPQ : ∀ a, P a → Q a) :
    Gives I E act Q := by
  mvcgen [h]
  exact fun hs ha ↦ ⟨hs, hPQ _ ha⟩

/-- A step that moves one part of a state keeps what the step of that part keeps. -/
theorem Keeps.lift {τ : Type} (part : τ → σ) (put : τ → σ → τ)
    {whole : StateT τ (Except LoadFault) α} (h : Keeps I E act) (hput : ∀ t s, part (put t s) = s)
    (hrun : ∀ t, whole.run t = (act.run (part t)).map fun p ↦ (p.1, put t p.2)) :
    Keeps (fun t ↦ I (part t)) E whole := by
  apply triple_iff_runs.mpr
  intro t ht
  rw [hrun]
  obtain ⟨hok, herror⟩ := triple_iff_runs.mp h (part t) ht
  cases hact : act.run (part t) with
  | ok p =>
      refine ⟨?_, nofun⟩
      rintro a t' ⟨⟩
      rw [hput]
      exact hok p.1 p.2 hact
  | error f =>
      refine ⟨nofun, ?_⟩
      rintro f' ⟨⟩
      exact herror f hact

end Runs

section Rules

variable {P : α → Prop} {Q : β → Prop} {x : StateT σ (Except LoadFault) α}
  {k : α → StateT σ (Except LoadFault) β}

theorem gives_pure {a : α} (h : P a) : Gives I E (pure a) P := by
  mvcgen

theorem gives_throw {f : LoadFault} (h : E f) : Gives I E (throw f) P := by
  mvcgen

theorem gives_get : Gives I E get I := by
  mvcgen

theorem keeps_modify {f : σ → σ} (h : ∀ s, I s → I (f s)) : Keeps I E (modify f) := by
  mvcgen
  exact h _ ‹I _›

theorem keeps_set {s : σ} (h : I s) : Keeps I E (set s) := by
  mvcgen

theorem Gives.bind (hx : Gives I E x P) (hk : ∀ a, P a → Gives I E (k a) Q) :
    Gives I E (x >>= k) Q := by
  apply Triple.bind x k hx
  rintro a s ⟨hs, ha⟩
  exact hk a ha s hs

theorem Keeps.bind (hx : Keeps I E x) (hk : ∀ a, Gives I E (k a) Q) : Gives I E (x >>= k) Q :=
  Triple.bind x k hx hk

theorem gives_ite {c : Prop} [Decidable c] {y : StateT σ (Except LoadFault) α}
    (hx : c → Gives I E x P) (hy : ¬ c → Gives I E y P) : Gives I E (if c then x else y) P := by
  split
  · exact hx ‹_›
  · exact hy ‹_›

end Rules

/-! ## Lists -/

theorem mapM_gives {f : α → StateT σ (Except LoadFault) β} {P : α → β → Prop} {l : List α}
    (h : ∀ a ∈ l, Gives I E (f a) (P a)) : Gives I E (l.mapM f) (List.Forall₂ P l) := by
  induction l with
  | nil => exact gives_pure .nil
  | cons a rest ih =>
      rw [List.mapM_cons]
      apply (h a List.mem_cons_self).bind
      intro b hb
      apply (ih fun c hc ↦ h c (List.mem_cons_of_mem a hc)).bind
      intro bs hbs
      exact gives_pure (.cons hb hbs)

theorem mapM_gives_all {f : α → StateT σ (Except LoadFault) β} {P : β → Prop} {l : List α}
    (h : ∀ a ∈ l, Gives I E (f a) P) : Gives I E (l.mapM f) fun bs ↦ ∀ b ∈ bs, P b := by
  apply (mapM_gives h).mono
  intro bs hbs
  induction hbs with
  | nil => exact List.forall_mem_nil _
  | cons hb _ ih =>
      exact List.forall_mem_cons.mpr ⟨hb, ih fun a ha ↦ h a (List.mem_cons_of_mem _ ha)⟩

theorem forM_keeps {f : α → StateT σ (Except LoadFault) PUnit} {l : List α}
    (h : ∀ a ∈ l, Keeps I E (f a)) : Keeps I E (l.forM f) := by
  rw [List.forM_eq_forM]
  induction l with
  | nil =>
      rw [List.forM_nil]
      mvcgen
  | cons a rest ih =>
      have ha := h a List.mem_cons_self
      have hrest := ih fun c hc ↦ h c (List.mem_cons_of_mem a hc)
      rw [List.forM_cons]
      mvcgen [ha, hrest]

theorem foldlM_gives {f : β → α → StateT σ (Except LoadFault) β} {P : β → Prop} {l : List α}
    (h : ∀ b, P b → ∀ a ∈ l, Gives I E (f b a) P) {b : β} (hb : P b) :
    Gives I E (l.foldlM f b) P := by
  induction l generalizing b with
  | nil => exact gives_pure hb
  | cons a rest ih =>
      rw [List.foldlM_cons]
      apply (h b hb a List.mem_cons_self).bind
      intro b' hb'
      exact ih (fun c hc d hd ↦ h c hc d (List.mem_cons_of_mem a hd)) hb'

/-! ## Steps without a state -/

section Yields

variable {ε : Type} {E : ε → Prop} {P P' : α → Prop} {Q : β → Prop} {x : Except ε α}
  {k : α → Except ε β}

/-- The result has a property, and the fault is of certain kinds. -/
structure Yields (E : ε → Prop) (x : Except ε α) (P : α → Prop) : Prop where
  ok : ∀ a, x = .ok a → P a
  error : ∀ f, x = .error f → E f

theorem yields_ok {a : α} (h : P a) : Yields E (.ok a) P where
  ok := by
    rintro _ ⟨⟩
    exact h
  error := nofun

theorem yields_error {f : ε} (h : E f) : Yields E (.error f) P where
  ok := nofun
  error := by
    rintro _ ⟨⟩
    exact h

theorem Yields.bind (hx : Yields E x P) (hk : ∀ a, P a → Yields E (k a) Q) :
    Yields E (x >>= k) Q := by
  cases x with
  | ok a => exact hk a (hx.ok a rfl)
  | error f => exact yields_error (hx.error f rfl)

theorem Yields.map {f : α → β} (hx : Yields E x P) (hf : ∀ a, P a → Q (f a)) :
    Yields E (x.map f) Q := by
  cases x with
  | ok a => exact yields_ok (hf a (hx.ok a rfl))
  | error f => exact yields_error (hx.error f rfl)

theorem Yields.mono (hx : Yields E x P) (h : ∀ a, P a → P' a) : Yields E x P' where
  ok a ha := h a (hx.ok a ha)
  error := hx.error

theorem Yields.weaken {E' : ε → Prop} (hx : Yields E x P) (h : ∀ f, E f → E' f) :
    Yields E' x P where
  ok := hx.ok
  error f hf := h f (hx.error f hf)

theorem mapM_yields {f : α → Except ε β} {l : List α} (h : ∀ a ∈ l, Yields E (f a) Q) :
    Yields E (l.mapM f) fun bs ↦ ∀ b ∈ bs, Q b := by
  induction l with
  | nil => exact yields_ok (List.forall_mem_nil _)
  | cons a rest ih =>
      rw [List.mapM_cons]
      apply (h a List.mem_cons_self).bind
      intro b hb
      apply (ih fun c hc ↦ h c (List.mem_cons_of_mem a hc)).bind
      intro bs hbs
      exact yields_ok (List.forall_mem_cons.mpr ⟨hb, hbs⟩)

theorem gives_lift {I : σ → Prop} {E : LoadFault → Prop} {P : α → Prop} {x : Except LoadFault α}
    (hx : Yields E x P) : Gives I E (liftM x) P := by
  cases x with
  | ok a => exact gives_pure (hx.ok a rfl)
  | error f => exact gives_throw (hx.error f rfl)

theorem foldlM_yields {f : β → α → Except ε β} {l : List α} {b : β}
    (h : ∀ b, ∀ a ∈ l, Yields E (f b a) fun _ ↦ True) : Yields E (l.foldlM f b) fun _ ↦ True := by
  induction l generalizing b with
  | nil => exact yields_ok trivial
  | cons a rest ih =>
      rw [List.foldlM_cons]
      apply (h b a List.mem_cons_self).bind
      intro b' _
      exact ih fun c d hd ↦ h c d (List.mem_cons_of_mem a hd)

end Yields

end LayeredConfig.Yaml
