import LayeredConfig.Path
import Mathlib.Data.List.Nodup

/-!
# Written paths

The paths that have a text are the nonempty lists of keys without a point.
-/

namespace LayeredConfig.Path

/-- A path that is the path of some text. -/
def Written (path : Path) : Prop := path ≠ [] ∧ ∀ key ∈ path, '.' ∉ key.toList

theorem not_mem_of_mem_splitOn {c : Char} {chars part : List Char}
    (h : part ∈ chars.splitOn c) : c ∉ part := by
  induction chars generalizing part with
  | nil =>
      have hpart : part = [] := by simpa using h
      simp [hpart]
  | cons d rest ih =>
      rw [List.splitOn_cons_eq_if_modifyHead] at h
      by_cases hd : (d == c) = true
      · rw [if_pos hd] at h
        rcases List.mem_cons.mp h with rfl | h
        · simp
        · exact ih h
      · rw [if_neg hd] at h
        obtain ⟨first, others, hsplit⟩ := List.exists_cons_of_ne_nil (List.splitOn_ne_nil c rest)
        rw [hsplit, List.modifyHead_cons] at h
        rcases List.mem_cons.mp h with rfl | h
        · have hfirst : c ∉ first := ih (by rw [hsplit]; exact List.mem_cons_self)
          have hcd : c ≠ d := fun heq ↦ hd (by simp [heq])
          simpa [hcd] using hfirst
        · exact ih (by rw [hsplit]; exact List.mem_cons_of_mem _ h)

/-- The text of a written path has its keys. -/
theorem ofText_text {p : Path} (h : p.Written) : ofText (text p) = p := by
  have hsplit : (text p).toList.splitOn '.' = p.map String.toList := by
    rw [text, String.toList_intercalate]
    apply List.splitOn_intercalate '.'
    · intro chars hchars
      obtain ⟨key, hkey, rfl⟩ := List.mem_map.mp hchars
      exact h.2 key hkey
    · simpa using h.1
  rw [ofText, hsplit, List.map_map]
  simp

theorem map_ofText_text {paths : List Path} (h : ∀ p ∈ paths, p.Written) :
    (paths.map text).map ofText = paths := by
  rw [List.map_map]
  conv_rhs => rw [← List.map_id paths]
  apply List.map_congr_left
  intro p hp
  exact ofText_text (h p hp)

theorem map_text_nodup {paths : List Path} (h : ∀ p ∈ paths, p.Written) (hnodup : paths.Nodup) :
    (paths.map text).Nodup := by
  apply List.Nodup.of_map ofText
  rwa [map_ofText_text h]

theorem ofText_written (text : String) : (ofText text).Written := by
  refine ⟨by simp [ofText], ?_⟩
  intro key hkey
  obtain ⟨part, hpart, rfl⟩ := List.mem_map.mp hkey
  simpa using not_mem_of_mem_splitOn hpart

namespace Written

theorem append {p q : Path} (hp : p.Written) (hq : q.Written) : (p ++ q).Written := by
  refine ⟨by simp [hp.1], ?_⟩
  intro key hkey
  exact (List.mem_append.mp hkey).elim (hp.2 key) (hq.2 key)

theorem of_append_left {p q : Path} (h : (p ++ q).Written) (hp : p ≠ []) : p.Written :=
  ⟨hp, fun key hkey ↦ h.2 key (List.mem_append_left q hkey)⟩

theorem of_append_right {p q : Path} (h : (p ++ q).Written) (hq : q ≠ []) : q.Written :=
  ⟨hq, fun key hkey ↦ h.2 key (List.mem_append_right p hkey)⟩

/-- The keys of a written path without an empty key are plain. -/
theorem isPlainKey {p : Path} (h : p.Written) (hp : p.any String.isEmpty = false) {key : String}
    (hkey : key ∈ p) : Path.isPlainKey key = true := by
  have hdot := h.2 key hkey
  have hempty : key.isEmpty = false := by
    simpa using List.any_eq_false.mp hp key hkey
  simp [Path.isPlainKey, hempty, hdot]

end Written

theorem written_singleton {key : String} (h : isPlainKey key = true) : Written [key] := by
  simp only [isPlainKey, Bool.and_eq_true, Bool.not_eq_true', List.contains_eq_mem,
    decide_eq_false_iff_not] at h
  exact ⟨by simp, by simpa using h.2⟩

/-- A plain key goes on from a place that holds no dots. -/
theorem written_onward {place : Path} (hplace : ∀ key ∈ place, '.' ∉ key.toList) {key : String}
    (h : isPlainKey key = true) : Written (place ++ [key]) := by
  refine ⟨by simp, fun k hk ↦ ?_⟩
  rcases List.mem_append.mp hk with hk | hk
  · exact hplace k hk
  · exact (written_singleton h).2 k hk

theorem isEmpty_of_isPlainKey {key : String} (h : isPlainKey key = true) :
    key.isEmpty = false := by
  simp only [isPlainKey, Bool.and_eq_true, Bool.not_eq_true'] at h
  exact h.1

end LayeredConfig.Path
