import LayeredConfig.Decimal.Numeral
import Mathlib.Algebra.Order.Ring.Int
import Mathlib.Data.List.Induction

/-!
# Texts of integers

Different integers have different texts.  Integers below ten to the power of the
limit can be written, the power itself cannot.
-/

namespace LayeredConfig.Numeral

theorem toDigits_injective {m n : Nat} (h : Nat.toDigits 10 m = Nat.toDigits 10 n) : m = n := by
  rw [← Nat.ofDigitChars_ten_toDigits (n := m), h, Nat.ofDigitChars_ten_toDigits]

theorem minus_notMem_toDigits (n : Nat) : '-' ∉ Nat.toDigits 10 n := by
  intro hmem
  have hdigit := Nat.isDigit_of_mem_toDigits (by decide) (by decide) hmem
  revert hdigit
  decide

theorem toList_ofInt (n : Int) : (ofInt n).toList =
    if n < 0 then '-' :: Nat.toDigits 10 n.natAbs else Nat.toDigits 10 n.natAbs := by
  unfold ofInt
  split
  · simp [Nat.repr]
  · rw [Nat.repr, String.toList_ofList]

theorem ofInt_inj {m n : Int} (h : ofInt m = ofInt n) : m = n := by
  have hchars := congrArg String.toList h
  rw [toList_ofInt, toList_ofInt] at hchars
  -- Only the text of a negative integer has a minus sign.
  by_cases hm : m < 0 <;> by_cases hn : n < 0
  · rw [if_pos hm, if_pos hn] at hchars
    have hmagnitude := toDigits_injective (List.cons.inj hchars).2
    omega
  · rw [if_pos hm, if_neg hn] at hchars
    exact absurd (hchars ▸ List.mem_cons_self) (minus_notMem_toDigits n.natAbs)
  · rw [if_neg hm, if_pos hn] at hchars
    exact absurd (hchars ▸ List.mem_cons_self) (minus_notMem_toDigits m.natAbs)
  · rw [if_neg hm, if_neg hn] at hchars
    have hmagnitude := toDigits_injective hchars
    omega

theorem isOverlong_pow : isOverlong (10 ^ digitLimit) = true := by
  -- The power is not to be computed.
  have hpow : ∀ limit, Nat.pow 10 limit ≤ ((10 : Int) ^ limit).natAbs := by
    intro limit
    rw [Int.natAbs_pow]
    exact Nat.le_refl _
  exact decide_eq_true (hpow digitLimit)

/-! ## Integers that are read -/

theorem ofDigits_append_singleton (base : Nat) (ds : List Nat) (d : Nat) :
    ofDigits base (ds ++ [d]) = base * ofDigits base ds + d := by
  rw [ofDigits, List.foldl_append]
  rfl

theorem ofDigits_lt {base : Nat} {ds : List Nat} (h : ∀ d ∈ ds, d < base) :
    ofDigits base ds < base ^ ds.length := by
  induction ds using List.reverseRecOn with
  | nil => exact Nat.zero_lt_one
  | append_singleton ds d ih =>
      have hlast : d < base := h d (List.mem_append_right ds List.mem_cons_self)
      have hrest := ih fun e he ↦ h e (List.mem_append_left [d] he)
      rw [ofDigits_append_singleton, List.length_append, List.length_singleton, Nat.pow_succ]
      calc base * ofDigits base ds + d < base * ofDigits base ds + base := by omega
        _ = base * (ofDigits base ds + 1) := by rw [Nat.mul_succ]
        _ ≤ base * base ^ ds.length := Nat.mul_le_mul_left base hrest
        _ = base ^ ds.length * base := Nat.mul_comm _ _

theorem baseDigit?_lt {base : Nat} {c : Char} {d : Nat} (h : Text.baseDigit? base c = some d) :
    d < base := by
  unfold Text.baseDigit? at h
  simpa using (Option.filter_eq_some_iff.mp h).2

theorem exists_of_mem_mapM {α β : Type} {f : α → Option β} {l : List α} {bs : List β}
    (h : l.mapM f = some bs) : ∀ b ∈ bs, ∃ a ∈ l, f a = some b := by
  induction l generalizing bs with
  | nil =>
      cases h
      exact List.forall_mem_nil _
  | cons a rest ih =>
      rw [List.mapM_cons] at h
      obtain ⟨b, hb, h⟩ := Option.bind_eq_some_iff.mp h
      obtain ⟨more, hmore, h⟩ := Option.bind_eq_some_iff.mp h
      cases h
      rw [List.forall_mem_cons]
      refine ⟨⟨a, List.mem_cons_self, hb⟩, fun c hc ↦ ?_⟩
      obtain ⟨a', ha', hc'⟩ := ih hmore c hc
      exact ⟨a', List.mem_cons_of_mem a ha', hc'⟩

theorem groupedDigits?_lt {base : Nat} {cs : List Char} {ds : List Nat}
    (h : groupedDigits? base cs = some ds) : ∀ d ∈ ds, d < base := by
  obtain ⟨groups, hgroups, h⟩ := Option.bind_eq_some_iff.mp h
  cases h
  intro d hd
  obtain ⟨digits, hdigits, hd⟩ := List.mem_flatten.mp hd
  obtain ⟨group, -, hgroup⟩ := exists_of_mem_mapM hgroups digits hdigits
  split at hgroup
  · cases hgroup
  · obtain ⟨c, -, hc⟩ := exists_of_mem_mapM hgroup d hd
    exact baseDigit?_lt hc

theorem isOverlong_of_lt {n : Int} {width : Nat} (hwidth : width ≤ digitLimit)
    (hn : n.natAbs < 10 ^ width) : isOverlong n = false := by
  -- The power of the limit is not to be computed.
  have hpow : ∀ limit, width ≤ limit → n.natAbs < Nat.pow 10 limit :=
    fun limit hlimit ↦ Nat.lt_of_lt_of_le hn (Nat.pow_le_pow_right (by decide) hlimit)
  exact decide_eq_false (Nat.not_le.mpr (hpow digitLimit hwidth))

/-- What is read in base ten can be written again. -/
theorem isOverlong_of_readInt_ten {cs : List Char} {n : Int} (h : readInt 10 cs = .ok n) :
    isOverlong n = false := by
  unfold readInt at h
  dsimp only at h
  split at h
  · cases h
  · next digits hdigits =>
    split at h
    · cases h
    · next hlimit =>
      split at h
      · cases h
      · have hlength : digits.length ≤ digitLimit := by
          simp only [Bool.and_eq_true, decide_eq_true_eq, not_and] at hlimit
          by_contra hlong
          exact hlimit (Nat.lt_of_not_le hlong) (by decide)
        have hbound := ofDigits_lt (groupedDigits?_lt hdigits)
        apply isOverlong_of_lt hlength
        cases h
        split <;> omega

end LayeredConfig.Numeral
