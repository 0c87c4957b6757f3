import AccountLint.Decimal.Numeral

/-! Integers in decimal: an integer that is written out is read as itself. -/
namespace AccountLint

namespace Text

private theorem trim_eq_self {p : Char → Bool} {cs : List Char} (h : ∀ c ∈ cs, p c = false) :
    trim p cs = cs := by
  have hdrop : ∀ ds : List Char, (∀ c ∈ ds, p c = false) → ds.dropWhile p = ds := by
    intro ds hds
    cases ds with
    | nil => rfl
    | cons c ds => exact List.dropWhile_cons_of_neg (by simp [hds c List.mem_cons_self])
  unfold trim
  rw [hdrop cs h, hdrop cs.reverse fun c hc => h c (List.mem_reverse.mp hc), List.reverse_reverse]

private theorem toNat_of_isDigit {c : Char} (h : c.isDigit = true) :
    0x30 ≤ c.toNat ∧ c.toNat ≤ 0x39 :=
  Char.isDigit_iff_toNat.mp h

theorem ne_of_isDigit {c d : Char} (h : c.isDigit = true) (hd : d.isDigit = false) : c ≠ d := by
  rintro rfl
  rw [h] at hd
  cases hd

theorem isSpace_of_isDigit {c : Char} (h : c.isDigit = true) : isSpace c = false := by
  obtain ⟨hlow, _⟩ := toNat_of_isDigit h
  have hspace : c ≠ ' ' := ne_of_isDigit h (by decide)
  simp [isSpace, hspace]
  omega

private theorem digitValue?_of_isDigit {c : Char} (h : c.isDigit = true) :
    digitValue? c = some (c.toNat - '0'.toNat) := by
  obtain ⟨hlow, hhigh⟩ := toNat_of_isDigit h
  unfold digitValue?
  dsimp only
  rw [if_pos (by omega), if_pos (by simp [hlow, hhigh])]
  rfl

private theorem ofDigits_map_toNat (cs : List Char) :
    ofDigits (cs.map fun c => c.toNat - '0'.toNat) = Nat.ofDigitChars 10 cs 0 := by
  unfold ofDigits Nat.ofDigitChars
  rw [List.foldl_map]

end Text

namespace Numeral

private theorem moreDigits_eq {cs : List Char} (h : ∀ c ∈ cs, c.isDigit = true) :
    moreDigits cs = (cs.map fun c => c.toNat - '0'.toNat, []) := by
  induction cs with
  | nil => rfl
  | cons c cs ih =>
    rw [moreDigits, Text.digitValue?_of_isDigit (h c List.mem_cons_self)]
    dsimp only
    rw [ih fun d hd => h d (List.mem_cons_of_mem _ hd)]
    rfl

private theorem digits_eq {cs : List Char} (h : ∀ c ∈ cs, c.isDigit = true) (hne : cs ≠ []) :
    digits cs = (cs.map fun c => c.toNat - '0'.toNat, []) := by
  unfold digits
  cases cs with
  | nil => exact absurd rfl hne
  | cons c cs =>
    have hdigit : Text.isDigit c = true := by
      unfold Text.isDigit
      rw [Text.digitValue?_of_isDigit (h c List.mem_cons_self)]
      rfl
    rw [List.head?_cons, Option.map_some, Option.getD_some, if_pos hdigit, moreDigits_eq h]

/-- The characters of an integer in decimal: perhaps a minus sign, and digits. -/
theorem toList_toString (i : Int) :
    (toString i).toList = (if i < 0 then ['-'] else []) ++ Nat.toDigits 10 i.natAbs := by
  rw [Int.toString_eq_repr, Int.repr_eq_if]
  by_cases hi : 0 ≤ i
  · rw [if_pos hi, if_neg (by omega), Nat.toList_repr, List.nil_append]
    congr 1
    omega
  · rw [if_neg hi, if_pos (by omega), String.toList_append, Nat.toList_repr]
    congr 2
    omega

theorem isDigit_or_eq_of_mem_toString {i : Int} {c : Char} (h : c ∈ (toString i).toList) :
    c = '-' ∨ c.isDigit = true := by
  rw [toList_toString] at h
  rcases List.mem_append.mp h with h | h
  · split at h
    · exact Or.inl (List.mem_singleton.mp h)
    · cases h
  · exact Or.inr (Nat.isDigit_of_mem_toDigits (by decide) (by decide) h)

private theorem isPadding_eq_false {c : Char} (h : c = '-' ∨ c.isDigit = true) :
    isPadding c = false := by
  rcases h with rfl | h
  · decide
  · obtain ⟨_, hhigh⟩ := Text.toNat_of_isDigit h
    unfold isPadding
    rw [if_pos (by omega), Text.isSpace_of_isDigit h]

/-- The sign that is read off is the one that was written. -/
theorem sign_digits {i : Int} : sign ((if i < 0 then ['-'] else []) ++ Nat.toDigits 10 i.natAbs) =
    (decide (i < 0), Nat.toDigits 10 i.natAbs) := by
  by_cases hi : i < 0
  · simp [hi, sign]
  · simp only [hi, if_false, List.nil_append, decide_false]
    have hdigits : ∀ c ∈ Nat.toDigits 10 i.natAbs, c.isDigit = true := fun c hc =>
      Nat.isDigit_of_mem_toDigits (by decide) (by decide) hc
    unfold sign
    split
    · rename_i cs heq
      have := hdigits '-' (by rw [heq]; exact List.mem_cons_self)
      simp at this
    · rename_i cs heq
      have := hdigits '+' (by rw [heq]; exact List.mem_cons_self)
      simp at this
    · rfl

theorem int?_toString (i : Int) : int? (toString i).toList = some i := by
  have hpad : ∀ c ∈ (toString i).toList, isPadding c = false := fun c hc =>
    isPadding_eq_false (isDigit_or_eq_of_mem_toString hc)
  have hdigits : ∀ c ∈ Nat.toDigits 10 i.natAbs, c.isDigit = true := fun c hc =>
    Nat.isDigit_of_mem_toDigits (by decide) (by decide) hc
  have hvalue : Text.ofDigits ((Nat.toDigits 10 i.natAbs).map fun c => c.toNat - '0'.toNat) =
      i.natAbs := by
    rw [Text.ofDigits_map_toNat, Nat.ofDigitChars_toDigits (by decide) (by decide)]
  unfold int?
  rw [Text.trim_eq_self hpad, toList_toString, sign_digits]
  dsimp only
  rw [digits_eq hdigits Nat.toDigits_ne_nil]
  split
  · rename_i heq
    have hnil := List.map_eq_nil_iff.mp (Prod.mk.inj heq).1
    exact absurd hnil Nat.toDigits_ne_nil
  · rename_i heq
    rw [← (Prod.mk.inj heq).1, hvalue, Option.some.injEq]
    simp only [decide_eq_true_eq]
    split <;> omega
  · rename_i heq
    cases (Prod.mk.inj heq).2

end Numeral
end AccountLint
