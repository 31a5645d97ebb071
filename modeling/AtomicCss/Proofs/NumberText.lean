import AtomicCss.Proofs.Affixes
import AtomicCss.Proofs.Tokens
import AtomicCss.Value.Number

/-!
# What numbers are written with

Numbers are made of digits, letters, signs and points, whether a text spells them or a program
supplies them. None of these characters means anything to a cursor.
-/

namespace AtomicCss.Proofs

/-- Characters that numbers, units and names are written with. -/
def IsPlain (c : Char) : Prop :=
  c.isAlphanum = true ∨ c ∈ ['+', '-', '.', '_', '%']

instance (c : Char) : Decidable (IsPlain c) :=
  inferInstanceAs (Decidable (_ ∨ _))

lemma quiet_of_plain {c : Char} (h : IsPlain c) : IsQuiet c := by
  unfold IsQuiet
  refine ⟨?_, ?_, ?_, ?_, ?_, ?_, ?_⟩ <;> rintro rfl <;> revert h <;> decide

lemma toNat_of_isUpper {c : Char} (h : c.isUpper = true) : 65 ≤ c.toNat ∧ c.toNat ≤ 90 := by
  have hrange : 'A'.val ≤ c.val ∧ c.val ≤ 'Z'.val := of_decide_eq_true h
  exact ⟨UInt32.le_iff_toNat_le.1 hrange.1, UInt32.le_iff_toNat_le.1 hrange.2⟩

/-- Only capitals have a small letter of their own. -/
lemma toLower_of_not_isUpper {c : Char} (h : c.isUpper = false) : c.toLower = c :=
  dif_neg (of_decide_eq_false h)

lemma toNat_of_isLower {c : Char} (h : c.isLower = true) : 97 ≤ c.toNat ∧ c.toNat ≤ 122 := by
  obtain ⟨hlow, hhigh⟩ := Bool.and_eq_true_iff.1 h
  have hlow : 'a'.val ≤ c.val := of_decide_eq_true hlow
  have hhigh : c.val ≤ 'z'.val := of_decide_eq_true hhigh
  exact ⟨UInt32.le_iff_toNat_le.1 hlow, UInt32.le_iff_toNat_le.1 hhigh⟩

/-- What holds of all small letters holds of a capital's. -/
lemma forall_toLower {P : Char → Prop} (h : ∀ n < 26, P (Char.ofNat (65 + n)).toLower) {c : Char}
    (hc : c.isUpper = true) : P c.toLower := by
  have hrange := toNat_of_isUpper hc
  have hletter := h (c.toNat - 65) (by omega)
  rwa [Nat.add_sub_cancel' hrange.1, Char.ofNat_toNat] at hletter

lemma plain_of_isDigit {c : Char} (h : c.isDigit = true) : IsPlain c :=
  .inl (Bool.or_eq_true_iff.2 (.inr h))

lemma plain_of_isUpper {c : Char} (h : c.isUpper = true) : IsPlain c :=
  .inl (Bool.or_eq_true_iff.2 (.inl (Bool.or_eq_true_iff.2 (.inl h))))

lemma toNat_of_isAlphanum {c : Char} (h : c.isAlphanum = true) :
    48 ≤ c.toNat ∧ c.toNat ≤ 122 := by
  rcases Bool.or_eq_true_iff.1 h with h | h
  · rcases Bool.or_eq_true_iff.1 h with h | h
    · have hupper := toNat_of_isUpper h
      omega
    · have hlower := toNat_of_isLower h
      omega
  · have hdigit := Char.isDigit_iff_toNat.1 h
    have hzero : '0'.toNat = 48 := rfl
    have hnine : '9'.toNat = 57 := rfl
    omega

lemma common_of_plain {P : Char → Prop} (hP : Common P) {c : Char} (h : IsPlain c) : P c := by
  have hne : c ≠ '\\' := (quiet_of_plain h).1
  rcases h with h | h
  · have hrange := toNat_of_isAlphanum h
    exact hP c ⟨by omega, by omega, hne⟩
  · exact hP.forall_mem (by decide) c h

lemma plain_of_numeric {c : Char} (h : IsNumeric c) : IsPlain c := by
  rcases h with h | rfl | rfl | rfl | rfl | rfl
  · exact plain_of_isDigit h
  all_goals decide

lemma dropEndWhile_subset (p : Char → Bool) (cs : List Char) : Decimal.dropEndWhile p cs ⊆ cs := by
  intro c hc
  unfold Decimal.dropEndWhile at hc
  exact List.mem_reverse.1 ((List.dropWhile_sublist _).subset (List.mem_reverse.1 hc))

/-- The canonical spelling of a sign and the digits behind it. -/
def numeral (negative : Bool) (digits : List Char) : List Char :=
  let (whole, fraction) := (Text.splitOnce? '.' digits).getD (digits, [])
  let whole := whole.dropWhile (· == '0')
  let fraction := Decimal.dropEndWhile (· == '0') fraction
  if whole.isEmpty && fraction.isEmpty then ['0']
  else
    (if negative then ['-'] else []) ++ whole
      ++ (if fraction.isEmpty then [] else '.' :: fraction)

lemma canonical_eq (text : List Char) : Decimal.canonical text = text ∨
    ∃ negative digits, digits ⊆ text ∧ Decimal.canonical text = numeral negative digits := by
  unfold Decimal.canonical
  by_cases hexponent : (text.any fun c => c == 'e' || c == 'E') = true
  · rw [if_pos hexponent]
    exact .inl rfl
  · rw [if_neg hexponent]
    refine .inr ?_
    split
    rename_i negative digits heq
    refine ⟨negative, digits, ?_, rfl⟩
    split at heq <;> cases heq
    · exact List.subset_cons_self _ _
    · exact List.subset_cons_self _ _
    · exact List.Subset.refl _

lemma mem_numeral {negative : Bool} {digits : List Char} {c : Char}
    (h : c ∈ numeral negative digits) : c ∈ digits ∨ c = '0' ∨ c = '-' ∨ c = '.' := by
  have hparts : ((Text.splitOnce? '.' digits).getD (digits, [])).1 ⊆ digits ∧
      ((Text.splitOnce? '.' digits).getD (digits, [])).2 ⊆ digits := by
    cases hs : Text.splitOnce? '.' digits with
    | none => exact ⟨List.Subset.refl _, List.nil_subset _⟩
    | some parts => exact splitOnce?_subset hs
  unfold numeral at h
  dsimp only at h
  split at h
  · exact .inr (.inl (List.mem_singleton.1 h))
  · rcases List.mem_append.1 h with h | h
    · rcases List.mem_append.1 h with h | h
      · split at h
        · exact .inr (.inr (.inl (List.mem_singleton.1 h)))
        · cases h
      · exact .inl (hparts.1 ((List.dropWhile_sublist _).subset h))
    · split at h
      · cases h
      · rcases List.mem_cons.1 h with h | h
        · exact .inr (.inr (.inr h))
        · exact .inl (hparts.2 (dropEndWhile_subset _ _ h))

/-- The canonical spelling of a number puts in no more than a zero, a sign and a point. -/
lemma mem_canonical {text : List Char} {c : Char} (h : c ∈ Decimal.canonical text) :
    c ∈ text ∨ c = '0' ∨ c = '-' ∨ c = '.' := by
  rcases canonical_eq text with heq | ⟨negative, digits, hdigits, heq⟩
  · exact .inl (heq ▸ h)
  · rw [heq] at h
    exact (mem_numeral h).imp_left fun h => hdigits h

lemma numeral_ne_nil (negative : Bool) (digits : List Char) : numeral negative digits ≠ [] := by
  unfold numeral
  dsimp only
  split
  · exact List.cons_ne_nil _ _
  · rename_i hparts
    intro hnil
    obtain ⟨hfront, hfraction⟩ := List.append_eq_nil_iff.1 hnil
    obtain ⟨_, hwhole⟩ := List.append_eq_nil_iff.1 hfront
    split at hfraction
    · rename_i hempty
      exact hparts (by rw [hwhole, hempty]; rfl)
    · cases hfraction

lemma canonical_ne_nil {text : List Char} (h : text ≠ []) : Decimal.canonical text ≠ [] := by
  rcases canonical_eq text with heq | ⟨negative, digits, _, heq⟩
  · rwa [heq]
  · rw [heq]
    exact numeral_ne_nil negative digits

lemma numeric_canonical {text : List Char} (h : ∀ c ∈ text, IsNumeric c) :
    ∀ c ∈ Decimal.canonical text, IsNumeric c := by
  intro c hc
  rcases mem_canonical hc with hc | rfl | rfl | rfl
  · exact h c hc
  · exact .inl rfl
  · exact .inr (.inr (.inl rfl))
  · exact .inr (.inr (.inr (.inl rfl)))

lemma mem_positional {d : Decimal.Digits} {c : Char} (h : c ∈ d.positional) :
    c.isDigit = true ∨ c = '.' := by
  have hdigits : ∀ c ∈ Nat.toDigits 10 d.digits, c.isDigit = true := fun c hc =>
    Nat.isDigit_of_mem_toDigits (by decide) (by decide) hc
  have hzeros : ∀ n, ∀ c ∈ List.replicate n '0', c.isDigit = true := by
    intro n c hc
    rw [List.eq_of_mem_replicate hc]
    rfl
  unfold Decimal.Digits.positional at h
  dsimp only at h
  split at h
  · rcases List.mem_append.1 h with h | h
    · exact .inl (hdigits c h)
    · exact .inl (hzeros _ c h)
  · split at h
    · rcases List.mem_append.1 h with h | h
      · exact .inl (hdigits c (List.mem_of_mem_take h))
      · rcases List.mem_cons.1 h with h | h
        · exact .inr h
        · exact .inl (hdigits c (List.mem_of_mem_drop h))
    · rcases List.mem_cons.1 h with rfl | h
      · exact .inl rfl
      · rcases List.mem_cons.1 h with h | h
        · exact .inr h
        · rcases List.mem_append.1 h with h | h
          · exact .inl (hzeros _ c h)
          · exact .inl (hdigits c h)

lemma mem_plainText {x : Float} {c : Char} (h : c ∈ Decimal.plainText x) : IsPlain c := by
  have hwords : ∀ d ∈ ['N', 'a', 'N', '-', 'i', 'n', 'f'], IsPlain d := by decide
  have hpositional : ∀ {d : Decimal.Digits}, c ∈ d.positional → IsPlain c := by
    intro d hd
    rcases mem_positional hd with hd | hd
    · exact plain_of_isDigit hd
    · rw [hd]
      decide
  unfold Decimal.plainText at h
  split at h
  · exact hwords c (List.mem_append_left ['-', 'i', 'n', 'f'] h)
  · split at h
    · exact hwords c (List.mem_append_right ['N', 'a', 'N'] h)
    · exact hwords c (List.mem_append_right ['N', 'a', 'N', '-'] h)
  · dsimp only at h
    split at h
    · rcases List.mem_cons.1 h with rfl | h
      · decide
      · exact hpositional h
    · exact hpositional h

lemma mem_format {x : Float} {c : Char} (h : c ∈ Decimal.format x) : IsPlain c := by
  unfold Decimal.format at h
  split at h
  · exact mem_plainText h
  · dsimp only at h
    split at h
    · rw [List.mem_singleton.1 h]
      exact .inl rfl
    · exact mem_plainText h

end AtomicCss.Proofs
