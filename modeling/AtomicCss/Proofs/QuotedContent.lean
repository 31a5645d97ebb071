import AtomicCss.Proofs.Idempotence

/-!
# Plain text as content

A `content` value that is no CSS is written as a string. Only quotes and backslashes are escaped, so
whatever stands in the text, the string ends where the text does, and has the text in it.
-/

namespace AtomicCss.Proofs

open Token Value

/-- The text that a string stands for: a backslash gives the next character. -/
def unescaped : List Char → List Char
  | [] => []
  | '\\' :: c :: cs => c :: unescaped cs
  | c :: cs => c :: unescaped cs

lemma unescaped_escaped (text : List Char) : unescaped (escaped text) = text := by
  induction text with
  | nil => rfl
  | cons c cs ih =>
    unfold escaped
    split
    · rw [unescaped, ih]
    · rename_i hc
      rw [unescaped, ih]
      rintro d ds rfl
      exact (hc (.inr rfl)).elim

/-- Plain content is quoted without loss, in front of the mark that it had; what is written is
content already, and is its own normal form. -/
theorem plainContent_quoted {text : String} (h : isCssContent (bodyOf text.toList) = false) :
    ∃ (result : String) (raw : List Char),
      normalizeScalar "content" (.text text) = .ok result ∧
      result.toList =
        bodyOf result.toList ++ markOf (splitImportant (Text.trim text.toList)).2 ∧
      tokenize (bodyOf result.toList) = .ok [.string '"' raw] ∧
      unescaped raw = bodyOf text.toList ∧
      normalizeScalar "content" (.text result) = .ok result := by
  have hplain : IsPlainContent "content" text.toList := by
    unfold IsPlainContent
    rw [h]
    rfl
  have hnormal := normalBody_quoted "content" (bodyOf text.toList)
  have hseen := markSeen_quoted (bodyOf text.toList)
  generalize hmark : (splitImportant (Text.trim text.toList)).2 = important
  have hbody : bodyOf (quoted (bodyOf text.toList) ++ markOf important) =
      quoted (bodyOf text.toList) :=
    congrArg Prod.fst (splitImportant_append_mark hnormal.trimmed fun _ => hseen)
  refine ⟨String.ofList (quoted (bodyOf text.toList) ++ markOf important),
    escaped (bodyOf text.toList), ?_, ?_, ?_, unescaped_escaped _, ?_⟩
  · rw [normalizeScalar, normalizeText_plain hplain, hmark]
    rfl
  · rw [String.toList_ofList, hbody]
  · rw [String.toList_ofList, hbody, tokenize_quoted]
  · rw [normalizeScalar, String.toList_ofList, normalizeText_of_normalBody hnormal fun _ => hseen]
    rfl

/-- A quote, a backslash, parentheses and a mark inside the text and one behind it. -/
def quotation : String :=
  " say \"!important\" (\\ to\n escape )  ! Important"

theorem plainContent_quoted_quotation :
    isCssContent (bodyOf quotation.toList) = false ∧ ∃ (result : String) (raw : List Char),
      normalizeScalar "content" (.text quotation) = .ok result ∧
      result.toList =
        bodyOf result.toList ++ markOf (splitImportant (Text.trim quotation.toList)).2 ∧
      tokenize (bodyOf result.toList) = .ok [.string '"' raw] ∧
      unescaped raw = bodyOf quotation.toList ∧
      normalizeScalar "content" (.text result) = .ok result := by
  have hplain : isCssContent (bodyOf quotation.toList) = false := by decide +kernel
  exact ⟨hplain, plainContent_quoted hplain⟩

end AtomicCss.Proofs
