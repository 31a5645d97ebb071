import AtomicCss.Proofs.CanonicalNumber
import AtomicCss.Proofs.Failures

/-!
# The number that is never wrong

The tokenizer checks the text of a number once it has collected it. What it collects always has the
parts of a number, which can be read, so the check never fails: neither a scan nor a normalization
nor a compilation ends with a report of it.
-/

namespace AtomicCss.Proofs

open Token Value

lemma IsUnclosed.ne_invalidNumber {input : List Char} {fault : CssFault} (h : IsUnclosed input fault)
    (number : String) (location : Location) : fault ≠ .invalidNumber number location := by
  cases h <;> nofun

lemma Arises.ne_invalidNumber {e : StyleError} (h : Arises e) (number : String)
    (location : Location) : e ≠ .css (.invalidNumber number location) := by
  cases h with
  | text h => exact fun heq => h.ne_invalidNumber number location (StyleError.css.inj heq)
  | _ => nofun

/-- The text of a number in a scan has the parts of one. -/
lemma exists_parts_of_scanned {input text : List Char} {item : Location × Token}
    (hitem : item ∈ (scan input).tokens) (htext : numberText? item.2 = some text) :
    ∃ p : NumberParts, text = p.text := by
  have hmem : item.2 ∈ (scan input).tokens.map Prod.snd := List.mem_map_of_mem hitem
  have htokens : (scan input).tokens.map Prod.snd = (lexemes input).1.map Prod.fst :=
    map_snd_placed_tokens _ _
  obtain ⟨piece, hpiece, heq⟩ := List.mem_map.1 (htokens ▸ hmem)
  have hparts := lexemes_forall (P := fun _ => True) (Q := HasParts)
    (fun _ _ _ htaken _ => ⟨hasParts_of_taken htaken, trivial⟩) trivial piece hpiece
  exact hparts.exists_parts (heq ▸ htext)

/-- Wherever the tokenizer begins to collect a number, and only there, what it collects are digits,
perhaps with a sign, a point in front of some of them and an exponent. All such texts can be read. So
no number is ever reported as invalid. -/
theorem never_invalidNumber (property : String) (config : Config) (sheet : Sheet)
    (start : Registry) (input : List Char) :
    (startsNumber input = true ↔ ∃ p : NumberParts, (numberSpan input).1 = p.text) ∧
    (∀ item ∈ (scan input).tokens, ∀ text, numberText? item.2 = some text →
      ∃ p : NumberParts, text = p.text) ∧
    (∀ p : NumberParts, (Decimal.read? p.text).isSome = true) ∧
    (∀ text, next? input ≠ .error (.notANumber text)) ∧
    ∀ number location,
      (scan input).outcome ≠ .error (.invalidNumber number location) ∧
      tokenize input ≠ .error (.invalidNumber number location) ∧
      normalizeText property input ≠ .error (.invalidNumber number location) ∧
      (sheet.compileInto config start).2 ≠ .error (.css (.invalidNumber number location)) := by
  refine ⟨startsNumber_iff, fun item hitem text => exists_parts_of_scanned hitem,
    NumberParts.isSome_read?, fun text h => ?_, fun number location => ⟨?_, ?_, ?_, ?_⟩⟩
  · nomatch unclosed_of_next? h
  · exact fun h => (unclosed_of_scan h).ne_invalidNumber number location rfl
  · exact fun h => (unclosed_of_tokenize h).ne_invalidNumber number location rfl
  · exact fun h => (unclosed_of_normalizeText h).ne_invalidNumber number location rfl
  · exact fun h => (arises_of_compileInto (Prod.ext rfl h)).ne_invalidNumber number location rfl

/-- Numbers that begin with a digit, a sign or a point, in front of an address that is never
closed. -/
def mixedNumbers : String :=
  "+.5e+3px 1e 2em -.5% url(a"

def mixedSheet : Sheet :=
  ⟨.unknown, [⟨.unknown, .staticClass "box" [.property "margin" (.scalar (.text mixedNumbers))]⟩]⟩

theorem never_invalidNumber_mixed :
    (scan mixedNumbers.toList).tokens.filterMap (fun item => numberText? item.2) =
        ["+.5e+3".toList, "1".toList, "2".toList, "-.5".toList] ∧
      (∃ p : NumberParts, "+.5e+3".toList = p.text) ∧
      (mixedSheet.compileInto {} .empty).2.isOk = false ∧
      ∀ number location,
        (mixedSheet.compileInto {} .empty).2 ≠ .error (.css (.invalidNumber number location)) := by
  obtain ⟨_, htokens, _, _, hnever⟩ :=
    never_invalidNumber "margin" {} mixedSheet .empty mixedNumbers.toList
  refine ⟨by decide +kernel, ?_, by decide +kernel, fun number location => ?_⟩
  · exact htokens ⟨.start, .dimension "+.5e+3".toList "px".toList⟩ (by decide +kernel) _ rfl
  · exact (hnever number location).2.2.2

end AtomicCss.Proofs
