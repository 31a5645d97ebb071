import AtomicCss.Proofs.Lookups
import AtomicCss.Proofs.Reading
import AtomicCss.Proofs.Tiling
import AtomicCss.Value.Normalize

/-!
# What is wrong with a text

Wherever a number begins, its text has the parts of one, and so it can be read. What stops the
tokenizer is a string or an address that is never closed; what else it refuses are parentheses that
do not balance.
-/

namespace AtomicCss.Proofs

open Token

/-- A number begins exactly where the text of one stands. -/
lemma startsNumber_iff {cs : List Char} :
    startsNumber cs = true ↔ ∃ p : NumberParts, (numberSpan cs).1 = p.text := by
  constructor
  · intro h
    obtain ⟨p, hp, _⟩ := parts_of_startsNumber h
    exact ⟨p, hp⟩
  · rintro ⟨p, hp⟩
    have happend := numberSpan_append cs
    rw [hp] at happend
    rw [← happend]
    exact p.startsNumber _

/-- A number is read wherever one begins. -/
lemma readNumber_of_startsNumber {cs : List Char} (h : startsNumber cs = true) :
    ∃ taken, readNumber cs = .ok taken := by
  obtain ⟨p, hp, hend⟩ := parts_of_startsNumber h
  have happend := numberSpan_append cs
  rw [hp] at happend
  rw [← happend]
  exact ⟨_, readNumber_text hend⟩

/-- Something is opened in the text and never closed. -/
inductive LeavesOpen : Failure → Prop
  | string : LeavesOpen .unclosedString
  | url (opening : List Char) : LeavesOpen (.unclosedUrl opening)

lemma unclosed_of_readNamed {cs : List Char} {failure : Failure}
    (h : readNamed cs = .error failure) : LeavesOpen failure := by
  unfold readNamed at h
  dsimp only at h
  split at h
  · split at h
    · split at h
      · cases h
      · cases h
        exact .url _
    · cases h
  · cases h

/-- Where no token can be read, a string or an address is not closed. -/
lemma unclosed_of_next? {cs : List Char} {failure : Failure} (h : next? cs = .error failure) :
    LeavesOpen failure := by
  cases cs with
  | nil => cases h
  | cons c cs =>
    simp only [next?] at h
    split at h
    · cases h
    split at h
    · cases h
    split at h
    · cases h
    split at h
    · cases h
    split at h
    · split at h
      · cases h
      · cases h
        exact .string
    split at h
    · cases h
    split at h
    · -- a number never fails, so the failure is not its own
      rename_i hstarts
      obtain ⟨taken, htaken⟩ := readNumber_of_startsNumber hstarts
      rw [htaken] at h
      cases h
    split at h
    · exact unclosed_of_readNamed (map_eq_error h)
    · cases h

/-- The faults of a text with a string, an address or a parenthesis that has no other end. -/
inductive IsUnclosed (input : List Char) : CssFault → Prop
  | string (location : Location) :
    IsUnclosed input (.unterminatedString (String.ofList input) location)
  | parentheses (location : Location) :
    IsUnclosed input (.unbalancedParentheses (String.ofList input) location)

lemma unclosed_of_scan {input : List Char} {fault : CssFault}
    (h : (scan input).outcome = .error fault) : IsUnclosed input fault := by
  obtain ⟨pieces, rest, htiling⟩ := scan_tiles input
  rcases htiling.ends with ⟨_, hok⟩ | ⟨failure, hnext, hfault⟩
  · rw [hok] at h
    cases h
  · rw [hfault] at h
    cases h
    cases unclosed_of_next? hnext with
    | string => exact .string _
    | url => exact .parentheses _

lemma unclosed_of_tokenize {input : List Char} {fault : CssFault}
    (h : tokenize input = .error fault) : IsUnclosed input fault := by
  unfold tokenize at h
  dsimp only at h
  split at h
  · cases h
    exact .parentheses _
  · split at h
    · rename_i hfault
      cases h
      exact unclosed_of_scan hfault
    · split at h
      · cases h
      · cases h
        exact .parentheses _

/-- A text is normalized unless its tokens cannot be read. -/
lemma unclosed_of_normalizeText {property : String} {raw : List Char} {fault : CssFault}
    (h : Value.normalizeText property raw = .error fault) :
    IsUnclosed (Value.splitImportant (Text.trim raw)).1 fault := by
  unfold Value.normalizeText at h
  dsimp only at h
  split at h
  · cases h
  · exact unclosed_of_tokenize (map_eq_error h)

end AtomicCss.Proofs
