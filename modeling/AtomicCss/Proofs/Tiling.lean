import AtomicCss.Proofs.Lexed
import Mathlib.Data.List.DropRight
import Mathlib.Data.List.Induction

/-!
# A scan tiles its text

The tokens of a scan are taken off its text one after the other: no slice is empty, and the slices
lie end to end up to the end of the text or to the place where no token can be read. The position
reported before a token is that of the text already taken.
-/

namespace AtomicCss.Proofs

open Token

/-- The position behind a text, counted from its beginning. -/
def positionBehind (text : List Char) : Location where
  line := 1 + text.count '\n'
  column := 1 + (text.rtakeWhile fun c => c ≠ '\n').length
  offset := (String.ofList text).utf8ByteSize

lemma positionBehind_concat (text : List Char) (c : Char) :
    positionBehind (text ++ [c]) = (positionBehind text).step c := by
  have hbytes : (String.ofList (text ++ [c])).utf8ByteSize =
      (String.ofList text).utf8ByteSize + c.utf8Size := by
    rw [String.ofList_append, String.utf8ByteSize_append]
    exact congrArg _ (String.utf8ByteSize_singleton)
  unfold positionBehind Location.step
  rw [hbytes, List.count_append, List.rtakeWhile_concat]
  by_cases hc : c = '\n'
  · subst hc
    rfl
  · rw [if_pos (by simpa using hc), if_neg hc, List.count_singleton, if_neg (by simpa using hc),
      List.length_append]
    rfl

/-- Positions that are moved over a text character by character. -/
lemma past_start (text : List Char) : Location.start.past text = positionBehind text := by
  induction text using List.reverseRecOn with
  | nil => rfl
  | append_singleton text c ih =>
    rw [Location.past_append, ih, positionBehind_concat]
    rfl

/-- The rest of a text is what follows the token. -/
lemma suffix_of_taken {cs rest : List Char} {t : Token} (h : Taken cs t rest) : rest <:+ cs := by
  by_cases hblank : t = .whitespace
  · cases h with
    | whitespace => exact (List.dropWhile_suffix _).trans (List.suffix_cons _ _)
    | _ => cases hblank
  rcases spelling_of_taken h hblank with heq | ⟨raw, rfl⟩
  · exact ⟨_, heq⟩
  · -- an address is spelled without the blanks that are taken with it
    cases h with
    | @url _ inner _ _ _ _ hopen _ hbody =>
      have hrest : rest <:+ inner.dropWhile Text.isBlank := by
        rw [stringBody?_append hbody]
        exact (List.suffix_cons _ _).trans (List.suffix_append _ _)
      have hinner : inner <:+ (nameSpan cs).2 := by
        rw [hopen]
        exact List.suffix_cons _ _
      have hname : (nameSpan cs).2 <:+ cs := ⟨_, nameSpan_append cs⟩
      exact ((hrest.trans (List.dropWhile_suffix _)).trans hinner).trans hname

/-- The steps that take the pieces, each a token with its slice, off a text. -/
inductive Stepped : List Char → List (Token × List Char) → List Char → Prop
  | stop (rest : List Char) : Stepped rest [] rest
  | step {t : Token} {slice behind rest : List Char} {pieces : List (Token × List Char)} :
    next? (slice ++ behind) = .ok (some (t, behind)) → Stepped behind pieces rest →
      Stepped (slice ++ behind) ((t, slice) :: pieces) rest

/-- The text that the pieces are taken off. -/
def consumed (pieces : List (Token × List Char)) : List Char :=
  pieces.flatMap Prod.snd

namespace Stepped

variable {cs rest : List Char} {pieces : List (Token × List Char)}

lemma consumed_append (h : Stepped cs pieces rest) : consumed pieces ++ rest = cs := by
  induction h with
  | stop => rfl
  | step _ _ ih =>
    rw [consumed, List.flatMap_cons, List.append_assoc]
    exact congrArg _ ih

/-- What holds of every token that is taken off with its slice. -/
lemma forall_pieces {P : Token → List Char → Prop} (h : Stepped cs pieces rest)
    (hstep : ∀ t slice behind, next? (slice ++ behind) = .ok (some (t, behind)) → P t slice) :
    ∀ piece ∈ pieces, P piece.1 piece.2 := by
  induction h with
  | stop => nofun
  | step hnext _ ih => exact List.forall_mem_cons.2 ⟨hstep _ _ _ hnext, ih⟩

lemma slice_ne_nil (h : Stepped cs pieces rest) : ∀ piece ∈ pieces, piece.2 ≠ [] :=
  h.forall_pieces (P := fun _ slice => slice ≠ []) fun t slice behind hnext hnil => by
    subst hnil
    exact Nat.lt_irrefl _ (next?_length hnext)

lemma slice_eq_spelling (h : Stepped cs pieces rest) :
    ∀ piece ∈ pieces, piece.1 ≠ .whitespace → (∀ raw, piece.1 ≠ .url raw) →
      piece.2 = piece.1.spelling := by
  refine h.forall_pieces (P := fun t slice => t ≠ .whitespace → (∀ raw, t ≠ .url raw) →
    slice = t.spelling) fun t slice behind hnext hblank hurl => ?_
  rcases spelling_of_taken (taken_of_next? hnext) hblank with heq | ⟨raw, heq⟩
  · exact (List.append_cancel_right heq).symm
  · exact (hurl raw heq).elim

end Stepped

/-- The slices of a scan are taken off one after the other, until the text is used up or no token
can be read. -/
lemma stepped_lexemes (cs : List Char) : ∃ rest, Stepped cs (lexemes cs).1 rest ∧
    (rest = [] ∧ (lexemes cs).2 = .ok () ∨
      ∃ failure, next? rest = .error failure ∧ (lexemes cs).2 = .error failure) := by
  fun_induction lexemes cs with
  | case1 cs failure hnext => exact ⟨cs, .stop cs, .inr ⟨failure, hnext, rfl⟩⟩
  | case2 cs hnext => exact ⟨cs, .stop cs, .inl ⟨next?_eq_none hnext, rfl⟩⟩
  | case3 cs t behind hnext more outcome hmore ih =>
    rw [hmore] at ih
    obtain ⟨rest, hstepped, hend⟩ := ih
    -- what a token takes is measured by what it leaves
    obtain ⟨slice, rfl⟩ := suffix_of_taken (taken_of_next? hnext)
    have htaken : (slice ++ behind).take ((slice ++ behind).length - behind.length) = slice := by
      rw [List.length_append, Nat.add_sub_cancel, List.take_left]
    rw [htaken]
    exact ⟨rest, .step hnext hstepped, hend⟩

/-- The tokens with the positions before them, and the position behind the last one. -/
lemma placed_eq (before more : List (Token × List Char)) :
    Token.placed (positionBehind (consumed before)) more =
      (more.mapIdx fun i piece => (positionBehind (consumed (before ++ more.take i)), piece.1),
        positionBehind (consumed (before ++ more))) := by
  induction more generalizing before with
  | nil => simp [Token.placed]
  | cons piece more ih =>
    have hpast : (positionBehind (consumed before)).past piece.2 =
        positionBehind (consumed (before ++ [piece])) := by
      rw [← past_start, ← Location.past_append, past_start]
      simp [consumed]
    change ((positionBehind (consumed before), piece.1) :: (Token.placed _ more).1,
      (Token.placed _ more).2) = _
    rw [hpast, ih, List.mapIdx_cons]
    simp

/-- A scan takes the pieces, which are all of its text but the rest. -/
structure Tiling (input : List Char) (pieces : List (Token × List Char)) (rest : List Char)
    (result : Scan) : Prop where
  stepped : Stepped input pieces rest
  whole : consumed pieces ++ rest = input
  nonempty : ∀ piece ∈ pieces, piece.2 ≠ []
  spelled : ∀ piece ∈ pieces, piece.1 ≠ .whitespace → (∀ raw, piece.1 ≠ .url raw) →
    piece.2 = piece.1.spelling
  located : result.tokens =
    pieces.mapIdx fun i piece => (positionBehind (consumed (pieces.take i)), piece.1)
  ends : (rest = [] ∧ result.outcome = .ok (positionBehind input)) ∨
    ∃ failure, next? rest = .error failure ∧
      result.outcome = .error (failure.fault input (positionBehind (consumed pieces)))

/-- Every text is tiled by a scan, up to its end or to the place where no token can be read. -/
theorem scan_tiles (input : List Char) : ∃ pieces rest, Tiling input pieces rest (scan input) := by
  obtain ⟨rest, hstepped, hend⟩ := stepped_lexemes input
  have hplaced := placed_eq [] (lexemes input).1
  have hwhole := hstepped.consumed_append
  change Token.placed .start (lexemes input).1 = _ at hplaced
  refine ⟨(lexemes input).1, rest, hstepped, hwhole, hstepped.slice_ne_nil,
    hstepped.slice_eq_spelling, ?_, ?_⟩
  · exact congrArg Prod.fst hplaced
  · have hlast : (Token.placed .start (lexemes input).1).2 =
        positionBehind (consumed (lexemes input).1) := congrArg Prod.snd hplaced
    rcases hend with ⟨rfl, hok⟩ | ⟨failure, hnext, herror⟩
    · left
      rw [List.append_nil] at hwhole
      refine ⟨rfl, ?_⟩
      unfold scan
      dsimp only
      rw [hok, hlast, hwhole]
    · right
      refine ⟨failure, hnext, ?_⟩
      unfold scan
      dsimp only
      rw [herror, hlast]

end AtomicCss.Proofs
