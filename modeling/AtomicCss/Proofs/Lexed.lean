import AtomicCss.Proofs.NormalText

/-!
# Texts and their tokens

The tokens of a text are taken off one after the other until nothing is left. A value is split if
this gets to the end of its text and the parentheses of the tokens balance.
-/

namespace AtomicCss.Proofs

open Token

/-- The tokens that are taken off a text one after the other. -/
inductive Lexed : List Char → List Token → Prop
  | nil : Lexed [] []
  | cons {cs rest : List Char} {t : Token} {tokens : List Token} :
    next? cs = .ok (some (t, rest)) → Lexed rest tokens → Lexed cs (t :: tokens)

lemma Lexed.uncons {cs : List Char} {t : Token} {tokens : List Token} (h : Lexed cs (t :: tokens)) :
    ∃ rest, next? cs = .ok (some (t, rest)) ∧ Lexed rest tokens := by
  cases h with
  | cons hnext hrest => exact ⟨_, hnext, hrest⟩

lemma Lexed.head_eq {cs rest : List Char} {t : Token} {tokens : List Token} (h : Lexed cs tokens)
    (hnext : next? cs = .ok (some (t, rest))) : ∃ more, tokens = t :: more := by
  cases h with
  | nil => cases hnext
  | @cons _ _ u more hnext' =>
    rw [hnext] at hnext'
    cases hnext'
    exact ⟨more, rfl⟩

lemma next?_eq_none {cs : List Char} (h : next? cs = .ok none) : cs = [] := by
  cases cs with
  | nil => rfl
  | cons c cs =>
    have hmap : ∀ {x : Except Failure (Token × List Char)}, x.map some ≠ .ok none := by
      rintro (_ | _) hx <;> cases hx
    rw [next?] at h
    repeat' split at h
    all_goals first | cases h | exact (hmap h).elim

lemma lexed_iff {cs : List Char} {tokens : List Token} :
    Lexed cs tokens ↔ (lexemes cs).1.map Prod.fst = tokens ∧ (lexemes cs).2 = .ok () := by
  constructor
  · intro h
    induction h with
    | nil =>
      rw [lexemes]
      exact ⟨rfl, rfl⟩
    | @cons cs rest t tokens hnext _ ih =>
      obtain ⟨htokens, hend⟩ := ih
      rw [lexemes]
      split
      · rename_i hfailed
        rw [hnext] at hfailed
        cases hfailed
      · rename_i hnone
        rw [hnext] at hnone
        cases hnone
      · rename_i hsome
        rw [hnext] at hsome
        cases hsome
        exact ⟨congrArg (t :: ·) htokens, hend⟩
  · rintro ⟨rfl, hend⟩
    fun_induction lexemes cs with
    | case1 => cases hend
    | case2 cs hnone =>
      rw [next?_eq_none hnone]
      exact .nil
    | case3 cs t rest hnext more outcome hrest ih =>
      rw [hrest] at ih
      exact .cons hnext (ih hend)

/-- How many parentheses are open behind the tokens, unless one is closed that was not open. -/
def openBehind? (depth : Nat) : List Token → Option Nat
  | [] => some depth
  | t :: tokens =>
    if t = .rightParen ∧ depth = 0 then none else openBehind? (depthBehind depth t) tokens

lemma openDepth_eq_ok {located : List (Location × Token)} {depth final : Nat} :
    openDepth depth located = .ok final ↔
      openBehind? depth (located.map Prod.snd) = some final := by
  induction located generalizing depth with
  | nil => simp [openDepth, openBehind?]
  | cons item located ih =>
    obtain ⟨location, t⟩ := item
    rw [List.map_cons, openBehind?]
    cases t with
    | rightParen =>
      rw [openDepth]
      by_cases hdepth : depth = 0
      · rw [if_pos hdepth, if_pos ⟨rfl, hdepth⟩]
        constructor <;> intro h <;> cases h
      · rw [if_neg hdepth, if_neg fun h => hdepth h.2]
        exact ih
    | _ => exact ih

lemma outcome_scan (cs : List Char) :
    (∃ last, (scan cs).outcome = .ok last) ↔ (lexemes cs).2 = .ok () := by
  unfold scan
  dsimp only
  cases (lexemes cs).2 <;> simp

lemma tokenize_eq_ok {cs : List Char} {tokens : List Token} : tokenize cs = .ok tokens ↔
    Lexed cs tokens ∧ openBehind? 0 tokens = some 0 := by
  have htokens : (scan cs).tokens.map Prod.snd = (lexemes cs).1.map Prod.fst :=
    map_snd_placed_tokens _ _
  rw [lexed_iff, ← htokens, ← outcome_scan]
  unfold tokenize
  dsimp only
  constructor
  · intro h
    split at h
    · cases h
    · rename_i depth hdepth
      split at h
      · cases h
      · rename_i last hlast
        split at h
        · rename_i hzero
          cases h
          exact ⟨⟨rfl, last, hlast⟩, openDepth_eq_ok.1 (hdepth.trans (congrArg _ hzero))⟩
        · cases h
  · rintro ⟨⟨rfl, last, hlast⟩, hbalanced⟩
    rw [openDepth_eq_ok.2 hbalanced, hlast]
    rfl

end AtomicCss.Proofs
