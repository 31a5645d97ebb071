import AtomicCss.Proofs.ConditionParts
import AtomicCss.Proofs.SpacedWords

/-!
# Layers of words

A value is made of layers with commas between them, and a layer of words with spaces between them.
Such a value is split at both levels into these words, and words that are joined at both levels make
such a value. So a value that is rewritten layer by layer has the rewritten words.
-/

namespace AtomicCss.Proofs

open Text

/-- What ends a word of a layer. -/
def isBreak (c : Char) : Bool :=
  isBlank c || c == ','

/-- One word of a layer: it is not empty, and has blanks and commas only inside parentheses and
quotes. -/
structure LayerWord (word : List Char) : Prop where
  ne_nil : word ≠ []
  closes : closesFrom isBreak 0 none word = true

instance (word : List Char) : Decidable (LayerWord word) :=
  decidable_of_iff (word ≠ [] ∧ closesFrom isBreak 0 none word = true)
    ⟨fun h => ⟨h.1, h.2⟩, fun h => ⟨h.1, h.2⟩⟩

/-- A text with spaces around it. -/
def padded (before after : ℕ) (text : List Char) : List Char :=
  List.replicate before ' ' ++ (text ++ List.replicate after ' ')

/-- A text of layers with commas between them, perhaps with spaces around these. -/
inductive Layered : List (List (List Char)) → List Char → Prop
  | last {words : List (List Char)} {text : List Char} (before after : ℕ) :
    Spaced words text → Layered [words] (padded before after text)
  | cons {words : List (List Char)} {text : List Char} (before after : ℕ)
    {layers : List (List (List Char))} {rest : List Char} :
    Spaced words text → Layered layers rest →
    Layered (words :: layers) (padded before after text ++ ',' :: rest)

/-- The words of the layers of a text. -/
def layersOf (text : List Char) : List (List (List Char)) :=
  (splitTopLevel ',' text).map (splitTopLevel ' ')

section

variable {barred : Char → Bool} {depth : ℕ} {quote : Option Char} {word text : List Char}
  {words : List (List Char)} {layers : List (List (List Char))}

/-- Texts that close one behind the other close as a whole, also where fewer characters are
barred. -/
lemma closesFrom_append {fewer : Char → Bool} {a b : List Char}
    (hfewer : ∀ c, fewer c = true → barred c = true)
    (ha : closesFrom barred depth quote a = true) (hb : closesFrom fewer 0 none b = true) :
    closesFrom fewer depth quote (a ++ b) = true := by
  induction a generalizing depth quote with
  | nil =>
    obtain ⟨hdepth, hquote⟩ := Bool.and_eq_true_iff.1 ha
    rw [List.nil_append, beq_iff_eq.1 hdepth, Option.isNone_iff_eq_none.1 hquote]
    exact hb
  | cons c cs ih =>
    rw [List.cons_append]
    unfold closesFrom at ha ⊢
    cases quote with
    | some q => exact ih ha
    | none =>
      dsimp only at ha ⊢
      split at ha
      · rename_i hquote
        rw [if_pos hquote]
        exact ih ha
      rename_i hquote
      rw [if_neg hquote]
      split at ha
      · rename_i hopen
        rw [if_pos hopen]
        exact ih ha
      rename_i hopen
      rw [if_neg hopen]
      split at ha
      · rename_i hclose
        rw [if_pos hclose]
        rw [Bool.and_eq_true_iff] at ha ⊢
        exact ⟨ha.1, ih ha.2⟩
      · rename_i hclose
        rw [if_neg hclose]
        rw [Bool.and_eq_true_iff] at ha ⊢
        refine ⟨?_, ih ha.2⟩
        cases hc : fewer c with
        | false => rfl
        | true =>
          have hbarred := ha.1
          rwa [hfewer c hc] at hbarred

/-- A word of a layer is a word. -/
lemma LayerWord.single (h : LayerWord word) : SingleWord word where
  ne_nil := h.ne_nil
  closes := by
    rw [← List.append_nil word]
    exact closesFrom_append (fun c hc => by simp [isBreak, hc]) h.closes rfl

lemma closes_spaces (n : ℕ) : closesFrom (· == ',') 0 none (List.replicate n ' ') = true := by
  induction n with
  | zero => rfl
  | succ n ih => exact ih

/-- No comma stands between the words of a layer. -/
lemma closes_spaced (h : Spaced words text) (hwords : ∀ w ∈ words, LayerWord w) :
    closesFrom (· == ',') 0 none text = true := by
  have hcomma : ∀ c : Char, (c == ',') = true → isBreak c = true := by
    intro c hc
    simp [isBreak, hc]
  induction h with
  | last word =>
    have hword := hwords word (List.mem_singleton_self _)
    rw [← List.append_nil word]
    exact closesFrom_append hcomma hword.closes rfl
  | cons word more _ ih =>
    obtain ⟨hword, hrest⟩ := List.forall_mem_cons.1 hwords
    have hspaces := closesFrom_append (fun _ hc => hc) (closes_spaces (more + 1)) (ih hrest)
    exact closesFrom_append hcomma hword.closes hspaces

/-- A text of words begins and ends with one. -/
lemma trimmed_spaced (h : Spaced words text) (hwords : ∀ w ∈ words, LayerWord w) :
    text ≠ [] ∧ Trimmed text := by
  induction h with
  | last word =>
    have hword := (hwords word (List.mem_singleton_self _)).single
    exact ⟨hword.ne_nil, hword.trimmed⟩
  | @cons word more words text _ ih =>
    obtain ⟨hword, hrest⟩ := List.forall_mem_cons.1 hwords
    obtain ⟨hne, htrimmed⟩ := ih hrest
    refine ⟨by simp, ⟨?_, ?_⟩⟩
    · rw [List.head?_append_of_ne_nil _ hword.ne_nil]
      exact hword.single.trimmed.head
    · have hspaces : word ++ ' ' :: (List.replicate more ' ' ++ text) =
          (word ++ List.replicate (more + 1) ' ') ++ text := by
        rw [List.append_assoc]
        rfl
      rw [hspaces, endsBlank_append hne]
      exact htrimmed.last

lemma trim_padded (before after : ℕ) (hne : text ≠ []) (h : Trimmed text) :
    trim (padded before after text) = text := by
  have hblank : ∀ n : ℕ, ∀ c ∈ List.replicate n ' ', isBlank c = true := by
    intro n c hc
    rw [List.eq_of_mem_replicate hc]
    rfl
  have hstart : trimStart (text ++ List.replicate after ' ') = text ++ List.replicate after ' ' := by
    obtain ⟨c, cs, rfl⟩ := List.exists_cons_of_ne_nil hne
    exact List.dropWhile_cons_of_neg (by simp [h.head c rfl])
  have hend : trimEnd (List.replicate after ' ') = [] := by
    unfold trimEnd
    rw [List.reverse_replicate, List.reverse_eq_nil_iff, List.dropWhile_eq_nil_iff]
    exact hblank after
  rw [padded, trim_blanks_append (hblank before), trim, hstart, trimEnd_append_of_nil hend,
    trimEnd_of_not_endsBlank h.last]

lemma closes_padded (before after : ℕ) (h : closesFrom (· == ',') 0 none text = true) :
    closesFrom (· == ',') 0 none (padded before after text) = true :=
  closesFrom_append (fun _ hc => hc) (closes_spaces before)
    (closesFrom_append (fun _ hc => hc) h (closes_spaces after))

/-- A layer is split off as a whole, up to the next comma or the end. -/
lemma splitTopLevel_layer (before after : ℕ) (h : Spaced words text)
    (hwords : ∀ w ∈ words, LayerWord w) :
    splitTopLevel ',' (padded before after text) = [text] ∧
      ∀ rest, splitTopLevel ',' (padded before after text ++ ',' :: rest) =
        text :: splitTopLevel ',' rest := by
  obtain ⟨hne, htrimmed⟩ := trimmed_spaced h hwords
  have htrim := trim_padded before after hne htrimmed
  have hscan : ∀ rest, splitTopLevel ',' (padded before after text ++ rest) =
      topLevelFrom ',' 0 none (padded before after text) rest :=
    topLevelFrom_closes rfl (closes_padded before after (closes_spaced h hwords)) []
  constructor
  · rw [← List.append_nil (padded before after text), hscan,
      topLevelFrom_nil 0 (by rwa [htrim]), htrim]
  · intro rest
    have hcomma : topLevelFrom ',' 0 none (padded before after text) (',' :: rest) =
        if (trim (padded before after text)).isEmpty then splitTopLevel ',' rest
        else trim (padded before after text) :: splitTopLevel ',' rest := rfl
    rw [hscan, hcomma, htrim, if_neg (by simpa using hne)]

/-- The words of the layers are found again. -/
lemma layersOf_layered (h : Layered layers text) (hwords : ∀ words ∈ layers, ∀ w ∈ words,
    LayerWord w) : layersOf text = layers := by
  unfold layersOf
  induction h with
  | last before after hspaced =>
    have hword := hwords _ (List.mem_singleton_self _)
    rw [(splitTopLevel_layer before after hspaced hword).1, List.map_singleton,
      splitTopLevel_spaced hspaced fun w hw => (hword w hw).single]
  | cons before after hspaced _ ih =>
    obtain ⟨hword, hrest⟩ := List.forall_mem_cons.1 hwords
    rw [(splitTopLevel_layer before after hspaced hword).2, List.map_cons, ih hrest,
      splitTopLevel_spaced hspaced fun w hw => (hword w hw).single]

lemma Layered.ne_nil (h : Layered layers text) : layers ≠ [] := by
  cases h <;> exact List.cons_ne_nil _ _

/-- Words joined at both levels make a text with these layers. -/
lemma layered_joinWith (hne : layers ≠ []) (hwords : ∀ words ∈ layers, words ≠ []) :
    Layered layers (joinWith ',' (layers.map (joinWith ' '))) := by
  have hpadded : ∀ text, padded 0 0 text = text := fun text => List.append_nil text
  induction layers with
  | nil => exact (hne rfl).elim
  | cons words rest ih =>
    obtain ⟨hfirst, hrest⟩ := List.forall_mem_cons.1 hwords
    have hspaced := spaced_joinWith hfirst
    unfold joinWith at ih ⊢
    cases rest with
    | nil =>
      rw [List.map_singleton, List.intercalate_singleton, ← hpadded (List.intercalate _ _)]
      exact .last 0 0 hspaced
    | cons second rest =>
      have hlast := ih (List.cons_ne_nil _ _) hrest
      rw [List.map_cons, List.map_cons, List.intercalate_cons_cons, ← List.map_cons,
        ← hpadded (List.intercalate [' '] words)]
      rw [List.append_assoc]
      exact .cons 0 0 hspaced hlast

/-- Rewriting a value layer by layer rewrites its words. -/
lemma layerwise_layered {change : List (List Char) → List (List Char)} (h : Layered layers text)
    (hwords : ∀ words ∈ layers, ∀ w ∈ words, LayerWord w) :
    layerwise change text = joinWith ',' ((layers.map change).map (joinWith ' ')) := by
  have hlayers := layersOf_layered h hwords
  unfold layerwise
  rw [← hlayers, layersOf, List.map_map, List.map_map]
  rfl

end

end AtomicCss.Proofs
