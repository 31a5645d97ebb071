import AtomicCss.Proofs.Alternatives
import AtomicCss.Class.Expansion

/-!
# Parts of sealed texts

A shorthand is expanded into the words of its value. They are told apart by the quotes and
parentheses of the value, in step with the cursor as long as there are no escapes, so the parts of a
sealed text without backslashes are sealed.
-/

namespace AtomicCss.Proofs

open Cursor Text

/-- No backslash stands right before the cursor. -/
def Unescaped (r : Cursor) : Prop :=
  ∀ quote, r.mode ≠ .escaped quote

lemma unescaped_free (depth : Nat) : Unescaped ⟨depth, .free⟩ := by
  intro quote h
  cases h

lemma unescaped_quoted (depth : Nat) (q : Quote) : Unescaped ⟨depth, .quoted q⟩ := by
  intro quote h
  cases h

/-- Behind a text without backslashes nothing is escaped. -/
lemma unescaped_of_over? {r s : Cursor} {text : List Char} (h : r.over? text = some s)
    (hr : Unescaped r) (htext : '\\' ∉ text) : Unescaped s := by
  induction text generalizing r with
  | nil =>
    cases h
    exact hr
  | cons c cs ih =>
    obtain ⟨u, hu, h⟩ := Option.bind_eq_some_iff.1 h
    have hc : c ≠ '\\' := by
      rintro rfl
      exact htext List.mem_cons_self
    have houtside : ∀ depth, outside? depth c = some u → Unescaped u := by
      intro depth h quote
      simp only [outside?, hc, if_false] at h
      grind
    refine ih h ?_ fun hmem => htext (List.mem_cons_of_mem _ hmem)
    obtain ⟨depth, mode⟩ := r
    cases mode with
    | free => exact houtside depth hu
    | comma =>
      unfold step? at hu
      dsimp only at hu
      split at hu
      · cases hu
      · exact houtside depth hu
    | quoted q =>
      unfold step? at hu
      dsimp only at hu
      rw [if_neg hc] at hu
      split at hu
      · cases hu
        exact unescaped_free depth
      · cases hu
        exact unescaped_quoted depth q
    | escaped quote => exact (hr quote rfl).elim

/-- Characters that neither escape nor quote nor separate. A space is one of them. -/
def IsInert (c : Char) : Prop :=
  c ≠ '\\' ∧ c ≠ '"' ∧ c ≠ '\'' ∧ c ≠ '(' ∧ c ≠ ')' ∧ c ≠ ','

instance (c : Char) : Decidable (IsInert c) :=
  inferInstanceAs (Decidable (_ ∧ _))

lemma outside?_inert {c : Char} (hc : IsInert c) (depth : Nat) :
    outside? depth c = some ⟨depth, .free⟩ := by
  obtain ⟨h1, h2, h3, h4, h5, h6⟩ := hc
  simp [outside?, h1, h2, h3, h4, h5, h6]

lemma inert_of_isBlank {c : Char} (h : isBlank c = true) : IsInert c := by
  unfold IsInert
  refine ⟨?_, ?_, ?_, ?_, ?_, ?_⟩ <;> rintro rfl <;> revert h <;> decide

/-- If inert characters lead out of quotes and parentheses, then the text before them does. -/
lemma ready_of_inert {r s : Cursor} {text : List Char} (h : r.over? text = some s)
    (htext : ∀ c ∈ text, IsInert c) (hr : Unescaped r) (hs : s.Ready)
    (hdepth : s.depth = 0) : r.Ready ∧ r.depth = 0 := by
  induction text generalizing r with
  | nil =>
    cases h
    exact ⟨hs, hdepth⟩
  | cons c cs ih =>
    have hc := htext c List.mem_cons_self
    have hrest : ∀ c ∈ cs, IsInert c := fun d hd => htext d (List.mem_cons_of_mem _ hd)
    obtain ⟨u, hu, h⟩ := Option.bind_eq_some_iff.1 h
    obtain ⟨depth, mode⟩ := r
    cases mode with
    | free =>
      cases (outside?_inert hc depth).symm.trans hu
      obtain ⟨_, hzero⟩ := ih h hrest (unescaped_free depth)
      exact ⟨.inl rfl, hzero⟩
    | comma =>
      unfold step? at hu
      dsimp only at hu
      split at hu
      · cases hu
      · cases (outside?_inert hc depth).symm.trans hu
        obtain ⟨_, hzero⟩ := ih h hrest (unescaped_free depth)
        obtain rfl : depth = 0 := hzero
        exact ⟨.inr rfl, rfl⟩
    | quoted q =>
      have hquote : c ≠ q.char := by
        cases q
        · exact hc.2.2.1
        · exact hc.2.1
      have hstay : (⟨depth, .quoted q⟩ : Cursor).step? c = some ⟨depth, .quoted q⟩ := by
        simp only [step?, hc.1, hquote, if_false]
      cases hstay.symm.trans hu
      obtain ⟨hready, _⟩ := ih h hrest (unescaped_quoted depth q)
      rcases hready with hmode | heq
      · cases hmode
      · cases heq
    | escaped quote => exact (hr quote rfl).elim

lemma Sealed.of_append {s t : List Char} (h : Sealed (s ++ t)) (hs : '\\' ∉ s)
    (ht : ∀ c ∈ t, IsInert c) : Sealed s := by
  obtain ⟨final, hready, hdepth, hfinal⟩ := h
  rw [over?_append] at hfinal
  obtain ⟨r, hr, hfinal⟩ := Option.bind_eq_some_iff.1 hfinal
  have hescaped := unescaped_of_over? hr (unescaped_free 0) hs
  obtain ⟨hready, hdepth⟩ := ready_of_inert hfinal ht hescaped hready hdepth
  exact ⟨r, hready, hdepth, hr⟩

lemma over?_trimStart (text : List Char) : start.over? (trimStart text) = start.over? text := by
  unfold trimStart
  induction text with
  | nil => rfl
  | cons c cs ih =>
    by_cases hc : isBlank c = true
    · rw [List.dropWhile_cons_of_pos hc, ih, over?_cons]
      have hstep : start.step? c = some start := outside?_inert (inert_of_isBlank hc) 0
      rw [hstep]
      rfl
    · rw [List.dropWhile_cons_of_neg hc]

lemma Sealed.trimEnd {text : List Char} (h : Sealed text) (hbackslash : '\\' ∉ text) :
    Sealed (trimEnd text) := by
  obtain ⟨blanks, heq, hblanks⟩ := trimEnd_append text
  rw [heq] at h
  refine h.of_append (fun hmem => hbackslash (trimEnd_subset text hmem)) fun c hc => ?_
  exact inert_of_isBlank (hblanks c hc)

lemma Sealed.trim {text : List Char} (h : Sealed text) (hbackslash : '\\' ∉ text) :
    Sealed (trim text) := by
  have hstart : Sealed (trimStart text) := by
    unfold Sealed
    rw [over?_trimStart]
    exact h
  refine hstart.trimEnd fun hmem => hbackslash ?_
  exact (List.dropWhile_sublist _).subset hmem

/-- The cursor stands where a splitter believes to be. -/
def Agrees (r : Cursor) (depth : Nat) : Option Char → Prop
  | none => r.Ready ∧ r.depth = depth
  | some c => ∃ q : Quote, q.char = c ∧ r = ⟨depth, .quoted q⟩

lemma agrees_of_quoted {q : Quote} {depth : Nat} {s : Cursor} {c : Char}
    (h : (⟨depth, .quoted q⟩ : Cursor).step? c = some s) (hc : c ≠ '\\') :
    Agrees s depth (if c = q.char then none else some q.char) := by
  by_cases hquote : c = q.char
  · have hfree : (⟨depth, .quoted q⟩ : Cursor).step? c = some ⟨depth, .free⟩ := by
      simp only [step?, if_neg hc, if_pos hquote]
    cases hfree.symm.trans h
    rw [if_pos hquote]
    exact ⟨.inl rfl, rfl⟩
  · have hstay : (⟨depth, .quoted q⟩ : Cursor).step? c = some ⟨depth, .quoted q⟩ := by
      simp only [step?, if_neg hc, if_neg hquote]
    cases hstay.symm.trans h
    rw [if_neg hquote]
    exact ⟨q, rfl, rfl⟩

/-- Outside quotes the splitter counts like the cursor. -/
lemma agrees_of_ready {r s : Cursor} {c : Char} (hr : r.Ready) (h : r.step? c = some s)
    (hc : c ≠ '\\') :
    Agrees s (if c = '(' then r.depth + 1 else if c = ')' then r.depth - 1 else r.depth)
      (if c = '"' ∨ c = '\'' then some c else none) := by
  have hstep : outside? r.depth c = some s := by
    obtain ⟨depth, mode⟩ := r
    rcases hr with hmode | heq
    · obtain rfl : mode = .free := hmode
      exact h
    · cases heq
      unfold step? at h
      dsimp only at h
      split at h
      · cases h
      · exact h
  unfold outside? at hstep
  rw [if_neg hc] at hstep
  by_cases hdouble : c = '"'
  · subst hdouble
    cases hstep
    exact ⟨.double, rfl, rfl⟩
  rw [if_neg hdouble] at hstep
  by_cases hsingle : c = '\''
  · subst hsingle
    cases hstep
    exact ⟨.single, rfl, rfl⟩
  rw [if_neg hsingle] at hstep
  rw [if_neg (not_or.2 ⟨hdouble, hsingle⟩)]
  by_cases hopen : c = '('
  · rw [if_pos hopen] at hstep ⊢
    cases hstep
    exact ⟨.inl rfl, rfl⟩
  rw [if_neg hopen] at hstep ⊢
  by_cases hclose : c = ')'
  · rw [if_pos hclose] at hstep ⊢
    by_cases hzero : r.depth = 0
    · rw [if_pos hzero] at hstep
      cases hstep
    · rw [if_neg hzero] at hstep
      cases hstep
      exact ⟨.inl rfl, rfl⟩
  rw [if_neg hclose] at hstep ⊢
  by_cases hcomma : c = ',' ∧ r.depth = 0
  · rw [if_pos hcomma] at hstep
    cases hstep
    rw [hcomma.2]
    exact ⟨.inr rfl, rfl⟩
  · rw [if_neg hcomma] at hstep
    cases hstep
    exact ⟨.inl rfl, rfl⟩

/-- A separator outside quotes and parentheses brings the cursor back to its start. -/
lemma start_of_separator {r s : Cursor} {sep : Char} (hsep : sep = ' ' ∨ sep = '/')
    (hr : r.Ready) (hdepth : r.depth = 0) (h : r.step? sep = some s) : s = start := by
  obtain ⟨depth, mode⟩ := r
  obtain rfl : depth = 0 := hdepth
  rcases hr with hmode | heq
  · obtain rfl : mode = .free := hmode
    rcases hsep with rfl | rfl <;> cases h <;> rfl
  · cases heq
    rcases hsep with rfl | rfl <;> cases h
    rfl

/-- The run of a splitter, in step with the cursor over the part at hand. -/
lemma sealed_topLevelFrom {sep : Char} (hsep : sep = ' ' ∨ sep = '/') (cs : List Char) :
    ∀ {depth : Nat} {quote : Option Char} {current : List Char} {r final : Cursor},
    '\\' ∉ current → '\\' ∉ cs → start.over? current = some r → Agrees r depth quote →
    r.over? cs = some final → final.Ready → final.depth = 0 →
    ∀ part ∈ topLevelFrom sep depth quote current cs, Sealed part := by
  induction cs with
  | nil =>
    intro depth quote current r final hcurrent _ hr hagrees hfinal hready hdepth part hpart
    cases hfinal
    unfold topLevelFrom at hpart
    split at hpart
    · cases hpart
    · rw [List.mem_singleton.1 hpart]
      exact Sealed.trim ⟨_, hready, hdepth, hr⟩ hcurrent
  | cons c cs ih =>
    intro depth quote current r final hcurrent hcs hr hagrees hfinal hready hdepth part hpart
    obtain ⟨s, hs, hrest⟩ := Option.bind_eq_some_iff.1 hfinal
    have hc : c ≠ '\\' := by
      rintro rfl
      exact hcs List.mem_cons_self
    have hmore : '\\' ∉ cs := fun h => hcs (List.mem_cons_of_mem _ h)
    have hnext : '\\' ∉ current ++ [c] := by
      rw [List.mem_append, List.mem_singleton, not_or]
      exact ⟨hcurrent, hc.symm⟩
    have hover : start.over? (current ++ [c]) = some s := by
      rw [over?_append_of_eq hr, over?_cons, hs]
      rfl
    cases quote with
    | some q =>
      obtain ⟨q, rfl, rfl⟩ := hagrees
      unfold topLevelFrom at hpart
      exact ih hnext hmore hover (agrees_of_quoted hs hc) hrest hready hdepth part hpart
    | none =>
      obtain ⟨hrready, rfl⟩ := hagrees
      have hagrees := agrees_of_ready hrready hs hc
      rw [topLevelFrom] at hpart
      by_cases hquote : c = '"' ∨ c = '\''
      · have hnopen : c ≠ '(' := by rcases hquote with rfl | rfl <;> decide
        have hnclose : c ≠ ')' := by rcases hquote with rfl | rfl <;> decide
        rw [if_pos hquote] at hpart
        rw [if_pos hquote, if_neg hnopen, if_neg hnclose] at hagrees
        exact ih hnext hmore hover hagrees hrest hready hdepth part hpart
      rw [if_neg hquote] at hpart hagrees
      by_cases hopen : c = '('
      · rw [if_pos hopen] at hpart hagrees
        exact ih hnext hmore hover hagrees hrest hready hdepth part hpart
      rw [if_neg hopen] at hpart hagrees
      by_cases hclose : c = ')'
      · rw [if_pos hclose] at hpart hagrees
        exact ih hnext hmore hover hagrees hrest hready hdepth part hpart
      rw [if_neg hclose] at hpart hagrees
      by_cases hsplit : c = sep ∧ r.depth = 0
      · obtain ⟨rfl, hzero⟩ := hsplit
        obtain rfl := start_of_separator hsep hrready hzero hs
        rw [if_pos ⟨rfl, hzero⟩] at hpart
        have hparts : ∀ part ∈ topLevelFrom c 0 none [] cs, Sealed part :=
          ih List.not_mem_nil hmore (over?_nil start) ⟨.inl rfl, rfl⟩ hrest hready hdepth
        split at hpart
        · exact hparts part hpart
        · rcases List.mem_cons.1 hpart with rfl | hpart
          · exact Sealed.trim ⟨r, hrready, hzero, hr⟩ hcurrent
          · exact hparts part hpart
      · rw [if_neg hsplit] at hpart
        exact ih hnext hmore hover hagrees hrest hready hdepth part hpart

lemma sealed_splitTopLevel {sep : Char} (hsep : sep = ' ' ∨ sep = '/') {text : List Char}
    (h : Sealed text) (hbackslash : '\\' ∉ text) :
    ∀ part ∈ splitTopLevel sep text, Sealed part := by
  obtain ⟨final, hready, hdepth, hfinal⟩ := h
  exact sealed_topLevelFrom hsep text List.not_mem_nil hbackslash (over?_nil start)
    ⟨.inl rfl, rfl⟩ hfinal hready hdepth

lemma topLevelFrom_subset {sep : Char} (cs : List Char) : ∀ {depth : Nat} {quote : Option Char}
    {current : List Char}, ∀ part ∈ topLevelFrom sep depth quote current cs, part ⊆ current ++ cs := by
  induction cs with
  | nil =>
    intro depth quote current part hpart
    unfold topLevelFrom at hpart
    split at hpart
    · cases hpart
    · rw [List.mem_singleton.1 hpart, List.append_nil]
      exact trim_subset current
  | cons c cs ih =>
    intro depth quote current part hpart
    have hnext : ∀ {depth quote}, part ∈ topLevelFrom sep depth quote (current ++ [c]) cs →
        part ⊆ current ++ c :: cs := by
      intro depth quote h
      rw [← List.singleton_append, ← List.append_assoc]
      exact ih part h
    have hrest : part ∈ topLevelFrom sep 0 none [] cs → part ⊆ current ++ c :: cs := by
      intro h
      exact List.Subset.trans (ih part h) fun d hd =>
        List.mem_append_right _ (List.mem_cons_of_mem _ hd)
    unfold topLevelFrom at hpart
    split at hpart
    · exact hnext hpart
    · split at hpart
      · exact hnext hpart
      · split at hpart
        · exact hnext hpart
        · split at hpart
          · exact hnext hpart
          · split at hpart
            · split at hpart
              · exact hrest hpart
              · rcases List.mem_cons.1 hpart with rfl | hpart
                · exact List.Subset.trans (trim_subset current) (List.subset_append_left _ _)
                · exact hrest hpart
            · exact hnext hpart

lemma splitTopLevel_subset {sep : Char} {text : List Char} :
    ∀ part ∈ splitTopLevel sep text, part ⊆ text :=
  topLevelFrom_subset text

end AtomicCss.Proofs
