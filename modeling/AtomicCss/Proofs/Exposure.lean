import AtomicCss.Proofs.Lexed
import AtomicCss.Proofs.NameText

/-!
# Characters that stand exposed

A semicolon ends a declaration, and a brace its block, unless it is escaped or stands in a string or
in an address without quotes. A spot moves over a text and tells which characters these are. For
single pieces of text it is stated here what they expose and where they lead.
-/

namespace AtomicCss.Proofs

open Token Text

/-- Where in a declaration the cursor stands. Outside strings and addresses, the name right before
the cursor tells whether a parenthesis opens an address. No name begins with a blank, though one may
go on with a blank outside ASCII. -/
inductive Spot
  | free (name : List Char)
  | escaped (name : List Char)
  | quoted (quote : Char)
  | quotedEscape (quote : Char)
  | urlHead
  | url
  | urlEscape
  deriving DecidableEq

def isUrlName (name : List Char) : Bool :=
  equalsIgnoringCase name ['u', 'r', 'l']

/-- Semicolons and braces. -/
def endsDeclaration (c : Char) : Bool :=
  c == ';' || c == '\x7b' || c == '\x7d'

namespace Spot

/-- Over a character that is not escaped in an address. -/
def inUrl (c : Char) : Spot :=
  if c = '\\' then urlEscape else if c = ')' then free [] else url

/-- One character further. -/
def next : Spot → Char → Spot
  | free name, c =>
    if c = '\\' then escaped name
    else if c = '"' ∨ c = '\'' then quoted c
    else if c = '(' then if isUrlName name then urlHead else free []
    else if (isNameChar c ∧ (name ≠ [] ∨ !isBlank c)) ∨ c = '#' then free (name ++ [c])
    else free []
  | escaped name, c => free (name ++ ['\\', c])
  | quoted quote, c =>
    if c = '\\' then quotedEscape quote else if c = quote then free [] else quoted quote
  | quotedEscape quote, _ => quoted quote
  | urlHead, c => if isBlank c then urlHead else if c = '"' ∨ c = '\'' then quoted c else inUrl c
  | url, c => inUrl c
  | urlEscape, _ => url

def isFree : Spot → Bool
  | free _ => true
  | _ => false

def behind (p : Spot) (text : List Char) : Spot :=
  text.foldl next p

end Spot

open Spot

/-- The semicolons and braces that are met outside strings, addresses and escapes. -/
def exposed : Spot → List Char → List Char
  | _, [] => []
  | p, c :: cs =>
    (if p.isFree && endsDeclaration c then [c] else []) ++ exposed (p.next c) cs

/-- A text leads from one spot to another and exposes what is listed. -/
structure Passes (p : Spot) (text found : List Char) (q : Spot) : Prop where
  exposes : exposed p text = found
  ends : p.behind text = q

section

variable {p q r : Spot} {text more found others name run rest : List Char} {c quote : Char}

lemma Passes.nil (p : Spot) : Passes p [] [] p :=
  ⟨rfl, rfl⟩

lemma Passes.cons (hstep : p.next c = q) (h : Passes q text found r)
    (hfree : (p.isFree && endsDeclaration c) = false) : Passes p (c :: text) found r where
  exposes := by rw [exposed, hfree, hstep, h.exposes]; rfl
  ends := by rw [Spot.behind, List.foldl_cons, hstep]; exact h.ends

lemma exposed_append (p : Spot) (text more : List Char) :
    exposed p (text ++ more) = exposed p text ++ exposed (p.behind text) more := by
  induction text generalizing p with
  | nil => rfl
  | cons c cs ih =>
    rw [List.cons_append, exposed, exposed, ih, List.append_assoc]
    rfl

lemma behind_append (p : Spot) (text more : List Char) :
    p.behind (text ++ more) = (p.behind text).behind more :=
  List.foldl_append

lemma Passes.append (h : Passes p text found q) (hmore : Passes q more others r) :
    Passes p (text ++ more) (found ++ others) r where
  exposes := by rw [exposed_append, h.exposes, h.ends, hmore.exposes]
  ends := by rw [behind_append, h.ends, hmore.ends]

/-- The way over a text goes on behind a character that exposes nothing. -/
lemma Passes.of_cons (h : Passes p (c :: text) found r) (hfirst : Passes p [c] [] q) :
    Passes q text found r where
  exposes := by
    have hexposed := h.exposes
    rwa [← List.singleton_append, exposed_append, hfirst.exposes, hfirst.ends] at hexposed
  ends := by
    have hends := h.ends
    rwa [← List.singleton_append, behind_append, hfirst.ends] at hends

/-- A text that ends right behind a backslash which escapes nothing. -/
def endsInEscape : List Char → Bool
  | [] => false
  | '\\' :: [] => true
  | '\\' :: _ :: cs => endsInEscape cs
  | _ :: cs => endsInEscape cs

/-- A name with nothing escaped behind it. -/
def IsName (name : List Char) : Prop :=
  NameRun [' '] name

lemma endsInEscape_cons (h : c ≠ '\\') (cs : List Char) :
    endsInEscape (c :: cs) = endsInEscape cs := by
  cases cs <;> simp [endsInEscape, h]

lemma isName_of_nameRun (h : NameRun rest name) (hend : endsInEscape name = false) :
    IsName name := by
  have hspace : ∀ c ∈ [' '].head?, isNameChar c = false ∧ c ≠ '\\' := by
    intro c hc
    obtain rfl := Option.some.inj hc
    decide
  induction h with
  | nil => exact .nil hspace
  | char hc _ ih =>
    refine .char hc (ih ?_)
    rwa [endsInEscape_cons (by rintro rfl; revert hc; decide)] at hend
  | escape c _ ih => exact .escape c (ih hend)
  | stray => cases hend

lemma not_endsDeclaration_of_isNameChar (h : isNameChar c = true) : endsDeclaration c = false := by
  by_contra hends
  simp only [endsDeclaration, Bool.not_eq_false, Bool.or_eq_true, beq_iff_eq] at hends
  rcases hends with (rfl | rfl) | rfl <;> revert h <;> decide

lemma isBlank_ne {d : Char} (h : isBlank c = true) (hd : isBlank d = false) : c ≠ d := by
  rintro rfl
  rw [h] at hd
  cases hd

lemma next_free_nameChar (h : isNameChar c = true) (hc : run ≠ [] ∨ isBlank c = false) :
    (free run).next c = free (run ++ [c]) := by
  have hne : c ≠ '\\' ∧ c ≠ '"' ∧ c ≠ '\'' ∧ c ≠ '(' := by
    refine ⟨?_, ?_, ?_, ?_⟩ <;> rintro rfl <;> revert h <;> decide
  simp only [next, hne, if_false, or_self]
  rw [if_pos]
  exact .inl ⟨h, hc.imp_right fun hblank => by simp [hblank]⟩

/-- Names go on with the name before them and expose nothing. -/
lemma passes_name (h : IsName name) (hrun : run ≠ [] ∨ ∀ c ∈ name.head?, isBlank c = false) :
    Passes (free run) name [] (free (run ++ name)) := by
  unfold IsName at h
  induction h generalizing run with
  | nil =>
    rw [List.append_nil]
    exact .nil _
  | @char c cs hc _ ih =>
    have hrest : Passes (free (run ++ [c])) cs [] (free (run ++ [c] ++ cs)) := ih (.inl (by simp))
    rw [← List.append_cons] at hrest
    refine hrest.cons (next_free_nameChar hc ?_) (by simp [not_endsDeclaration_of_isNameChar hc])
    exact hrun.imp_right fun h => h c rfl
  | @escape c cs _ ih =>
    have hrest : Passes (free (run ++ ['\\', c])) cs [] (free (run ++ ['\\', c] ++ cs)) :=
      ih (.inl (by simp))
    rw [List.append_assoc] at hrest
    have hescaped : Passes (escaped run) (c :: cs) [] _ := hrest.cons rfl rfl
    exact hescaped.cons rfl (by simp [endsDeclaration])
  | stray hrest => cases hrest

/-- A text inside quotes or parentheses that does not close them. -/
inductive BodyText (stop : Char) : List Char → Prop
  | nil : BodyText stop []
  | char {c : Char} {cs : List Char} : c ≠ '\\' → c ≠ stop → BodyText stop cs →
    BodyText stop (c :: cs)
  | escape (c : Char) {cs : List Char} : BodyText stop cs → BodyText stop ('\\' :: c :: cs)

lemma bodyText_of_stringBody? {cs raw : List Char} (h : stringBody? quote cs = some (raw, rest)) :
    BodyText quote raw := by
  fun_induction stringBody? quote cs generalizing raw rest with
  | case1 => cases h
  | case2 =>
    cases h
    exact .nil
  | case3 => cases h
  | case4 d ds _ ih =>
    obtain ⟨⟨raw', rest'⟩, hrest, heq⟩ := Option.map_eq_some_iff.1 h
    cases heq
    exact .escape d (ih hrest)
  | case5 c cs hne hbackslash ih =>
    obtain ⟨⟨raw', rest'⟩, hrest, heq⟩ := Option.map_eq_some_iff.1 h
    cases heq
    exact .char hbackslash hne (ih hrest)

lemma BodyText.of_append {stop : Char} (h : BodyText stop (text ++ more))
    (hend : endsInEscape text = false) : BodyText stop text := by
  generalize hwhole : text ++ more = whole at h
  induction h generalizing text with
  | nil =>
    rw [(List.append_eq_nil_iff.1 hwhole).1]
    exact .nil
  | char hc hstop _ ih =>
    cases text with
    | nil => exact .nil
    | cons d ds =>
      obtain ⟨rfl, hrest⟩ := List.cons.inj hwhole
      rw [endsInEscape_cons hc] at hend
      exact .char hc hstop (ih hend hrest)
  | escape c _ ih =>
    match text with
    | [] => exact .nil
    | [d] =>
      obtain ⟨rfl, _⟩ := List.cons.inj hwhole
      cases hend
    | d :: e :: ds =>
      simp only [List.cons_append, List.cons.injEq] at hwhole
      obtain ⟨rfl, rfl, hrest⟩ := hwhole
      exact .escape e (ih hend hrest)

lemma passes_quoted (h : BodyText quote text) :
    Passes (quoted quote) text [] (quoted quote) := by
  induction h with
  | nil => exact .nil _
  | char hc hstop _ ih => exact ih.cons (by simp [next, hc, hstop]) rfl
  | @escape c cs _ ih =>
    have hescaped : Passes (quotedEscape quote) (c :: cs) [] _ := ih.cons rfl rfl
    exact hescaped.cons (by simp [next]) rfl

lemma passes_url (h : BodyText ')' text) : Passes url text [] url := by
  induction h with
  | nil => exact .nil _
  | char hc hstop _ ih => exact ih.cons (by simp [next, inUrl, hc, hstop]) rfl
  | @escape c cs _ ih =>
    have hescaped : Passes urlEscape (c :: cs) [] _ := ih.cons rfl rfl
    exact hescaped.cons (by simp [next, inUrl]) rfl

/-- Spots where a string can begin. -/
def Spot.IsOpen (p : Spot) : Prop :=
  p = urlHead ∨ ∃ run, p = free run

/-- A string is passed as a whole, also where an address could begin. -/
lemma passes_string (hquote : quote = '"' ∨ quote = '\'') (h : BodyText quote text)
    (hp : p.IsOpen) : Passes p (quote :: (text ++ [quote])) [] (free []) := by
  have hbackslash : quote ≠ '\\' := by rcases hquote with rfl | rfl <;> decide
  have hclose : Passes (quoted quote) [quote] [] (free []) :=
    (Passes.nil _).cons (by simp [next, hbackslash]) rfl
  have hopen : p.next quote = quoted quote := by
    rcases hp with rfl | ⟨run, rfl⟩
    · have hblank : isBlank quote = false := by rcases hquote with rfl | rfl <;> decide
      simp [next, hquote, hblank]
    · simp [next, hquote, hbackslash]
  refine ((passes_quoted h).append hclose).cons hopen ?_
  rcases hquote with rfl | rfl <;> cases p.isFree <;> rfl

lemma passes_urlHead_blanks (h : ∀ c ∈ text, isBlank c = true) :
    Passes urlHead text [] urlHead := by
  induction text with
  | nil => exact .nil _
  | cons c cs ih =>
    obtain ⟨hc, hcs⟩ := List.forall_mem_cons.1 h
    exact (ih hcs).cons (by simp [next, hc]) rfl

/-- The text of an address, from behind its parenthesis to the closing one. -/
lemma passes_address (h : BodyText ')' text)
    (hhead : ∀ c ∈ text.head?, isBlank c = false ∧ c ≠ '"' ∧ c ≠ '\'') :
    Passes urlHead (text ++ [')']) [] (free []) := by
  cases h with
  | nil => exact (Passes.nil _).cons (by decide) rfl
  | char hc hstop hcs =>
    obtain ⟨hblank, hdouble, hsingle⟩ := hhead _ rfl
    have hclose : Passes url [')'] [] (free []) := (Passes.nil _).cons (by decide) rfl
    refine ((passes_url hcs).append hclose).cons ?_ rfl
    simp [next, inUrl, hblank, hdouble, hsingle, hc, hstop]
  | @escape c cs hcs =>
    have hclose : Passes url [')'] [] (free []) := (Passes.nil _).cons (by decide) rfl
    have hescaped : Passes urlEscape (c :: (cs ++ [')'])) [] (free []) :=
      ((passes_url hcs).append hclose).cons rfl rfl
    exact hescaped.cons (by decide) rfl

/-- Blanks end a name, if the first of them does not go on with it. -/
lemma passes_blanks (h : ∀ c ∈ text, isBlank c = true) (hne : text ≠ [])
    (hhead : run = [] ∨ ∀ c ∈ text.head?, isNameChar c = false) :
    Passes (free run) text [] (free []) := by
  have hstep : ∀ c run, isBlank c = true → run = [] ∨ isNameChar c = false →
      (free run).next c = free [] ∧ endsDeclaration c = false := by
    intro c run hblank hname
    have hne : ∀ d, isBlank d = false → c ≠ d := fun d => isBlank_ne hblank
    constructor
    · simp only [next, hne '\\' (by decide), hne '"' (by decide), hne '\'' (by decide),
        hne '(' (by decide), hne '#' (by decide), if_false, or_self, or_false, hblank]
      rw [if_neg]
      rintro ⟨hchar, hrun | hfalse⟩
      · rcases hname with rfl | hname
        · exact hrun rfl
        · rw [hname] at hchar
          cases hchar
      · cases hfalse
    · simp [endsDeclaration, hne ';' (by decide), hne '\x7b' (by decide), hne '\x7d' (by decide)]
  have hall : ∀ text, (∀ c ∈ text, isBlank c = true) → Passes (free []) text [] (free []) := by
    intro text htext
    induction text with
    | nil => exact .nil _
    | cons c cs ih =>
      obtain ⟨hc, hcs⟩ := List.forall_mem_cons.1 htext
      obtain ⟨hnext, hends⟩ := hstep c [] hc (.inl rfl)
      exact (ih hcs).cons hnext (by simp [hends])
  cases text with
  | nil => exact (hne rfl).elim
  | cons c cs =>
    obtain ⟨hc, hcs⟩ := List.forall_mem_cons.1 h
    obtain ⟨hnext, hends⟩ := hstep c run hc (hhead.imp_right fun h => h c rfl)
    exact (hall cs hcs).cons hnext (by simp [hends])

/-- Characters that neither end a declaration nor begin what hides the end of one. -/
def IsIdle (c : Char) : Prop :=
  c ∉ ['\\', '"', '\'', '(', ';', '\x7b', '\x7d']

instance (c : Char) : Decidable (IsIdle c) :=
  inferInstanceAs (Decidable (c ∉ _))

lemma passes_idle (h : ∀ c ∈ text, IsIdle c) (run : List Char) :
    ∃ run', Passes (free run) text [] (free run') := by
  induction text generalizing run with
  | nil => exact ⟨run, .nil _⟩
  | cons c cs ih =>
    obtain ⟨hc, hcs⟩ := List.forall_mem_cons.1 h
    simp only [IsIdle, List.mem_cons, List.not_mem_nil, or_false, not_or] at hc
    obtain ⟨hbackslash, hdouble, hsingle, hopen, hsemicolon, hleft, hright⟩ := hc
    have hends : endsDeclaration c = false := by
      simp [endsDeclaration, hsemicolon, hleft, hright]
    have hstep : ∃ run', (free run).next c = free run' := by
      simp only [next, hbackslash, hdouble, hsingle, hopen, if_false, or_self]
      split
      · exact ⟨_, rfl⟩
      · exact ⟨_, rfl⟩
    obtain ⟨run', hnext⟩ := hstep
    obtain ⟨run'', hrest⟩ := ih hcs run'
    exact ⟨run'', hrest.cons hnext (by rw [hends, Bool.and_false])⟩

end

end AtomicCss.Proofs
