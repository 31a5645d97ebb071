import AtomicCss.Proofs.ConditionBundle
import AtomicCss.Proofs.Rearranging
import AtomicCss.Proofs.Rewarned
import AtomicCss.Proofs.StableLookups

/-!
# The identity of blocks

Keyframes, position-try fallbacks and view transitions are named by what is in their blocks. The
declarations of a block are sorted by property once they are normalized, so neither their order nor
the spelling of their properties and values shows in the name or in the text.
-/

namespace AtomicCss.Proofs

open Keyed Context

/-- The normal form of a value at some place: what it resolves to there, normalized. -/
def NormalForm (c : Context) (property : String) (value : Value) (normal : Normalized) : Prop :=
  ∃ label site resolved, c.resolveValue label site value = .ok resolved ∧
    Value.normalizeLeaf property resolved = .ok normal

/-- Declarations of one property, in whatever spelling, whose values have one normal form. -/
def SaysSame (c : Context) (a b : String × Value) : Prop :=
  Property.dashCase b.1 = Property.dashCase a.1 ∧
    ∃ normal, NormalForm c (Property.dashCase a.1) a.2 normal ∧
      NormalForm c (Property.dashCase a.1) b.2 normal

/-- A block of different properties, and the same in other spellings and in another order. -/
structure SameBlock (c : Context) (declarations others : Declarations) : Prop where
  distinct : (declarations.map fun item => Property.dashCase item.1).Nodup
  respelled : ∃ spelled, List.Forall₂ (SaysSame c) declarations spelled ∧ others.Perm spelled

/-- Definitions of one name with the same blocks: frames under the same selectors in the same order,
different parts of a view transition in any order. -/
inductive SameBlocks (c : Context) : Definition → Definition → Prop
  | keyframes {site site' : Site} {name : String} {frames others : List (String × Declarations)} :
    List.Forall₂ (fun f g => frameSelector g.1 = frameSelector f.1 ∧ SameBlock c f.2 g.2)
      frames others →
    SameBlocks c ⟨site, .keyframes name frames⟩ ⟨site', .keyframes name others⟩
  | positionTry {site site' : Site} {name : String} {declarations others : Declarations} :
    SameBlock c declarations others →
    SameBlocks c ⟨site, .positionTry name declarations⟩ ⟨site', .positionTry name others⟩
  | viewTransition {site site' : Site} {name : String}
    {parts spelled others : List (String × Declarations)} :
    (parts.map Prod.fst).Nodup →
    List.Forall₂ (fun p q => q.1 = p.1 ∧ SameBlock c p.2 q.2) parts spelled →
    others.Perm spelled →
    SameBlocks c ⟨site, .viewTransition name parts⟩ ⟨site', .viewTransition name others⟩

/-- The computation gives this value, whatever was warned about before. -/
def Surely {α : Type} (p : Processing α) (a : α) : Prop :=
  ∀ ws, (p ws).1 = .ok a

section

variable {α β : Type}

lemma surely_of_gives {p : Processing α} {a : α} (hp : Steady p) (h : Gives p a) : Surely p a :=
  fun ws => (hp ws).trans (hp.collect h)

lemma Surely.bind {p : Processing α} {f : α → Processing β} {a : α} {b : β} (hp : Surely p a)
    (hf : Surely (f a) b) : Surely (p >>= f) b := by
  intro ws
  change (ExceptT.bindCont f (p ws).1 (p ws).2).1 = .ok b
  rw [hp ws]
  exact hf _

end

section

variable {c : Context} {definition : String} {site site' : Site}

/-- Where and for what a value is resolved does not matter to what it resolves to. -/
lemma resolveValue_elsewhere {label label' : String} {value result : Value}
    (h : c.resolveValue label site value = .ok result) :
    c.resolveValue label' site' value = .ok result :=
  resolveValue_extends (fun _ _ _ hv => hv) h

lemma NormalForm.unique {property : String} {value : Value} {normal other : Normalized}
    (h : NormalForm c property value normal) (h' : NormalForm c property value other) :
    other = normal := by
  obtain ⟨_, _, resolved, hresolved, hnormal⟩ := h
  obtain ⟨_, _, resolved', hresolved', hother⟩ := h'
  obtain rfl : resolved = resolved' :=
    Except.ok.inj ((resolveValue_elsewhere hresolved).symm.trans hresolved')
  exact Except.ok.inj (hother.symm.trans hnormal)

/-- A declaration of a block under its property, with its values written out. -/
def writtenOut (property : String) (normal : Normalized) : String × String :=
  (property, normal.declarations property)

/-- What a declaration of a block is compiled to. -/
lemma gives_plainDeclaration_iff {item : String × Value} {result : String × String} :
    Gives (c.plainDeclaration definition site item) result ↔
      Gives (validateProperty c.config definition (Property.dashCase item.1)) () ∧
        ∃ normal, NormalForm c (Property.dashCase item.1) item.2 normal ∧
          result = writtenOut (Property.dashCase item.1) normal := by
  constructor
  · intro h
    obtain ⟨_, hvalid, h⟩ := gives_bind h
    obtain ⟨value, hvalue, h⟩ := gives_bind h
    obtain ⟨_, _, h⟩ := gives_bind h
    obtain ⟨normal, hnormal, h⟩ := gives_bind h
    obtain ⟨_, _, h⟩ := gives_bind h
    exact ⟨hvalid, normal, ⟨_, _, value, gives_ofExcept hvalue, gives_ofCss hnormal⟩,
      gives_pure h⟩
  · rintro ⟨hvalid, normal, ⟨_, _, value, hvalue, hnormal⟩, rfl⟩
    have hresolved : c.resolveValue definition site item.2 = .ok value :=
      resolveValue_elsewhere hvalue
    have hchecked := surely_of_gives
      (steady_checkVendors ⟨c.config, definition⟩ (Property.dashCase item.1) normal)
      (gives_checkVendors ⟨c.config, definition⟩ (Property.dashCase item.1) normal)
    have hsure : Surely (c.plainDeclaration definition site item)
        (writtenOut (Property.dashCase item.1) normal) := by
      apply (surely_of_gives (steady_validateProperty _ _ _) hvalid).bind
      refine Surely.bind (a := value) (fun _ => hresolved) ?_
      refine Surely.bind (a := ()) ?_ (Surely.bind (a := normal) ?_ (hchecked.bind fun _ => rfl))
      · cases value with
        | unset | map => cases hnormal
        | scalar | fallback | firstThatWorks => exact fun _ => rfl
      · rw [hnormal]
        exact fun _ => rfl
    exact ⟨[], hsure []⟩

/-- The same declaration in another spelling is compiled to the same. -/
lemma SaysSame.gives {a b : String × Value} (h : SaysSame c a b) {result : String × String}
    (ha : Gives (c.plainDeclaration definition site a) result) :
    Gives (c.plainDeclaration definition site' b) result := by
  obtain ⟨hname, normal, hnormal, hother⟩ := h
  obtain ⟨hvalid, found, hfound, rfl⟩ := gives_plainDeclaration_iff.1 ha
  obtain rfl := hnormal.unique hfound
  rw [gives_plainDeclaration_iff, hname]
  exact ⟨hvalid, found, hother, rfl⟩

end

/-- The text of a block with its declarations sorted by property. -/
def blockText (found : List (String × String)) : String :=
  String.intercalate ";"
    (((putAll [] found).mergeSort fun a b => (compare a.1 b.1).isLE).map Prod.snd)

/-- Sorting takes back the order of declarations of different properties. -/
lemma blockText_eq_of_perm {found others : List (String × String)} (hperm : others.Perm found)
    (hkeys : (keys found).Nodup) : blockText others = blockText found := by
  have hothers : (keys others).Nodup := (hperm.map Prod.fst).nodup_iff.2 hkeys
  unfold blockText
  rw [putAll_nil hkeys, putAll_nil hothers]
  have hsorted := mergeSort_eq_of_perm Prod.fst hperm
    fun a ha b hb heq => List.inj_on_of_nodup_map hothers ha hb heq
  rw [hsorted]

section

variable {c : Context} {definition : String} {site site' : Site}

lemma gives_plainBlock_iff {declarations : Declarations} {block : String} :
    Gives (c.plainBlock definition site declarations) block ↔
      ∃ found, List.Forall₂ (fun item result =>
        Gives (c.plainDeclaration definition site item) result) declarations found ∧
          block = blockText found := by
  constructor
  · intro h
    obtain ⟨found, hfound, h⟩ := gives_bind h
    exact ⟨found, gives_mapM hfound, gives_pure h⟩
  · rintro ⟨found, hfound, rfl⟩
    exact gives_bind_of (gives_mapM_of (steady_plainDeclaration c definition site) hfound)
      (gives_pure_self _) (.pure _)

lemma steady_plainBlock (c : Context) (definition : String) (site : Site)
    (declarations : Declarations) : Steady (c.plainBlock definition site declarations) :=
  (Steady.mapM (steady_plainDeclaration c definition site) declarations).bind fun _ => .pure _

lemma keys_of_gives {declarations : Declarations} {found : List (String × String)}
    (h : List.Forall₂ (fun item result =>
      Gives (c.plainDeclaration definition site item) result) declarations found) :
    keys found = declarations.map fun item => Property.dashCase item.1 := by
  induction h with
  | nil => rfl
  | cons hitem _ ih =>
    obtain ⟨_, normal, _, rfl⟩ := gives_plainDeclaration_iff.1 hitem
    rw [List.map_cons, ← ih]
    rfl

/-- The same block in other spellings and in another order is compiled to the same. -/
lemma SameBlock.gives {declarations others : Declarations} (h : SameBlock c declarations others)
    {block : String} (hblock : Gives (c.plainBlock definition site declarations) block) :
    Gives (c.plainBlock definition site' others) block := by
  obtain ⟨found, hfound, rfl⟩ := gives_plainBlock_iff.1 hblock
  obtain ⟨spelled, hspelled, hperm⟩ := h.respelled
  have hsame : List.Forall₂ (fun item result =>
      Gives (c.plainDeclaration definition site' item) result) spelled found :=
    forall₂_join (fun _ _ _ hitem hgives => hitem.gives hgives) hspelled hfound
  obtain ⟨results, hresults, hresultsperm⟩ := List.perm_comp_forall₂ hperm hsame
  have hkeys : (keys found).Nodup := by
    rw [keys_of_gives hfound]
    exact h.distinct
  exact gives_plainBlock_iff.2 ⟨results, hresults, (blockText_eq_of_perm hresultsperm hkeys).symm⟩

lemma SameBlock.names {declarations others : Declarations} (h : SameBlock c declarations others)
    {item : String × Value} (hitem : item ∈ others) :
    ∃ original ∈ declarations, Property.dashCase item.1 = Property.dashCase original.1 := by
  obtain ⟨spelled, hspelled, hperm⟩ := h.respelled
  obtain ⟨original, horiginal, hsame⟩ := exists_of_forall₂ hspelled (hperm.mem_iff.1 hitem)
  exact ⟨original, horiginal, hsame.1⟩

lemma gives_frames {frames others : List (String × Declarations)} {blocks : List String}
    (hsame : List.Forall₂ (fun f g => frameSelector g.1 = frameSelector f.1 ∧ SameBlock c f.2 g.2)
      frames others)
    (h : Gives (frames.mapM (frameBlock c definition site)) blocks) :
    Gives (others.mapM (frameBlock c definition site')) blocks := by
  apply gives_mapM_of (steady_frameBlock c definition site')
  apply forall₂_join _ hsame (gives_mapM h)
  rintro f g text ⟨hselector, hblock⟩ hgives
  obtain ⟨block, hf, htext⟩ := gives_bind hgives
  rw [gives_pure htext, ← hselector]
  exact gives_bind_of (hblock.gives hf) (gives_pure_self _) (.pure _)

lemma gives_transitionPart_iff {part : String × Declarations} {result : String × String} :
    Gives (c.transitionPart definition site part) result ↔
      part.1 ∈ transitionParts ∧ result.1 = part.1 ∧
        Gives (c.plainBlock definition site part.2) result.2 := by
  constructor
  · intro h
    obtain ⟨_, hknown, h⟩ := gives_bind h
    obtain ⟨block, hblock, h⟩ := gives_bind h
    rw [gives_pure h]
    exact ⟨List.contains_iff_mem.1 (gives_require hknown), rfl, hblock⟩
  · rintro ⟨hknown, hname, hblock⟩
    have hrequired : Surely (.require (transitionParts.contains part.1)
        (.invalid definition (.unknownTransitionPart part.1) [])) () := by
      rw [List.contains_iff_mem.2 hknown]
      exact fun _ => rfl
    have hsure : Surely (c.transitionPart definition site part) (part.1, result.2) :=
      hrequired.bind ((surely_of_gives (steady_plainBlock c definition site part.2) hblock).bind
        fun _ => rfl)
    rw [← hname] at hsure
    exact ⟨[], hsure []⟩

end

/-- The order of different parts does not show. -/
lemma orderedParts_of_perm {blocks others : List (String × String)} (hperm : others.Perm blocks)
    (hkeys : (keys blocks).Nodup) : orderedParts others = orderedParts blocks := by
  have hothers : (keys others).Nodup := (hperm.map Prod.fst).nodup_iff.2 hkeys
  have hget : ∀ part, get? others part = get? blocks part := by
    intro part
    apply Option.ext
    intro block
    constructor
    · exact fun h => get?_of_mem hkeys (hperm.mem_iff.1 (mem_of_get? h))
    · exact fun h => get?_of_mem hothers (hperm.mem_iff.2 (mem_of_get? h))
  unfold orderedParts
  rw [putAll_nil hkeys, putAll_nil hothers]
  simp only [hget]

section

variable {c : Context} {definition : String} {site site' : Site}

lemma gives_parts {parts spelled others : List (String × Declarations)}
    {blocks : List (String × String)} (hparts : (parts.map Prod.fst).Nodup)
    (hsame : List.Forall₂ (fun p q => q.1 = p.1 ∧ SameBlock c p.2 q.2) parts spelled)
    (hperm : others.Perm spelled)
    (h : Gives (parts.mapM (c.transitionPart definition site)) blocks) :
    ∃ results, Gives (others.mapM (c.transitionPart definition site')) results ∧
      orderedParts results = orderedParts blocks := by
  have hblocks := gives_mapM h
  have hspelled : List.Forall₂ (fun part result =>
      Gives (c.transitionPart definition site' part) result) spelled blocks := by
    apply forall₂_join _ hsame hblocks
    rintro p q result ⟨hname, hblock⟩ hgives
    obtain ⟨hknown, hresult, hbody⟩ := gives_transitionPart_iff.1 hgives
    rw [gives_transitionPart_iff, hname]
    exact ⟨hknown, hresult, hblock.gives hbody⟩
  obtain ⟨results, hresults, hresultsperm⟩ := List.perm_comp_forall₂ hperm hspelled
  have hkeys : (keys blocks).Nodup := by
    have hnames : keys blocks = parts.map Prod.fst := by
      clear h hsame hspelled hresultsperm
      induction hblocks with
      | nil => rfl
      | cons hpart _ ih =>
        rw [List.map_cons, ← (gives_transitionPart_iff.1 hpart).2.1,
          ← ih (List.nodup_cons.1 hparts).2]
        rfl
    rw [hnames]
    exact hparts
  exact ⟨results, gives_mapM_of (steady_transitionPart c definition site') hresults,
    orderedParts_of_perm hresultsperm hkeys⟩

end

section

variable {c : Context} {d other : Definition}

lemma SameBlocks.key (h : SameBlocks c d other) : other.body.key = d.body.key := by
  cases h <;> rfl

/-- Definitions with the same blocks leave the same behind, but for their warnings. -/
lemma SameBlocks.compile (hsame : SameBlocks c d other) {outcome : Outcome}
    (h : c.compile d = .ok outcome) :
    ∃ warnings, c.compile other = .ok ⟨outcome.rules, rewarned warnings outcome.scope⟩ := by
  rw [compile_eq_ok_iff] at h
  simp only [compile_eq_ok_iff]
  cases hsame with
  | @keyframes _ site' name _ others hframes =>
    cases h with
    | @keyframes _ _ _ _ blocks _ hblocks hname =>
      have hothers : Gives (others.mapM (frameBlock c name site')) blocks :=
        gives_frames hframes (gives_of_collect (congrArg Prod.fst hblocks))
      have hcollected := (Steady.mapM (steady_frameBlock c name site') others).collect hothers
      have hstep : Step c ⟨site', .keyframes name others⟩ _ :=
        .keyframes (Prod.ext hcollected rfl) hname
      exact ⟨_, hstep⟩
  | @positionTry _ site' name _ others hblock =>
    cases h with
    | @positionTry _ _ _ body _ _ hallowed hbody hname =>
      have hothers : Gives (c.plainBlock name site' others) body :=
        hblock.gives (gives_of_collect (congrArg Prod.fst hbody))
      have hcollected := (steady_plainBlock c name site' others).collect hothers
      have hnames : ∀ item ∈ others, Property.dashCase item.1 ∈ positionTryProperties := by
        intro item hitem
        obtain ⟨original, horiginal, hsame⟩ := hblock.names hitem
        rw [hsame]
        exact hallowed original horiginal
      have hstep : Step c ⟨site', .positionTry name others⟩ _ :=
        .positionTry hnames (Prod.ext hcollected rfl) hname
      exact ⟨_, hstep⟩
  | @viewTransition _ site' name _ _ others hparts hspelled hperm =>
    cases h with
    | viewTransition hblocks hname =>
      obtain ⟨results, hresults, hordered⟩ :=
        gives_parts hparts hspelled hperm (gives_of_collect (congrArg Prod.fst hblocks))
      have hcollected := (Steady.mapM (steady_transitionPart c name site') others).collect hresults
      rw [← hordered] at hname ⊢
      have hstep : Step c ⟨site', .viewTransition name others⟩ _ :=
        .viewTransition (Prod.ext hcollected rfl) hname
      exact ⟨_, hstep⟩

/-- Keyframes, position-try fallbacks and view transitions that compile give the same rule under the
same name, and are known by it, with the properties of each block in another order and in other
spellings, with other spellings of their values, and with the parts of a view transition in another
order. All of the sheet around them compiles to the same then, but for warnings. -/
theorem compile_sameBlocks {outcome : Outcome} (hsame : SameBlocks c d other)
    (h : c.compile d = .ok outcome) :
    (∃ warnings, c.compile other = .ok ⟨outcome.rules, rewarned warnings outcome.scope⟩) ∧
      ∀ start left registry front rest styles,
        c.sheet.definitions = front ++ d :: rest →
        Sheet.compileFrom c.config c.sheet start {} front = (left, .ok c.scope) →
        c.sheet.compileInto c.config start = (registry, .ok styles) →
        ∃ warnings,
          Sheet.compileInto c.config { c.sheet with definitions := front ++ other :: rest } start =
            (registry, .ok { styles with warnings }) := by
  refine ⟨hsame.compile h, fun start left registry front rest styles hsplit hfront hsheet => ?_⟩
  exact compileInto_replaced hsheet hsplit hfront ⟨hsame.key, fun _ => hsame.compile⟩

end

/-- A view transition of two parts. -/
def slide : Definition :=
  ⟨.unknown, .viewTransition "slide"
    [("old", [("animation-duration", .scalar (.text "0.20s")), ("opacity", .scalar (.text "0"))]),
      ("new", [("opacity", .scalar (.text "1"))])]⟩

/-- The same with everything in another order and spelling. -/
def respelledSlide : Definition :=
  ⟨.unknown, .viewTransition "slide"
    [("new", [("opacity", .scalar (.text "1.0"))]),
      ("old", [("opacity", .scalar (.text "+0")), ("animationDuration", .scalar (.text ".2s"))])]⟩

def sheetOf (d : Definition) : Sheet :=
  ⟨.unknown, [d]⟩

lemma saysSame_of_normalize {c : Context} {property other text spelled : String}
    (normal : Normalized) (hproperty : Property.dashCase other = Property.dashCase property)
    (hnormal : ∀ t ∈ [text, spelled], (Value.normalizeLeaf (Property.dashCase property)
      (.scalar (.text t))).toOption = some normal) :
    SaysSame c (property, .scalar (.text text)) (other, .scalar (.text spelled)) := by
  have hform : ∀ t ∈ [text, spelled],
      NormalForm c (Property.dashCase property) (.scalar (.text t)) normal := fun t ht =>
    ⟨"", .unknown, _, rfl, eq_ok_of_toOption (hnormal t ht)⟩
  exact ⟨hproperty, normal, hform text (by simp), hform spelled (by simp)⟩

lemma sameBlocks_slide : SameBlocks ⟨{}, sheetOf slide, {}⟩ slide respelledSlide := by
  have hold : SameBlock ⟨{}, sheetOf slide, {}⟩
      [("animation-duration", .scalar (.text "0.20s")), ("opacity", .scalar (.text "0"))]
      [("opacity", .scalar (.text "+0")), ("animationDuration", .scalar (.text ".2s"))] := by
    refine ⟨by decide +kernel, _, .cons ?_ (.cons ?_ .nil), .swap _ _ []⟩
    · exact saysSame_of_normalize ⟨[".2s"]⟩ (by decide +kernel) (by decide +kernel)
    · exact saysSame_of_normalize ⟨["0"]⟩ rfl (by decide +kernel)
  have hnew : SameBlock ⟨{}, sheetOf slide, {}⟩ [("opacity", .scalar (.text "1"))]
      [("opacity", .scalar (.text "1.0"))] := by
    refine ⟨by decide +kernel, _, .cons ?_ .nil, .refl _⟩
    exact saysSame_of_normalize ⟨["1"]⟩ rfl (by decide +kernel)
  have hparts : List.Forall₂
      (fun p q => q.1 = p.1 ∧ SameBlock ⟨{}, sheetOf slide, {}⟩ p.2 q.2)
      [("old", _), ("new", _)] [("old", _), ("new", _)] :=
    .cons ⟨by rfl, hold⟩ (.cons ⟨by rfl, hnew⟩ .nil)
  exact .viewTransition (by decide) hparts (.swap _ _ [])

theorem compile_sameBlocks_slide :
    ∃ registry styles warnings,
      (sheetOf slide).compileInto {} .empty = (registry, .ok styles) ∧
      (sheetOf respelledSlide).compileInto {} .empty = (registry, .ok { styles with warnings }) := by
  have hok : ((sheetOf slide).compileInto {} .empty).2.isOk = true := by decide +kernel
  have hstep : (Context.compile ⟨{}, sheetOf slide, {}⟩ slide).isOk = true := by decide +kernel
  obtain ⟨outcome, houtcome⟩ := eq_ok_of_isOk hstep
  obtain ⟨_, hsheet⟩ := compile_sameBlocks sameBlocks_slide houtcome
  cases hrun : (sheetOf slide).compileInto {} .empty with
  | mk registry result =>
    rw [hrun] at hok
    obtain ⟨styles, rfl⟩ := eq_ok_of_isOk hok
    obtain ⟨warnings, hother⟩ := hsheet .empty .empty registry [] [] styles rfl rfl hrun
    exact ⟨registry, styles, warnings, rfl, hother⟩

end AtomicCss.Proofs
