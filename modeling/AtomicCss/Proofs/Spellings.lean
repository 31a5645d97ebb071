import AtomicCss.Document.Value
import AtomicCss.Proofs.NumberParts
import AtomicCss.Proofs.Rearranging

/-!
# Values read back

A value is spelled in a document as a text, a number, an array, an object with one key of its own or
an object of its entries, down to any depth. Objects stand for three things, so a spelling can look
like another one: a map by its keys, a reference by its namespace. What looks like nothing else, and
only that, is read back.
-/

namespace AtomicCss.Proofs

open Document Keyed

/-- The spellings of a single value. A number has one for each way to write it. -/
inductive SpellsScalar : Json → Scalar → Prop
  | text (s : String) : SpellsScalar (.string s) (.text s)
  | number (n : Json.Number) : SpellsScalar (.number n) (.number n.toFloat)
  | reference (r : Reference) : SpellsScalar (writeReference r) (.ref r)

mutual

/-- The spellings of a value. -/
inductive Spells : Json → Value → Prop
  | unset : Spells .null .unset
  | scalar {json : Json} {value : Scalar} : SpellsScalar json value → Spells json (.scalar value)
  | fallback {items : List Json} {values : List Scalar} :
    List.Forall₂ SpellsScalar items values → Spells (.array items) (.fallback values)
  | firstThatWorks {items : List Json} {values : List Scalar} :
    List.Forall₂ SpellsScalar items values →
    Spells (.object [(alternativesKey, .array items)]) (.firstThatWorks values)
  | map {members : List (String × Json)} {entries : Declarations} :
    SpellsMembers members entries → Spells (.object members) (.map entries)

/-- Entries are spelled as members under the same keys in the same order. -/
inductive SpellsMembers : List (String × Json) → Declarations → Prop
  | nil : SpellsMembers [] []
  | cons {key : String} {json : Json} {value : Value} {members : List (String × Json)}
    {entries : Declarations} : Spells json value → SpellsMembers members entries →
    SpellsMembers ((key, json) :: members) ((key, value) :: entries)

end

/-- The namespace is found again in front of the first point, or is empty where none is written. -/
def IsCut (r : Reference) : Prop :=
  if hasSpace r.kind then '.' ∉ r.space.toList else r.space = ""

def IsCutScalar : Scalar → Prop
  | .ref r => IsCut r
  | _ => True

/-- The keys of a map, which no other object has. -/
structure IsMapKeys (keys : List String) : Prop where
  distinct : keys.Nodup
  alternatives : alternativesKey ∉ keys
  reference : ∀ kind, keys ≠ [referenceKey kind]

mutual

/-- A value whose spelling looks like nothing else. -/
def Unambiguous : Value → Prop
  | .unset => True
  | .scalar value => IsCutScalar value
  | .map entries => IsMapKeys (keys entries) ∧ AllUnambiguous entries
  | .fallback values => ∀ value ∈ values, IsCutScalar value
  | .firstThatWorks values => ∀ value ∈ values, IsCutScalar value

def AllUnambiguous : Declarations → Prop
  | [] => True
  | (_, value) :: entries => Unambiguous value ∧ AllUnambiguous entries

end

lemma toList_qualified (space name : String) :
    (qualified space name).toList = space.toList ++ '.' :: name.toList := by
  unfold qualified
  rw [String.toList_append, String.toList_append, List.append_assoc]
  rfl

/-- A namespace is cut off at the first point. -/
lemma readTarget_eq_ok {r : Reference} :
    readTarget r.kind (if hasSpace r.kind then qualified r.space r.name else r.name) = .ok r ↔
      IsCut r := by
  obtain ⟨kind, space, name⟩ := r
  unfold readTarget IsCut
  dsimp only
  by_cases hspace : hasSpace kind = true
  · rw [if_pos hspace, if_pos hspace, if_pos hspace, toList_qualified]
    constructor
    · intro h
      split at h
      · rename_i before after hsplit
        cases h
        rw [String.toList_ofList]
        exact (splitOnce?_eq_some hsplit).2
      · cases h
    · intro h
      rw [splitOnce?_append h]
      dsimp only
      rw [String.ofList_toList, String.ofList_toList]
  · rw [if_neg hspace, if_neg hspace, if_neg hspace]
    constructor
    · intro h
      cases h
      rfl
    · rintro rfl
      rfl

lemma kindOfKey?_referenceKey (kind : ReferenceKind) :
    kindOfKey? (referenceKey kind) = some kind := by
  cases kind <;> decide

lemma eq_of_kindOfKey? {key : String} {kind : ReferenceKind} (h : kindOfKey? key = some kind) :
    key = referenceKey kind := by
  have hkey : (referenceKey kind == key) = true :=
    List.find?_some (p := fun kind => referenceKey kind == key) h
  exact (eq_of_beq hkey).symm

lemma alternativesKey_ne (kind : ReferenceKind) : alternativesKey ≠ referenceKey kind := by
  cases kind <;> decide

/-- An object is a reference exactly if it has one key, that of a kind. -/
lemma readReference?_eq_none {members : List (String × Json)} :
    readReference? members = .ok none ↔ ∀ kind, keys members ≠ [referenceKey kind] := by
  unfold readReference?
  split
  · rename_i key target
    cases hkind : kindOfKey? key with
    | none =>
      refine ⟨fun _ kind hkeys => ?_, fun _ => rfl⟩
      obtain rfl := List.singleton_inj.1 hkeys
      rw [kindOfKey?_referenceKey] at hkind
      cases hkind
    | some kind =>
      have hkeys : keys [(key, target)] = [referenceKey kind] :=
        congrArg (fun key => [key]) (eq_of_kindOfKey? hkind)
      refine ⟨fun h => ?_, fun h => (h kind hkeys).elim⟩
      dsimp only at h
      split at h
      · obtain ⟨_, _, hnone⟩ := map_eq_ok h
        cases hnone
      · cases h
  · rename_i hmany
    refine ⟨fun _ kind hkeys => ?_, fun _ => rfl⟩
    obtain ⟨member, rfl, _⟩ := List.map_eq_singleton_iff.1 hkeys
    exact hmany member.1 member.2 rfl

lemma lookup_eq_none_iff {members : List (String × Json)} {key : String} :
    members.lookup key = none ↔ key ∉ keys members := by
  rw [List.lookup_eq_none_iff]
  constructor
  · rintro h hmem
    obtain ⟨member, hmember, rfl⟩ := List.mem_map.1 hmem
    simpa using h member hmember
  · rintro h member hmember
    exact bne_iff_ne.2 fun heq => h (heq ▸ List.mem_map_of_mem hmember)

/-- What an object is read as a map of. -/
lemma readValue_eq_map {members : List (String × Json)} {entries : Declarations} :
    readValue (.object members) = .ok (.map entries) ↔
      alternativesKey ∉ keys members ∧ (∀ kind, keys members ≠ [referenceKey kind]) ∧
        readMembers members = .ok entries := by
  rw [← lookup_eq_none_iff, ← readReference?_eq_none, readValue]
  split
  · rename_i items hlookup
    rw [hlookup]
    refine ⟨fun h => ?_, nofun⟩
    obtain ⟨_, _, heq⟩ := map_eq_ok h
    cases heq
  · rename_i hlookup
    rw [hlookup]
    exact ⟨nofun, nofun⟩
  · rename_i hlookup
    constructor
    · intro h
      obtain ⟨found, hfound, h⟩ := bind_eq_ok h
      cases found with
      | some r => cases h
      | none =>
        obtain ⟨read, hread, heq⟩ := map_eq_ok h
        cases heq
        exact ⟨hlookup, hfound, hread⟩
    · rintro ⟨_, hnone, hread⟩
      rw [hnone]
      change (readMembers members).map Value.map = _
      rw [hread]
      rfl

lemma setMember_eq_put (members : List (String × Json)) (key : String) (json : Json) :
    Json.setMember members key json = put members key json := by
  induction members with
  | nil => rfl
  | cons member members ih => rw [Json.setMember, put, ih]

lemma settled_object (members : List (String × Json)) :
    (Json.object members).settled = .object (putAll [] (Json.settledMembers members)) := by
  rw [Json.settled]
  simp only [setMember_eq_put]
  rfl

lemma keys_settledMembers (members : List (String × Json)) :
    keys (Json.settledMembers members) = keys members := by
  induction members with
  | nil => rfl
  | cons member members ih => exact congrArg (member.1 :: ·) ih

lemma keys_readMembers {members : List (String × Json)} {entries : Declarations}
    (h : readMembers members = .ok entries) : keys entries = keys members := by
  induction members generalizing entries with
  | nil =>
    cases h
    rfl
  | cons member members ih =>
    obtain ⟨value, _, h⟩ := bind_eq_ok h
    obtain ⟨more, hmore, h⟩ := bind_eq_ok h
    cases h
    exact congrArg (member.1 :: ·) (ih hmore)

lemma SpellsMembers.keys_eq {members : List (String × Json)} {entries : Declarations}
    (h : SpellsMembers members entries) : keys members = keys entries := by
  induction entries generalizing members with
  | nil =>
    cases h
    rfl
  | cons entry entries ih =>
    cases h with
    | @cons key _ _ _ _ _ hrest => exact congrArg (key :: ·) (ih hrest)

/-- Only an object in which no key occurs twice is read as a map of all of its members. -/
lemma readValue_settled_eq_map {members : List (String × Json)} {entries : Declarations}
    (h : keys members = keys entries) :
    readValue (Json.object members).settled = .ok (.map entries) ↔
      IsMapKeys (keys entries) ∧ readMembers (Json.settledMembers members) = .ok entries := by
  have hkeys : keys (Json.settledMembers members) = keys entries :=
    (keys_settledMembers members).trans h
  have hwhole : (keys entries).Nodup →
      putAll [] (Json.settledMembers members) = Json.settledMembers members := fun hdistinct =>
    putAll_nil (hkeys ▸ hdistinct)
  rw [settled_object, readValue_eq_map]
  constructor
  · rintro ⟨halternatives, hreference, hread⟩
    -- the keys that are read are those that are kept, each of them once
    have hread_keys := keys_readMembers hread
    have hdistinct : (keys entries).Nodup :=
      hread_keys ▸ nodup_keys_putAll (m := []) List.nodup_nil _
    rw [← hread_keys] at halternatives hreference
    rw [hwhole hdistinct] at hread
    exact ⟨⟨hdistinct, halternatives, hreference⟩, hread⟩
  · rintro ⟨⟨hdistinct, halternatives, hreference⟩, hread⟩
    rw [hwhole hdistinct, hkeys]
    exact ⟨halternatives, hreference, hread⟩

lemma SpellsScalar.settled {json : Json} {value : Scalar} (h : SpellsScalar json value) :
    json.settled = json := by
  cases h <;> rfl

lemma settledItems_eq {items : List Json} {values : List Scalar}
    (h : List.Forall₂ SpellsScalar items values) : Json.settledItems items = items := by
  induction h with
  | nil => rfl
  | cons hspells _ ih => rw [Json.settledItems, hspells.settled, ih]

/-- A reference is read off the one member of its object. -/
lemma readReference?_writeReference (r : Reference) (name : String) :
    readReference? [(referenceKey r.kind, .string name)] = (readTarget r.kind name).map some := by
  unfold readReference?
  dsimp only
  rw [kindOfKey?_referenceKey]

lemma readScalar_eq_ok {json : Json} {value : Scalar} (h : SpellsScalar json value) :
    readScalar json = .ok value ↔ IsCutScalar value := by
  cases h with
  | text | number => exact ⟨fun _ => trivial, fun _ => rfl⟩
  | reference r =>
    rw [IsCutScalar, ← readTarget_eq_ok, writeReference, readScalar, readReference?_writeReference]
    constructor
    · intro hread
      obtain ⟨found, hfound, hread⟩ := bind_eq_ok hread
      obtain ⟨target, htarget, rfl⟩ := map_eq_ok hfound
      cases hread
      exact htarget
    · intro htarget
      rw [htarget]
      rfl

/-- A single value is read alike on its own and in a list. -/
lemma readValue_of_spellsScalar {json : Json} {value : Scalar} (h : SpellsScalar json value) :
    readValue json = (readScalar json).map .scalar := by
  cases h with
  | text | number => rfl
  | reference r =>
    have hlookup : List.lookup alternativesKey
        [(referenceKey r.kind, Json.string (if hasSpace r.kind then qualified r.space r.name
          else r.name))] = none := by
      rw [lookup_eq_none_iff]
      exact fun hmem => alternativesKey_ne r.kind (List.mem_singleton.1 hmem)
    rw [writeReference, readScalar, readValue, readReference?_writeReference,
      hlookup]
    cases readTarget r.kind (if hasSpace r.kind then qualified r.space r.name else r.name) <;> rfl

lemma readScalars_eq_ok {items : List Json} {values : List Scalar}
    (h : List.Forall₂ SpellsScalar items values) :
    items.mapM readScalar = .ok values ↔ ∀ value ∈ values, IsCutScalar value := by
  induction h with
  | nil => exact ⟨fun _ => List.forall_mem_nil _, fun _ => rfl⟩
  | cons hspells _ ih =>
    rw [List.forall_mem_cons, ← readScalar_eq_ok hspells, ← ih]
    constructor
    · intro hread
      cases mapM_eq_ok hread with
      | cons hfirst hmore => exact ⟨hfirst, mapM_of_forall₂ hmore⟩
    · rintro ⟨hfirst, hmore⟩
      exact mapM_of_forall₂ (.cons hfirst (mapM_eq_ok hmore))

mutual

/-- A spelling is read back exactly if it looks like nothing else. -/
lemma readValue_eq_ok : ∀ {value : Value} {json : Json}, Spells json value →
    (readValue json.settled = .ok value ↔ Unambiguous value)
  | .unset, _, .unset => ⟨fun _ => trivial, fun _ => rfl⟩
  | .scalar _, _, .scalar hspells => by
    rw [hspells.settled, readValue_of_spellsScalar hspells,
      map_eq_ok_iff (fun _ _ => Value.scalar.inj), readScalar_eq_ok hspells, Unambiguous]
  | .fallback _, _, .fallback hspells => by
    rw [Json.settled, settledItems_eq hspells, readValue,
      map_eq_ok_iff (fun _ _ => Value.fallback.inj), readScalars_eq_ok hspells, Unambiguous]
  | .firstThatWorks _, _, @Spells.firstThatWorks items _ hspells => by
    have hkept : Json.settledMembers [(alternativesKey, Json.array items)] =
        [(alternativesKey, .array items)] := by
      rw [Json.settledMembers, Json.settled, settledItems_eq hspells]
      rfl
    rw [settled_object, hkept]
    change (items.mapM readScalar).map Value.firstThatWorks = _ ↔ _
    rw [map_eq_ok_iff (fun _ _ => Value.firstThatWorks.inj), readScalars_eq_ok hspells,
      Unambiguous]
  | .map _, _, .map hspells => by
    rw [readValue_settled_eq_map hspells.keys_eq, readMembers_eq_ok hspells, Unambiguous]

lemma readMembers_eq_ok : ∀ {entries : Declarations} {members : List (String × Json)},
    SpellsMembers members entries →
    (readMembers (Json.settledMembers members) = .ok entries ↔ AllUnambiguous entries)
  | [], _, .nil => ⟨fun _ => trivial, fun _ => rfl⟩
  | (_, _) :: _, _, .cons hvalue hrest => by
    rw [AllUnambiguous, ← readValue_eq_ok hvalue, ← readMembers_eq_ok hrest]
    constructor
    · intro hread
      obtain ⟨value, hfirst, hread⟩ := bind_eq_ok hread
      obtain ⟨more, hmore, hread⟩ := bind_eq_ok hread
      cases hread
      exact ⟨hfirst, hmore⟩
    · rintro ⟨hfirst, hmore⟩
      rw [Json.settledMembers, readMembers, hfirst, hmore]
      rfl

end

lemma spellsScalar_writeScalar (value : Scalar) : SpellsScalar (writeScalar value) value := by
  cases value with
  | text s => exact .text s
  | number x => exact .number (.double x)
  | ref r => exact .reference r

lemma spells_writeScalars (values : List Scalar) :
    List.Forall₂ SpellsScalar (values.map writeScalar) values := by
  rw [List.forall₂_map_left_iff, List.forall₂_same]
  exact fun value _ => spellsScalar_writeScalar value

mutual

lemma spells_writeValue : ∀ value : Value, Spells (writeValue value) value
  | .unset => .unset
  | .scalar value => .scalar (spellsScalar_writeScalar value)
  | .map entries => .map (spells_writeMembers entries)
  | .fallback values => .fallback (spells_writeScalars values)
  | .firstThatWorks values => .firstThatWorks (spells_writeScalars values)

lemma spells_writeMembers : ∀ entries : Declarations, SpellsMembers (writeMembers entries) entries
  | [] => .nil
  | (_, value) :: entries => .cons (spells_writeValue value) (spells_writeMembers entries)

end

/-- Every value has a spelling. All of its spellings are read back as the value, at any depth, if it
looks like nothing else; and if it does, none of them is. An object keeps each of its keys once. -/
theorem readValue_spelling (value : Value) :
    Spells (writeValue value) value ∧
      ∀ json, Spells json value → (readValue json.settled = .ok value ↔ Unambiguous value) :=
  ⟨spells_writeValue value, fun _ h => readValue_eq_ok h⟩

/-- A map of alternatives, in which a number is a whole one, with a map that has the key of a
reference beside another one. -/
def nestedValue : Value :=
  .map [
    ("default", .firstThatWorks [.ref ⟨.var, "color", "brand.light"⟩, .text "red"]),
    ("@media print", .map [
      ("default", .fallback [.number (Float.ofInt 3), .ref ⟨.keyframes, "", "spin"⟩]),
      ("$var", .unset)])]

def nestedSpelling : Json :=
  .object [
    ("default", .object [("$first_that_works",
      .array [.object [("$var", .string "color.brand.light")], .string "red"])]),
    ("@media print", .object [
      ("default", .array [.number (.whole 3), .object [("$keyframes", .string "spin")]]),
      ("$var", .null)])]

theorem readValue_spelling_nested :
    Spells nestedSpelling nestedValue ∧ Unambiguous nestedValue ∧
      readValue nestedSpelling.settled = .ok nestedValue := by
  have hlight : SpellsScalar (.object [("$var", .string "color.brand.light")])
      (.ref ⟨.var, "color", "brand.light"⟩) := .reference ⟨.var, "color", "brand.light"⟩
  have hspin : SpellsScalar (.object [("$keyframes", .string "spin")])
      (.ref ⟨.keyframes, "", "spin"⟩) := .reference ⟨.keyframes, "", "spin"⟩
  have hspells : Spells nestedSpelling nestedValue :=
    .map (.cons (.firstThatWorks (.cons hlight (.cons (.text _) .nil)))
      (.cons (.map (.cons (.fallback (.cons (.number _) (.cons hspin .nil)))
        (.cons .unset .nil))) .nil))
  have hkeys : IsMapKeys ["default", "@media print"] := ⟨by decide, by decide, nofun⟩
  have hinner : IsMapKeys ["default", "$var"] := ⟨by decide, by decide, nofun⟩
  have hunambiguous : Unambiguous nestedValue := by
    have hcut : IsCut ⟨.var, "color", "brand.light"⟩ := by
      change '.' ∉ "color".toList
      decide
    have hempty : IsCut ⟨.keyframes, "", "spin"⟩ := rfl
    refine ⟨hkeys, ?_, ⟨hinner, ?_, trivial, trivial⟩, trivial⟩
    · exact List.forall_mem_cons.2 ⟨hcut, List.forall_mem_singleton.2 trivial⟩
    · exact List.forall_mem_cons.2 ⟨trivial, List.forall_mem_singleton.2 hempty⟩
  exact ⟨hspells, hunambiguous, ((readValue_spelling nestedValue).2 _ hspells).2 hunambiguous⟩

end AtomicCss.Proofs
