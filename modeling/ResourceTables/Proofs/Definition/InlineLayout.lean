import ResourceTables.Proofs.Definition.Forms

/-!
# The layout of data written in a definition

Data that is written in a definition is flat or grouped, and the default version tells which it is
for all versions: it is grouped as soon as one of its entries is a map. From then on every version
must nest maps as deep as that and no deeper, and the first value that does not, in the order of the
document, is reported with the keys that lead to it.

The document is read by three loops inside each other. All that is said of them is said once, by a
relation between a step of loading and the flaws of the part that it reads.

## Main definitions

* `Value.Spells`: a scalar and its text.
* `Value.Nested`: a value nests maps to a depth.
* `Value.flaws`: what stands in the way of that, in the order of the document.
* `Value.HoldsEach`: a map holds some data under the same keys, in the same order.
* `Told`: a step of loading ends as some flaws say.
* `InlineValues`: a document with versions written in it whose other fields are in order.

## Main results

* `Value.flaws_eq_nil_iff`: a value without flaws is nested as deep as it should be.
* `loadDocument_inline`: which such documents are loaded, with what, and which fault the others
  have.
-/

namespace ResourceTables

variable {α β : Type}

/-! ## Nested maps of scalars -/

/-- The keys that lead to a part of a document, as they are shown. -/
def dotted (path : List String) : String :=
  ".".intercalate path

theorem dotted_append_singleton {path : List String} (hPath : path ≠ []) (key : String) :
    dotted (path ++ [key]) = subfield (dotted path) key := by
  rw [dotted, String.intercalate_append_of_ne_nil hPath (List.cons_ne_nil key []),
    String.intercalate_singleton]
  rfl

namespace Value

/-- A scalar and its text. -/
inductive Spells : Value → String → Prop where
  | text (text : String) : Spells (.string text) text
  | number (number : Number) : Spells (.number number) number.write
  | yes : Spells (.boolean true) "true"
  | no : Spells (.boolean false) "false"

/-- Maps lie inside each other to a depth, and the innermost of them hold scalars alone. -/
def Nested : Nat → Value → Prop
  | 0, value => ∃ text, value.Spells text
  | depth + 1, value => ∃ entries, value = .map entries ∧
      ∀ entry ∈ entries, Nested depth entry.2

/-- Some entry of the value is a map. -/
def NestsMap (value : Value) : Prop :=
  ∃ entries, value = .map entries ∧ ∃ entry ∈ entries, ∃ inner, entry.2 = .map inner

/-- A map has the keys of some data, in the same order, and each of its entries holds the data under
its key. -/
def HoldsEach (holds : Value → α → Prop) (value : Value) (data : List (String × α)) : Prop :=
  ∃ entries, value = .map entries ∧
    List.Forall₂ (fun entry item => entry.1 = item.1 ∧ holds entry.2 item.2) entries data

/-- The flaws of a value that should nest maps to a depth, in the order of the document. Nothing is
said of what a value holds that should have been a map. -/
def flaws : Nat → List String → Value → List DefinitionFlaw
  | 0, _, .string _ => []
  | 0, _, .number _ => []
  | 0, _, .boolean _ => []
  | 0, path, _ => [.notScalar (dotted path)]
  | depth + 1, path, .map entries =>
    entries.flatMap fun entry => flaws depth (path ++ [entry.1]) entry.2
  | _ + 1, path, _ => [.notMap (dotted path)]

theorem scalarText?_eq_some_iff {value : Value} {text : String} :
    scalarText? value = some text ↔ value.Spells text := by
  constructor
  · intro h
    cases value with
    | string own =>
      cases h
      exact .text text
    | number own =>
      cases h
      exact .number own
    | boolean own => cases own <;> cases h <;> constructor
    | _ => cases h
  · intro h
    cases h <;> rfl

/-- A value without flaws nests maps as it should, and no other does. -/
theorem flaws_eq_nil_iff {depth : Nat} {path : List String} {value : Value} :
    value.flaws depth path = [] ↔ value.Nested depth := by
  induction depth generalizing path value with
  | zero =>
    rw [Nested]
    simp only [← scalarText?_eq_some_iff]
    cases value <;> simp [flaws, scalarText?]
  | succ depth ih =>
    cases value with
    | map entries => simp [flaws, Nested, ih]
    | _ => simp [flaws, Nested]

/-- The question that is asked of the default version. -/
theorem nestsMaps_iff {value : Value} : nestsMaps value = true ↔ value.NestsMap := by
  have hMap : ∀ own : Value, own.isMap = true ↔ ∃ inner, own = .map inner := by
    intro own
    cases own <;> simp [isMap]
  cases value <;> simp [nestsMaps, NestsMap, hMap]

end Value

/-! ## Steps of loading -/

/-- A step of loading ends as the flaws of what it reads say: it yields data with a property if
there are none, and otherwise it is refused for the first of them. -/
inductive Told (file : Path) (holds : α → Prop) : Checked α → List DefinitionFlaw → Prop where
  | ok {data : α} (h : holds data) : Told file holds (.ok data) []
  | error (flaw : DefinitionFlaw) (further : List DefinitionFlaw) :
      Told file holds (.error (.definition file flaw)) (flaw :: further)

namespace Told

variable {file : Path} {holds : α → Prop} {other : β → Prop} {step : Checked α}
  {flaws further : List DefinitionFlaw}

/-- The flaws of what is read first come first. -/
theorem bind {next : α → Checked β} (h : Told file holds step flaws)
    (hNext : ∀ data, holds data → Told file other (next data) further) :
    Told file other (step >>= next) (flaws ++ further) := by
  cases h with
  | ok hData => exact hNext _ hData
  | error flaw others => exact .error flaw (others ++ further)

/-- What only turns data into other data adds no flaw. -/
theorem map {f : α → β} (h : Told file holds step flaws)
    (hData : ∀ data, holds data → other (f data)) :
    Told file other (step >>= fun data => .ok (f data)) flaws := by
  have hStep : Told file other (step >>= fun data => .ok (f data)) (flaws ++ []) :=
    h.bind fun data hHolds => .ok (hData data hHolds)
  rwa [List.append_nil] at hStep

theorem isOk_iff (h : Told file holds step flaws) :
    (∃ data, step = .ok data) ↔ flaws = [] := by
  cases h <;> simp

theorem holds_of_eq_ok (h : Told file holds step flaws) {data : α} (hStep : step = .ok data) :
    holds data := by
  cases h with
  | ok hData => exact Except.ok.inj hStep ▸ hData
  | error => cases hStep

theorem eq_error_iff (h : Told file holds step flaws) {fault : Fault} :
    step = .error fault ↔ ∃ flaw, flaws.head? = some flaw ∧ fault = .definition file flaw := by
  cases h <;> simp [eq_comm]

end Told

/-! ## Maps, records and tables -/

section Maps

variable {file : Path} {path : List String} {depth : Nat}

/-- A loop over the entries of a map is told by what is told of each of them. -/
theorem told_entries {holds : Value → α → Prop} (step : String → Value → Checked α)
    {read : List (String × Value) → Checked (List (String × α))}
    (hNil : read [] = .ok [])
    (hCons : ∀ key value rest, read ((key, value) :: rest) =
      step key value >>= fun data => read rest >>= fun others => .ok ((key, data) :: others))
    (hStep : ∀ key value,
      Told file (holds value) (step key value) (value.flaws depth (path ++ [key])))
    (entries : List (String × Value)) :
    Told file ((Value.map entries).HoldsEach holds) (read entries)
      ((Value.map entries).flaws (depth + 1) path) := by
  induction entries with
  | nil =>
    rw [hNil]
    exact .ok ⟨[], rfl, .nil⟩
  | cons entry rest ih =>
    obtain ⟨key, value⟩ := entry
    rw [hCons]
    refine (hStep key value).bind fun data hData => ih.map ?_
    rintro others ⟨entries, hEq, hRest⟩
    cases hEq
    exact ⟨_, rfl, .cons ⟨rfl, hData⟩ hRest⟩

/-- A value that must be a map is told by its entries if it is one. -/
theorem told_expectMap {holds : Value → α → Prop}
    {read : List (String × Value) → Checked (List (String × α))}
    (hRead : ∀ entries, Told file ((Value.map entries).HoldsEach holds) (read entries)
      ((Value.map entries).flaws (depth + 1) path)) (value : Value) :
    Told file (value.HoldsEach holds) (expectMap file (dotted path) value >>= read)
      (value.flaws (depth + 1) path) := by
  cases value with
  | map entries => exact hRead entries
  | _ => exact .error (.notMap (dotted path)) []

/-- The text of a value that must be a scalar. -/
def expectScalar (file : Path) (field : String) (value : Value) : Checked String :=
  match scalarText? value with
  | some text => .ok text
  | none => .error (.definition file (.notScalar field))

theorem told_expectScalar (value : Value) :
    Told file value.Spells (expectScalar file (dotted path) value) (value.flaws 0 path) := by
  cases value with
  | string text => exact .ok (.text text)
  | number number => exact .ok (.number number)
  | boolean value => exact .ok (Value.scalarText?_eq_some_iff.mp rfl)
  | _ => exact .error (.notScalar (dotted path)) []

theorem told_flatRecords (hPath : path ≠ []) (entries : List (String × Value)) :
    Told file ((Value.map entries).HoldsEach Value.Spells) (flatRecords file (dotted path) entries)
      ((Value.map entries).flaws 1 path) := by
  refine told_entries (fun key => expectScalar file (subfield (dotted path) key)) rfl ?_ ?_ entries
  · intro key value rest
    rw [flatRecords, expectScalar]
    cases scalarText? value <;> rfl
  · intro key value
    rw [← dotted_append_singleton hPath]
    exact told_expectScalar value

theorem told_groupedRecords (hPath : path ≠ []) (entries : List (String × Value)) :
    Told file ((Value.map entries).HoldsEach (Value.HoldsEach Value.Spells))
      (groupedRecords file (dotted path) entries) ((Value.map entries).flaws 2 path) := by
  refine told_entries (fun key value => expectMap file (subfield (dotted path) key) value >>=
    flatRecords file (subfield (dotted path) key)) rfl ?_ ?_ entries
  · intro key value rest
    rw [bind_assoc]
    rfl
  · intro key value
    rw [← dotted_append_singleton hPath]
    exact told_expectMap (told_flatRecords (List.append_ne_nil_of_right_ne_nil _
      (List.cons_ne_nil key []))) value

end Maps

/-! ## Versions -/

namespace Value

/-- Flat data, written as a map of scalars. -/
def HoldsLiteral (value : Value) (source : Source) : Prop :=
  ∃ records, source = .literal records ∧ value.HoldsEach Spells records

/-- Grouped data, written as a map of maps of scalars. -/
def HoldsGrouped (value : Value) (source : Source) : Prop :=
  ∃ tables, source = .grouped tables ∧ value.HoldsEach (HoldsEach Spells) tables

end Value

section Versions

variable {file : Path} {path : List String}

theorem told_loadSource_literal (loading : Loading) (hPath : path ≠ []) (value : Value) :
    Told file value.HoldsLiteral (loadSource loading file (dotted path) .inline false value)
      (value.flaws 1 path) := by
  have hSource : loadSource loading file (dotted path) .inline false value =
      (expectMap file (dotted path) value >>= flatRecords file (dotted path)) >>=
        fun records => .ok (.literal records) := by
    rw [bind_assoc]
    rfl
  rw [hSource]
  exact (told_expectMap (told_flatRecords hPath) value).map fun records hRecords =>
    ⟨records, rfl, hRecords⟩

theorem told_loadSource_grouped (loading : Loading) (hPath : path ≠ []) (value : Value) :
    Told file value.HoldsGrouped (loadSource loading file (dotted path) .inline true value)
      (value.flaws 2 path) := by
  have hSource : loadSource loading file (dotted path) .inline true value =
      (expectMap file (dotted path) value >>= groupedRecords file (dotted path)) >>=
        fun tables => .ok (.grouped tables) := by
    rw [bind_assoc]
    rfl
  rw [hSource]
  exact (told_expectMap (told_groupedRecords hPath) value).map fun tables hTables =>
    ⟨tables, rfl, hTables⟩

theorem told_loadEach {loading : Loading} {grouped : Bool} {depth : Nat}
    {holds : Value → Source → Prop}
    (hSource : ∀ path value, path ≠ [] → Told file (holds value)
      (loadSource loading file (dotted path) .inline grouped value) (value.flaws depth path))
    (entries : List (String × Value)) :
    Told file ((Value.map entries).HoldsEach holds) (loadEach loading file .inline grouped entries)
      ((Value.map entries).flaws (depth + 1) ["versions"]) := by
  refine told_entries (fun name => loadSource loading file (subfield "versions" name) .inline
    grouped) rfl (fun name value rest => rfl) ?_ entries
  intro name value
  exact hSource ["versions", name] value (List.cons_ne_nil _ _)

end Versions

/-! ## Documents -/

/-- A field that may be left out, and holds a text if it is not. -/
def Document.HasOptionalText (document : Document) (field : String) : Prop :=
  document.get? field = none ∨ document.get? field = some .null ∨
    ∃ text, document.get? field = some (.string text)

/-- A document of versions that are written in it, among them the default version, whose other
fields are in order. -/
structure InlineValues (document : Document) (defaultVersion : String)
    (entries : List (String × Value)) (main : Value) : Prop where
  className : ∃ name, document.get? "class" = some (.string name) ∧
    (Text.trim name.toList).isEmpty = false
  type : document.get? "type" = some (.string "in-place")
  addedNamespace : document.HasOptionalText "addNamespace"
  versionPrefix : document.HasOptionalText "versionKeyPrefix"
  default : document.get? "defaultVersion" = some (.string defaultVersion)
  versions : document.get? "versions" = some (.map entries)
  listed : entries.lookup defaultVersion = some main

/-- How the versions of a document are loaded: if all of them nest maps to a depth, and then in
their order, each with its name and its data; otherwise the first flaw is reported. -/
structure LoadsVersions (loading : Loading) (document : Document) (defaultVersion : String)
    (entries : List (String × Value)) (depth : Nat) (holds : Value → Source → Prop) : Prop where
  accepted : (∃ definition, loadDocument loading document .values = .ok definition) ↔
    ∀ entry ∈ entries, entry.2.Nested depth
  loaded : ∀ definition, loadDocument loading document .values = .ok definition →
    ∃ versions, definition.body = .values versions defaultVersion ∧
      List.Forall₂ (fun entry version => entry.1 = version.1 ∧ holds entry.2 version.2)
        entries versions
  refused : ∀ fault, loadDocument loading document .values = .error fault ↔
    ∃ flaw, ((Value.map entries).flaws (depth + 1) ["versions"]).head? = some flaw ∧
      fault = .definition document.file flaw

section Documents

variable {document : Document} {defaultVersion : String} {entries : List (String × Value)}
  {main : Value}

theorem exists_text?_eq_ok {field : String} (h : document.HasOptionalText field) :
    ∃ text?, document.text? field = .ok text? := by
  rw [Document.text?]
  rcases h with h | h | ⟨text, h⟩ <;> rw [h] <;> exact ⟨_, rfl⟩

/-- All fields but the versions are accepted. -/
theorem InlineValues.exists_header (h : InlineValues document defaultVersion entries main)
    (namespaceRoot : List String) :
    ∃ complete, loadHeader namespaceRoot document = .ok (.inline, complete) := by
  obtain ⟨name, hName, hText⟩ := h.className
  obtain ⟨added, hAdded⟩ := exists_text?_eq_ok h.addedNamespace
  obtain ⟨versionPrefix, hPrefix⟩ := exists_text?_eq_ok h.versionPrefix
  rw [loadHeader_eq h.type rfl, loadNames, requireText_of_get? hName, hAdded, hPrefix]
  simp only [bind, Except.bind, hText]
  exact ⟨_, rfl⟩

/-- What is told of the versions is told of the document. -/
theorem InlineValues.told (h : InlineValues document defaultVersion entries main)
    {loading : Loading} {depth : Nat} {holds : Value → Source → Prop}
    (hEach : Told document.file ((Value.map entries).HoldsEach holds)
      (loadEach loading document.file .inline (nestsMaps main) entries)
      ((Value.map entries).flaws (depth + 1) ["versions"])) :
    LoadsVersions loading document defaultVersion entries depth holds := by
  obtain ⟨complete, hHeader⟩ := h.exists_header loading.namespaceRoot
  have hVersions : document.requireMap "versions" = .ok entries := by
    rw [Document.requireMap, h.versions]
  -- The header is accepted, so the document is loaded as its versions are.
  have hDocument : loadDocument loading document .values =
      loadEach loading document.file .inline (nestsMaps main) entries >>= fun versions =>
        .ok (complete (.values versions defaultVersion)) := by
    rw [loadDocument_eq, hHeader]
    simp only [bind, Except.bind, loadBody, loadVersions, requireText_of_get? h.default,
      hVersions, h.listed]
    cases loadEach loading document.file .inline (nestsMaps main) entries <;> rfl
  have hTold : Told document.file (fun definition => ∃ versions,
      definition.body = .values versions defaultVersion ∧
        List.Forall₂ (fun entry version => entry.1 = version.1 ∧ holds entry.2 version.2)
          entries versions)
      (loadDocument loading document .values)
      ((Value.map entries).flaws (depth + 1) ["versions"]) := by
    rw [hDocument]
    refine hEach.map ?_
    rintro versions ⟨own, hOwn, hVersions⟩
    cases hOwn
    exact ⟨versions, (source_and_body_of_loadHeader hHeader _).2, hVersions⟩
  refine ⟨hTold.isOk_iff.trans ?_, fun _ => hTold.holds_of_eq_ok, fun _ => hTold.eq_error_iff⟩
  rw [Value.flaws_eq_nil_iff, Value.Nested]
  simp

/-- The default version decides for all: if one of its entries is a map, the document is loaded
exactly if every version is a map of maps of scalars, and every version is grouped; if none is, the
document is loaded exactly if every version is a map of scalars, and every version is flat. What is
loaded has the names, the keys and the texts of the document in its order. A document that is not
loaded is refused for the first value that is not what it should be. -/
theorem loadDocument_inline (h : InlineValues document defaultVersion entries main)
    (loading : Loading) :
    (main.NestsMap →
      LoadsVersions loading document defaultVersion entries 2 Value.HoldsGrouped) ∧
    (¬main.NestsMap →
      LoadsVersions loading document defaultVersion entries 1 Value.HoldsLiteral) := by
  rw [← Value.nestsMaps_iff]
  constructor
  · intro hNests
    refine h.told ?_
    rw [hNests]
    exact told_loadEach
      (fun path value hPath => told_loadSource_grouped loading hPath value) entries
  · intro hNests
    refine h.told ?_
    rw [Bool.not_eq_true] at hNests
    rw [hNests]
    exact told_loadEach
      (fun path value hPath => told_loadSource_literal loading hPath value) entries

/-- The entries of a document of labels, with these versions. -/
def labels (versions : List (String × Value)) : Document where
  file := ⟨"labels.json"⟩
  entries := [("class", .string "Labels"), ("type", .string "in-place"),
    ("addNamespace", .null), ("defaultVersion", .string "en"), ("versions", .map versions)]

theorem inlineValues_labels {versions : List (String × Value)}
    (hListed : versions.lookup "en" = some main) :
    InlineValues (labels versions) "en" versions main where
  className := ⟨"Labels", rfl, by decide +kernel⟩
  type := rfl
  addedNamespace := .inr (.inl rfl)
  versionPrefix := .inl rfl
  default := rfl
  versions := rfl
  listed := hListed

/-- Labels in groups, with the default version in the second place. -/
def groupedLabels : List (String × Value) :=
  [("cs", .map [("user", .map [("name", .string "Jméno"), ("age", .number (.integer 3))])]),
    ("en", .map [("user", .map [("name", .string "Name"), ("age", .boolean true)])])]

/-- Labels without groups, the second of which is no scalar in one version; a third version is no
map at all. -/
def flatLabels : List (String × Value) :=
  [("en", .map [("name", .string "Name")]),
    ("cs", .map [("name", .string "Jméno"), ("age", .map [])]), ("de", .string "Name")]

/-- Nothing but the document is there to be loaded. -/
def labelsLoading : Loading where
  naming := {}
  namespaceRoot := ["app"]
  tree := { entries := [] }

/-- Labels in groups are loaded in groups, and those without are refused for the first flaw. -/
theorem loadDocument_inline_labels :
    (∃ definition versions,
      loadDocument labelsLoading (labels groupedLabels) .values = .ok definition ∧
      definition.body = .values versions "en" ∧
      List.Forall₂ (fun entry version => entry.1 = version.1 ∧ entry.2.HoldsGrouped version.2)
        groupedLabels versions) ∧
    loadDocument labelsLoading (labels flatLabels) .values =
      .error (.definition ⟨"labels.json"⟩ (.notScalar "versions.cs.age")) := by
  constructor
  · have hLabels : InlineValues (labels groupedLabels) "en" groupedLabels _ :=
      inlineValues_labels rfl
    have hNested : (Value.map groupedLabels).Nested 3 :=
      Value.flaws_eq_nil_iff.mp (rfl : (Value.map groupedLabels).flaws 3 ["versions"] = [])
    obtain ⟨entries, hEntries, hNested⟩ := hNested
    cases hEntries
    have hLoads := (loadDocument_inline hLabels labelsLoading).1 (Value.nestsMaps_iff.mp rfl)
    obtain ⟨definition, hDefinition⟩ := hLoads.accepted.mpr hNested
    obtain ⟨versions, hBody, hVersions⟩ := hLoads.loaded definition hDefinition
    exact ⟨definition, versions, hDefinition, hBody, hVersions⟩
  · have hLabels : InlineValues (labels flatLabels) "en" flatLabels _ := inlineValues_labels rfl
    have hFlat : ¬(Value.map [("name", .string "Name")]).NestsMap := by
      rw [← Value.nestsMaps_iff]
      decide
    exact (((loadDocument_inline hLabels labelsLoading).2 hFlat).refused _).mpr ⟨_, rfl, rfl⟩

end Documents

end ResourceTables
