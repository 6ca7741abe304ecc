import ResourceTables.Proofs.GeneratedModule.Scopes

/-!
# Modules of constants

What becomes of a source that offers constants. Its entries are taken in order, each under the upper
case of its key. If the class and all of these names can be spelled and no two entries have the same
name, then the module has one constant for each entry and nothing else. Otherwise the class is
blamed, or the first entry whose name cannot be spelled or is that of an entry before it.

## Main definitions

* `Source.Holds`: the entries that a source of constants holds.
* `EntriesRefused`: the fault for which entries cannot be constants of one class.

## Main results

* `claimEntries_eq_error_iff`: which entry of a list is blamed.
* `describeConstants_eq_iff`: all that a description of constants can come to.
-/

namespace ResourceTables

/-- The entries that a source of constants holds, in order. An element of a list is its own key. -/
inductive Source.Holds : Source → Records → Prop where
  | literal (records : Records) : Source.Holds (.literal records) records
  | keyed (records : Records) : Source.Holds (.keyed records) records
  | list (elements : List String) :
      Source.Holds (.list elements) (elements.map fun element => (element, element))

theorem Source.Holds.flatEntries?_eq {source : Source} {entries : Records}
    (h : source.Holds entries) : flatEntries? source = some entries := by
  cases h <;> rfl

/-- The names of the constants that entries become. -/
def constantNames (entries : Records) : List String :=
  entries.map fun entry => flatIdentifier entry.1

/-- The fault for which entries cannot be constants of one class. It is about the first of them
that the entries before it leave no room for. -/
inductive EntriesRefused (file : Path) (entries : Records) : Fault → Prop where
  /-- The name of the entry cannot be spelled. -/
  | unspellable {before : Records} {entry : String × String} {after : Records}
      (split : entries = before ++ entry :: after)
      (settled : Claimable (constantNames before))
      (unspellable : isIdentifier (flatIdentifier entry.1) = false) :
      EntriesRefused file entries
        (.definition file (.notIdentifier entry.1 (flatIdentifier entry.1)))
  /-- The name of the entry is that of an earlier one. -/
  | taken {before : Records} {first : String × String} {between : Records}
      {second : String × String} {after : Records}
      (split : entries = (before ++ first :: between) ++ second :: after)
      (settled : Claimable (constantNames (before ++ first :: between)))
      (same : flatIdentifier first.1 = flatIdentifier second.1) :
      EntriesRefused file entries
        (.duplicateIdentifier ⟨flatIdentifier second.1, first.1, second.1⟩)

/-- The claims of entries, each for the name of its constant. -/
def entryClaims (entries : Records) : List (String × String) :=
  entries.map fun entry => (flatIdentifier entry.1, entry.1)

theorem map_fst_entryClaims (entries : Records) :
    (entryClaims entries).map (·.1) = constantNames entries := by
  rw [entryClaims, List.map_map]
  rfl

theorem claimEntries_eq_error_iff {file : Path} {entries : Records} {fault : Fault} :
    claimNames file .empty (entryClaims entries) = .error fault ↔
      EntriesRefused file entries fault := by
  rw [claimNames_empty_eq_error_iff]
  constructor
  · rintro ⟨front, claim, back, hClaims, hClaimable, hFault⟩
    obtain ⟨before, rest, rfl, rfl, hRest⟩ := List.map_eq_append_iff.mp hClaims
    obtain ⟨entry, after, rfl, rfl, rfl⟩ := List.map_eq_cons_iff.mp hRest
    rw [← entryClaims, map_fst_entryClaims] at hClaimable
    rcases hFault with ⟨hUnspelled, rfl⟩ | ⟨owner, hOwner, rfl⟩
    · exact .unspellable rfl hClaimable hUnspelled
    · -- The owner is the key of an entry before this one.
      obtain ⟨first, hFirst, hEq⟩ := List.mem_map.mp hOwner
      obtain ⟨start, between, rfl⟩ := List.append_of_mem hFirst
      rw [Prod.mk.injEq] at hEq
      obtain ⟨hSame, rfl⟩ := hEq
      exact .taken rfl hClaimable hSame
  · intro h
    cases h with
    | @unspellable before entry after hSplit hSettled hUnspelled =>
      refine ⟨entryClaims before, (flatIdentifier entry.1, entry.1), entryClaims after, ?_, ?_,
        .inl ⟨hUnspelled, rfl⟩⟩
      · rw [hSplit, entryClaims, List.map_append, List.map_cons]
        rfl
      · rwa [map_fst_entryClaims]
    | @taken before first between second after hSplit hSettled hSame =>
      refine ⟨entryClaims (before ++ first :: between), (flatIdentifier second.1, second.1),
        entryClaims after, ?_, ?_, .inr ⟨first.1, ?_, rfl⟩⟩
      · rw [hSplit, entryClaims, List.map_append, List.map_cons]
        rfl
      · rwa [map_fst_entryClaims]
      · rw [← hSame]
        exact List.mem_map.mpr ⟨first, by simp, rfl⟩

/-- A class whose name cannot be spelled is refused for it, and for nothing else. -/
theorem classScope_eq_error_iff {definition : Definition} {fault : Fault} :
    classScope definition = .error fault ↔
      isIdentifier definition.className = false ∧
        fault = .definition definition.source
          (.notIdentifier definition.className definition.className) := by
  rw [classScope, claimName_eq_error_iff]
  simp [Registry.owner?, Registry.empty]

/-- A source of constants is described if the class and all names can be spelled and no two entries
have the same name, and the description has one constant for each entry, in their order. It is
refused for the class, or else for the first entry that is at fault. -/
theorem describeConstants_eq_iff {source : Source} {entries : Records} (h : source.Holds entries)
    (definition : Definition) :
    (∀ generated, describeConstants definition source = .ok generated ↔
      isIdentifier definition.className = true ∧
        (∀ entry ∈ entries, isIdentifier (flatIdentifier entry.1) = true) ∧
        (entries.map fun entry => flatIdentifier entry.1).Nodup ∧
        generated = definition.describe
          (entries.map fun entry => ⟨flatIdentifier entry.1, .text entry.2⟩) none []) ∧
    ∀ fault, describeConstants definition source = .error fault ↔
      (isIdentifier definition.className = false ∧
        fault = .definition definition.source
          (.notIdentifier definition.className definition.className)) ∨
      isIdentifier definition.className = true ∧
        EntriesRefused definition.source entries fault := by
  refine ⟨fun generated => ?_, fun fault => ?_⟩
  · rw [describeConstants_eq_ok_iff]
    simp only [h.flatEntries?_eq, Option.some.injEq, exists_eq_left', Claimable,
      List.forall_mem_map, and_assoc]
  · have hClass : (∃ types, classScope definition = .ok types) ↔
        isIdentifier definition.className = true := by
      rw [Checked.isOk_iff_forall_ne_error]
      simp [classScope_eq_error_iff]
    rw [describeConstants, Checked.bind_eq_error, classScope_eq_error_iff, ← hClass]
    simp only [h.flatEntries?_eq, Checked.bind_eq_error, exists_and_right]
    refine or_congr_right (and_congr_right fun _ => ?_)
    rw [← claimEntries_eq_error_iff, entryClaims]
    constructor
    · rintro (hEntries | ⟨-, hEq⟩)
      · exact hEntries
      · cases hEq
    · exact .inl

/-- Streets by name. -/
def streets : Definition where
  source := ⟨"streets.json"⟩
  className := "Streets"
  namespacePath := ["app"]
  addedNamespace := []
  kind := .flatList
  versionPrefix := none
  body := .constants (.list ["Hauptstraße", "north-end"])

/-- Keys that part in their letters and meet in upper case. -/
def likeSpelled : Records :=
  [("north-end", "a"), ("Hauptstraße", "b"), ("HAUPTSTRASSE", "c"), ("1st", "d")]

/-- The list is described street by street. In the table the upper case of two keys meets, and the
second of them is blamed although a key behind it cannot be spelled at all. -/
theorem describeConstants_streets :
    (∃ generated, describeConstants streets (.list ["Hauptstraße", "north-end"]) = .ok generated ∧
      generated.constants =
        [⟨"HAUPTSTRASSE", .text "Hauptstraße"⟩, ⟨"NORTH_END", .text "north-end"⟩]) ∧
    describeConstants streets (.keyed likeSpelled) =
      .error (.duplicateIdentifier ⟨"HAUPTSTRASSE", "Hauptstraße", "HAUPTSTRASSE"⟩) := by
  have hList := (describeConstants_eq_iff (.list ["Hauptstraße", "north-end"]) streets).1
  have hTable := (describeConstants_eq_iff (.keyed likeSpelled) streets).2
  have hStreet : flatIdentifier "Hauptstraße" = "HAUPTSTRASSE" := rfl
  have hEnd : flatIdentifier "north-end" = "NORTH_END" := rfl
  have hCapitals : flatIdentifier "HAUPTSTRASSE" = "HAUPTSTRASSE" := rfl
  have hSettled : Claimable (constantNames ([("north-end", "a")] ++ [("Hauptstraße", "b")])) := by
    simp only [constantNames, List.singleton_append, List.map_cons, List.map_nil, hStreet, hEnd]
    exact ⟨by decide, by decide⟩
  have hFault : EntriesRefused streets.source likeSpelled (.duplicateIdentifier
      ⟨flatIdentifier "HAUPTSTRASSE", "Hauptstraße", "HAUPTSTRASSE"⟩) :=
    @EntriesRefused.taken _ _ [("north-end", "a")] ("Hauptstraße", "b") [] ("HAUPTSTRASSE", "c")
      [("1st", "d")] rfl hSettled (hStreet.trans hCapitals.symm)
  rw [hCapitals] at hFault
  refine ⟨⟨_, (hList _).mpr ⟨by decide, ?_, ?_, rfl⟩, ?_⟩, (hTable _).mpr (.inr ⟨by decide, hFault⟩)⟩
  · simp only [List.map_cons, List.map_nil, List.forall_mem_cons, hStreet, hEnd]
    decide
  · simp only [List.map_cons, List.map_nil, hStreet, hEnd]
    decide
  · simp only [Definition.describe, List.map_cons, List.map_nil, hStreet, hEnd]

end ResourceTables
