import ResourceTables.Document.Json
import ResourceTables.Proofs.Entries

/-!
# Documents with unique keys

No map of a document value has a key twice, however deep it lies. In JSON texts a member whose key
has been there before takes its place.

## Main definitions

* `Value.HasUniqueKeys`: no map of a value has a key twice.

## Main results

* `JsonTerm.hasUniqueKeys_of_value?`: the values of JSON texts have unique keys.
-/

namespace ResourceTables

/-- No map in a value has a key twice. -/
inductive Value.HasUniqueKeys : Value → Prop where
  | null : HasUniqueKeys .null
  | boolean (value : Bool) : HasUniqueKeys (.boolean value)
  | number (value : Number) : HasUniqueKeys (.number value)
  | string (text : String) : HasUniqueKeys (.string text)
  | array {items : List Value} (h : ∀ item ∈ items, HasUniqueKeys item) :
      HasUniqueKeys (.array items)
  | map {entries : List (String × Value)} (keys : (entries.map (·.1)).Nodup)
      (values : ∀ entry ∈ entries, HasUniqueKeys entry.2) : HasUniqueKeys (.map entries)

namespace Value

theorem hasUniqueKeys_array_iff {items : List Value} :
    (Value.array items).HasUniqueKeys ↔ ∀ item ∈ items, item.HasUniqueKeys :=
  ⟨fun h => by cases h; assumption, .array⟩

theorem hasUniqueKeys_map_iff {entries : List (String × Value)} :
    (Value.map entries).HasUniqueKeys ↔
      (entries.map (·.1)).Nodup ∧ ∀ entry ∈ entries, entry.2.HasUniqueKeys :=
  ⟨fun h => by cases h with | map keys values => exact ⟨keys, values⟩, fun h => .map h.1 h.2⟩

end Value

/-! ## JSON -/

namespace JsonTerm

variable {levels : Nat}

theorem hasUniqueKeys_of_itemValues?
    (hItem : ∀ term value, value? levels term = some value → value.HasUniqueKeys)
    {items : List JsonTerm} {values : List Value} (h : itemValues? levels items = some values) :
    ∀ value ∈ values, value.HasUniqueKeys := by
  induction items generalizing values with
  | nil =>
    cases h
    simp
  | cons item rest ih =>
    simp only [itemValues?, Option.bind_eq_bind, Option.bind_eq_some_iff] at h
    obtain ⟨first, hFirst, others, hOthers, hEq⟩ := h
    cases hEq
    exact List.forall_mem_cons.mpr ⟨hItem item first hFirst, ih hOthers⟩

theorem hasUniqueKeys_of_memberValues?
    (hItem : ∀ term value, value? levels term = some value → value.HasUniqueKeys)
    {members : List (List JsonUnit × JsonTerm)} {entries : List (String × Value)}
    (h : memberValues? levels members = some entries) :
    ∀ entry ∈ entries, entry.2.HasUniqueKeys := by
  induction members generalizing entries with
  | nil =>
    cases h
    simp
  | cons member rest ih =>
    simp only [memberValues?, Option.bind_eq_bind, Option.bind_eq_some_iff] at h
    obtain ⟨key, -, value, hValue, others, hOthers, hEq⟩ := h
    cases hEq
    exact List.forall_mem_cons.mpr ⟨hItem member.2 value hValue, ih hOthers⟩

/-- The values of JSON terms have unique keys, since members are put into a map. The induction is on
the levels: arrays and objects take their items from one level deeper. -/
theorem hasUniqueKeys_of_value? (term : JsonTerm) (value : Value)
    (h : value? levels term = some value) : value.HasUniqueKeys := by
  induction levels using Nat.strongRecOn generalizing term value with
  | ind levels ih =>
    cases term with
    | null =>
      cases h
      exact .null
    | boolean truth =>
      cases h
      exact .boolean truth
    | number written =>
      obtain ⟨number, -, rfl⟩ := Option.map_eq_some_iff.mp h
      exact .number number
    | string units =>
      obtain ⟨text, -, rfl⟩ := Option.map_eq_some_iff.mp h
      exact .string text
    | array items =>
      cases levels with
      | zero => cases h
      | succ levels =>
        obtain ⟨values, hValues, rfl⟩ := Option.map_eq_some_iff.mp h
        exact .array (hasUniqueKeys_of_itemValues? (ih levels (Nat.lt_succ_self _)) hValues)
    | object members =>
      cases levels with
      | zero => cases h
      | succ levels =>
        obtain ⟨entries, hEntries, rfl⟩ := Option.map_eq_some_iff.mp h
        refine .map (nodup_putEntries entries) fun entry hEntry => ?_
        exact hasUniqueKeys_of_memberValues? (ih levels (Nat.lt_succ_self _)) hEntries entry
          (mem_of_mem_putEntries hEntry)

end JsonTerm

theorem Value.hasUniqueKeys_ofJson? {text : String} {value : Value}
    (h : Value.ofJson? text = some value) : value.HasUniqueKeys := by
  obtain ⟨term, -, hValue⟩ := Option.bind_eq_some_iff.mp h
  exact JsonTerm.hasUniqueKeys_of_value? term value hValue

end ResourceTables
