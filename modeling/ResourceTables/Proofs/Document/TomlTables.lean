import ResourceTables.Document
import ResourceTables.Proofs.Document.UniqueKeys
import ResourceTables.Proofs.Text.Yields

/-!
# Tables of TOML texts have unique keys

Keys come to a table one by one, and a key that is there is never given anew: what it has is
replaced, or the line is refused. So every line keeps the keys of all tables unique, and inline
tables come about in the same way. With JSON texts this holds for all definition documents.

## Main definitions

* `TomlFields.HasUniqueKeys`: the table that growing fields are finished to has unique keys.
* `TomlFields.Keeps`: a change that keeps the keys of a table unique.

## Main results

* `TomlFields.hasUniqueKeys_descend`: a change keeps keys unique where it is made deep inside.
* `Document.hasUniqueKeys_of_read`: the documents that are read have unique keys.
-/

namespace ResourceTables

open Text Text.Reader

/-! ## Finished values -/

theorem toValues_eq_map (items : List TomlValue) : toValues items = items.map (·.toValue) := by
  induction items with
  | nil => rfl
  | cons item rest ih => rw [toValues, ih, List.map_cons]

theorem toEntries_eq_map (entries : List (String × TomlValue)) :
    toEntries entries = entries.map fun entry => (entry.1, entry.2.toValue) := by
  induction entries with
  | nil => rfl
  | cons entry rest ih => rw [toEntries, ih, List.map_cons]

theorem finishFields_eq_map (fields : TomlFields) :
    finishFields fields = fields.map fun field => (field.1, field.2.finish) := by
  induction fields with
  | nil => rfl
  | cons field rest ih => rw [finishFields, ih, List.map_cons]

theorem finishItems_eq_map (items : List TomlFields) :
    finishItems items = items.map fun fields => .table (finishFields fields) := by
  induction items with
  | nil => rfl
  | cons fields rest ih => rw [finishItems, ih, List.map_cons]

/-- The value that a finished value is given in documents has unique keys. -/
def TomlValue.HasUniqueKeys (value : TomlValue) : Prop :=
  value.toValue.HasUniqueKeys

/-- What a key of a growing table has is finished to a value with unique keys. -/
def TomlNode.HasUniqueKeys (node : TomlNode) : Prop :=
  node.finish.HasUniqueKeys

namespace TomlFields

variable {fields : TomlFields}

/-- The table that growing fields are finished to has unique keys. -/
def HasUniqueKeys (fields : TomlFields) : Prop :=
  (TomlValue.table (finishFields fields)).HasUniqueKeys

theorem hasUniqueKeys_iff : fields.HasUniqueKeys ↔
    (fields.map (·.1)).Nodup ∧ ∀ field ∈ fields, field.2.HasUniqueKeys := by
  rw [HasUniqueKeys, TomlValue.HasUniqueKeys, TomlValue.toValue, Value.hasUniqueKeys_map_iff,
    toEntries_eq_map, finishFields_eq_map, List.map_map, List.map_map, List.forall_mem_map,
    List.forall_mem_map]
  rfl

theorem hasUniqueKeys_nil : HasUniqueKeys [] :=
  hasUniqueKeys_iff.mpr ⟨List.nodup_nil, by simp⟩

end TomlFields

theorem TomlValue.hasUniqueKeys_array_iff {items : List TomlValue} :
    (TomlValue.array items).HasUniqueKeys ↔ ∀ item ∈ items, item.HasUniqueKeys := by
  rw [TomlValue.HasUniqueKeys, TomlValue.toValue, Value.hasUniqueKeys_array_iff, toValues_eq_map,
    List.forall_mem_map]
  rfl

namespace TomlNode

theorem hasUniqueKeys_table_iff {origin : TomlOrigin} {fields : TomlFields} :
    (TomlNode.table origin fields).HasUniqueKeys ↔ fields.HasUniqueKeys := by
  rw [TomlNode.HasUniqueKeys, TomlNode.finish, TomlFields.HasUniqueKeys]

theorem hasUniqueKeys_tables_iff {items : List TomlFields} :
    (TomlNode.tables items).HasUniqueKeys ↔ ∀ fields ∈ items, fields.HasUniqueKeys := by
  rw [TomlNode.HasUniqueKeys, TomlNode.finish, TomlValue.hasUniqueKeys_array_iff,
    finishItems_eq_map, List.forall_mem_map]
  rfl

end TomlNode

/-! ## Changes of growing tables -/

namespace TomlFields

variable {fields : TomlFields} {key : String} {node : TomlNode}

theorem HasUniqueKeys.node_of_lookup (h : fields.HasUniqueKeys)
    (hNode : fields.lookup key = some node) : node.HasUniqueKeys :=
  (hasUniqueKeys_iff.mp h).2 _ (mem_of_lookup hNode)

theorem HasUniqueKeys.append (h : fields.HasUniqueKeys) (hFree : fields.lookup key = none)
    (hNode : node.HasUniqueKeys) : HasUniqueKeys (fields ++ [(key, node)]) := by
  rw [hasUniqueKeys_iff] at h ⊢
  have hNew : key ∉ fields.map (·.1) := by
    rw [← exists_lookup_iff, hFree]
    simp
  constructor
  · rw [List.map_append, List.nodup_append_comm]
    exact List.nodup_cons.mpr ⟨hNew, h.1⟩
  · rw [List.forall_mem_append, List.forall_mem_singleton]
    exact ⟨h.2, hNode⟩

theorem HasUniqueKeys.replace (h : fields.HasUniqueKeys) (hNode : node.HasUniqueKeys) :
    (fields.replace key node).HasUniqueKeys := by
  rw [hasUniqueKeys_iff] at h ⊢
  have hKeys : (fields.replace key node).map (·.1) = fields.map (·.1) := by
    rw [TomlFields.replace, List.map_map]
    apply List.map_congr_left
    intro field _
    by_cases hKey : field.1 = key
    · simp [hKey]
    · simp [hKey]
  refine ⟨hKeys ▸ h.1, List.forall_mem_map.mpr ?_⟩
  intro field hField
  by_cases hKey : field.1 = key
  · simpa [hKey] using hNode
  · simpa [hKey] using h.2 field hField

theorem HasUniqueKeys.filter (h : fields.HasUniqueKeys) (keep : String × TomlNode → Bool) :
    HasUniqueKeys (fields.filter keep) := by
  rw [hasUniqueKeys_iff] at h ⊢
  refine ⟨h.1.sublist (List.filter_sublist.map _), ?_⟩
  exact fun field hField => h.2 field (List.mem_of_mem_filter hField)

/-- A change that keeps the keys of a table unique, however the table came to be. -/
def Keeps (change : TomlOrigin → TomlFields → Option TomlFields) : Prop :=
  ∀ {origin fields result}, fields.HasUniqueKeys → change origin fields = some result →
    result.HasUniqueKeys

/-- A change that keeps keys unique keeps them unique at the end of any path. -/
theorem hasUniqueKeys_descend {change : TomlOrigin → TomlFields → Option TomlFields}
    (hChange : Keeps change) (byDots : Bool) (path : List String) :
    Keeps (descend byDots change path) := by
  induction path with
  | nil =>
    intro origin fields result h hResult
    exact hChange h hResult
  | cons key path ih =>
    intro origin fields result h hResult
    rw [descend] at hResult
    split at hResult
    · next hFree =>
      obtain ⟨made, hMade, hEq⟩ := Option.bind_eq_some_iff.mp hResult
      cases hEq
      exact h.append hFree (TomlNode.hasUniqueKeys_table_iff.mpr (ih hasUniqueKeys_nil hMade))
    · cases hResult
    · next items hItems =>
      obtain ⟨last, hLast, hEq⟩ := Option.bind_eq_some_iff.mp hResult
      cases hEq
      have hOwn := TomlNode.hasUniqueKeys_tables_iff.mp (h.node_of_lookup hItems)
      have hOld : HasUniqueKeys (items.getLast?.getD []) := by
        cases hItem : items.getLast? with
        | none => exact hasUniqueKeys_nil
        | some item => exact hOwn item (List.mem_of_getLast? hItem)
      refine h.replace (TomlNode.hasUniqueKeys_tables_iff.mpr ?_)
      rw [List.forall_mem_append, List.forall_mem_singleton]
      exact ⟨fun item hItem => hOwn item (List.dropLast_subset items hItem), ih hOld hLast⟩
    · next inner hTable =>
      split at hResult
      · cases hResult
      · obtain ⟨changed, hChanged, hEq⟩ := Option.bind_eq_some_iff.mp hResult
        cases hEq
        have hInner := TomlNode.hasUniqueKeys_table_iff.mp (h.node_of_lookup hTable)
        exact h.replace (TomlNode.hasUniqueKeys_table_iff.mpr (ih hInner hChanged))

variable {path : List String} {result : TomlFields}

theorem HasUniqueKeys.assign? (h : fields.HasUniqueKeys) {value : TomlValue}
    (hValue : value.HasUniqueKeys) (hResult : fields.assign? path key value = some result) :
    result.HasUniqueKeys := by
  refine hasUniqueKeys_descend ?_ true path h hResult
  intro origin table added hTable hAdded
  dsimp only at hAdded
  split at hAdded
  · cases hAdded
  · split at hAdded
    · cases hAdded
    · next hFree =>
      cases hAdded
      exact hTable.append (Option.not_isSome_iff_eq_none.mp hFree) hValue

theorem HasUniqueKeys.openTable? (h : fields.HasUniqueKeys)
    (hResult : fields.openTable? path key = some result) : result.HasUniqueKeys := by
  refine hasUniqueKeys_descend ?_ false path h hResult
  intro origin table opened hTable hOpened
  dsimp only at hOpened
  split at hOpened
  · next hFree =>
    cases hOpened
    exact hTable.append hFree (TomlNode.hasUniqueKeys_table_iff.mpr hasUniqueKeys_nil)
  · next inner hPassed =>
    cases hOpened
    -- The table moves to the end: it is taken out, and then its key is free.
    have hFree : (table.filter fun field => field.1 != key).lookup key = none := by
      rw [List.lookup_eq_none_iff]
      intro field hField
      have hne := (List.mem_filter.mp hField).2
      rw [bne_iff_ne] at hne
      exact bne_iff_ne.mpr (Ne.symm hne)
    have hInner := TomlNode.hasUniqueKeys_table_iff.mp (hTable.node_of_lookup hPassed)
    exact (hTable.filter _).append hFree (TomlNode.hasUniqueKeys_table_iff.mpr hInner)
  · cases hOpened

theorem HasUniqueKeys.openItem? (h : fields.HasUniqueKeys)
    (hResult : fields.openItem? path key = some result) : result.HasUniqueKeys := by
  refine hasUniqueKeys_descend ?_ false path h hResult
  intro origin table opened hTable hOpened
  dsimp only at hOpened
  split at hOpened
  · next hFree =>
    cases hOpened
    refine hTable.append hFree (TomlNode.hasUniqueKeys_tables_iff.mpr ?_)
    exact List.forall_mem_singleton.mpr hasUniqueKeys_nil
  · next items hItems =>
    cases hOpened
    have hOwn := TomlNode.hasUniqueKeys_tables_iff.mp (hTable.node_of_lookup hItems)
    refine hTable.replace (TomlNode.hasUniqueKeys_tables_iff.mpr ?_)
    exact List.forall_mem_append.mpr ⟨hOwn, List.forall_mem_singleton.mpr hasUniqueKeys_nil⟩
  · cases hOpened

end TomlFields

/-! ## Values that are read -/

namespace Toml

theorem yields_readInteger : readInteger.Yields TomlValue.HasUniqueKeys := by
  apply yields_bind
  intro value
  apply Yields.ite
  · intro _
    exact yields_pure (.number _)
  · intro _
    exact yields_failure

/-- A date or time is a map with one entry, all other numbers are no maps. -/
theorem yields_readNumber : readNumber.Yields TomlValue.HasUniqueKeys := by
  have hMoment : ∀ text, (TomlValue.moment text).HasUniqueKeys := by
    intro text
    exact .map (List.nodup_singleton _) (List.forall_mem_singleton.mpr (.string text))
  have hReal : ∀ value, (TomlValue.real value).HasUniqueKeys := by
    intro value
    rw [TomlValue.HasUniqueKeys, TomlValue.toValue]
    split
    · exact .number _
    · exact .null
  refine .orElse ?_ (.orElse ?_ (.orElse ?_ yields_readInteger))
  · exact .map (yields_of_forall _ hMoment)
  · exact .map (yields_of_forall _ hReal)
  · exact .map (yields_of_forall _ hReal)

section Step

variable {fuel : Nat}
  (ihValue : ∀ levels, (readValueIn fuel levels).Yields TomlValue.HasUniqueKeys)
  (ihItems : ∀ levels, (readItems fuel levels).Yields fun items =>
    ∀ item ∈ items, item.HasUniqueKeys)
  (ihEntries : ∀ levels fields, fields.HasUniqueKeys →
    (readEntries fuel levels fields).Yields TomlFields.HasUniqueKeys)

include ihItems ihEntries in
theorem yields_readValueIn_succ (levels : Nat) :
    (readValueIn (fuel + 1) levels).Yields TomlValue.HasUniqueKeys := by
  unfold readValueIn
  apply yields_bind
  intro next
  split
  · exact yields_bind fun text => yields_pure (.string text)
  · exact yields_bind fun text => yields_pure (.string text)
  · exact yields_bind fun _ => yields_pure (.boolean true)
  · exact yields_bind fun _ => yields_pure (.boolean false)
  · split
    · exact yields_failure
    · next levels =>
      apply yields_bind
      intro _
      refine (ihItems levels).bind fun items hItems => yields_pure ?_
      exact TomlValue.hasUniqueKeys_array_iff.mpr hItems
  · split
    · exact yields_failure
    · next levels =>
      refine yields_bind fun _ => yields_bind fun _ => yields_bind fun closing => ?_
      apply Yields.ite
      · intro _
        exact yields_bind fun _ => yields_pure TomlFields.hasUniqueKeys_nil
      · intro _
        exact (ihEntries levels [] TomlFields.hasUniqueKeys_nil).bind
          fun fields hFields => yields_pure hFields
  · exact yields_readNumber

include ihValue ihItems in
theorem yields_readItems_succ (levels : Nat) :
    (readItems (fuel + 1) levels).Yields fun items => ∀ item ∈ items, item.HasUniqueKeys := by
  rw [readItems]
  refine yields_bind fun _ => yields_bind fun closing => ?_
  apply Yields.ite
  · intro _
    exact yields_bind fun _ => yields_pure (by simp)
  · intro _
    refine (ihValue levels).bind fun item hItem => yields_bind fun _ => yields_bind fun next => ?_
    split
    · refine (ihItems levels).bind fun items hItems => yields_pure ?_
      exact List.forall_mem_cons.mpr ⟨hItem, hItems⟩
    · exact yields_pure (List.forall_mem_singleton.mpr hItem)
    · exact yields_failure

include ihValue ihEntries in
theorem yields_readEntries_succ (levels : Nat) (fields : TomlFields)
    (hFields : fields.HasUniqueKeys) :
    (readEntries (fuel + 1) levels fields).Yields TomlFields.HasUniqueKeys := by
  rw [readEntries]
  refine yields_bind fun key => yields_bind fun _ => yields_bind fun _ => ?_
  refine (ihValue levels).bind fun value hValue => yields_bind fun _ => ?_
  split
  · exact yields_failure
  · next added hAdded =>
    have hUnique := hFields.assign? hValue hAdded
    apply yields_bind
    intro next
    split
    · exact ihEntries levels added hUnique
    · exact yields_pure hUnique
    · exact yields_failure

end Step

/-- Values, the items of arrays and the entries of inline tables have unique keys. -/
theorem yields_readIn (fuel : Nat) :
    (∀ levels, (readValueIn fuel levels).Yields TomlValue.HasUniqueKeys) ∧
    (∀ levels, (readItems fuel levels).Yields fun items => ∀ item ∈ items, item.HasUniqueKeys) ∧
    ∀ levels fields, fields.HasUniqueKeys →
      (readEntries fuel levels fields).Yields TomlFields.HasUniqueKeys := by
  induction fuel with
  | zero =>
    refine ⟨fun levels => ?_, fun levels => ?_, fun levels fields _ => ?_⟩
    · unfold readValueIn
      exact yields_failure
    · exact yields_failure
    · exact yields_failure
  | succ fuel ih =>
    obtain ⟨ihValue, ihItems, ihEntries⟩ := ih
    exact ⟨yields_readValueIn_succ ihItems ihEntries, yields_readItems_succ ihValue ihItems,
      yields_readEntries_succ ihValue ihEntries⟩

theorem yields_readValue : readValue.Yields TomlValue.HasUniqueKeys :=
  yields_bind fun _ => (yields_readIn _).1 _

end Toml

/-! ## Lines -/

/-- The value that a line assigns, if it assigns one, has unique keys. -/
def TomlLine.HasUniqueKeys : TomlLine → Prop
  | .assignment _ _ value => value.HasUniqueKeys
  | _ => True

namespace Toml

theorem yields_readLine : readLine.Yields TomlLine.HasUniqueKeys := by
  rw [readLine]
  apply yields_bind
  intro first
  apply Yields.ite
  · intro _
    refine yields_bind fun _ => yields_bind fun second => ?_
    apply Yields.ite
    · intro _
      exact yields_bind fun _ => yields_bind fun key => yields_bind fun _ => yields_pure trivial
    · intro _
      exact yields_bind fun key => yields_bind fun _ => yields_pure trivial
  · intro _
    refine yields_bind fun key => yields_bind fun _ => yields_bind fun _ => ?_
    exact yields_readValue.bind fun value hValue => yields_pure hValue

theorem yields_readLines (fuel : Nat) :
    (readLines fuel).Yields fun lines => ∀ line ∈ lines, line.HasUniqueKeys := by
  induction fuel with
  | zero => exact yields_failure
  | succ fuel ih =>
    rw [readLines]
    refine yields_bind fun _ => yields_bind fun next => ?_
    split
    · exact yields_pure (by simp)
    · exact yields_bind fun _ => ih
    · exact yields_bind fun _ => ih
    · exact yields_bind fun _ => ih
    · refine yields_readLine.bind fun line hLine => yields_bind fun _ => ?_
      exact ih.bind fun lines hLines => yields_pure (List.forall_mem_cons.mpr ⟨hLine, hLines⟩)

end Toml

/-- A line keeps the keys of all tables unique. -/
theorem TomlLine.HasUniqueKeys.step {line : TomlLine} (hLine : line.HasUniqueKeys)
    {state after : TomlState} (h : state.fields.HasUniqueKeys)
    (hAfter : line.apply? state = some after) : after.fields.HasUniqueKeys := by
  cases line with
  | header path key =>
    obtain ⟨fields, hFields, hEq⟩ := Option.bind_eq_some_iff.mp hAfter
    cases hEq
    exact h.openTable? hFields
  | itemHeader path key =>
    obtain ⟨fields, hFields, hEq⟩ := Option.bind_eq_some_iff.mp hAfter
    cases hEq
    exact h.openItem? hFields
  | assignment path key value =>
    obtain ⟨fields, hFields, hEq⟩ := Option.bind_eq_some_iff.mp hAfter
    cases hEq
    refine TomlFields.hasUniqueKeys_descend ?_ false state.current h hFields
    intro origin table assigned hTable hAssigned
    exact hTable.assign? hLine hAssigned

/-- All lines of a text keep the keys of all tables unique. -/
theorem TomlState.hasUniqueKeys_of_foldlM {lines : List TomlLine}
    (hLines : ∀ line ∈ lines, line.HasUniqueKeys) {state after : TomlState}
    (h : state.fields.HasUniqueKeys) (hAfter : lines.foldlM TomlLine.apply? state = some after) :
    after.fields.HasUniqueKeys := by
  induction lines generalizing state with
  | nil =>
    cases hAfter
    exact h
  | cons line rest ih =>
    rw [List.foldlM_cons] at hAfter
    obtain ⟨next, hNext, hRest⟩ := Option.bind_eq_some_iff.mp hAfter
    obtain ⟨hLine, hLines⟩ := List.forall_mem_cons.mp hLines
    exact ih hLines (hLine.step h hNext) hRest

theorem Value.hasUniqueKeys_ofToml? {text : String} {value : Value}
    (h : Value.ofToml? text = some value) : value.HasUniqueKeys := by
  obtain ⟨entries, hEntries, rfl⟩ := Option.map_eq_some_iff.mp h
  obtain ⟨lines, hLines, hAfter⟩ := Option.bind_eq_some_iff.mp hEntries
  obtain ⟨state, hState, hEq⟩ := Option.bind_eq_some_iff.mp hAfter
  cases hEq
  have hUnique := (Toml.yields_readLines _).of_run? hLines
  exact TomlState.hasUniqueKeys_of_foldlM hUnique TomlFields.hasUniqueKeys_nil hState

/-! ## Documents -/

/-- No map of a definition document has a key twice, whatever its notation. -/
theorem Document.hasUniqueKeys_of_read {tree : Tree} {file : Path} {document : Document}
    (h : Document.read tree file = .ok document) : (Value.map document.entries).HasUniqueKeys := by
  rw [Document.read] at h
  split at h
  · next text hText =>
    rw [Document.decode] at h
    split at h
    · next entries hValue =>
      cases h
      cases hFormat : Format.ofPath file with
      | toml =>
        rw [hFormat] at hValue
        exact Value.hasUniqueKeys_ofToml? hValue
      | json =>
        rw [hFormat] at hValue
        exact Value.hasUniqueKeys_ofJson? hValue
    · cases h
    · cases h
  · cases h

end ResourceTables
