import Mathlib.Data.List.Forall2
import Mathlib.Data.List.Induction
import Mathlib.Data.List.Nodup
import ResourceTables.Reconciliation

/-!
# Entries with unique keys

Where no key comes twice, an entry is found by its key, and the first and the last value of a key
are the same. No key comes twice in a map that entries build up, and entries without a repeated key
build up themselves.
-/

namespace ResourceTables

variable {α : Type}

section Lookup

variable {κ : Type} [BEq κ] [LawfulBEq κ]

theorem mem_of_lookup {entries : List (κ × α)} {key : κ} {value : α}
    (h : entries.lookup key = some value) : (key, value) ∈ entries := by
  obtain ⟨before, after, rfl, -⟩ := List.lookup_eq_some_iff.mp h
  simp

/-- Where no key comes twice, the entries are what is found. -/
theorem lookup_eq_some_iff_mem {entries : List (κ × α)} {key : κ} {value : α}
    (hUnique : (entries.map (·.1)).Nodup) :
    entries.lookup key = some value ↔ (key, value) ∈ entries := by
  refine ⟨mem_of_lookup, fun h => ?_⟩
  induction entries with
  | nil => simp at h
  | cons entry rest ih =>
    rw [List.map_cons, List.nodup_cons] at hUnique
    rcases List.mem_cons.mp h with rfl | hRest
    · simp
    · have hne : key ≠ entry.1 := by
        intro hEq
        exact hUnique.1 (List.mem_map.mpr ⟨(key, value), hRest, hEq⟩)
      rw [List.lookup_cons, beq_eq_false_iff_ne.mpr hne]
      exact ih hUnique.2 hRest

/-- Where no key comes twice, what is found does not depend on the order. -/
theorem lookup_eq_of_perm {entries others : List (κ × α)} (hUnique : (entries.map (·.1)).Nodup)
    (h : entries.Perm others) (key : κ) : entries.lookup key = others.lookup key := by
  have hOthers : (others.map (·.1)).Nodup := (h.map (·.1)).nodup_iff.mp hUnique
  ext value
  rw [lookup_eq_some_iff_mem hUnique, lookup_eq_some_iff_mem hOthers, h.mem_iff]

end Lookup

/-- Elements under their names are looked up as the first element with a name is found. -/
theorem lookup_map {β : Type} (items : List α) (name : α → String) (f : α → β) (key : String) :
    (items.map fun item => (name item, f item)).lookup key =
      (items.find? fun item => key == name item).map f := by
  induction items with
  | nil => rfl
  | cons item rest ih =>
    rw [List.map_cons, List.lookup_cons, List.find?_cons, ih]
    cases key == name item <;> rfl

/-- What is made of the entries is found under the key of the entry that it is made of. -/
theorem lookup_map_of_lookup {β : Type} {entries : List (String × α)} {key : String} {value : α}
    (h : entries.lookup key = some value) (f : String × α → β) :
    (entries.map fun entry => (entry.1, f entry)).lookup key = some (f (key, value)) := by
  obtain ⟨before, after, rfl, hBefore⟩ := List.lookup_eq_some_iff.mp h
  refine List.lookup_eq_some_iff.mpr ⟨before.map _, after.map _, by rw [List.map_append]; rfl, ?_⟩
  exact List.forall_mem_map.mpr hBefore

theorem exists_lookup_iff {entries : List (String × α)} {key : String} :
    (∃ value, entries.lookup key = some value) ↔ key ∈ entries.map (·.1) := by
  rw [← Option.isSome_iff_exists, List.lookup_isSome_iff, List.mem_map]
  simp only [beq_iff_eq, eq_comm (a := key)]

theorem exists_lastValue_iff {entries : List (String × α)} {key : String} :
    (∃ value, lastValue? entries key = some value) ↔ key ∈ entries.map (·.1) := by
  rw [lastValue?, exists_lookup_iff, List.map_reverse, List.mem_reverse]

/-- Where no key comes twice, its last value is the one that is found. -/
theorem lastValue_eq_lookup {entries : List (String × α)} (key : String)
    (hUnique : (entries.map (·.1)).Nodup) : lastValue? entries key = entries.lookup key := by
  have hReverse : (entries.reverse.map (·.1)).Nodup := by
    rw [List.map_reverse]
    exact List.nodup_reverse.mpr hUnique
  ext value
  rw [lastValue?, lookup_eq_some_iff_mem hReverse, lookup_eq_some_iff_mem hUnique,
    List.mem_reverse]

theorem lastValue_filter {entries : List (String × α)} {key other : String} (hne : key ≠ other) :
    lastValue? (entries.filter fun entry => entry.1 != other) key = lastValue? entries key := by
  simp only [lastValue?, ← List.filter_reverse]
  induction entries.reverse with
  | nil => rfl
  | cons entry rest ih =>
    by_cases hOther : entry.1 = other
    · have hkey : (key == entry.1) = false := by simpa [hOther] using hne
      rw [List.filter_cons_of_neg (by simp [hOther]), List.lookup_cons, hkey, ih]
    · rw [List.filter_cons_of_pos (by simpa using hOther), List.lookup_cons, List.lookup_cons, ih]

/-- Where no name comes twice, an element is the only one with its name. -/
theorem filter_eq_singleton {xs : List α} {name : α → String} {x : α} {own : String}
    (hUnique : (xs.map name).Nodup) (hx : x ∈ xs) (hOwn : name x = own) :
    (xs.filter fun y => name y == own) = [x] := by
  subst hOwn
  induction xs with
  | nil => simp at hx
  | cons y rest ih =>
    rw [List.map_cons, List.nodup_cons] at hUnique
    rcases List.mem_cons.mp hx with rfl | hRest
    · rw [List.filter_cons_of_pos (by simp), List.filter_eq_nil_iff.mpr]
      intro z hz hName
      exact hUnique.1 (List.mem_map.mpr ⟨z, hz, by simpa using hName⟩)
    · have hne : name y ≠ name x := by
        intro hName
        exact hUnique.1 (List.mem_map.mpr ⟨x, hRest, hName.symm⟩)
      rw [List.filter_cons_of_neg (by simpa using hne), ih hUnique.2 hRest]

theorem idxOf?_eq_of_nodup {names : List String} (hUnique : names.Nodup) {place : Nat}
    (hPlace : place < names.length) {name : String} (hName : names[place] = name) :
    names.idxOf? name = some place := by
  refine List.idxOf?_eq_some_iff.mpr ⟨hPlace, hName, fun other hOther hEq => ?_⟩
  have hSame := (List.Nodup.getElem_inj_iff hUnique).mp (hEq.trans hName.symm)
  exact absurd hSame (Nat.ne_of_lt hOther)

theorem exists_getElem?_of_forall₂ {β : Type} {R : α → β → Prop} {xs : List α} {ys : List β}
    (h : List.Forall₂ R xs ys) {place : Nat} {x : α} (hx : xs[place]? = some x) :
    ∃ y, ys[place]? = some y ∧ R x y := by
  obtain ⟨hPlace, rfl⟩ := List.getElem?_eq_some_iff.mp hx
  have hPlace' : place < ys.length := h.length_eq ▸ hPlace
  exact ⟨ys[place], List.getElem?_eq_getElem hPlace', h.get hPlace hPlace'⟩

theorem exists_map_some_eq_iff {β : Type} {f : α → Option β} {xs : List α} :
    (∃ ys : List β, ys.map some = xs.map f) ↔ ∀ x ∈ xs, ∃ y, f x = some y := by
  constructor
  · rintro ⟨ys, hys⟩ x hx
    have hMem : f x ∈ ys.map some := by
      rw [hys]
      exact List.mem_map_of_mem hx
    obtain ⟨y, -, hy⟩ := List.mem_map.mp hMem
    exact ⟨y, hy.symm⟩
  · intro h
    refine ⟨xs.filterMap f, ?_⟩
    rw [List.map_filterMap_some_eq_filter_map_isSome, List.filter_eq_self]
    intro result hResult
    obtain ⟨x, hx, rfl⟩ := List.mem_map.mp hResult
    exact Option.isSome_iff_exists.mpr (h x hx)

/-! ## Maps that entries build up -/

theorem map_fst_putEntry_of_mem {map : List (String × α)} {key : String} (h : key ∈ map.map (·.1))
    (value : α) : (putEntry key value map).map (·.1) = map.map (·.1) := by
  induction map with
  | nil => cases h
  | cons entry rest ih =>
    rw [putEntry]
    split
    · rfl
    · next hne =>
      rw [List.map_cons, List.map_cons, ih ((List.mem_cons.mp h).resolve_left (Ne.symm hne))]

theorem nodup_putEntry {map : List (String × α)} (h : (map.map (·.1)).Nodup) (key : String)
    (value : α) : ((putEntry key value map).map (·.1)).Nodup := by
  by_cases hMem : key ∈ map.map (·.1)
  · rwa [map_fst_putEntry_of_mem hMem]
  · rw [putEntry_of_notMem hMem, List.map_append, List.nodup_append_comm]
    exact List.nodup_cons.mpr ⟨hMem, h⟩

theorem mem_map_fst_putEntry {map : List (String × α)} {key own : String} {value : α} :
    own ∈ (putEntry key value map).map (·.1) ↔ own = key ∨ own ∈ map.map (·.1) := by
  by_cases hMem : key ∈ map.map (·.1)
  · rw [map_fst_putEntry_of_mem hMem, or_iff_right_of_imp]
    rintro rfl
    exact hMem
  · rw [putEntry_of_notMem hMem, List.map_append, List.mem_append, or_comm]
    exact or_congr_left List.mem_singleton

/-- A map with another entry holds the entry, and the entries with other keys. -/
theorem mem_putEntry_iff {map : List (String × α)} (hUnique : (map.map (·.1)).Nodup) {key : String}
    {value : α} {entry : String × α} :
    entry ∈ putEntry key value map ↔ entry = (key, value) ∨ entry ∈ map ∧ entry.1 ≠ key := by
  induction map with
  | nil => simp [putEntry]
  | cons first rest ih =>
    rw [List.map_cons, List.nodup_cons] at hUnique
    rw [putEntry]
    -- The first entry of the key is replaced, and behind it there is no other.
    split
    · next hKey =>
      have hOther : ∀ entry ∈ rest, entry.1 ≠ key := by
        rintro entry hEntry rfl
        exact hUnique.1 (hKey ▸ List.mem_map_of_mem hEntry)
      rw [List.mem_cons, List.mem_cons, hKey]
      refine or_congr_right ⟨fun hRest => ⟨.inr hRest, hOther _ hRest⟩, ?_⟩
      rintro ⟨rfl | hRest, hne⟩
      · exact absurd hKey hne
      · exact hRest
    · next hKey =>
      rw [List.mem_cons, List.mem_cons, ih hUnique.2]
      constructor
      · rintro (rfl | hEntry | ⟨hRest, hne⟩)
        · exact .inr ⟨.inl rfl, hKey⟩
        · exact .inl hEntry
        · exact .inr ⟨.inr hRest, hne⟩
      · rintro (hEntry | ⟨rfl | hRest, hne⟩)
        · exact .inr (.inl hEntry)
        · exact .inl rfl
        · exact .inr (.inr ⟨hRest, hne⟩)

theorem putEntries_append_singleton (entries : List (String × α)) (key : String) (value : α) :
    putEntries (entries ++ [(key, value)]) = putEntry key value (putEntries entries) := by
  rw [putEntries, List.foldl_append]
  rfl

/-- A map that entries build up holds no key twice. -/
theorem nodup_putEntries (entries : List (String × α)) :
    ((putEntries entries).map (·.1)).Nodup := by
  induction entries using List.reverseRecOn with
  | nil => exact List.nodup_nil
  | append_singleton entries entry ih =>
    rw [putEntries_append_singleton]
    exact nodup_putEntry ih _ _

theorem mem_of_mem_putEntries {entries : List (String × α)} {entry : String × α}
    (h : entry ∈ putEntries entries) : entry ∈ entries := by
  induction entries using List.reverseRecOn with
  | nil => exact h
  | append_singleton entries last ih =>
    rw [putEntries_append_singleton] at h
    rcases (mem_putEntry_iff (nodup_putEntries entries)).mp h with rfl | ⟨hMem, -⟩
    · exact List.mem_append_right _ (List.mem_singleton_self _)
    · exact List.mem_append_left _ (ih hMem)

/-- Entries without a repeated key build up themselves. -/
theorem putEntries_of_nodup {entries : List (String × α)} (h : (entries.map (·.1)).Nodup) :
    putEntries entries = entries := by
  induction entries using List.reverseRecOn with
  | nil => rfl
  | append_singleton entries entry ih =>
    rw [List.map_append, List.map_singleton, ← List.concat_eq_append, List.nodup_concat] at h
    rw [putEntries_append_singleton, ih h.2, putEntry_of_notMem h.1]

end ResourceTables
