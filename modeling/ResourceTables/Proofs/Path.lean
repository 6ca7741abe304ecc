import Mathlib.Data.List.Basic
import ResourceTables.Path
import ResourceTables.Proofs.Text.Split

/-!
# Pieces of paths

What joining, cutting and stepping up do to the pieces of a path. A joined path has the pieces of
both its parts, and each ancestor of a path has the first of its pieces. The ancestors of a path are
the path and the ancestors of its parent.

## Main definitions

* `Path.trunk`: the pieces that those of a joined path come after.
* `Path.Descending`: a relative path that never steps back.
-/

namespace ResourceTables

namespace Text

/-- The last piece reaches from the last occurrence of the character to the end. -/
theorem exists_getLast?_splitOnChar (sep : Char) (text : List Char) :
    ∃ front last, text = front ++ last ∧ (splitOnChar sep text).getLast? = some last ∧
      (front = [] ∨ front.getLast? = some sep) := by
  generalize hSplit : splitOnChar sep text = pieces
  induction pieces generalizing text with
  | nil => exact absurd hSplit (splitOnChar_ne_nil sep text)
  | cons piece pieces ih =>
    obtain ⟨-, ⟨rfl, rfl⟩ | ⟨rest, rfl, hRest⟩⟩ := eq_of_splitOnChar_cons hSplit
    · exact ⟨[], text, rfl, rfl, .inl rfl⟩
    · obtain ⟨front, last, rfl, hLast, hFront⟩ := ih rest hRest
      refine ⟨piece ++ sep :: front, last, by simp, ?_, .inr ?_⟩
      · rw [List.getLast?_cons, hLast]
        rfl
      · rcases hFront with rfl | hFront
        · simp
        · simp [List.getLast?_cons, hFront]

end Text

open Text

namespace Path

/-- A piece that leads nowhere: it is empty, or a dot. -/
def Idle (piece : String) : Prop :=
  piece = "" ∨ piece = "."

/-- The pieces that those of a joined path come after: all but an empty one at the end. -/
def trunk (path : Path) : List String :=
  if path.pieces.getLast? = some "" then path.pieces.dropLast else path.pieces

/-- A relative path that never steps back. -/
structure Descending (path : Path) : Prop where
  relative : path.isAbsolute = false
  noStepBack : ".." ∉ path.pieces

instance : DecidablePred Idle := fun piece => inferInstanceAs (Decidable (piece = "" ∨ piece = "."))

instance : DecidablePred Descending := fun path =>
  decidable_of_iff (path.isAbsolute = false ∧ ".." ∉ path.pieces)
    ⟨fun ⟨h₁, h₂⟩ => ⟨h₁, h₂⟩, fun ⟨h₁, h₂⟩ => ⟨h₁, h₂⟩⟩

theorem pieces_ne_nil (path : Path) : path.pieces ≠ [] := by
  simp [pieces, splitOnChar_ne_nil]

theorem pieces_eq_trunk (path : Path) :
    path.pieces = path.trunk ∨ path.pieces = path.trunk ++ [""] := by
  rw [trunk]
  split
  · next hLast =>
    obtain ⟨front, hFront⟩ := List.getLast?_eq_some_iff.mp hLast
    rw [hFront, List.dropLast_concat]
    exact .inr rfl
  · exact .inl rfl

theorem pieces_of_notMem {name : String} (h : '/' ∉ name.toList) :
    (⟨name⟩ : Path).pieces = [name] := by
  simp [pieces, splitOnChar_of_notMem h]

theorem slash_notMem_of_mem_pieces {path : Path} {name : String} (h : name ∈ path.pieces) :
    '/' ∉ name.toList := by
  obtain ⟨piece, hPiece, rfl⟩ := List.mem_map.mp h
  rw [String.toList_ofList]
  exact notMem_of_mem_splitOnChar hPiece

/-- The characters of a path, but for slashes, are those of its pieces. -/
theorem mem_text_iff_exists_mem_pieces {path : Path} {c : Char} (hc : c ≠ '/') :
    c ∈ path.text.toList ↔ ∃ piece ∈ path.pieces, c ∈ piece.toList := by
  rw [mem_iff_exists_mem_splitOnChar hc, pieces]
  simp only [List.mem_map, exists_exists_and_eq_and, String.toList_ofList]

theorem pieces_append_slash (front rest : String) :
    (⟨front ++ "/" ++ rest⟩ : Path).pieces = (⟨front⟩ : Path).pieces ++ (⟨rest⟩ : Path).pieces := by
  have hText : (front ++ "/" ++ rest).toList = front.toList ++ '/' :: rest.toList := by simp
  simp only [pieces, hText, splitOnChar_append_cons, List.map_append]

/-- The last piece is empty if the path is, or ends with a slash. -/
theorem getLast?_pieces_eq_empty_iff (path : Path) :
    path.pieces.getLast? = some "" ↔ path.text = "" ∨ path.text.toList.getLast? = some '/' := by
  obtain ⟨front, last, hText, hLast, hFront⟩ := exists_getLast?_splitOnChar '/' path.text.toList
  rw [pieces, List.getLast?_map, hLast, Option.map_some, Option.some.injEq, hText,
    ← String.toList_inj, ← String.toList_inj, hText, String.toList_ofList, String.toList_empty]
  constructor
  · rintro rfl
    rcases hFront with rfl | hFront
    · exact .inl rfl
    · exact .inr (by simpa using hFront)
  · rintro (hEmpty | hSlash)
    · exact (List.append_eq_nil_iff.mp hEmpty).2
    · by_cases hLastNil : last = []
      · exact hLastNil
      · -- A last piece with characters ends with one that is no slash.
        rw [List.getLast?_append_of_ne_nil _ hLastNil] at hSlash
        have hPiece : last ∈ splitOnChar '/' path.text.toList := List.mem_of_getLast? hLast
        exact absurd (List.mem_of_getLast? hSlash) (notMem_of_mem_splitOnChar hPiece)

/-- The pieces of a joined path are those of both its parts. -/
theorem pieces_join {path : Path} (h : path.isAbsolute = false) (base : Path) :
    (base.join path).pieces = base.trunk ++ path.pieces := by
  have hJoin : base.join path =
      if base.text.isEmpty || base.text.toList.getLast? == some '/' then ⟨base.text ++ path.text⟩
      else ⟨base.text ++ "/" ++ path.text⟩ := by simp [join, h]
  have hLast := getLast?_pieces_eq_empty_iff base
  rw [hJoin, trunk]
  simp only [String.isEmpty_iff, Bool.or_eq_true, beq_iff_eq, ← hLast]
  split
  · next hEnd =>
    rcases hLast.mp hEnd with hEmpty | hSlash
    · obtain ⟨text⟩ := base
      obtain rfl : text = "" := hEmpty
      rfl
    · obtain ⟨front, hFront⟩ := List.getLast?_eq_some_iff.mp hSlash
      have hText : (base.text ++ path.text).toList = front ++ '/' :: path.text.toList := by
        simp [hFront]
      have hBase : base.pieces = (splitOnChar '/' front).map String.ofList ++ [""] := by
        rw [pieces, hFront, splitOnChar_append_cons, List.map_append]
        rfl
      rw [hBase, List.dropLast_concat, pieces, hText, splitOnChar_append_cons, List.map_append]
      rfl
  · exact pieces_append_slash base.text path.text

theorem trunk_join {path : Path} (h : path.isAbsolute = false) (base : Path) :
    (base.join path).trunk = base.trunk ++ path.trunk := by
  have hTrunk : path.trunk =
      if path.pieces.getLast? = some "" then path.pieces.dropLast else path.pieces := rfl
  rw [trunk, pieces_join h, List.getLast?_append_of_ne_nil _ path.pieces_ne_nil, hTrunk]
  split
  · exact List.dropLast_append_of_ne_nil path.pieces_ne_nil
  · rfl

theorem isAbsolute_join {path : Path} (h : path.isAbsolute = false) (base : Path) :
    (base.join path).isAbsolute = base.isAbsolute := by
  obtain ⟨text⟩ := base
  cases hText : text.toList with
  | nil =>
    obtain rfl : text = "" := String.toList_eq_nil_iff.mp hText
    simp [join, isAbsolute] at h ⊢
    exact h
  | cons c rest =>
    rw [join, if_neg (by simp [h])]
    split <;> simp [isAbsolute, hText]

/-- Joined to the empty path, a path stays as it is. -/
theorem join_of_text_eq_empty {base : Path} (h : base.text = "") (path : Path) :
    base.join path = path := by
  rw [join]
  split
  · rfl
  · rw [if_pos (by simp [h]), h, String.empty_append]

/-- A joined path has the characters of both its parts, but perhaps for a slash. -/
theorem mem_text_join_iff {path : Path} (h : path.isAbsolute = false) (base : Path) {c : Char}
    (hc : c ≠ '/') :
    c ∈ (base.join path).text.toList ↔ c ∈ base.text.toList ∨ c ∈ path.text.toList := by
  rw [join, if_neg (by simp [h])]
  split <;> simp [hc]

theorem text_join_eq_empty_iff {path : Path} (h : path.isAbsolute = false) (base : Path) :
    (base.join path).text = "" ↔ base.text = "" ∧ path.text = "" := by
  rw [join, if_neg (by simp [h])]
  split
  · simp
  · next hEnd =>
    simp only [String.isEmpty_iff, Bool.or_eq_true, not_or] at hEnd
    simp [hEnd.1]

theorem mem_pieces_of_mem_trunk {path : Path} {piece : String} (h : piece ∈ path.trunk) :
    piece ∈ path.pieces := by
  rw [trunk] at h
  split at h
  · exact List.dropLast_subset _ h
  · exact h

/-- Descending is kept by joining. -/
theorem Descending.join {base path : Path} (hBase : base.Descending) (hPath : path.Descending) :
    (base.join path).Descending where
  relative := by rw [isAbsolute_join hPath.relative, hBase.relative]
  noStepBack := by
    rw [pieces_join hPath.relative, List.mem_append, not_or]
    exact ⟨fun h => hBase.noStepBack (mem_pieces_of_mem_trunk h), hPath.noStepBack⟩

/-- A path made of names one after the other never steps back if none of them does. -/
theorem Descending.foldl_join {base : Path} (hBase : base.Descending) {names : List String}
    (hNames : ∀ name ∈ names, (⟨name⟩ : Path).Descending) :
    (names.foldl (fun path name => path.join ⟨name⟩) base).Descending := by
  induction names generalizing base with
  | nil => exact hBase
  | cons name rest ih =>
    rw [List.forall_mem_cons] at hNames
    exact ih (hBase.join hNames.1) hNames.2

theorem descending_of_notMem {name : String} (hSlash : '/' ∉ name.toList) (hName : name ≠ "..") :
    (⟨name⟩ : Path).Descending where
  relative := by
    rw [isAbsolute, beq_eq_false_iff_ne]
    exact fun h => hSlash (List.mem_of_head? h)
  noStepBack := by
    rw [pieces_of_notMem hSlash, List.mem_singleton]
    exact Ne.symm hName

end Path

end ResourceTables
