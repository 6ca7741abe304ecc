import ResourceTables.Definition.Namespace
import ResourceTables.Proofs.Text.Blank
import ResourceTables.Proofs.Text.Split

/-!
# Writing module paths

A module path may be written in many ways: its segments are parted by double colons or by
backslashes, by as many of them as one likes, and blanks may stand around segments and separators.
However it is written, its segments are read off it in order, and none of them is ever blank or
holds a separator.

## Main definitions

* `PathFiller`: blanks and separators.
* `IsPathSegment`: what can be written as a segment.
* `WritesPath`: the texts that write a module path.
* `pathPieces`, `keptPieces`: the pieces of a text, and what is kept of them.

## Main results

* `namespaceSegments_written`: segments are read as they are written.
-/

namespace ResourceTables

open Text

/-- What may stand around segments: blanks and separators. The flag tells whether there is a
separator. -/
inductive PathFiller : Bool → List Char → Prop where
  | nil : PathFiller false []
  | blank {parts : Bool} {c : Char} {rest : List Char} (hBlank : isBlank c = true)
      (hRest : PathFiller parts rest) : PathFiller parts (c :: rest)
  | colons {parts : Bool} {rest : List Char} (hRest : PathFiller parts rest) :
      PathFiller true (':' :: ':' :: rest)
  | backslash {parts : Bool} {rest : List Char} (hRest : PathFiller parts rest) :
      PathFiller true ('\\' :: rest)

/-- What can be written as a segment: not empty, without blank ends, and without any character that
is part of a separator. -/
structure IsPathSegment (segment : String) : Prop where
  nonempty : segment ≠ ""
  trimmed : trim segment.toList = segment.toList
  colon : ':' ∉ segment.toList
  backslash : '\\' ∉ segment.toList

/-- A text writes segments in order. The flag tells that it goes on behind a segment, from which
the next one has to be parted. -/
inductive WritesPath : Bool → List String → List Char → Prop where
  | nil {behind parts : Bool} {filler : List Char} (hFiller : PathFiller parts filler) :
      WritesPath behind [] filler
  | cons {behind parts : Bool} {filler rest : List Char} {segment : String}
      {segments : List String} (hFiller : PathFiller parts filler)
      (hParts : behind = true → parts = true) (hSegment : IsPathSegment segment)
      (hRest : WritesPath true segments rest) :
      WritesPath behind (segment :: segments) (filler ++ (segment.toList ++ rest))

/-! ## Pieces -/

/-- The pieces of a text between separators. -/
def pathPieces (text : List Char) : List (List Char) :=
  (splitOnColons text).flatMap (splitOnChar '\\')

/-- What is kept of pieces: those that are not blank, without their blank ends. -/
def keptPieces (pieces : List (List Char)) : List (List Char) :=
  (pieces.map trim).filter fun piece => !piece.isEmpty

theorem namespaceSegments_eq (path : String) :
    namespaceSegments path = (keptPieces (pathPieces path.toList)).map String.ofList := by
  simp only [namespaceSegments, keptPieces, pathPieces, List.map_flatMap, List.filter_flatMap]

variable {c : Char} {text rest piece : List Char} {pieces : List (List Char)}

theorem splitOnColons_ne_nil (text : List Char) : splitOnColons text ≠ [] := by
  rw [splitOnColons.eq_def]
  split
  · simp
  · simp
  · exact consHead_ne_nil _ _

theorem splitOnColons_cons (h : ∀ behind, c = ':' → rest = ':' :: behind → False) :
    splitOnColons (c :: rest) = consHead c (splitOnColons rest) := by
  rw [splitOnColons]
  exact h

theorem pathPieces_cons (hColon : c ≠ ':') (hBackslash : c ≠ '\\') (rest : List Char) :
    pathPieces (c :: rest) = consHead c (pathPieces rest) := by
  obtain ⟨first, more, hRest⟩ := List.exists_cons_of_ne_nil (splitOnColons_ne_nil rest)
  rw [pathPieces, splitOnColons_cons fun _ hEq => absurd hEq hColon, pathPieces, hRest, consHead,
    List.flatMap_cons, List.flatMap_cons, splitOnChar, if_neg hBackslash,
    consHead_append c (splitOnChar_ne_nil _ first)]

theorem pathPieces_colons (rest : List Char) :
    pathPieces (':' :: ':' :: rest) = [] :: pathPieces rest := by
  rw [pathPieces, splitOnColons, List.flatMap_cons]
  rfl

theorem pathPieces_backslash (rest : List Char) :
    pathPieces ('\\' :: rest) = [] :: pathPieces rest := by
  obtain ⟨first, more, hRest⟩ := List.exists_cons_of_ne_nil (splitOnColons_ne_nil rest)
  rw [pathPieces, splitOnColons_cons (by simp), pathPieces, hRest, consHead, List.flatMap_cons,
    List.flatMap_cons, splitOnChar, if_pos rfl, List.cons_append]

/-! ## What is kept -/

theorem keptPieces_cons_of_isBlank (h : ∀ c ∈ piece, isBlank c = true) :
    keptPieces (piece :: pieces) = keptPieces pieces := by
  rw [keptPieces, List.map_cons, trim_eq_nil_iff.mpr h]
  rfl

theorem keptPieces_cons_blank (h : isBlank c = true) :
    keptPieces ((c :: piece) :: pieces) = keptPieces (piece :: pieces) := by
  have hTrim : trim (c :: piece) = trim piece := by
    rw [trim, trimStart, List.dropWhile_cons_of_pos h]
    rfl
  rw [keptPieces, keptPieces, List.map_cons, List.map_cons, hTrim]

/-- Filler changes nothing of what is kept. If there is a separator in it, then what is in front of
the first one is blank. -/
theorem exists_pathPieces_filler {parts : Bool} {filler : List Char} (h : PathFiller parts filler)
    (hText : pathPieces text = piece :: pieces) :
    ∃ first more, pathPieces (filler ++ text) = first :: more ∧
      keptPieces (first :: more) = keptPieces (piece :: pieces) ∧
      ((parts = true ∨ ∀ c ∈ piece, isBlank c = true) → ∀ c ∈ first, isBlank c = true) := by
  induction h with
  | nil => exact ⟨piece, pieces, hText, rfl, by simp⟩
  | @blank parts c rest hBlank hRest ih =>
    obtain ⟨first, more, hPieces, hKept, hFirst⟩ := ih
    -- A blank is no separator, so it joins the piece behind it.
    have hColon : c ≠ ':' := by
      rintro rfl
      cases hBlank
    have hBackslash : c ≠ '\\' := by
      rintro rfl
      cases hBlank
    refine ⟨c :: first, more, ?_, ?_, fun hParts => ?_⟩
    · rw [List.cons_append, pathPieces_cons hColon hBackslash, hPieces, consHead]
    · rw [keptPieces_cons_blank hBlank, hKept]
    · exact List.forall_mem_cons.mpr ⟨hBlank, hFirst hParts⟩
  | @colons parts rest hRest ih =>
    obtain ⟨first, more, hPieces, hKept, -⟩ := ih
    refine ⟨[], first :: more, ?_, ?_, by simp⟩
    · rw [List.cons_append, List.cons_append, pathPieces_colons, hPieces]
    · rw [keptPieces_cons_of_isBlank (by simp), hKept]
  | @backslash parts rest hRest ih =>
    obtain ⟨first, more, hPieces, hKept, -⟩ := ih
    refine ⟨[], first :: more, ?_, ?_, by simp⟩
    · rw [List.cons_append, pathPieces_backslash, hPieces]
    · rw [keptPieces_cons_of_isBlank (by simp), hKept]

/-- A segment stands in front of the first piece behind it. -/
theorem pathPieces_segment {front : List Char} (hColon : ':' ∉ front) (hBackslash : '\\' ∉ front)
    (hText : pathPieces text = piece :: pieces) :
    pathPieces (front ++ text) = (front ++ piece) :: pieces := by
  induction front with
  | nil => exact hText
  | cons c front ih =>
    rw [List.mem_cons, not_or] at hColon hBackslash
    rw [List.cons_append, pathPieces_cons (Ne.symm hColon.1) (Ne.symm hBackslash.1),
      ih hColon.2 hBackslash.2]
    rfl

/-- What is kept of a text that writes segments are the segments. Behind another segment, the first
piece of such a text is blank. -/
theorem WritesPath.exists_pathPieces {behind : Bool} {segments : List String}
    (h : WritesPath behind segments text) :
    ∃ first more, pathPieces text = first :: more ∧
      keptPieces (first :: more) = segments.map String.toList ∧
      (behind = true → ∀ c ∈ first, isBlank c = true) := by
  induction h with
  | @nil behind parts filler hFiller =>
    obtain ⟨first, more, hPieces, hKept, hFirst⟩ :=
      exists_pathPieces_filler hFiller (show pathPieces [] = [] :: [] from rfl)
    rw [List.append_nil] at hPieces
    exact ⟨first, more, hPieces, hKept, fun _ => hFirst (.inr (by simp))⟩
  | @cons behind parts filler rest segment segments hFiller hParts hSegment hRest ih =>
    obtain ⟨first, more, hPieces, hKept, hFirst⟩ := ih
    have hBlank := hFirst rfl
    have hWritten := pathPieces_segment hSegment.colon hSegment.backslash hPieces
    have hOwn : keptPieces ((segment.toList ++ first) :: more) =
        (segment :: segments).map String.toList := by
      rw [keptPieces_cons_of_isBlank hBlank] at hKept
      rw [keptPieces, List.map_cons, trim_append hBlank, hSegment.trimmed, List.map_cons, ← hKept,
        List.filter_cons_of_pos]
      · rfl
      · simpa using hSegment.nonempty
    obtain ⟨front, others, hFront, hFrontKept, hFrontBlank⟩ :=
      exists_pathPieces_filler hFiller hWritten
    exact ⟨front, others, hFront, hFrontKept.trans hOwn,
      fun hBehind => hFrontBlank (.inl (hParts hBehind))⟩

/-! ## What is left of any text -/

/-- The first piece begins the text. -/
theorem prefix_of_splitOnColons (h : splitOnColons text = piece :: pieces) : piece <+: text := by
  induction text using splitOnColons.induct generalizing piece pieces with
  | case1 =>
    rw [splitOnColons, List.cons.injEq] at h
    exact h.1 ▸ List.prefix_rfl
  | case2 rest ih =>
    rw [splitOnColons, List.cons.injEq] at h
    exact h.1 ▸ List.nil_prefix
  | case3 c rest hPair ih =>
    obtain ⟨first, more, hRest⟩ := List.exists_cons_of_ne_nil (splitOnColons_ne_nil rest)
    rw [splitOnColons_cons hPair, hRest, consHead, List.cons.injEq] at h
    exact h.1 ▸ (List.prefix_cons_inj c).mpr (ih hRest)

/-- No piece holds a pair of colons. -/
theorem not_infix_of_mem_splitOnColons (h : piece ∈ splitOnColons text) :
    ¬[':', ':'] <:+: piece := by
  induction text using splitOnColons.induct generalizing piece with
  | case1 =>
    rw [splitOnColons, List.mem_singleton] at h
    simp [h]
  | case2 rest ih =>
    rw [splitOnColons, List.mem_cons] at h
    rcases h with rfl | hRest
    · simp
    · exact ih hRest
  | case3 c rest hPair ih =>
    obtain ⟨first, more, hRest⟩ := List.exists_cons_of_ne_nil (splitOnColons_ne_nil rest)
    rw [splitOnColons_cons hPair, hRest, consHead, List.mem_cons] at h
    rw [hRest] at ih
    rcases h with rfl | hMore
    · rw [List.infix_cons_iff, not_or]
      refine ⟨fun hPrefix => ?_, ih List.mem_cons_self⟩
      -- A second colon at the front of the piece would stand at the front of the rest.
      obtain ⟨hFirst, hSecond⟩ := List.cons_prefix_cons.mp hPrefix
      obtain ⟨behind, hBehind⟩ := hSecond.trans (prefix_of_splitOnColons hRest)
      exact hPair behind hFirst.symm hBehind.symm
    · exact ih (List.mem_cons_of_mem _ hMore)

theorem trim_isInfix_of_mem_pathPieces (h : piece ∈ pathPieces text) :
    ¬[':', ':'] <:+: trim piece ∧ '\\' ∉ trim piece := by
  obtain ⟨part, hPart, hPiece⟩ := List.mem_flatMap.mp h
  have hInfix : trim piece <:+: part :=
    (trim_isInfix piece).trans (isInfix_of_mem_splitOnChar hPiece)
  exact ⟨fun hPair => not_infix_of_mem_splitOnColons hPart (hPair.trans hInfix),
    fun hMem => notMem_of_mem_splitOnChar hPiece ((trim_isInfix piece).subset hMem)⟩

/-- However a module path is written, its segments are read off it. And whatever a text is, what is
read off it are segments that are not empty, have no blank ends and hold no separator. -/
theorem namespaceSegments_written :
    (∀ {segments : List String} {path : String}, WritesPath false segments path.toList →
      namespaceSegments path = segments) ∧
    ∀ path : String, ∀ segment ∈ namespaceSegments path,
      segment ≠ "" ∧ trim segment.toList = segment.toList ∧
        ¬"::".toList <:+: segment.toList ∧ '\\' ∉ segment.toList := by
  refine ⟨fun h => ?_, fun path segment hSegment => ?_⟩
  · obtain ⟨first, more, hPieces, hKept, -⟩ := h.exists_pathPieces
    rw [namespaceSegments_eq, hPieces, hKept, List.map_map]
    simp [Function.comp_def]
  · rw [namespaceSegments_eq, keptPieces] at hSegment
    obtain ⟨kept, hKept, rfl⟩ := List.mem_map.mp hSegment
    obtain ⟨hTrimmed, hSome⟩ := List.mem_filter.mp hKept
    obtain ⟨piece, hPiece, rfl⟩ := List.mem_map.mp hTrimmed
    rw [String.toList_ofList]
    refine ⟨?_, trim_trim piece, trim_isInfix_of_mem_pathPieces hPiece⟩
    simpa using hSome

/-- Both notations in one path, with blanks in it and with separators to spare. The blank inside a
segment is part of it. -/
theorem namespaceSegments_written_mixed :
    namespaceSegments " ::app \\::\tForm Texts\\ \\v2:: " = ["app", "Form Texts", "v2"] ∧
      ∀ segment ∈ namespaceSegments "a:b:::c", ¬"::".toList <:+: segment.toList := by
  have hApp : IsPathSegment "app" := ⟨by decide, by decide, by decide, by decide⟩
  have hForm : IsPathSegment "Form Texts" := ⟨by decide, by decide, by decide, by decide⟩
  have hLast : IsPathSegment "v2" := ⟨by decide, by decide, by decide, by decide⟩
  have hEnd : WritesPath true [] ":: ".toList := .nil (.colons (.blank (by decide) .nil))
  have hBehind : WritesPath true ["v2"] ("\\ \\".toList ++ ("v2".toList ++ ":: ".toList)) :=
    .cons (.backslash (.blank (by decide) (.backslash .nil))) (fun _ => rfl) hLast hEnd
  have hMiddle : WritesPath true ["Form Texts", "v2"] (" \\::\t".toList ++ ("Form Texts".toList ++
      ("\\ \\".toList ++ ("v2".toList ++ ":: ".toList)))) :=
    .cons (.blank (by decide) (.backslash (.colons (.blank (by decide) .nil)))) (fun _ => rfl)
      hForm hBehind
  refine ⟨namespaceSegments_written.1 ?_,
    fun segment hSegment => (namespaceSegments_written.2 _ segment hSegment).2.2.1⟩
  exact .cons (.blank (by decide) (.colons .nil)) (fun hNone => by cases hNone) hApp hMiddle

end ResourceTables
