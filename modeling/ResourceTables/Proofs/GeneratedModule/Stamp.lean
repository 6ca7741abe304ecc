import ResourceTables.Proofs.GeneratedModule.Lines
import ResourceTables.Proofs.Text.Blank
import ResourceTables.Proofs.Text.Occurrences

/-!
# The stamp of a generated file

A generated file is stamped with the fingerprint of its body, on the last line of its header. The
stamp is read from behind the first mark in the file. No name of a definition file and no class name
shows a mark, but the module path can: then what follows there is taken for the stamp.

## Main definitions

* `GeneratedModule.preamble`, `GeneratedModule.pathLine`, `GeneratedModule.banner`: the lines above
  the stamp.
* `GeneratedModule.PathMarked`: the module path shows a mark.

## Main results

* `GeneratedModule.extract?_of_banner`: the stamp is found if nothing above it shows a mark.
* `GeneratedModule.marker_infix_banner_iff`: that is, if the module path shows none.
* `GeneratedModule.exists_extract?_of_pathMarked`: else what is found is no fingerprint.
-/

namespace ResourceTables

open Text

namespace Fingerprint

theorem toList_marker : marker.toList =
    ['/', '/', ' ', 'f', 'i', 'n', 'g', 'e', 'r', 'p', 'r', 'i', 'n', 't', ':', ' ', 's', 'h', 'a',
      '2', '5', '6', ':'] := by
  decide

theorem extract?_of_cut {file : String} {before line more : List Char}
    (hCut : cutAround? marker.toList file.toList = some (before, line ++ '\n' :: more))
    (hLine : '\n' ∉ line) :
    extract? file = some (⟨String.ofList (trim line)⟩,
      String.ofList (((cutAround? ['\n', '\n'] (line ++ '\n' :: more)).map (·.2)).getD [])) := by
  have hEnd := cutAt?_append_cons hLine more
  simp only [extract?, hCut, hEnd, bind, Option.bind, pure]

/-- Behind text without a mark, the stamp is the fingerprint that was written there, and the body is
all that comes after the empty line. -/
theorem extract?_stamped {banner : String} (h : ¬marker.toList <:+: banner.toList)
    (bytes : List UInt8) (text : String) :
    extract? (banner ++ "\n" ++ (ofBytes bytes).headerLine ++ "\n\n" ++ text) =
      some (ofBytes bytes, text) := by
  have hHex : '\n' ∉ (Sha256.hex bytes).toList := oneLine_hex bytes
  have hText : (banner ++ "\n" ++ (ofBytes bytes).headerLine ++ "\n\n" ++ text).toList =
      banner.toList ++ '\n' ::
        (marker.toList ++ ((Sha256.hex bytes).toList ++ '\n' :: '\n' :: text.toList)) := by
    simp [headerLine, ofBytes]
  have hCut : cutAround? marker.toList
      (banner ++ "\n" ++ (ofBytes bytes).headerLine ++ "\n\n" ++ text).toList =
        some (banner.toList ++ ['\n'], (Sha256.hex bytes).toList ++ '\n' :: '\n' :: text.toList) := by
    rw [hText, cutAround?_append_cons (by decide) h, cutAround?_append_self]
    rfl
  have hBody : cutAround? ['\n', '\n'] ((Sha256.hex bytes).toList ++ '\n' :: '\n' :: text.toList) =
      some ((Sha256.hex bytes).toList, text.toList) := by
    have hHere : cutAround? ['\n', '\n'] ('\n' :: '\n' :: text.toList) = some ([], text.toList) :=
      cutAround?_append_self ['\n', '\n'] text.toList
    rw [cutAround?_append_of_notMem hHex, hHere]
    simp
  have hTrim : trim (Sha256.hex bytes).toList = (Sha256.hex bytes).toList :=
    trim_of_forall fun c hc => isBlank_of_isAlphanum (isAlphanum_of_mem_hex hc)
  rw [extract?_of_cut hCut hHex, hBody, hTrim]
  simp [ofBytes]

end Fingerprint

namespace GeneratedModule

variable {generated : GeneratedModule}

/-- The lines above the module path. -/
def preamble (generated : GeneratedModule) : String :=
  "//! Generated by resgen from " ++ generated.sourceName ++ " - DO NOT EDIT" ++ "\n" ++ "//!"

/-- The line of the module path. -/
def pathLine (generated : GeneratedModule) : String :=
  "//! Module path: " ++ "::".intercalate (generated.namespacePath ++ [generated.moduleName])

/-- The module path shows a mark: a segment does, with the colon that follows it. -/
def PathMarked (generated : GeneratedModule) : Prop :=
  ∃ segment ∈ generated.namespacePath,
    Fingerprint.marker.toList <:+: segment.toList ++ [':']

/-- All that stands above the stamp. -/
def banner (generated : GeneratedModule) : String :=
  generated.preamble ++ "\n" ++ generated.pathLine ++ "\n"

theorem header_eq (generated : GeneratedModule) (fingerprint : Fingerprint) :
    generated.header fingerprint = generated.banner ++ fingerprint.headerLine ++ "\n\n" := by
  have hFeed : "\n".toList = ['\n'] := rfl
  have hFeeds : "\n\n".toList = ['\n'] ++ "".toList ++ ['\n'] := rfl
  unfold header banner preamble pathLine
  apply String.toList_inj.mp
  simp only [toList_unlines, List.flatMap_cons, List.flatMap_nil, String.toList_append, hFeed,
    hFeeds, List.append_assoc, List.append_nil]

/-! ## Marks above the stamp -/

/-- The name of a definition file shows no mark, because it has no slash. -/
theorem not_marker_infix_preamble (hSource : '/' ∉ generated.sourceName.toList) :
    ¬Fingerprint.marker.toList <:+: generated.preamble.toList := by
  have hFront : "//! Generated by resgen from ".toList =
      "//".toList ++ '!' :: " Generated by resgen from ".toList := by decide
  have hBack : "//!".toList = "//".toList ++ '!' :: [] := by decide
  have hFeed : "\n".toList = ['\n'] := rfl
  have hText : generated.preamble.toList = "//".toList ++ '!' ::
      ((" Generated by resgen from ".toList ++ generated.sourceName.toList ++
        " - DO NOT EDIT".toList) ++ '\n' :: ("//".toList ++ '!' :: [])) := by
    unfold preamble
    simp only [String.toList_append, hFront, hBack, hFeed, List.append_assoc, List.cons_append,
      List.nil_append]
  have hSlashes : ¬Fingerprint.marker.toList <:+: "//".toList := by decide
  have hEnd : ¬Fingerprint.marker.toList <:+: [] := by decide
  have hMiddle : ¬Fingerprint.marker.toList <:+: " Generated by resgen from ".toList ++
      generated.sourceName.toList ++ " - DO NOT EDIT".toList := by
    intro hMark
    have hSlash : '/' ∈ Fingerprint.marker.toList := by decide
    have hMem := hMark.subset hSlash
    simp only [List.mem_append] at hMem
    rcases hMem with (hMem | hMem) | hMem
    · exact absurd hMem (by decide)
    · exact hSource hMem
    · exact absurd hMem (by decide)
  have hBang : '!' ∉ Fingerprint.marker.toList := by decide
  have hLineFeed : '\n' ∉ Fingerprint.marker.toList := by decide
  -- A mark has no exclamation mark and no line feed, so it would lie between two of them.
  rw [hText, infix_append_cons_iff hBang, infix_append_cons_iff hLineFeed,
    infix_append_cons_iff hBang]
  simp only [hSlashes, hMiddle, hEnd, or_false, not_false_eq_true]

theorem marker_infix_intercalate_iff {name : String} (hName : '/' ∉ name.toList)
    (segments : List String) :
    Fingerprint.marker.toList <:+: ("::".intercalate (segments ++ [name])).toList ↔
      ∃ segment ∈ segments, Fingerprint.marker.toList <:+: segment.toList ++ [':'] := by
  rw [Fingerprint.toList_marker]
  induction segments with
  | nil =>
    rw [List.nil_append, String.intercalate_singleton]
    exact iff_of_false (fun hMark => hName (hMark.subset List.mem_cons_self)) (by simp)
  | cons segment segments ih =>
    have hColons : "::".toList = [':', ':'] := rfl
    have hText : ("::".intercalate (segment :: (segments ++ [name]))).toList =
        segment.toList ++ ':' :: ':' :: ("::".intercalate (segments ++ [name])).toList := by
      rw [String.intercalate_cons_of_ne_nil (by simp), String.toList_append, String.toList_append,
        hColons, List.append_assoc, List.cons_append, List.cons_append, List.nil_append]
    rw [List.cons_append, hText, infix_append_pair_iff (by decide) (by decide), ih]
    simp only [List.mem_cons, exists_eq_or_imp]

theorem marker_infix_pathLine_iff (hClass : isIdentifier generated.className = true) :
    Fingerprint.marker.toList <:+: generated.pathLine.toList ↔ generated.PathMarked := by
  have hFront : "//! Module path: ".toList = "//".toList ++ '!' :: " Module path: ".toList := by
    decide
  have hText : generated.pathLine.toList = "//".toList ++ '!' :: (" Module path: ".toList ++
      ("::".intercalate (generated.namespacePath ++ [generated.moduleName])).toList) := by
    unfold pathLine
    rw [String.toList_append, hFront, List.append_assoc, List.cons_append]
  have hBang : '!' ∉ Fingerprint.marker.toList := by decide
  have hSlashes : ¬Fingerprint.marker.toList <:+: "//".toList := by decide
  have hSlash : '/' ∉ " Module path: ".toList := by decide
  have hModule : '/' ∉ generated.moduleName.toList := notMem_snakeCase hClass (by decide)
  rw [PathMarked, ← marker_infix_intercalate_iff hModule, hText, infix_append_cons_iff hBang,
    or_iff_right hSlashes, Fingerprint.toList_marker, infix_append_of_notMem_iff hSlash]

/-- Behind a mark on the line of the module path there is a colon. -/
theorem colon_mem_of_pathLine_eq (hClass : isIdentifier generated.className = true)
    (hPath : generated.namespacePath ≠ []) {front back : List Char}
    (h : generated.pathLine.toList = front ++ Fingerprint.marker.toList ++ back) :
    ':' ∈ back := by
  have hColons : "::".toList = [':', ':'] := rfl
  obtain ⟨path, hLine⟩ : ∃ path, generated.pathLine.toList =
      (path ++ [':']) ++ ':' :: generated.moduleName.toList := by
    refine ⟨"//! Module path: ".toList ++ ("::".intercalate generated.namespacePath).toList, ?_⟩
    unfold pathLine
    rw [String.intercalate_append_of_ne_nil hPath (by simp), String.intercalate_singleton]
    simp only [String.toList_append, hColons, List.append_assoc, List.cons_append, List.nil_append]
  obtain ⟨stem, hMarker⟩ : ∃ stem, Fingerprint.marker.toList = (stem ++ ['6']) ++ [':'] :=
    ⟨"// fingerprint: sha25".toList, by decide⟩
  have hName : ':' ∉ generated.moduleName.toList := notMem_snakeCase hClass (by decide)
  -- Else the colon of the mark would be the last of the line, in front of which is another colon.
  by_contra hBack
  rw [hLine, hMarker, ← List.append_assoc, List.append_assoc _ [':'] back,
    List.singleton_append] at h
  obtain ⟨hFront, -⟩ := append_cons_inj_of_notMem_back hName hBack h
  rw [← List.append_assoc] at hFront
  exact absurd (List.append_inj' hFront rfl).2 (by decide)

/-! ## What is taken for the stamp -/

/-- The stamp of a header is found if nothing above it shows a mark, whatever text comes after. -/
theorem extract?_of_banner (h : ¬Fingerprint.marker.toList <:+: generated.banner.toList)
    (bytes : List UInt8) (text : String) :
    Fingerprint.extract? (generated.header (.ofBytes bytes) ++ text) =
      some (.ofBytes bytes, text) := by
  have hText : generated.banner.toList =
      (generated.preamble ++ "\n" ++ generated.pathLine).toList ++ ['\n'] := by
    simp [banner]
  rw [hText] at h
  rw [header_eq, banner]
  exact Fingerprint.extract?_stamped
    (fun hMark => h (hMark.trans (List.prefix_append _ _).isInfix)) bytes text

variable (hSource : '/' ∉ generated.sourceName.toList)
  (hClass : isIdentifier generated.className = true)
include hSource hClass

/-- What stands above the stamp shows a mark only if the module path does. -/
theorem marker_infix_banner_iff :
    Fingerprint.marker.toList <:+: generated.banner.toList ↔ generated.PathMarked := by
  have hText : generated.banner.toList =
      generated.preamble.toList ++ '\n' :: (generated.pathLine.toList ++ '\n' :: []) := by
    simp [banner]
  have hLineFeed : '\n' ∉ Fingerprint.marker.toList := by decide
  have hEnd : ¬Fingerprint.marker.toList <:+: [] := by decide
  rw [hText, infix_append_cons_iff hLineFeed, infix_append_cons_iff hLineFeed,
    marker_infix_pathLine_iff hClass, or_iff_right (not_marker_infix_preamble hSource),
    or_iff_left hEnd]

/-- Where the module path shows a mark, what is found is no fingerprint: it holds a colon. -/
theorem exists_extract?_of_pathMarked (h : generated.PathMarked)
    (hOneLine : ∀ segment ∈ generated.namespacePath, OneLine segment) (fingerprint : Fingerprint)
    (text : String) :
    ∃ stamp body, Fingerprint.extract? (generated.header fingerprint ++ text) = some (stamp, body) ∧
      ':' ∈ stamp.hex.toList := by
  have hLineFeed : '\n' ∉ Fingerprint.marker.toList := by decide
  have hFeed : "\n".toList = ['\n'] := rfl
  obtain ⟨front, back, hCut⟩ := exists_cutAround? ((marker_infix_pathLine_iff hClass).mpr h)
  have hPath := eq_of_cutAround? hCut
  -- The path line is one line, so the fingerprint that is found ends where this line does.
  have hBack : '\n' ∉ back := by
    have hLine : OneLine generated.pathLine := by
      have hModule : OneLine generated.moduleName := notMem_snakeCase hClass (by decide)
      unfold pathLine
      rw [oneLine_append, oneLine_intercalate_iff (by decide), List.forall_mem_append,
        List.forall_mem_singleton]
      exact ⟨by decide, hOneLine, hModule⟩
    rw [OneLine, hPath] at hLine
    exact fun hMem => hLine (List.mem_append_right _ hMem)
  have hFile : ∃ more, (generated.header fingerprint ++ text).toList =
      generated.preamble.toList ++ '\n' :: (generated.pathLine.toList ++ '\n' :: more) := by
    refine ⟨(fingerprint.headerLine ++ "\n\n" ++ text).toList, ?_⟩
    rw [header_eq, banner]
    simp only [String.toList_append, hFeed, List.append_assoc, List.cons_append, List.nil_append]
  obtain ⟨more, hFile⟩ := hFile
  have hFirst : cutAround? Fingerprint.marker.toList (generated.header fingerprint ++ text).toList =
      some (generated.preamble.toList ++ '\n' :: front, back ++ '\n' :: more) := by
    rw [hFile, cutAround?_append_cons hLineFeed (not_marker_infix_preamble hSource),
      cutAround?_append_right hCut]
    rfl
  refine ⟨_, _, Fingerprint.extract?_of_cut hFirst hBack, ?_⟩
  have hNonempty : generated.namespacePath ≠ [] := by
    obtain ⟨segment, hSegment, -⟩ := h
    exact List.ne_nil_of_mem hSegment
  rw [String.toList_ofList]
  exact mem_trim (by decide) (colon_mem_of_pathLine_eq hClass hNonempty hPath)

end GeneratedModule

end ResourceTables
