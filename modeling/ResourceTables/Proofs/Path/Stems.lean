import ResourceTables.Proofs.Path
import ResourceTables.Proofs.Text.Occurrences

/-!
# Stems of file names

A name in one piece is its own file name, and its stem is what stands in front of the extension that
was put behind it.
-/

namespace ResourceTables

open Text

namespace Path

/-- A name in one piece is its own file name. -/
theorem fileName?_of_notMem {name : String} (hSlash : '/' ∉ name.toList)
    (hName : name ∉ ["", ".", ".."]) : fileName? ⟨name⟩ = some name := by
  simp only [List.mem_cons, List.not_mem_nil, or_false, not_or] at hName
  have hSteps : steps ⟨name⟩ = [(name, 0 + name.length)] := by
    rw [steps, pieces_of_notMem hSlash]
    simp [withEnds, hName.1]
  rw [fileName?, hSteps, List.getLast?_singleton]
  simp only
  rw [if_neg (not_or.mpr hName.2)]

variable {stem extension : String}

theorem cutExtension?_append (hStem : stem ≠ "") (hDot : '.' ∉ extension.toList) :
    cutExtension? (stem ++ "." ++ extension) = some (stem, extension) := by
  have hReverse : (stem ++ "." ++ extension).toList.reverse =
      extension.toList.reverse ++ '.' :: stem.toList.reverse := by
    simp
  have hCut := cutAt?_append_cons (mt List.mem_reverse.mp hDot) stem.toList.reverse
  have hBefore : stem.toList.reverse.isEmpty = false := by
    simpa using hStem
  rw [cutExtension?, hReverse, hCut]
  simp [hBefore]

/-- The stem of a name with an extension is the name without it. -/
theorem stem?_append (hStem : stem ≠ "") (hSlash : '/' ∉ stem.toList) (hExtension : extension ≠ "")
    (hDot : '.' ∉ extension.toList) (hNoSlash : '/' ∉ extension.toList) :
    stem? ⟨stem ++ "." ++ extension⟩ = some stem := by
  have hPiece : '/' ∉ (stem ++ "." ++ extension).toList := by
    simp [hSlash, hNoSlash]
  have hName : stem ++ "." ++ extension ∉ ["", ".", ".."] := by
    intro hMem
    -- The names that are none have no character but dots.
    have hDots : ∀ name ∈ ["", ".", ".."], ∀ c ∈ name.toList, c = '.' := by simp
    obtain ⟨c, rest, hSplit⟩ := List.exists_cons_of_ne_nil
      (mt String.toList_eq_nil_iff.mp hExtension)
    have hFirst : c = '.' := hDots _ hMem c (by simp [hSplit])
    exact hDot (by rw [hSplit, hFirst]; exact List.mem_cons_self)
  rw [stem?, fileName?_of_notMem hPiece hName, Option.map_some, cutExtension?_append hStem hDot]
  rfl

end Path

end ResourceTables
