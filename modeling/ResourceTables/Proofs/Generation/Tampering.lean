import ResourceTables.Proofs.GeneratedModule.Stamp
import ResourceTables.Proofs.Generation.Findings

/-!
# Files that somebody has edited

A file that begins with the header of a generated module tells whether the text below is the one
that the header was stamped for, whatever that text is. So a file that is out of date is reported as
edited by hand exactly if its text does not have the fingerprint that its header tells.

## Main results

* `GeneratedModule.driftOf_header_append`: the kind of drift of a file behind a stamped header.
* `GeneratedModule.handEdited_iff_of_stamped`: what is read off such a file, and what a check finds.
-/

namespace ResourceTables.GeneratedModule

variable {generated : GeneratedModule}

theorem driftOf_header_append (h : ¬Fingerprint.marker.toList <:+: generated.banner.toList)
    (bytes : List UInt8) (text : String) :
    driftOf (generated.header (.ofBytes bytes) ++ text) =
      if Fingerprint.of text = .ofBytes bytes then .stale else .handEdited := by
  have hVerified : (Fingerprint.ofBytes bytes).verifies text = true ↔
      Fingerprint.of text = .ofBytes bytes :=
    beq_iff_eq
  rw [driftOf, extract?_of_banner h]
  simp only [hVerified]

/-- If nothing above its stamp shows a mark, a header is read back with the text that comes after,
and a generated file verifies. A file that holds the header with other text than it should is edited
by hand exactly if the text does not have the fingerprint in the header, and else is stale. -/
theorem handEdited_iff_of_stamped
    (h : ¬Fingerprint.marker.toList <:+: generated.banner.toList) :
    (∀ bytes text, Fingerprint.extract? (generated.header (.ofBytes bytes) ++ text) =
        some (.ofBytes bytes, text)) ∧
      (Fingerprint.extract? generated.render = some (.of generated.body, generated.body) ∧
        (Fingerprint.of generated.body).verifies generated.body = true) ∧
      ∀ bytes text (tree : Tree) (unit : RenderedUnit),
        tree.readText unit.output = .ok (generated.header (.ofBytes bytes) ++ text) →
          generated.header (.ofBytes bytes) ++ text ≠ unit.content →
            ∃ drift : Drift, detectDrift tree unit = .ok (some drift) ∧
              drift.output = unit.output ∧
              (drift.kind = .handEdited ↔ Fingerprint.of text ≠ .ofBytes bytes) ∧
              (drift.kind = .stale ↔ Fingerprint.of text = .ofBytes bytes) := by
  refine ⟨extract?_of_banner h, ⟨?_, decide_eq_true rfl⟩, ?_⟩
  · exact extract?_of_banner h generated.body.toUTF8.toList generated.body
  · intro bytes text tree unit hText hDiffers
    obtain ⟨drift, hOutput, hKind, hDrift⟩ := exists_drift_of_readText hText hDiffers
    rw [driftOf_header_append h] at hKind
    refine ⟨drift, hDrift, hOutput, ?_⟩
    rw [hKind]
    by_cases hSame : Fingerprint.of text = .ofBytes bytes
    · simp [hSame]
    · simp [hSame]

/-- A class without members. -/
def emptyLabels : GeneratedModule where
  className := "Labels"
  namespacePath := ["app"]
  directories := []
  source := ⟨"labels.json"⟩
  constants := []
  lookup? := none
  keyModules := []

/-- A body with empty lines and a mark. -/
def editedBody : String := "\n\n// fingerprint: sha256:00\n\nmine\n"

/-- The file of the class with its stamp, and the body edited. -/
def editedTree : Tree where
  entries :=
    [(["labels.rs"], .file (.text (emptyLabels.header (.of emptyLabels.body) ++ editedBody)))]

/-- A body with another mark and empty lines is found to be edited. -/
theorem handEdited_of_editedBody :
    Fingerprint.extract? (emptyLabels.header (.of emptyLabels.body) ++ editedBody) =
        some (.of emptyLabels.body, editedBody) ∧
      ∃ drift : Drift,
        detectDrift editedTree ⟨⟨"labels.json"⟩, ⟨"labels.rs"⟩, emptyLabels.render⟩ =
          .ok (some drift) ∧ drift.kind = .handEdited := by
  have hBanner : ¬Fingerprint.marker.toList <:+: emptyLabels.banner.toList := by decide +kernel
  have hEdited : Fingerprint.of editedBody ≠ .of emptyLabels.body := by decide +kernel
  have hDiffers : emptyLabels.header (.of emptyLabels.body) ++ editedBody ≠ emptyLabels.render := by
    decide +kernel
  have hText : editedTree.readText ⟨"labels.rs"⟩ =
      .ok (emptyLabels.header (.of emptyLabels.body) ++ editedBody) := by
    rfl
  obtain ⟨hExtract, -, hDrift⟩ := handEdited_iff_of_stamped hBanner
  obtain ⟨drift, hFound, -, hHandEdited, -⟩ := hDrift emptyLabels.body.toUTF8.toList editedBody
    editedTree ⟨⟨"labels.json"⟩, ⟨"labels.rs"⟩, emptyLabels.render⟩ hText hDiffers
  exact ⟨hExtract _ _, drift, hFound, hHandEdited.mpr hEdited⟩

end ResourceTables.GeneratedModule
