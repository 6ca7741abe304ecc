import ResourceTables.GeneratedModule.Rendering
import ResourceTables.Proofs.Checked
import ResourceTables.Proofs.GeneratedModule.Scopes

/-!
# The source file of a module

A module names the definition file that it comes from. The same definition in another file is
described by the same module, but for this name, or both are refused with faults that tell the same;
and of the path of the file, no more than its last name is written.

## Main results

* `alike_describe`: a definition is described the same in another file, but for the file.
* `render_eq_of_fileName?`: the text of a module shows the name of its source file only.
-/

namespace ResourceTables

section Claims

variable (file otherFile : Path)

theorem alike_claimName (scope : Registry) (identifier key : String) :
    Checked.Alike Eq (claimName file scope identifier key)
      (claimName otherFile scope identifier key) := by
  rw [claimName, claimName]
  by_cases hIdentifier : isIdentifier identifier = true
  · rw [if_pos hIdentifier, if_pos hIdentifier]
    exact .refl _
  · rw [if_neg hIdentifier, if_neg hIdentifier]
    exact .error ⟨rfl, rfl, rfl, rfl⟩

theorem alike_claimNames (scope : Registry) (claims : List (String × String)) :
    Checked.Alike Eq (claimNames file scope claims) (claimNames otherFile scope claims) := by
  induction claims generalizing scope with
  | nil => exact .ok rfl
  | cons claim rest ih =>
    obtain ⟨identifier, key⟩ := claim
    rw [claimNames, claimNames]
    refine (alike_claimName file otherFile scope identifier key).bind_same fun next _ _ => ?_
    exact ih next

theorem alike_describeTables (types : Registry) (place : Nat) (tables : List KeyTable) :
    Checked.Alike Eq (describeTables file types place tables)
      (describeTables otherFile types place tables) := by
  induction tables generalizing types place with
  | nil => exact .ok rfl
  | cons table rest ih =>
    rw [describeTables, describeTables]
    refine (alike_claimName file otherFile types _ _).bind_same fun next _ _ => ?_
    refine (alike_claimNames file otherFile .empty _).bind_same fun _ _ _ => ?_
    exact (ih next _).bind_same fun _ _ _ => .ok rfl

end Claims

section Descriptions

variable (definition : Definition) (otherFile : Path)

theorem alike_classScope :
    Checked.Alike Eq (classScope definition)
      (classScope { definition with source := otherFile }) :=
  alike_claimName definition.source otherFile .empty definition.className definition.className

/-- Two modules are the same but for the source file. -/
def GeneratedModule.MovedTo (otherFile : Path) (generated other : GeneratedModule) : Prop :=
  other = { generated with source := otherFile }

theorem alike_describeConstants (source : Source) :
    Checked.Alike (GeneratedModule.MovedTo otherFile) (describeConstants definition source)
      (describeConstants { definition with source := otherFile } source) := by
  rw [describeConstants, describeConstants]
  refine (alike_classScope definition otherFile).bind_same fun _ _ _ => ?_
  cases flatEntries? source with
  | none => exact .error ⟨rfl, rfl, rfl, rfl⟩
  | some entries =>
    exact (alike_claimNames definition.source otherFile .empty _).bind_same fun _ _ _ => .ok rfl

theorem alike_describeValues (naming : Naming) (keys : Canonical) (table : ReconciledTable)
    (defaultVersion : String) :
    Checked.Alike (GeneratedModule.MovedTo otherFile)
      (describeValues naming definition keys table defaultVersion)
      (describeValues naming { definition with source := otherFile } keys table
        defaultVersion) := by
  rw [describeValues_eq, describeValues_eq]
  refine (alike_classScope definition otherFile).bind_same fun types _ _ => ?_
  refine (alike_claimNames definition.source otherFile .empty _).bind_same fun scope _ _ => ?_
  refine (alike_describeTables definition.source otherFile types 0 _).bind_same
    fun modules _ _ => ?_
  refine (alike_claimNames definition.source otherFile scope _).bind_same fun _ _ _ => ?_
  by_cases hDefault : table.versionNames.contains defaultVersion = true
  · rw [if_pos hDefault, if_pos hDefault]
    exact .ok rfl
  · rw [if_neg hDefault, if_neg hDefault]
    exact .error ⟨rfl, rfl, rfl, rfl⟩

/-- A definition in another file is described by the same module, but for the source file, or both
are refused with faults that tell the same. -/
theorem alike_describe (naming : Naming) :
    Checked.Alike (GeneratedModule.MovedTo otherFile) (describe naming definition)
      (describe naming { definition with source := otherFile }) := by
  rw [describe, describe]
  cases definition.body with
  | constants source => exact alike_describeConstants definition otherFile source
  | values versions defaultVersion =>
    refine (Checked.Alike.refl (reconcile versions defaultVersion)).bind_same ?_
    rintro ⟨keys, table⟩ - -
    exact alike_describeValues definition otherFile naming keys table defaultVersion

end Descriptions

/-- A module names the file of its definition. -/
theorem source_of_describe {naming : Naming} {definition : Definition}
    {generated : GeneratedModule} (h : describe naming definition = .ok generated) :
    generated.source = definition.source := by
  rw [describe] at h
  split at h
  · obtain ⟨entries, -, -, -, rfl⟩ := describeConstants_eq_ok_iff.mp h
    rfl
  · obtain ⟨⟨canonical, table⟩, -, h⟩ := Checked.bind_eq_ok.mp h
    obtain ⟨-, -, -, -, rfl⟩ := describeValues_eq_ok_iff.mp h
    rfl

/-- The text of a module shows the name of its source file, and nothing else of the path. -/
theorem render_eq_of_fileName? {generated : GeneratedModule} {otherFile : Path}
    (hName : otherFile.fileName? = generated.source.fileName?)
    (hSome : generated.source.fileName? ≠ none) :
    GeneratedModule.render { generated with source := otherFile } = generated.render := by
  have hSource : GeneratedModule.sourceName { generated with source := otherFile } =
      generated.sourceName := by
    obtain ⟨name, hOwn⟩ := Option.ne_none_iff_exists'.mp hSome
    rw [GeneratedModule.sourceName, GeneratedModule.sourceName, hName, hOwn]
    rfl
  rw [GeneratedModule.render, GeneratedModule.render, GeneratedModule.header,
    GeneratedModule.header, hSource]
  rfl

end ResourceTables
