/-!
# Letters of ASCII

Letters, digits and the step from small letters to capitals, by their codes: small letters are those
from 97 to 122, capitals those from 65 to 90, digits those from 48 to 57, and raising or lowering a
letter leads over a distance of 32 and leaves every other character as it is. What is known of the
case of a character is arithmetic from there.
-/

namespace ResourceTables.Text

variable {c : Char}

theorem isLower_eq_true_iff (c : Char) : c.isLower = true ↔ 97 ≤ c.toNat ∧ c.toNat ≤ 122 := by
  change (decide (c.val ≥ 'a'.val) && decide (c.val ≤ 'z'.val)) = true ↔ _
  rw [Bool.and_eq_true, decide_eq_true_eq, decide_eq_true_eq, ge_iff_le, UInt32.le_iff_toNat_le,
    UInt32.le_iff_toNat_le]
  rfl

theorem isUpper_eq_true_iff (c : Char) : c.isUpper = true ↔ 65 ≤ c.toNat ∧ c.toNat ≤ 90 := by
  change decide (c.val ≥ 'A'.val ∧ c.val ≤ 'Z'.val) = true ↔ _
  rw [decide_eq_true_eq, ge_iff_le, UInt32.le_iff_toNat_le, UInt32.le_iff_toNat_le]
  rfl

theorem isDigit_eq_true_iff (c : Char) : c.isDigit = true ↔ 48 ≤ c.toNat ∧ c.toNat ≤ 57 :=
  Char.isDigit_iff_toNat

theorem isAlpha_iff : c.isAlpha = true ↔ c.isUpper = true ∨ c.isLower = true := by
  change (c.isUpper || c.isLower) = true ↔ _
  rw [Bool.or_eq_true]

theorem isAlphanum_iff :
    c.isAlphanum = true ↔ c.isUpper = true ∨ c.isLower = true ∨ c.isDigit = true := by
  change (c.isAlpha || c.isDigit) = true ↔ _
  rw [Bool.or_eq_true, isAlpha_iff, or_assoc]

/-- Raising moves the small letters to the capitals, and nothing else. -/
theorem toNat_toUpper (c : Char) :
    97 ≤ c.toNat ∧ c.toNat ≤ 122 ∧ c.toUpper.toNat + 32 = c.toNat ∨
      ¬(97 ≤ c.toNat ∧ c.toNat ≤ 122) ∧ c.toUpper.toNat = c.toNat := by
  have hSmall : 'a'.val ≤ c.val ∧ c.val ≤ 'z'.val ↔ 97 ≤ c.toNat ∧ c.toNat ≤ 122 :=
    and_congr UInt32.le_iff_toNat_le UInt32.le_iff_toNat_le
  by_cases h : 97 ≤ c.toNat ∧ c.toNat ≤ 122
  · -- The distance is added modulo the size of a word.
    have hUpper : c.toUpper = ⟨c.val + ('A'.val - 'a'.val), _⟩ := dif_pos (hSmall.mpr h)
    have hMoved : c.toUpper.toNat = (c.toNat + (2 ^ 32 - 32)) % 2 ^ 32 :=
      hUpper ▸ UInt32.toNat_add _ _
    omega
  · have hSame : c.toUpper = c := dif_neg (mt hSmall.mp h)
    exact .inr ⟨h, congrArg Char.toNat hSame⟩

/-- Lowering moves the capitals to the small letters, and nothing else. -/
theorem toNat_toLower (c : Char) :
    65 ≤ c.toNat ∧ c.toNat ≤ 90 ∧ c.toLower.toNat = c.toNat + 32 ∨
      ¬(65 ≤ c.toNat ∧ c.toNat ≤ 90) ∧ c.toLower.toNat = c.toNat := by
  have hCapital : c.val ≥ 'A'.val ∧ c.val ≤ 'Z'.val ↔ 65 ≤ c.toNat ∧ c.toNat ≤ 90 :=
    and_congr UInt32.le_iff_toNat_le UInt32.le_iff_toNat_le
  by_cases h : 65 ≤ c.toNat ∧ c.toNat ≤ 90
  · have hLower : c.toLower = ⟨c.val + ('a'.val - 'A'.val), _⟩ := dif_pos (hCapital.mpr h)
    have hMoved : c.toLower.toNat = (c.toNat + 32) % 2 ^ 32 := hLower ▸ UInt32.toNat_add _ _
    omega
  · have hSame : c.toLower = c := dif_neg (mt hCapital.mp h)
    exact .inr ⟨h, congrArg Char.toNat hSame⟩

theorem isLower_toUpper (c : Char) : c.toUpper.isLower = false := by
  have hRaised := toNat_toUpper c
  rw [Bool.eq_false_iff, ne_eq, isLower_eq_true_iff]
  omega

theorem isUpper_toUpper (h : c.isLower = true) : c.toUpper.isUpper = true := by
  have hRaised := toNat_toUpper c
  rw [isLower_eq_true_iff] at h
  rw [isUpper_eq_true_iff]
  omega

theorem isUpper_toLower (c : Char) : c.toLower.isUpper = false := by
  have hLowered := toNat_toLower c
  rw [Bool.eq_false_iff, ne_eq, isUpper_eq_true_iff]
  omega

theorem isLower_toLower (h : c.isUpper = true) : c.toLower.isLower = true := by
  have hLowered := toNat_toLower c
  rw [isUpper_eq_true_iff] at h
  rw [isLower_eq_true_iff]
  omega

theorem toUpper_of_isLower_eq_false (h : c.isLower = false) : c.toUpper = c := by
  have hRaised := toNat_toUpper c
  rw [Bool.eq_false_iff, ne_eq, isLower_eq_true_iff] at h
  exact Char.toNat_inj.mp (by omega)

theorem toLower_of_isUpper_eq_false (h : c.isUpper = false) : c.toLower = c := by
  have hLowered := toNat_toLower c
  rw [Bool.eq_false_iff, ne_eq, isUpper_eq_true_iff] at h
  exact Char.toNat_inj.mp (by omega)

/-- A capital is what its small letter is raised to. -/
theorem toUpper_toLower (h : c.isUpper = true) : c.toLower.toUpper = c := by
  have hLowered := toNat_toLower c
  have hRaised := toNat_toUpper c.toLower
  rw [isUpper_eq_true_iff] at h
  exact Char.toNat_inj.mp (by omega)

theorem toLower_toUpper (c : Char) : c.toUpper.toLower = c.toLower := by
  have hRaised := toNat_toUpper c
  have hLowered := toNat_toLower c
  have hBack := toNat_toLower c.toUpper
  exact Char.toNat_inj.mp (by omega)

end ResourceTables.Text
