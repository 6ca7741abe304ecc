import ResourceTables.Difference.Sliding
import ResourceTables.Proofs.Difference.Transforms

/-!
# Slides do not change what a script does

While a run is slid, the script is cut at the run: what is before it, the run itself and what is
after it. Each step of a slide changes what stands next to the run, and the sequences before and
after the script stay the same. So a script whose runs have been slid turns the same sequence into
the same as it did before.

## Main definitions

* `SameEnds`: two scripts turn the same sequence into the same.
* `Cursor.script`: the script that is cut at a run.

## Main results

* `sameEnds_slideUp`, `sameEnds_slideDown`: a run that is slid.
* `transforms_editScript`: a script with all runs slid turns the one sequence into the other.
-/

namespace ResourceTables

open Edit

variable {α : Type} {first second third : List (Edit α)}

/-- Two scripts turn the same sequence into the same. -/
structure SameEnds (first second : List (Edit α)) : Prop where
  olds : olds first = olds second
  news : news first = news second

theorem SameEnds.refl (script : List (Edit α)) : SameEnds script script :=
  ⟨rfl, rfl⟩

theorem SameEnds.trans (h : SameEnds first second) (h' : SameEnds second third) :
    SameEnds first third :=
  ⟨h.olds.trans h'.olds, h.news.trans h'.news⟩

theorem Transforms.of_sameEnds {old new : List α} (h : Transforms second old new)
    (hSame : SameEnds first second) : Transforms first old new :=
  ⟨hSame.olds.trans h.olds, hSame.news.trans h.news⟩

/-! ## Steps of a slide -/

variable (inserts : Bool) (run other kept : List α) (a : α) (front back : List (Edit α))

@[simp] theorem olds_keepBefore : olds (keepBefore a back) = a :: olds back := by
  cases back with
  | nil => rfl
  | cons edit rest => cases edit <;> rfl

@[simp] theorem news_keepBefore : news (keepBefore a back) = a :: news back := by
  cases back with
  | nil => rfl
  | cons edit rest => cases edit <;> rfl

@[simp] theorem olds_reverse_keepAfter :
    olds (keepAfter a front).reverse = olds front.reverse ++ [a] := by
  cases front with
  | nil => rfl
  | cons edit rest => cases edit <;> simp [keepAfter, old]

@[simp] theorem news_reverse_keepAfter :
    news (keepAfter a front).reverse = news front.reverse ++ [a] := by
  cases front with
  | nil => rfl
  | cons edit rest => cases edit <;> simp [keepAfter, new]

/-- Runs of one kind are joined. -/
theorem sameEnds_join : SameEnds (front ++ changeRun inserts (other ++ run) :: back)
    (front ++ changeRun inserts other :: changeRun inserts run :: back) := by
  cases inserts <;> constructor <;> simp [changeRun, old, new]

/-- Runs of different kinds pass each other. -/
theorem sameEnds_pass :
    SameEnds (front ++ changeRun inserts run :: changeRun (!inserts) other :: back)
      (front ++ changeRun (!inserts) other :: changeRun inserts run :: back) := by
  cases inserts <;> constructor <;> simp [changeRun, old, new]

/-- An inserted run that ends as the run in front of it ends goes up by one. -/
theorem sameEnds_up : SameEnds (front ++ .keep kept :: .insert (a :: run) :: keepBefore a back)
    (front ++ .keep (kept ++ [a]) :: .insert (run ++ [a]) :: back) := by
  constructor <;> simp [old, new]

/-- An inserted run that begins as the run behind it begins goes down by one. -/
theorem sameEnds_down :
    SameEnds ((keepAfter a front).reverse ++ .insert (run ++ [a]) :: .keep kept :: back)
      (front.reverse ++ .insert (a :: run) :: .keep (a :: kept) :: back) := by
  constructor <;> simp [old, new]

/-! ## A whole slide -/

/-- The script that is cut at a run that goes or comes. -/
def Cursor.script (cursor : Cursor α) : List (Edit α) :=
  cursor.before.reverse ++ changeRun inserts cursor.run :: cursor.after

variable [DecidableEq α]

/-- A run that is slid up does in its new place what it did in the old one. -/
theorem sameEnds_slideUp (after before : List (Edit α)) :
    SameEnds ((slideUp inserts run after before).script inserts)
      (before.reverse ++ changeRun inserts run :: after) := by
  fun_induction slideUp inserts run after before with
  | case1 run after => exact .refl _
  | case2 run after kept before hNone ih =>
    rw [List.getLast?_eq_none_iff] at hNone
    subst hNone
    refine ih.trans ⟨?_, ?_⟩ <;> simp [old, new]
  | case3 run after kept before a b hKept hRun hSlides ih =>
    obtain ⟨rfl, rfl⟩ := hSlides
    obtain ⟨kept, rfl⟩ := List.getLast?_eq_some_iff.mp hKept
    obtain ⟨run, rfl⟩ := List.getLast?_eq_some_iff.mp hRun
    rw [List.dropLast_concat, List.dropLast_concat] at ih ⊢
    rw [List.reverse_cons, List.append_assoc] at ih ⊢
    exact ih.trans (sameEnds_up run kept a before.reverse after)
  | case4 run after kept before a b hKept hRun hStays => exact .refl _
  | case5 run after kept before a hKept hNone => exact .refl _
  | case6 run after other before hInserts ih =>
    subst hInserts
    rw [List.reverse_cons, List.append_assoc]
    exact ih.trans (sameEnds_pass true run other before.reverse after)
  | case7 run after other before hDeletes ih =>
    rw [Bool.not_eq_true] at hDeletes
    subst hDeletes
    rw [List.reverse_cons, List.append_assoc]
    exact ih.trans (sameEnds_join false run other before.reverse after)
  | case8 run after other before hInserts ih =>
    subst hInserts
    rw [List.reverse_cons, List.append_assoc]
    exact ih.trans (sameEnds_join true run other before.reverse after)
  | case9 run after other before hDeletes ih =>
    rw [Bool.not_eq_true] at hDeletes
    subst hDeletes
    rw [List.reverse_cons, List.append_assoc]
    exact ih.trans (sameEnds_pass false run other before.reverse after)

/-- A run that is slid down does in its new place what it did in the old one. -/
theorem sameEnds_slideDown (before after : List (Edit α)) :
    SameEnds ((slideDown inserts run before after).script inserts)
      (before.reverse ++ changeRun inserts run :: after) := by
  fun_induction slideDown inserts run before after with
  | case1 run before => exact .refl _
  | case2 run before after ih => refine ih.trans ⟨?_, ?_⟩ <;> simp [old, new]
  | case3 before a kept after => exact .refl _
  | case4 before a kept after b rest hSlides ih =>
    obtain ⟨rfl, rfl⟩ := hSlides
    exact ih.trans (sameEnds_down rest kept a before after)
  | case5 before a kept after b rest hStays => exact .refl _
  | case6 run before other after hInserts ih =>
    subst hInserts
    rw [List.reverse_cons, List.append_assoc] at ih
    exact ih.trans (sameEnds_pass false other run before.reverse after)
  | case7 run before other after hDeletes ih =>
    rw [Bool.not_eq_true] at hDeletes
    subst hDeletes
    exact ih.trans (sameEnds_join false other run before.reverse after)
  | case8 run before other after hInserts ih =>
    subst hInserts
    exact ih.trans (sameEnds_join true other run before.reverse after)
  | case9 run before other after hDeletes ih =>
    rw [Bool.not_eq_true] at hDeletes
    subst hDeletes
    rw [List.reverse_cons, List.append_assoc] at ih
    exact ih.trans (sameEnds_pass true other run before.reverse after)

/-- A run that is slid up and then down is done, and the runs after it come next. -/
theorem SameEnds.of_slid {result before after : List (Edit α)}
    (h : let up := slideUp inserts run after before
      let down := slideDown inserts up.run up.before up.after
      SameEnds result ((changeRun inserts down.run :: down.before).reverse ++ down.after)) :
    SameEnds result (before.reverse ++ changeRun inserts run :: after) := by
  simp only [List.reverse_cons, List.append_assoc] at h
  have hDown := h.trans (sameEnds_slideDown inserts _ _ _)
  exact hDown.trans (sameEnds_slideUp inserts run after before)

/-- However many runs are slid, the script does what it did. -/
theorem sameEnds_slideAll (fuel : Nat) (done runs : List (Edit α)) :
    SameEnds (slideAll inserts fuel done runs) (done.reverse ++ runs) := by
  fun_induction slideAll inserts fuel done runs with
  | case1 done runs => exact .refl _
  | case2 fuel done =>
    rw [List.append_nil]
    exact .refl _
  | case3 fuel done runs slid run hDeletes ih =>
    subst hDeletes
    exact .of_slid false run (ih run)
  | case4 fuel done runs slid run hInserts ih =>
    subst hInserts
    exact .of_slid true run (ih run)
  | case5 fuel done runs edit hDelete hInsert hSlides ih =>
    rwa [List.reverse_cons, List.append_assoc] at ih

/-- A script with all runs slid turns the one sequence into the other. -/
theorem transforms_editScript (old new : List α) : Transforms (editScript old new) old new := by
  have hDeletes := (transforms_shortestScript old new).of_sameEnds
    (sameEnds_slideAll false (slideBound (shortestScript old new)) [] _)
  exact hDeletes.of_sameEnds (sameEnds_slideAll true _ [] _)

end ResourceTables
