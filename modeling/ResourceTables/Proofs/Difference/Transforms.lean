import ResourceTables.Difference.Shortest

/-!
# What a script turns into what

A script is valid for two sequences if what stays and what goes is the one, and what stays and what
comes is the other. This is all that its counts depend on: what goes is counted in the one sequence,
what comes in the other, and the rest is the same. A shortest script is valid for the sequences it
was made for.

## Main definitions

* `Transforms`: a script turns one sequence into another.

## Main results

* `Transforms.length_eq`, `Transforms.one_le_counts`: what the counts of a script say.
* `transforms_shortestScript`: a shortest script turns the one sequence into the other.
-/

namespace ResourceTables

variable {α : Type} {script front back : List (Edit α)} {old new old' new' : List α}

namespace Edit

@[simp] theorem olds_nil : olds ([] : List (Edit α)) = [] := rfl

@[simp] theorem news_nil : news ([] : List (Edit α)) = [] := rfl

@[simp] theorem olds_cons (edit : Edit α) (script : List (Edit α)) :
    olds (edit :: script) = edit.old ++ olds script := rfl

@[simp] theorem news_cons (edit : Edit α) (script : List (Edit α)) :
    news (edit :: script) = edit.new ++ news script := rfl

@[simp] theorem olds_append (front back : List (Edit α)) :
    olds (front ++ back) = olds front ++ olds back :=
  List.flatMap_append

@[simp] theorem news_append (front back : List (Edit α)) :
    news (front ++ back) = news front ++ news back :=
  List.flatMap_append

end Edit

open Edit

/-- A script turns one sequence into another: what stays and what goes, in order, is the one, and
what stays and what comes is the other. -/
structure Transforms (script : List (Edit α)) (old new : List α) : Prop where
  olds : olds script = old
  news : news script = new

namespace Transforms

theorem nil : Transforms ([] : List (Edit α)) [] [] :=
  ⟨rfl, rfl⟩

theorem delete (run : List α) : Transforms [.delete run] run [] :=
  ⟨List.append_nil run, rfl⟩

theorem insert (run : List α) : Transforms [.insert run] [] run :=
  ⟨rfl, List.append_nil run⟩

theorem replace (old new : List α) : Transforms [.delete old, .insert new] old new :=
  ⟨List.append_nil old, List.append_nil new⟩

theorem keep (run : List α) : Transforms (keepRun run) run run := by
  cases run with
  | nil => exact nil
  | cons a rest => exact ⟨List.append_nil _, List.append_nil _⟩

/-- Two scripts, one after the other, do what each does. -/
theorem append (h : Transforms front old new) (h' : Transforms back old' new') :
    Transforms (front ++ back) (old ++ old') (new ++ new') := by
  refine ⟨?_, ?_⟩
  · rw [olds_append, h.olds, h'.olds]
  · rw [news_append, h.news, h'.news]

end Transforms

/-! ## Counts -/

@[simp] theorem insertions_keep (run : List α) (script : List (Edit α)) :
    insertions (.keep run :: script) = insertions script := rfl

@[simp] theorem insertions_delete (run : List α) (script : List (Edit α)) :
    insertions (.delete run :: script) = insertions script := rfl

@[simp] theorem insertions_insert (run : List α) (script : List (Edit α)) :
    insertions (.insert run :: script) = run.length + insertions script :=
  List.length_append

@[simp] theorem deletions_keep (run : List α) (script : List (Edit α)) :
    deletions (.keep run :: script) = deletions script := rfl

@[simp] theorem deletions_delete (run : List α) (script : List (Edit α)) :
    deletions (.delete run :: script) = run.length + deletions script :=
  List.length_append

@[simp] theorem deletions_insert (run : List α) (script : List (Edit α)) :
    deletions (.insert run :: script) = deletions script := rfl

/-- What goes is there before. -/
theorem deletions_le (script : List (Edit α)) : deletions script ≤ (olds script).length := by
  induction script with
  | nil => exact Nat.zero_le _
  | cons edit script ih =>
    rw [olds_cons, List.length_append]
    cases edit with
    | keep run => exact Nat.le_add_left_of_le ih
    | delete run =>
      rw [deletions_delete]
      exact Nat.add_le_add_left ih run.length
    | insert run => exact Nat.le_add_left_of_le ih

/-- What is there after but for what comes, and what is there before but for what goes, is what
stays. -/
theorem length_news_add_deletions (script : List (Edit α)) :
    (news script).length + deletions script = (olds script).length + insertions script := by
  induction script with
  | nil => rfl
  | cons edit script ih =>
    rw [olds_cons, news_cons, List.length_append, List.length_append]
    cases edit with
    | keep run =>
      simp only [old, new, deletions_keep, insertions_keep]
      omega
    | delete run =>
      simp only [old, new, deletions_delete, insertions_delete, List.length_nil]
      omega
    | insert run =>
      simp only [old, new, deletions_insert, insertions_insert, List.length_nil]
      omega

/-- Where nothing goes and nothing comes, all stays. -/
theorem olds_eq_news (hInsertions : insertions script = 0) (hDeletions : deletions script = 0) :
    olds script = news script := by
  induction script with
  | nil => rfl
  | cons edit script ih =>
    rw [olds_cons, news_cons]
    cases edit with
    | keep run => exact congrArg (run ++ ·) (ih hInsertions hDeletions)
    | delete run =>
      rw [deletions_delete, Nat.add_eq_zero_iff, List.length_eq_zero_iff] at hDeletions
      obtain ⟨rfl, hRest⟩ := hDeletions
      exact ih hInsertions hRest
    | insert run =>
      rw [insertions_insert, Nat.add_eq_zero_iff, List.length_eq_zero_iff] at hInsertions
      obtain ⟨rfl, hRest⟩ := hInsertions
      exact ih hRest hDeletions

namespace Transforms

theorem deletions_le_length (h : Transforms script old new) : deletions script ≤ old.length :=
  h.olds ▸ deletions_le script

/-- The counts of a script lead from the one length to the other. -/
theorem length_eq (h : Transforms script old new) :
    new.length = old.length - deletions script + insertions script := by
  have hCounts := length_news_add_deletions script
  have hLe := h.deletions_le_length
  rw [h.olds, h.news] at hCounts
  omega

/-- A script between sequences that differ counts something. -/
theorem one_le_counts (h : Transforms script old new) (hDiffer : old ≠ new) :
    1 ≤ insertions script + deletions script := by
  refine Nat.one_le_iff_ne_zero.mpr fun hNone => hDiffer ?_
  obtain ⟨hInsertions, hDeletions⟩ := Nat.add_eq_zero_iff.mp hNone
  rw [← h.olds, ← h.news]
  exact olds_eq_news hInsertions hDeletions

end Transforms

/-! ## Shortest scripts -/

variable [DecidableEq α]

theorem stripFront_append (old new : List α) :
    (stripFront old new).1 ++ (stripFront old new).2.1 = old ∧
      (stripFront old new).1 ++ (stripFront old new).2.2 = new := by
  induction old generalizing new with
  | nil => exact ⟨rfl, rfl⟩
  | cons a old ih =>
    cases new with
    | nil => exact ⟨rfl, rfl⟩
    | cons b new =>
      by_cases h : a = b
      · subst h
        obtain ⟨hOld, hNew⟩ := ih new
        simp only [stripFront, if_true, List.cons_append]
        exact ⟨congrArg (a :: ·) hOld, congrArg (a :: ·) hNew⟩
      · rw [stripFront, if_neg h]
        exact ⟨rfl, rfl⟩

theorem append_stripBack (old new : List α) :
    (stripBack old new).2.1 ++ (stripBack old new).1 = old ∧
      (stripBack old new).2.2 ++ (stripBack old new).1 = new := by
  obtain ⟨hOld, hNew⟩ := stripFront_append old.reverse new.reverse
  simp only [stripBack]
  rw [← List.reverse_append, ← List.reverse_append, hOld, hNew, List.reverse_reverse,
    List.reverse_reverse]
  exact ⟨rfl, rfl⟩

/-- Wherever the middle is taken to be, a shortest script turns the one sequence into the other. -/
theorem transforms_shortestScript (old new : List α) :
    Transforms (shortestScript old new) old new := by
  fun_induction shortestScript old new with
  | case1 old new stripped inner oldCore newCore core ihFront ihBack =>
    have hFront : stripped.1 ++ stripped.2.1 = old ∧ stripped.1 ++ stripped.2.2 = new :=
      stripFront_append old new
    have hBack : oldCore ++ inner.1 = stripped.2.1 ∧ newCore ++ inner.1 = stripped.2.2 :=
      append_stripBack stripped.2.1 stripped.2.2
    have hCore : Transforms core oldCore newCore := by
      unfold core
      -- Where the halves come from does not matter, only that each half has a script.
      clear hBack
      clear_value oldCore newCore
      split
      · exact .nil
      · exact .delete _
      · exact .insert _
      · split
        · exact .replace _ _
        · next x y _ =>
          split
          · next hShorter =>
            have hParts := (ihFront x y hShorter).append (ihBack x y hShorter)
            rwa [List.take_append_drop, List.take_append_drop] at hParts
          · exact .replace _ _
    have hAll := (Transforms.keep stripped.1).append (hCore.append (.keep inner.1))
    rw [hBack.1, hBack.2, ← List.append_assoc] at hAll
    exact ⟨hAll.olds.trans hFront.1, hAll.news.trans hFront.2⟩

end ResourceTables
