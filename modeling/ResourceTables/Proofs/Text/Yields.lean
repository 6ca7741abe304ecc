import ResourceTables.Text.Reader

/-!
# What readers yield

A reader yields results with a property if every result it takes off the front of any text has it.
The rules follow the ways in which readers are combined.

## Main definitions

* `Reader.Yields`: every result of a reader has a property.
-/

namespace ResourceTables.Text.Reader

variable {α β : Type} {p : α → Prop} {q : β → Prop}

/-- Every result of a reader has a property. -/
def Yields (reader : Reader α) (p : α → Prop) : Prop :=
  ∀ text rest result, reader text = some (result, rest) → p result

theorem yields_of_forall (reader : Reader α) (h : ∀ result, p result) : reader.Yields p :=
  fun _ _ result _ => h result

theorem yields_pure {result : α} (h : p result) : (pure result : Reader α).Yields p := by
  intro text rest other hRead
  cases hRead
  exact h

theorem yields_failure : (failure : Reader α).Yields p := by
  intro text rest result hRead
  cases hRead

/-- Of two readers the second has what the results of the first promise it. -/
theorem Yields.bind {reader : Reader α} {next : α → Reader β} (hFirst : reader.Yields p)
    (hNext : ∀ result, p result → (next result).Yields q) : (reader >>= next).Yields q := by
  intro text rest result hRead
  obtain ⟨⟨first, left⟩, hTaken, hLeft⟩ := Option.bind_eq_some_iff.mp hRead
  exact hNext first (hFirst _ _ _ hTaken) _ _ _ hLeft

/-- As `Yields.bind`, if nothing is known of what comes first. -/
theorem yields_bind {reader : Reader α} {next : α → Reader β}
    (hNext : ∀ result, (next result).Yields q) : (reader >>= next).Yields q :=
  (yields_of_forall reader fun _ => trivial : reader.Yields fun _ => True).bind
    fun result _ => hNext result

theorem Yields.map {reader : Reader α} {f : α → β} (h : reader.Yields fun result => q (f result)) :
    (f <$> reader).Yields q := by
  intro text rest result hRead
  obtain ⟨⟨first, left⟩, hTaken, hEq⟩ := Option.bind_eq_some_iff.mp hRead
  cases hEq
  exact h _ _ _ hTaken

theorem Yields.orElse {first second : Reader α} (hFirst : first.Yields p)
    (hSecond : second.Yields p) : (first <|> second).Yields p := by
  intro text rest result hRead
  have hEither : (first text <|> second text) = some (result, rest) := hRead
  cases hTaken : first text with
  | some taken =>
    rw [hTaken] at hEither
    exact hFirst _ _ _ (hTaken.trans hEither)
  | none =>
    rw [hTaken] at hEither
    exact hSecond _ _ _ hEither

theorem Yields.ite {c : Prop} [Decidable c] {first second : Reader α}
    (hFirst : c → first.Yields p) (hSecond : ¬c → second.Yields p) :
    (if c then first else second).Yields p := by
  split
  · next h => exact hFirst h
  · next h => exact hSecond h

theorem Yields.of_run? {reader : Reader α} (h : reader.Yields p) {text : List Char} {result : α}
    (hRun : reader.run? text = some result) : p result := by
  obtain ⟨⟨first, rest⟩, hRead, rfl⟩ := Option.map_eq_some_iff.mp hRun
  exact h _ _ _ hRead

end ResourceTables.Text.Reader
