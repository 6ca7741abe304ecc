import ResourceTables.Text.Reader

/-!
# What readers take

What is said of a reader is what it takes off the front of a text and what it leaves behind. This is
put together as the reader is put together from others, while the text is put together from what
each of them takes.

## Main definitions

* `Reader.Takes`: a reader takes a result off the front of a text.

## Main results

* `Reader.Takes.bind`: of two readers the second takes what the first has left.
* `Reader.takes_given`, `Reader.takes_takeWhile`, `Reader.takes_upTo`: words and fronts are taken as
  they stand.
-/

namespace ResourceTables.Text.Reader

variable {α β : Type}

/-- A reader takes a result off the front of a text, and leaves what comes after it. -/
def Takes (reader : Reader α) (text : List Char) (result : α) (rest : List Char) : Prop :=
  reader (text ++ rest) = some (result, rest)

theorem takes_pure (result : α) (rest : List Char) :
    (pure result : Reader α).Takes [] result rest :=
  rfl

/-- Of two readers the second takes what the first has left. -/
theorem Takes.bind {reader : Reader α} {next : α → Reader β} {text further rest : List Char}
    {first : α} {result : β} (h : reader.Takes text first (further ++ rest))
    (hNext : (next first).Takes further result rest) :
    (reader >>= next).Takes (text ++ further) result rest := by
  have hRead : reader (text ++ further ++ rest) = some (first, further ++ rest) := by
    rw [List.append_assoc]
    exact h
  show (reader (text ++ further ++ rest)).bind _ = _
  rw [hRead]
  exact hNext

/-- What is only made of a result takes nothing. -/
theorem Takes.bind_nil {reader : Reader α} {next : α → Reader β} {text rest : List Char} {first : α}
    {result : β} (h : reader.Takes text first rest) (hNext : (next first).Takes [] result rest) :
    (reader >>= next).Takes text result rest := by
  have hBoth : (reader >>= next).Takes (text ++ []) result rest := Takes.bind h hNext
  rwa [List.append_nil] at hBoth

theorem Takes.orElse {first second : Reader α} {text rest : List Char} {result : α}
    (h : first.Takes text result rest) : (first <|> second).Takes text result rest := by
  show (first (text ++ rest) <|> second (text ++ rest)) = _
  rw [h]
  rfl

theorem takes_orElse {first second : Reader α} {text rest : List Char} {result : α}
    (hFirst : first (text ++ rest) = none) (hSecond : second.Takes text result rest) :
    (first <|> second).Takes text result rest := by
  show (first (text ++ rest) <|> second (text ++ rest)) = _
  rw [hFirst, hSecond]
  rfl

/-- A sequence is refused if its first reader refuses. -/
theorem bind_eq_none {reader : Reader α} {next : α → Reader β} {text : List Char}
    (h : reader text = none) : (reader >>= next) text = none := by
  show (reader text).bind _ = none
  rw [h]
  rfl

/-- A given word is taken where it stands. -/
theorem takes_given (expected : String) (rest : List Char) :
    (word expected).Takes expected.toList () rest := by
  have hChars : ∀ front : List Char, (front.forM char).Takes front () rest := by
    intro front
    induction front with
    | nil => exact takes_pure () rest
    | cons c front ih =>
      have hFirst : (char c).Takes [c] () (front ++ rest) := by
        have hSame : satisfy (· == c) (c :: (front ++ rest)) = some (c, front ++ rest) :=
          if_pos (beq_self_eq_true c)
        show (satisfy (· == c) (c :: (front ++ rest))).bind _ = _
        rw [hSame]
        rfl
      exact Takes.bind hFirst ih
  exact hChars expected.toList

/-- The longest front that passes a test is taken up to the first character that does not. -/
theorem takes_takeWhile {test : Char → Bool} {front : List Char}
    (hFront : ∀ c ∈ front, test c = true) {c : Char} (hc : test c = false) (rest : List Char) :
    (takeWhile test).Takes front front (c :: rest) := by
  have hTake : (front ++ c :: rest).takeWhile test = front := by
    rw [List.takeWhile_append_of_pos hFront, List.takeWhile_cons_of_neg (by simp [hc]),
      List.append_nil]
  have hDrop : (front ++ c :: rest).dropWhile test = c :: rest := by
    rw [List.dropWhile_append_of_pos hFront, List.dropWhile_cons_of_neg (by simp [hc])]
  rw [Takes, takeWhile, hTake, hDrop]

/-- A front is taken up to the first occurrence of a character. -/
theorem takes_upTo {c : Char} {front : List Char} (h : c ∉ front) (rest : List Char) :
    (takeWhile (· != c)).Takes front front (c :: rest) := by
  have hFront : ∀ d ∈ front, (d != c) = true := by
    intro d hd
    rw [bne_iff_ne]
    rintro rfl
    exact h hd
  exact takes_takeWhile hFront (by simp) rest

theorem takes_takeWhile1 {test : Char → Bool} {front : List Char} (hNe : front ≠ [])
    (hFront : ∀ c ∈ front, test c = true) {c : Char} (hc : test c = false) (rest : List Char) :
    (takeWhile1 test).Takes front front (c :: rest) := by
  refine (takes_takeWhile hFront hc rest).bind_nil ?_
  have hSome : front.isEmpty = false := by simpa using hNe
  rw [hSome]
  exact takes_pure front (c :: rest)

end ResourceTables.Text.Reader
