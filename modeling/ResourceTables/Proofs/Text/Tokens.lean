import ResourceTables.Proofs.Identifier.Spelling
import ResourceTables.Proofs.Text.Literal
import ResourceTables.Proofs.Text.Takes
import ResourceTables.Text.Blank

/-!
# Reading tokens

Readers of the tokens of a source file: words, signs, numbers and literals, with blanks and comments
in front of them, and lists of what other readers read. A token is told from what follows it, so
what a reader takes may depend on the rest of the text.

## Main definitions

* `Reader.gap`, `Gap`: blanks and comments between tokens.
* `Reader.token`, `Reader.name`, `Reader.number`, `Reader.literal`: the tokens.
* `Reader.arrayOf`: so many items between brackets.
* `Reader.all`: items as long as there are any.

## Main results

* `Reader.takes_name`, `Reader.takes_number`, `Reader.takes_literal`: what is written is read.
* `Reader.takes_arrayOf`, `Reader.takes_all`: items are read one after the other.
-/

namespace ResourceTables.Text

variable {α β : Type}

/-! ## Blanks and comments -/

/-- What is left of a text without the blanks and comments at its front. The flag tells that a
comment has begun, which goes on to the end of its line. -/
def afterGap : Bool → List Char → List Char
  | _, [] => []
  | false, c :: rest =>
    if isBlank c then afterGap false rest
    else if c = '/' ∧ rest.head? = some '/' then afterGap true rest
    else c :: rest
  | true, c :: rest => afterGap (c != '\n') rest

/-- Blanks and comments, which may stand between two tokens. -/
inductive Gap : List Char → Prop where
  | nil : Gap []
  | blank {c : Char} {more : List Char} (hc : isBlank c = true) (h : Gap more) : Gap (c :: more)
  | comment {line more : List Char} (hLine : '\n' ∉ line) (h : Gap more) :
      Gap ('/' :: '/' :: (line ++ '\n' :: more))

theorem Gap.of_all {blanks : List Char} (h : blanks.all isBlank = true) : Gap blanks := by
  induction blanks with
  | nil => exact .nil
  | cons c blanks ih =>
    rw [List.all_cons, Bool.and_eq_true] at h
    exact .blank h.1 (ih h.2)

theorem Gap.append {gap further : List Char} (h : Gap gap) (hFurther : Gap further) :
    Gap (gap ++ further) := by
  induction h with
  | nil => exact hFurther
  | blank hc _ ih => exact .blank hc ih
  | comment hLine _ ih =>
    rw [List.cons_append, List.cons_append, List.append_assoc]
    exact .comment hLine ih

theorem afterGap_comment {line : List Char} (hLine : '\n' ∉ line) (rest : List Char) :
    afterGap true (line ++ '\n' :: rest) = afterGap false rest := by
  induction line with
  | nil => rfl
  | cons c line ih =>
    rw [List.mem_cons, not_or] at hLine
    have hMore : (c != '\n') = true := by simpa using Ne.symm hLine.1
    rw [List.cons_append, afterGap, hMore, ih hLine.2]

/-- A gap is passed over, with what follows it. -/
theorem Gap.afterGap_append {gap : List Char} (h : Gap gap) (rest : List Char) :
    afterGap false (gap ++ rest) = afterGap false rest := by
  induction h with
  | nil => rfl
  | blank hc _ ih => rw [List.cons_append, afterGap, if_pos hc, ih]
  | @comment line more hLine _ ih =>
    have hSlash : isBlank '/' = false := by decide
    have hRest : '/' :: '/' :: (line ++ '\n' :: more) ++ rest =
        '/' :: '/' :: (line ++ '\n' :: (more ++ rest)) := by
      simp
    rw [hRest, afterGap, hSlash, if_neg Bool.false_ne_true, if_pos ⟨rfl, rfl⟩, afterGap,
      show ('/' != '\n') = true from rfl, afterGap_comment hLine, ih]

/-- A token that begins with a letter, a digit or an underscore ends a gap. -/
theorem afterGap_of_isWordPart {c : Char} (h : isWordPart c = true) (rest : List Char) :
    afterGap false (c :: rest) = c :: rest := by
  have hBlank : isBlank c = false := by
    rw [isWordPart, Bool.or_eq_true, decide_eq_true_eq] at h
    rcases h with rfl | hLetter
    · decide
    · exact isBlank_of_isAlphanum hLetter
  have hSlash : c ≠ '/' := by
    rintro rfl
    exact absurd h (by decide)
  rw [afterGap, hBlank, if_neg Bool.false_ne_true, if_neg (by simp [hSlash])]

namespace Reader

/-! ## Tokens -/

/-- Blanks and comments. -/
def gap : Reader Unit :=
  fun text => some ((), afterGap false text)

/-- A word or a sign, with what may stand in front of it. -/
def token (expected : String) : Reader Unit := do
  gap
  if expected.toList.all isWordPart then
    let found ← takeWhile isWordPart
    if found = expected.toList then return () else failure
  else word expected

/-- Tokens one after the other. -/
def tokens (expected : List String) : Reader Unit :=
  expected.forM token

/-- The name of a type or a constant. -/
def name : Reader String := do
  gap
  return String.ofList (← takeWhile1 isWordPart)

/-- A whole number. -/
def number : Reader Nat := do
  gap
  return readDigits 10 (← takeWhile1 Char.isDigit)

/-- The inside of a literal, and its end. -/
def quoted : Reader (List Char) :=
  readQuoted .plain

/-- The text of a literal. -/
def literal : Reader String := do
  gap
  char '"'
  return String.ofList (← quoted)

/-- Tokens in two parts are read part by part. -/
theorem takes_tokens_append {front back : List String} {text others rest : List Char}
    (h : (tokens front).Takes text () (others ++ rest))
    (hBack : (tokens back).Takes others () rest) :
    (tokens (front ++ back)).Takes (text ++ others) () rest := by
  have hTokens : tokens (front ++ back) = tokens front >>= fun _ => tokens back :=
    List.forM_append
  rw [hTokens]
  exact h.bind hBack

/-- A token may have any gap in front of it. -/
theorem Takes.afterGap {next : Unit → Reader α} {between text rest : List Char} {result : α}
    (hGap : Gap between) (h : (gap >>= next).Takes text result rest) :
    (gap >>= next).Takes (between ++ text) result rest := by
  have hSame :
      Text.afterGap false (between ++ text ++ rest) = Text.afterGap false (text ++ rest) := by
    rw [List.append_assoc, hGap.afterGap_append]
  show next () (Text.afterGap false (between ++ text ++ rest)) = _
  rw [hSame]
  exact h

/-- A word is read up to the first character that cannot go on with it. -/
theorem takes_word {between : List Char} (hGap : Gap between) {front : List Char}
    (hNe : front ≠ []) {test : Char → Bool} (hTest : ∀ c, test c = true → isWordPart c = true)
    (hFront : ∀ c ∈ front, test c = true) {f : List Char → α} {c : Char} (hc : test c = false)
    (rest : List Char) :
    (gap >>= fun _ => takeWhile1 test >>= fun found => pure (f found)).Takes (between ++ front)
      (f front) (c :: rest) := by
  refine Takes.afterGap hGap ?_
  have hGap : gap.Takes [] () (front ++ c :: rest) := by
    cases front with
    | nil => exact absurd rfl hNe
    | cons first front =>
      show some ((), Text.afterGap false _) = _
      rw [List.nil_append, List.cons_append,
        afterGap_of_isWordPart (hTest first (hFront first List.mem_cons_self))]
  exact hGap.bind ((takes_takeWhile1 hNe hFront hc rest).bind_nil (takes_pure _ _))

theorem takes_name {between : List Char} (hGap : Gap between) {own : String}
    (hOwn : isIdentifier own = true) {c : Char} (hc : isWordPart c = false) (rest : List Char) :
    name.Takes (between ++ own.toList) own (c :: rest) := by
  have hNe : own.toList ≠ [] := by
    intro hNil
    rw [isIdentifier, hNil] at hOwn
    cases hOwn
  have hName := takes_word (f := String.ofList) hGap hNe (fun _ h => h)
    (fun c h => isWordPart_of_mem_identifier hOwn h) hc rest
  rwa [String.ofList_toList] at hName

theorem takes_number {between : List Char} (hGap : Gap between) (n : Nat) {c : Char}
    (hc : c.isDigit = false) (rest : List Char) :
    number.Takes (between ++ (toString n).toList) n (c :: rest) := by
  have hDigit : ∀ digit < 10, (Nat.digitChar digit).isDigit = true := by decide
  have hNumber := takes_word (f := readDigits 10) hGap Nat.toDigits_ne_nil
    (fun c h => by simp [isWordPart, Char.isAlphanum, h])
    (forall_mem_toDigits (p := fun c => c.isDigit = true) (by decide) hDigit n) hc rest
  rw [readDigits_toDigits (by decide)] at hNumber
  rwa [Nat.toString_eq_ofList_toDigits, String.toList_ofList]

/-- A literal is read as the text that it was made from, whatever it shows and whatever follows. -/
theorem takes_literal {between : List Char} (hGap : Gap between) (shown : Char → Bool)
    (text : String) (rest : List Char) :
    literal.Takes (between ++ (quote shown text).toList) text rest := by
  refine Takes.afterGap hGap ?_
  have hQuoted : quoted.Takes (escape shown text.toList ++ ['"']) text.toList rest := by
    rw [Takes, List.append_assoc]
    exact readQuoted_escape shown text.toList rest
  have hInside : (quoted >>= fun inside => pure (String.ofList inside)).Takes _
      (String.ofList text.toList) rest := hQuoted.bind_nil (takes_pure _ rest)
  rw [String.ofList_toList] at hInside
  rw [quote, String.toList_ofList]
  exact hInside

/-! ## Lists -/

/-- A comma, which may be left out at the end of a list. -/
def comma (last : Bool) : Reader Unit :=
  if last then token "," <|> pure () else token ","

/-- So many items, parted by commas. -/
def items (item : Reader α) : (count : Nat) → Reader (List α)
  | 0 => pure []
  | count + 1 => do
    let first ← item
    comma (count == 0)
    return first :: (← items item count)

/-- So many items between brackets. -/
def arrayOf (item : Reader α) (count : Nat) : Reader (List α) := do
  token "["
  let found ← items item count
  token "]"
  return found

/-- Items as long as there are any, of which there are at most `fuel`. -/
def many (item : Reader α) : (fuel : Nat) → Reader (List α)
  | 0 => pure []
  | fuel + 1 => (do
      let first ← item
      return first :: (← many item fuel)) <|> pure []

/-- Items as long as there are any. -/
def all (item : Reader α) : Reader (List α) :=
  fun text => many item text.length text

section Items

variable {item : Reader α} {spell : α → List Char} {xs : List α}

theorem takes_comma (last : Bool) (rest : List Char) : (comma last).Takes [','] () rest := by
  have hToken : (token ",").Takes [','] () rest := by rfl
  cases last with
  | false => exact hToken
  | true => exact hToken.orElse

/-- Items with a comma after each of them are read one after the other. -/
theorem takes_items_of_commas {written : List β} {spell : β → List Char} {read : β → α}
    (hItem : ∀ y ∈ written, ∀ rest, item.Takes (spell y) (read y) rest) (rest : List Char) :
    (items item written.length).Takes (written.flatMap fun y => spell y ++ [','])
      (written.map read) rest := by
  induction written with
  | nil => exact takes_pure [] rest
  | cons y written ih =>
    obtain ⟨hFirst, hOthers⟩ := List.forall_mem_cons.mp hItem
    rw [List.flatMap_cons, List.append_assoc]
    exact (hFirst _).bind ((takes_comma _ _).bind ((ih hOthers).bind_nil (takes_pure _ rest)))

/-- Items are read as long as there are any. -/
theorem takes_many (hItem : ∀ x ∈ xs, ∀ rest, item.Takes (spell x) x rest) {rest : List Char}
    (hRest : item rest = none) {fuel : Nat} (hFuel : xs.length ≤ fuel) :
    (many item fuel).Takes (xs.flatMap spell) xs rest := by
  induction xs generalizing fuel with
  | nil =>
    cases fuel with
    | zero => exact takes_pure [] rest
    | succ fuel =>
      exact takes_orElse (bind_eq_none hRest) (takes_pure [] rest)
  | cons x xs ih =>
    obtain ⟨hFirst, hOthers⟩ := List.forall_mem_cons.mp hItem
    cases fuel with
    | zero => exact absurd hFuel (Nat.not_succ_le_zero _)
    | succ fuel =>
      have hLater := ih hOthers (Nat.le_of_succ_le_succ hFuel)
      rw [List.flatMap_cons]
      refine Takes.orElse ?_
      exact (hFirst _).bind (hLater.bind_nil (takes_pure _ rest))

/-- Each item takes something, so there are no more of them than characters. -/
theorem takes_all (hItem : ∀ x ∈ xs, ∀ rest, item.Takes (spell x) x rest)
    (hSpell : ∀ x ∈ xs, spell x ≠ []) {rest : List Char} (hRest : item rest = none) :
    (all item).Takes (xs.flatMap spell) xs rest := by
  refine takes_many hItem hRest ?_
  have hLength : xs.length ≤ (xs.flatMap spell).length := by
    clear hItem
    induction xs with
    | nil => exact Nat.le_refl 0
    | cons x xs ih =>
      obtain ⟨hFirst, hOthers⟩ := List.forall_mem_cons.mp hSpell
      have hSome := List.length_pos_iff.mpr hFirst
      have hRest := ih hOthers
      rw [List.flatMap_cons, List.length_append, List.length_cons]
      omega
  rw [List.length_append]
  omega

end Items

/-- The literals of texts, parted by a comma and a space, are read as the texts. -/
theorem takes_items_literal {between : List Char} (hGap : Gap between) (shown : Char → Bool)
    (text : String) (texts : List String) (rest : List Char) :
    (items literal (text :: texts).length).Takes
      (between ++ (", ".intercalate ((text :: texts).map (quote shown))).toList) (text :: texts)
      (']' :: rest) := by
  induction texts generalizing between text with
  | nil =>
    -- After the last literal there is no comma, but the bracket.
    have hEnd : (comma true).Takes [] () (']' :: rest) := by rfl
    rw [List.map_singleton, String.intercalate_singleton]
    exact (takes_literal hGap shown text _).bind_nil (hEnd.bind_nil (takes_pure _ _))
  | cons next texts ih =>
    have hSpace : Gap [' '] := .of_all (by decide)
    rw [List.map_cons, List.map_cons, String.intercalate_cons_cons, ← List.map_cons]
    have hText :
        between ++ (quote shown text ++ ", " ++
            ", ".intercalate ((next :: texts).map (quote shown))).toList =
          (between ++ (quote shown text).toList) ++
            ([','] ++
              ([' '] ++ (", ".intercalate ((next :: texts).map (quote shown))).toList)) := by
      simp only [String.toList_append, List.append_assoc]
      rfl
    rw [hText]
    exact (takes_literal hGap shown text _).bind
      ((takes_comma _ _).bind ((ih hSpace next).bind_nil (takes_pure _ _)))

/-- As `takes_items_literal`, for any texts. -/
theorem takes_items_intercalate (shown : Char → Bool) (texts : List String) (rest : List Char) :
    (items literal texts.length).Takes (", ".intercalate (texts.map (quote shown))).toList texts
      (']' :: rest) := by
  cases texts with
  | nil => exact takes_pure [] _
  | cons text texts => exact takes_items_literal .nil shown text texts rest

/-- An array is read if its items are, up to the bracket that closes it. -/
theorem takes_arrayOf {item : Reader α} {count : Nat} {xs : List α}
    {between inside closing : List Char} (hGap : Gap between) (hClosing : Gap closing)
    {rest : List Char} (hItems : (items item count).Takes inside xs (closing ++ ']' :: rest)) :
    (arrayOf item count).Takes (between ++ '[' :: (inside ++ (closing ++ [']']))) xs rest := by
  have hOpen : ∀ rest, (token "[").Takes ['['] () rest := by
    intro rest
    rfl
  have hClose : (token "]").Takes [']'] () rest := by rfl
  have hText : between ++ '[' :: (inside ++ (closing ++ [']'])) =
      (between ++ ['[']) ++ (inside ++ (closing ++ [']'])) := by simp
  rw [hText]
  refine Takes.bind (Takes.afterGap hGap (hOpen _)) ?_
  refine Takes.bind ?_ (Takes.bind_nil (Takes.afterGap hClosing hClose) (takes_pure _ _))
  rw [List.append_assoc]
  exact hItems

end Reader

end ResourceTables.Text
