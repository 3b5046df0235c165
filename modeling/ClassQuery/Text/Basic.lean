/-!
Texts and byte strings, their lines and blanks, and the search for a word inside a text.

A text is the list of its characters and a byte string the list of its bytes, so that cutting,
joining and comparing them are the list operations and their laws. A stream is cut after each
separator, so its pieces put together are the stream again. The lines of a text are its pieces
without their line feed and one carriage return before it; a carriage return anywhere else stays.
-/

set_option autoImplicit false
set_option relaxedAutoImplicit false

namespace ClassQuery

abbrev Text := List Char

abbrev Bytes := List UInt8

namespace Text

def digit (n : Nat) : Char := Char.ofNat (48 + n)

def decimal (n : Nat) : Text :=
  if n < 10 then [digit n] else decimal (n / 10) ++ [digit (n % 10)]

def digitValue? (c : Char) : Option Nat :=
  if 48 ≤ c.toNat ∧ c.toNat ≤ 57 then some (c.toNat - 48) else none

/-- Looks for a word, given its last character and what stands where that character would be. The
two texts move on together, so a place is left as soon as the last character is another one, and
the search ends where the word would go past the end. -/
def seek (word : Text) (last : Char) : Text → Text → Option Text
  | _, [] => none
  | near, c :: far =>
    if c == last && word.isPrefixOf near then some far else seek word last near.tail far

/-- What follows the first occurrence of a word, if the word occurs at all. -/
def after? (word text : Text) : Option Text :=
  match word.getLast? with
  | none => some text
  | some last => seek word last text (text.drop (word.length - 1))

def occursIn (word text : Text) : Bool := (after? word text).isSome

theorem after?_nil (word : Text) : after? word [] = if word.isEmpty then some [] else none := by
  cases word with
  | nil => rfl
  | cons c rest => simp [after?, seek, List.getLast?_cons]

private theorem drop_of_prefix {word text : Text} {last : Char} (hl : word.getLast? = some last)
    (hp : word <+: text) : text.drop (word.length - 1) = last :: text.drop word.length := by
  obtain ⟨front, rfl⟩ := List.getLast?_eq_some_iff.mp hl
  obtain ⟨more, rfl⟩ := hp
  simp

theorem after?_cons (word : Text) (c : Char) (rest : Text) :
    after? word (c :: rest) =
      if word.isPrefixOf (c :: rest) then some ((c :: rest).drop word.length)
      else after? word rest := by
  cases hl : word.getLast? with
  | none =>
    obtain rfl : word = [] := List.getLast?_eq_none_iff.mp hl
    simp [after?]
  | some last =>
    have hm : word.length = word.length - 1 + 1 := by
      cases word with
      | nil => cases hl
      | cons _ _ => rfl
    have hrest : (c :: rest).drop word.length = rest.drop (word.length - 1) := by
      rw [hm]
      rfl
    have htail : ((c :: rest).drop (word.length - 1)).tail = rest.drop (word.length - 1) := by
      rw [List.tail_drop, ← hm, hrest]
    simp only [after?, hl]
    by_cases hp : word.isPrefixOf (c :: rest) = true
    · have hd := drop_of_prefix hl (List.isPrefixOf_iff_prefix.mp hp)
      rw [if_pos hp, hd, seek, if_pos (by simp [hp])]
    · rw [if_neg hp]
      generalize (c :: rest).drop (word.length - 1) = far at htail
      cases far with
      | nil =>
        rw [← htail]
        rfl
      | cons d far =>
        rw [seek, if_neg (by simp [hp]), List.tail_cons, ← htail, List.tail_cons]

theorem occursIn_iff (word text : Text) : occursIn word text = true ↔ word <:+: text := by
  induction text with
  | nil => cases word <;> simp [occursIn, after?_nil]
  | cons c rest ih =>
    rw [List.infix_cons_iff, ← ih, occursIn, occursIn, after?_cons]
    by_cases h : word.isPrefixOf (c :: rest) = true
    · simp [h, List.isPrefixOf_iff_prefix.mp h]
    · have hn : ¬ word <+: c :: rest := fun hp => h (List.isPrefixOf_iff_prefix.mpr hp)
      simp [h, hn]

end Text

end ClassQuery

/-! ### Lines -/

namespace ClassQuery.Lines

variable {α : Type} [DecidableEq α]

def pushFront (sep a : α) (pieces : List (List α)) : List (List α) :=
  if a = sep then [a] :: pieces
  else match pieces with
    | [] => [[a]]
    | piece :: more => (a :: piece) :: more

/-- The pieces of a stream, cut after each separator. Only the last may lack one. -/
def pieces (sep : α) (stream : List α) : List (List α) := stream.foldr (pushFront sep) []

def takePiece (sep : α) (stream : List α) : Option (List α × List α) :=
  let body := stream.takeWhile (· ≠ sep)
  match stream.dropWhile (· ≠ sep) with
  | [] => if body.isEmpty then none else some (body, [])
  | a :: rest => some (body ++ [a], rest)

/-- A piece without its line feed and one carriage return before it. A piece without a line feed
is kept as it is. -/
def stripEnd (piece : Text) : Text :=
  match piece.reverse with
  | '\n' :: '\r' :: body => body.reverse
  | '\n' :: body => body.reverse
  | _ => piece

/-- The lines of a text. A final line feed opens no further line. -/
def ofText (text : Text) : List Text := (pieces '\n' text).map stripEnd

def trimBreaks (text : Text) : Text :=
  (text.reverse.dropWhile fun c => c = '\n' ∨ c = '\r').reverse

theorem pieces_nil (sep : α) : pieces sep [] = [] := rfl

theorem pieces_cons (sep a : α) (stream : List α) :
    pieces sep (a :: stream) = pushFront sep a (pieces sep stream) := rfl

private theorem flatten_pushFront (sep a : α) (cut : List (List α)) :
    (pushFront sep a cut).flatten = a :: cut.flatten := by
  by_cases h : a = sep
  · simp [pushFront, h]
  · cases cut <;> simp [pushFront, h]

theorem flatten_pieces (sep : α) (stream : List α) : (pieces sep stream).flatten = stream := by
  induction stream with
  | nil => rfl
  | cons a rest ih => rw [pieces_cons, flatten_pushFront, ih]

end ClassQuery.Lines

/-! ### Blanks -/

namespace ClassQuery.Blank

/-- The ranges of code points with the property White_Space, both ends included. -/
def ranges : List (Nat × Nat) :=
  [(0x9, 0xD), (0x20, 0x20), (0x85, 0x85), (0xA0, 0xA0), (0x1680, 0x1680), (0x2000, 0x200A),
   (0x2028, 0x2029), (0x202F, 0x202F), (0x205F, 0x205F), (0x3000, 0x3000)]

def isBlank (c : Char) : Bool := ranges.any fun r => r.1 ≤ c.toNat && c.toNat ≤ r.2

def trim (text : Text) : Text :=
  ((text.dropWhile isBlank).reverse.dropWhile isBlank).reverse

theorem dropWhile_of_blank {text : Text} (blank : ∀ c ∈ text, isBlank c = true) :
    text.dropWhile isBlank = [] := by
  rw [← List.append_nil text, List.dropWhile_append_of_pos blank]
  rfl

theorem dropWhile_of_filled {text : Text} (filled : ∀ c ∈ text, isBlank c = false) :
    text.dropWhile isBlank = text := by
  cases text with
  | nil => rfl
  | cons c rest => rw [List.dropWhile_cons_of_neg (by simp [filled c])]

theorem trim_append {before text behind : Text} (front : ∀ c ∈ before, isBlank c = true)
    (back : ∀ c ∈ behind, isBlank c = true) (filled : ∀ c ∈ text, isBlank c = false) :
    trim (before ++ text ++ behind) = text := by
  have turned : ∀ c ∈ behind.reverse, isBlank c = true := by simpa using back
  rw [trim, List.append_assoc, List.dropWhile_append_of_pos front]
  cases text with
  | nil =>
    rw [List.nil_append, dropWhile_of_blank back]
    rfl
  | cons c rest =>
    have mirrored : ∀ d ∈ (c :: rest).reverse, isBlank d = false := fun d member =>
      filled d (List.mem_reverse.mp member)
    rw [List.cons_append, List.dropWhile_cons_of_neg (by simp [filled c]), ← List.cons_append,
      List.reverse_append, List.dropWhile_append_of_pos turned, dropWhile_of_filled mirrored,
      List.reverse_reverse]

theorem exists_trim (text : Text) : ∃ before behind, text = before ++ trim text ++ behind ∧
    (∀ c ∈ before, isBlank c = true) ∧ ∀ c ∈ behind, isBlank c = true := by
  refine ⟨text.takeWhile isBlank, ((text.dropWhile isBlank).reverse.takeWhile isBlank).reverse,
    ?_, ?_, ?_⟩
  · rw [trim, List.append_assoc, ← List.reverse_append, List.takeWhile_append_dropWhile,
      List.reverse_reverse, List.takeWhile_append_dropWhile]
  · exact fun c member => List.all_eq_true.mp List.all_takeWhile c member
  · intro c member
    exact List.all_eq_true.mp List.all_takeWhile c (List.mem_reverse.mp member)

end ClassQuery.Blank
