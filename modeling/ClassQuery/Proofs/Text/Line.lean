import ClassQuery.Text.Basic
import Mathlib.Data.List.Basic
import Mathlib.Data.List.Infix
import Mathlib.Data.List.TakeWhile

/-!
Occurrences of a word in a text, and where the lines of a text stand.

The search for a word stops at its first occurrence, so that what follows is the longest tail that
any occurrence leaves. A text is a line without a line feed, or such a line, a line feed and another
text; its lines are cut off one by one in this way. Main statements: the line of a number is what
stands as a line behind as many line feeds, and a place behind as many line feeds lies on it.
-/

set_option autoImplicit false
set_option relaxedAutoImplicit false

/-! ### Occurrences -/

namespace ClassQuery.Text

theorem after?_eq_none_iff {word text : Text} : after? word text = none ↔ ¬ word <:+: text := by
  rw [← occursIn_iff, occursIn]
  cases after? word text <;> simp

theorem exists_before_of_after? {word text tail : Text} (h : after? word text = some tail) :
    ∃ before, text = before ++ word ++ tail := by
  induction text with
  | nil =>
    rw [after?_nil] at h
    split at h
    · next empty =>
      cases h
      exact ⟨[], by simp [List.isEmpty_iff.mp empty]⟩
    · cases h
  | cons c rest ih =>
    rw [after?_cons] at h
    split at h
    · next begins =>
      cases h
      obtain ⟨far, joined⟩ := List.isPrefixOf_iff_prefix.mp begins
      exact ⟨[], by simp [← joined]⟩
    · obtain ⟨before, rfl⟩ := ih h
      exact ⟨c :: before, rfl⟩

theorem infix_of_after? {word text tail : Text} (h : after? word text = some tail) :
    word <:+: text := by
  obtain ⟨before, joined⟩ := exists_before_of_after? h
  exact ⟨before, tail, joined.symm⟩

theorem exists_suffix_after? (word before tail : Text) :
    ∃ far, after? word (before ++ word ++ tail) = some far ∧ tail <:+ far := by
  induction before with
  | nil =>
    have begins : word.isPrefixOf (word ++ tail) = true :=
      List.isPrefixOf_iff_prefix.mpr (List.prefix_append ..)
    cases joined : word ++ tail with
    | nil =>
      obtain ⟨rfl, rfl⟩ := List.append_eq_nil_iff.mp joined
      exact ⟨[], rfl, List.suffix_rfl⟩
    | cons c rest =>
      rw [joined] at begins
      refine ⟨tail, ?_, List.suffix_rfl⟩
      rw [List.nil_append, joined, after?_cons, if_pos begins, ← joined, List.drop_left]
  | cons c before ih =>
    obtain ⟨far, found, longer⟩ := ih
    rw [List.cons_append, List.cons_append, after?_cons]
    split
    · next begins =>
      obtain ⟨more, joined⟩ := List.isPrefixOf_iff_prefix.mp begins
      refine ⟨_, rfl, ?_⟩
      rw [← joined, List.drop_left]
      have shorter : tail <:+ c :: (before ++ word ++ tail) := ⟨c :: (before ++ word), by simp⟩
      have lengths := congrArg List.length joined
      simp only [List.length_append, List.length_cons] at lengths
      exact List.suffix_of_suffix_length_le shorter ⟨word, joined⟩ (by omega)
    · exact ⟨far, found, longer⟩

theorem prefix_of_prefix_append_cons {word line more : Text} {b : Char} (apart : b ∉ word)
    (begins : word <+: line ++ b :: more) : word <+: line := by
  by_cases short : word.length ≤ line.length
  · exact List.prefix_of_prefix_length_le begins (List.prefix_append ..) short
  · have longer : line ++ [b] <+: word := by
      refine List.prefix_of_prefix_length_le ⟨more, by simp⟩ begins ?_
      rw [List.length_append, List.length_singleton]
      omega
    exact absurd (longer.subset (by simp)) apart

theorem suffix_of_suffix_append_cons {word line more : Text} {b : Char} (apart : b ∉ word)
    (ends : word <:+ line ++ b :: more) : word <:+ more := by
  rw [← List.reverse_prefix] at ends ⊢
  have turned : (line ++ b :: more).reverse = more.reverse ++ b :: line.reverse := by simp
  rw [turned] at ends
  exact prefix_of_prefix_append_cons (by rwa [List.mem_reverse]) ends

/-- A search that meets a character which is not in the word has found the word before it, or goes
on behind it. -/
theorem after?_append_cons {word : Text} {b : Char} (apart : b ∉ word) (filled : word ≠ [])
    (line more : Text) :
    after? word (line ++ b :: more) =
      ((after? word line).map (· ++ b :: more)).or (after? word more) := by
  induction line with
  | nil =>
    have stuck : word.isPrefixOf (b :: more) = false := by
      rw [Bool.eq_false_iff, ne_eq, List.isPrefixOf_iff_prefix]
      intro begins
      obtain ⟨c, word, rfl⟩ := List.exists_cons_of_ne_nil filled
      exact apart ((List.cons_prefix_cons.mp begins).1 ▸ List.mem_cons_self)
    rw [List.nil_append, after?_cons, stuck, after?_nil]
    simp [filled]
  | cons c line ih =>
    have same : word.isPrefixOf (c :: line ++ b :: more) = word.isPrefixOf (c :: line) := by
      rw [Bool.eq_iff_iff, List.isPrefixOf_iff_prefix, List.isPrefixOf_iff_prefix]
      constructor
      · exact prefix_of_prefix_append_cons apart
      · exact fun begins => begins.trans (List.prefix_append ..)
    rw [List.cons_append] at same ⊢
    rw [after?_cons, same, after?_cons, ih]
    split
    · next begins =>
      have short := (List.isPrefixOf_iff_prefix.mp begins).length_le
      rw [← List.cons_append, List.drop_append_of_le_length short]
      rfl
    · rfl

theorem induction_on_breaks {α : Type} {motive : List α → Prop} (isBreak : α → Bool)
    (last : ∀ line, (∀ c ∈ line, isBreak c = false) → motive line)
    (broken : ∀ line b rest, (∀ c ∈ line, isBreak c = false) → isBreak b = true → motive rest →
      motive (line ++ b :: rest))
    (text : List α) : motive text := by
  -- the line so far is carried along until its break is met
  suffices carried : ∀ line : List α, (∀ c ∈ line, isBreak c = false) → motive (line ++ text) from
    carried [] (by simp)
  induction text with
  | nil =>
    intro line unbroken
    rw [List.append_nil]
    exact last line unbroken
  | cons c text ih =>
    intro line unbroken
    cases h : isBreak c with
    | true => exact broken line c text unbroken h (ih [] (by simp))
    | false =>
      rw [List.append_cons]
      refine ih (line ++ [c]) fun d inside => ?_
      rcases List.mem_append.mp inside with inside | inside
      · exact unbroken d inside
      · rw [List.mem_singleton.mp inside, h]

end ClassQuery.Text

/-! ### Lines -/

namespace ClassQuery.Lines

section Cutting

variable {α : Type} [DecidableEq α] {sep : α} {line : List α}

theorem passes (unbroken : sep ∉ line) : ∀ a ∈ line, decide (a ≠ sep) = true := by
  intro a mem
  rw [decide_eq_true_eq]
  rintro rfl
  exact unbroken mem

theorem takePiece_of_unbroken (unbroken : sep ∉ line) :
    takePiece sep line = if line = [] then none else some (line, []) := by
  have whole := List.takeWhile_eq_self_iff.mpr (passes unbroken)
  have nothing := List.dropWhile_eq_nil_iff.mpr (passes unbroken)
  simp only [takePiece, whole, nothing, List.isEmpty_iff]

theorem takePiece_append_cons (unbroken : sep ∉ line) (rest : List α) :
    takePiece sep (line ++ sep :: rest) = some (line ++ [sep], rest) := by
  have body : (line ++ sep :: rest).takeWhile (· ≠ sep) = line := by
    rw [List.takeWhile_append_of_pos (passes unbroken)]
    simp
  have after : (line ++ sep :: rest).dropWhile (· ≠ sep) = sep :: rest := by
    rw [List.dropWhile_append_of_pos (passes unbroken)]
    simp
  simp only [takePiece, body, after]

theorem pieces_of_unbroken (unbroken : sep ∉ line) :
    pieces sep line = if line = [] then [] else [line] := by
  induction line with
  | nil => rfl
  | cons a line ih =>
    rw [List.mem_cons, not_or] at unbroken
    rw [pieces_cons, ih unbroken.2]
    unfold pushFront
    rw [if_neg (Ne.symm unbroken.1)]
    cases line <;> rfl

theorem pieces_append_cons (unbroken : sep ∉ line) (rest : List α) :
    pieces sep (line ++ sep :: rest) = (line ++ [sep]) :: pieces sep rest := by
  induction line with
  | nil => exact if_pos rfl
  | cons a line ih =>
    rw [List.mem_cons, not_or] at unbroken
    rw [List.cons_append, pieces_cons, ih unbroken.2, pushFront, if_neg (Ne.symm unbroken.1)]
    rfl

theorem induction_on_pieces (sep : α) {motive : List α → Prop}
    (last : ∀ line, sep ∉ line → motive line)
    (broken : ∀ line rest, sep ∉ line → motive rest → motive (line ++ sep :: rest))
    (stream : List α) : motive stream := by
  have apart {line : List α} (other : ∀ a ∈ line, decide (a = sep) = false) : sep ∉ line :=
    fun mem => absurd (other _ mem) (by simp)
  induction stream using Text.induction_on_breaks (fun a => decide (a = sep)) with
  | last line unbroken => exact last line (apart unbroken)
  | broken line b rest unbroken broke ih =>
    obtain rfl : b = sep := of_decide_eq_true broke
    exact broken line rest (apart unbroken) ih

theorem pieces_append {front : List α} (whole : front = [] ∨ ∃ lines, front = lines ++ [sep])
    (back : List α) : pieces sep (front ++ back) = pieces sep front ++ pieces sep back := by
  rcases whole with rfl | ⟨lines, rfl⟩
  · rfl
  · induction lines using induction_on_pieces sep with
    | last line unbroken =>
      rw [List.append_assoc, List.singleton_append, pieces_append_cons unbroken,
        pieces_append_cons unbroken, pieces_nil]
      rfl
    | broken line rest unbroken ih =>
      have cut (more : List α) : line ++ sep :: rest ++ [sep] ++ more =
          line ++ sep :: (rest ++ [sep] ++ more) := by simp
      have shorter := cut []
      rw [List.append_nil, List.append_nil] at shorter
      rw [cut, shorter, pieces_append_cons unbroken, pieces_append_cons unbroken, ih,
        List.cons_append]

theorem length_pieces {front : List α} (whole : front = [] ∨ ∃ lines, front = lines ++ [sep]) :
    (pieces sep front).length = front.count sep := by
  rcases whole with rfl | ⟨lines, rfl⟩
  · rfl
  · induction lines using induction_on_pieces sep with
    | last line unbroken =>
      rw [pieces_append_cons unbroken, pieces_nil, List.count_append, List.count_singleton_self,
        List.count_eq_zero.mpr unbroken]
      rfl
    | broken line rest unbroken ih =>
      have cut : line ++ sep :: rest ++ [sep] = line ++ sep :: (rest ++ [sep]) := by simp
      have counted :
          (line ++ sep :: (rest ++ [sep])).count sep = (rest ++ [sep]).count sep + 1 := by
        rw [List.count_append, List.count_eq_zero.mpr unbroken, List.count_cons_self, Nat.zero_add]
      rw [cut, pieces_append_cons unbroken, List.length_cons, ih, counted]

theorem takePiece_eq (stream : List α) : takePiece sep stream =
    match pieces sep stream with
    | [] => none
    | piece :: more => some (piece, more.flatten) := by
  induction stream using induction_on_pieces sep with
  | last line unbroken =>
    rw [takePiece_of_unbroken unbroken, pieces_of_unbroken unbroken]
    by_cases empty : line = []
    · simp only [empty, if_true]
    · simp only [empty, if_false, List.flatten_nil]
  | broken line rest unbroken _ =>
    rw [takePiece_append_cons unbroken, pieces_append_cons unbroken]
    simp only [flatten_pieces]

private theorem pieces_flatten_tail (stream : List α) :
    pieces sep (pieces sep stream).tail.flatten = (pieces sep stream).tail := by
  induction stream using induction_on_pieces sep with
  | last line unbroken =>
    rw [pieces_of_unbroken unbroken]
    split <;> rfl
  | broken line rest unbroken _ =>
    rw [pieces_append_cons unbroken, List.tail_cons, flatten_pieces]

theorem pieces_flatten_drop (stream : List α) (n : Nat) :
    pieces sep ((pieces sep stream).drop n).flatten = (pieces sep stream).drop n := by
  induction n with
  | zero => rw [List.drop_zero, flatten_pieces]
  | succ n ih =>
    have further : pieces sep (pieces sep ((pieces sep stream).drop n).flatten).tail.flatten =
        (pieces sep ((pieces sep stream).drop n).flatten).tail := pieces_flatten_tail _
    rwa [ih, List.tail_drop] at further

end Cutting

/-- To show something of every text, show it of a line, and of a line and a line feed in front of a
text of which it is known. -/
theorem induction_on_lines {motive : Text → Prop} (last : ∀ line, '\n' ∉ line → motive line)
    (broken : ∀ line rest, '\n' ∉ line → motive rest → motive (line ++ '\n' :: rest))
    (text : Text) : motive text := induction_on_pieces '\n' last broken text

theorem trimBreaks_concat (text : Text) : trimBreaks (text ++ ['\n']) = trimBreaks text := by
  simp [trimBreaks]

theorem trimBreaks_append_replicate (text : Text) (n : Nat) :
    trimBreaks (text ++ List.replicate n '\r') = trimBreaks text := by
  induction n with
  | zero => rw [List.replicate_zero, List.append_nil]
  | succ n ih =>
    rw [List.replicate_succ', ← List.append_assoc, ← ih]
    simp [trimBreaks]

theorem trimBreaks_of_unbroken {line : Text} (unbroken : '\n' ∉ line)
    (kept : line.getLast? ≠ some '\r') : trimBreaks line = line := by
  rcases List.eq_nil_or_concat line with rfl | ⟨front, c, rfl⟩
  · rfl
  · have other : c ≠ '\n' ∧ c ≠ '\r' := by
      constructor
      · rintro rfl
        simp at unbroken
      · simpa using kept
    simp [trimBreaks, other]

theorem stripEnd_of_unbroken {line : Text} (unbroken : '\n' ∉ line) : stripEnd line = line := by
  have turned : '\n' ∉ line.reverse := by rwa [List.mem_reverse]
  unfold stripEnd
  split
  · next ends => exact absurd (ends ▸ List.mem_cons_self) turned
  · next ends => exact absurd (ends ▸ List.mem_cons_self) turned
  · rfl

theorem stripEnd_crlf (line : Text) : stripEnd (line ++ ['\r'] ++ ['\n']) = line := by
  simp [stripEnd]

theorem stripEnd_concat {line : Text} (kept : line.getLast? ≠ some '\r') :
    stripEnd (line ++ ['\n']) = line := by
  rcases List.eq_nil_or_concat line with rfl | ⟨front, c, rfl⟩
  · rfl
  · have other : c ≠ '\r' := by simpa using kept
    simp [stripEnd, other]

theorem ofText_of_unbroken {line : Text} (unbroken : '\n' ∉ line) :
    ofText line = if line = [] then [] else [line] := by
  rw [ofText, pieces_of_unbroken unbroken]
  split
  · rfl
  · rw [List.map_singleton, stripEnd_of_unbroken unbroken]

theorem ofText_append_cons {line : Text} (unbroken : '\n' ∉ line) (rest : Text) :
    ofText (line ++ '\n' :: rest) = stripEnd (line ++ ['\n']) :: ofText rest := by
  rw [ofText, pieces_append_cons unbroken]
  rfl

/-- A text is cut around a line at line feeds. -/
structure Stands (text before line after : Text) : Prop where
  whole : text = before ++ line ++ after
  unbroken : '\n' ∉ line
  starts : before = [] ∨ ∃ front, before = front ++ ['\n']
  ends : after = [] ∨ ∃ rest, after = '\n' :: rest

/-- How a line ends in a text, and what follows there. -/
inductive Ends (line : Text) : Text → Text → Prop where
  | crlf (after : Text) : Ends line ['\r', '\n'] after
  | lineFeed (kept : line.getLast? ≠ some '\r') (after : Text) : Ends line ['\n'] after
  | last (filled : line ≠ []) : Ends line [] []

/-- A line of a text, with all that stands before it, ends it and follows. -/
structure Placed (text before line ending after : Text) : Prop where
  whole : text = before ++ line ++ ending ++ after
  starts : before = [] ∨ ∃ front, before = front ++ ['\n']
  unbroken : '\n' ∉ line
  ends : Ends line ending after

theorem exists_placed {text line : Text} {n : Nat} (listed : (ofText text)[n]? = some line) :
    ∃ before ending after, Placed text before line ending after ∧ before.count '\n' = n := by
  induction text using induction_on_lines generalizing n with
  | last front unbroken =>
    rw [ofText_of_unbroken unbroken] at listed
    split at listed
    · cases listed
    · next filled =>
      cases n with
      | zero =>
        obtain rfl : front = line := Option.some.inj listed
        exact ⟨[], [], [], ⟨by simp, .inl rfl, unbroken, .last filled⟩, rfl⟩
      | succ n => cases listed
  | broken front rest unbroken ih =>
    rw [ofText_append_cons unbroken] at listed
    cases n with
    | zero =>
      obtain rfl : stripEnd (front ++ ['\n']) = line := Option.some.inj listed
      by_cases kept : front.getLast? = some '\r'
      · obtain ⟨body, rfl⟩ := List.getLast?_eq_some_iff.mp kept
        have clean : '\n' ∉ body := fun inside => unbroken (List.mem_append_left _ inside)
        rw [stripEnd_crlf]
        exact ⟨[], ['\r', '\n'], rest, ⟨by simp, .inl rfl, clean, .crlf rest⟩, rfl⟩
      · rw [stripEnd_concat kept]
        exact ⟨[], ['\n'], rest, ⟨by simp, .inl rfl, unbroken, .lineFeed kept rest⟩, rfl⟩
    | succ n =>
      obtain ⟨before, ending, after, placed, counted⟩ := ih listed
      refine ⟨front ++ '\n' :: before, ending, after,
        ⟨?_, .inr ?_, placed.unbroken, placed.ends⟩, ?_⟩
      · rw [placed.whole]
        simp
      · rcases placed.starts with rfl | ⟨lines, rfl⟩
        · exact ⟨front, rfl⟩
        · exact ⟨front ++ '\n' :: lines, by simp⟩
      · rw [List.count_append, List.count_cons_self, List.count_eq_zero.mpr unbroken, counted,
          Nat.zero_add]

theorem ofText_append {before : Text} (starts : before = [] ∨ ∃ front, before = front ++ ['\n'])
    (after : Text) : ofText (before ++ after) = ofText before ++ ofText after := by
  rw [ofText, pieces_append starts, List.map_append]
  rfl

theorem length_ofText {before : Text} (starts : before = [] ∨ ∃ front, before = front ++ ['\n']) :
    (ofText before).length = before.count '\n' := by
  rw [ofText, List.length_map, length_pieces starts]

theorem Ends.getElem?_zero {line ending after : Text} (ends : Ends line ending after)
    (unbroken : '\n' ∉ line) : (ofText (line ++ ending ++ after))[0]? = some line := by
  cases ends with
  | crlf =>
    have cut : line ++ ['\r', '\n'] ++ after = line ++ ['\r'] ++ '\n' :: after := by simp
    rw [cut, ofText_append_cons (by simp [unbroken]), stripEnd_crlf]
    rfl
  | lineFeed kept =>
    have cut : line ++ ['\n'] ++ after = line ++ '\n' :: after := by simp
    rw [cut, ofText_append_cons unbroken, stripEnd_concat kept]
    rfl
  | last filled =>
    rw [List.append_nil, List.append_nil, ofText_of_unbroken unbroken, if_neg filled]
    rfl

theorem getElem?_ofText_iff {text line : Text} {n : Nat} :
    (ofText text)[n]? = some line ↔
      ∃ before ending after, Placed text before line ending after ∧ before.count '\n' = n := by
  constructor
  · exact exists_placed
  · rintro ⟨before, ending, after, placed, rfl⟩
    have cut : text = before ++ (line ++ ending ++ after) := by
      rw [placed.whole]
      simp
    have length := length_ofText placed.starts
    rw [cut, ofText_append placed.starts, List.getElem?_append_right (by omega), length,
      Nat.sub_self]
    exact placed.ends.getElem?_zero placed.unbroken

theorem exists_stands {text line : Text} {n : Nat} (listed : (ofText text)[n]? = some line) :
    ∃ before raw after, Stands text before raw after ∧ before.count '\n' = n ∧
      (raw = line ∨ raw = line ++ ['\r']) := by
  obtain ⟨before, ending, after, placed, counted⟩ := exists_placed listed
  have whole := placed.whole
  have unbroken := placed.unbroken
  cases placed.ends with
  | crlf =>
    refine ⟨before, line ++ ['\r'], '\n' :: after, ?_, counted, .inr rfl⟩
    exact ⟨by simp [whole], by simp [unbroken], placed.starts, .inr ⟨after, rfl⟩⟩
  | lineFeed =>
    refine ⟨before, line, '\n' :: after, ?_, counted, .inl rfl⟩
    exact ⟨by simp [whole], unbroken, placed.starts, .inr ⟨after, rfl⟩⟩
  | last =>
    refine ⟨before, line, [], ?_, counted, .inl rfl⟩
    exact ⟨by simp [whole], unbroken, placed.starts, .inl rfl⟩

theorem Stands.exists_inside {text before raw after front back : Text}
    (stands : Stands text before raw after) (cut : text = front ++ back)
    (same : front.count '\n' = before.count '\n') :
    ∃ near far, front = before ++ near ∧ raw = near ++ far ∧ back = far ++ after := by
  have joined : front ++ back = before ++ (raw ++ after) := by
    rw [← cut, stands.whole, List.append_assoc]
  rcases List.append_eq_append_iff.mp joined with ⟨more, longer, rest⟩ | ⟨near, longer, rest⟩
  · rcases List.eq_nil_or_concat more with rfl | ⟨few, c, rfl⟩
    · rw [List.append_nil] at longer
      exact ⟨[], raw, by rw [longer, List.append_nil], rfl, rest⟩
    · -- the place would lie in front of the line feed before the line
      exfalso
      rw [List.concat_eq_append, ← List.append_assoc] at longer
      rcases stands.starts with rfl | ⟨lines, ended⟩
      · simp at longer
      · obtain ⟨-, last⟩ := List.append_inj' (longer.symm.trans ended) rfl
        rw [longer, last, List.count_append, List.count_append, List.count_singleton_self] at same
        omega
  · subst longer
    have fresh : '\n' ∉ near := by
      rw [List.count_append] at same
      exact List.count_eq_zero.mp (by omega)
    have begins : near <+: raw ++ after := ⟨back, rest.symm⟩
    obtain ⟨far, rfl⟩ : near <+: raw := by
      rcases stands.ends with rfl | ⟨more, rfl⟩
      · rwa [List.append_nil] at begins
      · exact Text.prefix_of_prefix_append_cons fresh begins
    rw [List.append_assoc] at rest
    exact ⟨near, far, rfl, rfl, (List.append_cancel_left rest).symm⟩

theorem ofText_ne_nil {text : Text} (filled : text ≠ []) : ofText text ≠ [] := by
  intro none
  apply filled
  rw [← flatten_pieces '\n' text, List.map_eq_nil_iff.mp none, List.flatten_nil]

theorem count_lt_length_ofText (before : Text) {after : Text} (filled : after ≠ []) :
    before.count '\n' < (ofText (before ++ after)).length := by
  induction before using induction_on_lines with
  | last line unbroken =>
    rw [List.count_eq_zero.mpr unbroken, List.length_pos_iff]
    exact ofText_ne_nil (List.append_ne_nil_of_right_ne_nil line filled)
  | broken line rest unbroken ih =>
    rw [List.append_assoc, List.cons_append, ofText_append_cons unbroken, List.length_cons,
      List.count_append, List.count_cons_self, List.count_eq_zero.mpr unbroken]
    omega

end ClassQuery.Lines
