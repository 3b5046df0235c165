import ClassQuery.Proofs.Text.Line
import ClassQuery.Settings
import ClassQuery.Text.Utf8.Lemmas

/-!
Reading one abbreviation after the other from a stream.

A line feed is no part of any other character, so a line is a text exactly when it is one with its
line feed. Each call takes the next piece of the stream, with the line feed that ends it, and what
it gives depends on that piece alone. Main statement: any number of calls takes the pieces one by
one and then nothing more, a piece that is no text has no effect on the calls behind it, and all
pieces are texts exactly when the stream is one.
-/

set_option autoImplicit false
set_option relaxedAutoImplicit false

/-! ### The first line -/

namespace ClassQuery.Abbreviation

def firstLine (stream : Bytes) : Bytes := stream.takeWhile (· ≠ 10)

theorem firstLine_of_unbroken {line : Bytes} (unbroken : 10 ∉ line) : firstLine line = line :=
  List.takeWhile_eq_self_iff.mpr (Lines.passes unbroken)

theorem firstLine_append_cons {line : Bytes} (unbroken : 10 ∉ line) (rest : Bytes) :
    firstLine (line ++ 10 :: rest) = line := by
  rw [firstLine, List.takeWhile_append_of_pos (Lines.passes unbroken)]
  simp

theorem ofLine_concat (line : Bytes) : ofLine (line ++ [10]) = ofLine line := by
  have lineFeed : Char.ofNat (10 : UInt8).toNat = '\n' := rfl
  rw [ofLine, ofLine, Utf8.decode?_concat line (by decide), lineFeed]
  cases Utf8.decode? line with
  | none => rfl
  | some text => exact congrArg Except.ok (Lines.trimBreaks_concat text)

theorem readLine_result (stream : Bytes) :
    (readLine stream).result =
      if stream = [] then .ok none else (ofLine (firstLine stream)).map some := by
  by_cases broken : 10 ∈ stream
  · obtain ⟨line, rest, rfl, unbroken⟩ := List.eq_append_cons_of_mem broken
    rw [readLine, Lines.takePiece_append_cons unbroken, if_neg (by simp),
      firstLine_append_cons unbroken]
    simp only [ofLine_concat]
  · rw [readLine, Lines.takePiece_of_unbroken broken, firstLine_of_unbroken broken]
    by_cases empty : stream = []
    · simp only [empty, if_true]
    · simp only [empty, if_false]

end ClassQuery.Abbreviation

/-! ### All lines -/

namespace ClassQuery

namespace Lines

variable {α : Type} {sep : α}

/-- A stream is cut behind each separator, and what is behind the last one is a piece unless there
is nothing. -/
inductive Cut (sep : α) : List α → List (List α) → Prop where
  | nothing : Cut sep [] []
  | last {line : List α} (unbroken : sep ∉ line) (filled : line ≠ []) : Cut sep line [line]
  | broken {line rest : List α} {pieces : List (List α)} (unbroken : sep ∉ line)
      (more : Cut sep rest pieces) : Cut sep (line ++ sep :: rest) ((line ++ [sep]) :: pieces)

theorem cut_pieces [DecidableEq α] (sep : α) (stream : List α) :
    Cut sep stream (pieces sep stream) := by
  induction stream using induction_on_pieces sep with
  | last line unbroken =>
    rw [pieces_of_unbroken unbroken]
    split
    · next empty =>
      rw [empty]
      exact .nothing
    · next filled => exact .last unbroken filled
  | broken line rest unbroken ih =>
    rw [pieces_append_cons unbroken]
    exact .broken unbroken ih

theorem Cut.exists_line {stream piece : List α} {pieces : List (List α)}
    (cut : Cut sep stream pieces) (mem : piece ∈ pieces) :
    ∃ line, sep ∉ line ∧ (piece = line ∨ piece = line ++ [sep]) := by
  induction cut with
  | nothing => cases mem
  | @last line unbroken filled => exact ⟨line, unbroken, .inl (List.mem_singleton.mp mem)⟩
  | @broken line rest pieces unbroken more ih =>
    rcases List.mem_cons.mp mem with rfl | further
    · exact ⟨line, unbroken, .inr rfl⟩
    · exact ih further

theorem Cut.isSome_decode?_iff {stream : Bytes} {pieces : List Bytes} (cut : Cut 10 stream pieces) :
    (Utf8.decode? stream).isSome = true ↔
      ∀ piece ∈ pieces, (Utf8.decode? piece).isSome = true := by
  induction cut with
  | nothing => exact iff_of_true rfl (by simp)
  | last unbroken filled => rw [List.forall_mem_singleton]
  | @broken line rest pieces unbroken more ih =>
    have low : (10 : UInt8).toNat < 0x80 := by decide
    rw [List.forall_mem_cons, ← ih, Utf8.decode?_append_cons line rest low,
      Utf8.decode?_concat line low]
    cases Utf8.decode? line <;> simp

theorem exists_breaks (text : Text) :
    ∃ breaks, text = trimBreaks text ++ breaks ∧ ∀ c ∈ breaks, c = '\n' ∨ c = '\r' := by
  refine ⟨(text.reverse.takeWhile fun c => c = '\n' ∨ c = '\r').reverse, ?_, ?_⟩
  · rw [trimBreaks, ← List.reverse_append, List.takeWhile_append_dropWhile, List.reverse_reverse]
  · intro c mem
    simpa using List.mem_takeWhile_imp (List.mem_reverse.mp mem)

theorem getLast?_trimBreaks (text : Text) : (trimBreaks text).getLast? ≠ some '\r' := by
  intro last
  rw [trimBreaks, List.getLast?_reverse] at last
  have kept := List.head?_dropWhile_not (fun c => c = '\n' ∨ c = '\r') text.reverse
  rw [last] at kept
  simp at kept

end Lines

namespace Abbreviation

/-- What is read from a piece of a stream: the text before the breaks at its end, or a fault if the
piece is no text. -/
inductive ReadFrom : Bytes → Except HostFault (Option Text) → Prop where
  | text {text breaks : Text} (unbroken : '\n' ∉ text) (kept : text.getLast? ≠ some '\r')
      (broken : ∀ c ∈ breaks, c = '\n' ∨ c = '\r') :
      ReadFrom (Utf8.encode (text ++ breaks)) (.ok (some text))
  | fault {piece : Bytes} (noText : ∀ text, Utf8.encode text ≠ piece) :
      ReadFrom piece (.error (.input "stream did not contain valid UTF-8".toList))

theorem ofLine_of_none {piece : Bytes} (noText : Utf8.decode? piece = none) :
    ofLine piece = .error (.input Abbreviation.noText) := by
  rw [ofLine, noText]

theorem ofLine_of_some {piece : Bytes} {text : Text} (read : Utf8.decode? piece = some text) :
    ofLine piece = .ok (Lines.trimBreaks text) := by
  rw [ofLine, read]

theorem readFrom_ofLine {stream piece : Bytes} {pieces : List Bytes}
    (cut : Lines.Cut 10 stream pieces) (mem : piece ∈ pieces) :
    ReadFrom piece ((ofLine piece).map some) := by
  obtain ⟨line, unbroken, shape⟩ := cut.exists_line mem
  have same : ofLine piece = ofLine line := by
    rcases shape with rfl | rfl
    · rfl
    · exact ofLine_concat line
  rw [same]
  cases read : Utf8.decode? line with
  | none =>
    have refused : Utf8.decode? piece = none := by
      rcases shape with rfl | rfl
      · exact read
      · rw [Utf8.decode?_concat line (by decide), read]
        rfl
    rw [ofLine_of_none read]
    refine .fault ?_
    intro text encoded
    rw [← encoded, Utf8.decode?_encode] at refused
    cases refused
  | some text =>
    obtain ⟨breaks, whole, broken⟩ := Lines.exists_breaks text
    have encoded : Utf8.encode text = line := Utf8.decode?_eq_some_iff.mp read
    have clean : '\n' ∉ Lines.trimBreaks text := by
      intro inside
      have within : '\n' ∈ text := whole ▸ List.mem_append_left breaks inside
      exact unbroken (encoded ▸ Utf8.lineFeed_mem_encode_iff.mpr within)
    have kept := Lines.getLast?_trimBreaks text
    rw [ofLine_of_some read]
    rcases shape with rfl | rfl
    · have given := ReadFrom.text clean kept broken
      rwa [← whole, encoded] at given
    · have longer : ∀ c ∈ breaks ++ ['\n'], c = '\n' ∨ c = '\r' := by
        intro c mem
        rcases List.mem_append.mp mem with mem | mem
        · exact broken c mem
        · exact .inl (List.mem_singleton.mp mem)
      have given := ReadFrom.text clean kept longer
      rwa [← List.append_assoc, ← whole, Utf8.encode_append, encoded] at given

theorem length_readLines (n : Nat) (stream : Bytes) : (readLines n stream).length = n := by
  induction n generalizing stream with
  | zero => rfl
  | succ n ih =>
    show (readLines n (readLine stream).rest).length + 1 = n + 1
    rw [ih]

theorem readLine_eq (stream : Bytes) : readLine stream =
    match Lines.pieces 10 stream with
    | [] => ⟨.ok none, []⟩
    | piece :: more => ⟨(ofLine piece).map some, more.flatten⟩ := by
  have whole := Lines.flatten_pieces 10 stream
  rw [readLine, Lines.takePiece_eq]
  cases cut : Lines.pieces 10 stream with
  | nil =>
    rw [cut] at whole
    simp only [← whole, List.flatten_nil]
  | cons piece more => rfl

theorem rest_readLine (stream : Bytes) :
    (readLine stream).rest = ((Lines.pieces 10 stream).drop 1).flatten := by
  rw [readLine_eq]
  cases Lines.pieces 10 stream <;> rfl

theorem drop_readLines (n k : Nat) (stream : Bytes) :
    (readLines n stream).drop k =
      readLines (n - k) ((Lines.pieces 10 stream).drop k).flatten := by
  induction k generalizing n stream with
  | zero => rw [List.drop_zero, List.drop_zero, Lines.flatten_pieces, Nat.sub_zero]
  | succ k ih =>
    cases n with
    | zero => rw [Nat.zero_sub]; rfl
    | succ n =>
      show (readLines n (readLine stream).rest).drop k = _
      rw [ih, rest_readLine, Lines.pieces_flatten_drop, List.drop_drop, Nat.add_sub_add_right,
        Nat.add_comm 1 k]

theorem getElem?_readLines {n k : Nat} (called : k < n) (stream : Bytes) :
    (readLines n stream)[k]? = some
      ⟨match (Lines.pieces 10 stream)[k]? with
        | none => .ok none
        | some piece => (ofLine piece).map some,
      ((Lines.pieces 10 stream).drop (k + 1)).flatten⟩ := by
  have first : (readLines n stream)[k]? = ((readLines n stream).drop k)[0]? := by
    rw [List.getElem?_drop, Nat.add_zero]
  obtain ⟨m, left⟩ : ∃ m, n - k = m + 1 := ⟨n - k - 1, by omega⟩
  rw [first, drop_readLines, left]
  show some (readLine _) = _
  rw [readLine_eq, Lines.pieces_flatten_drop]
  cases reached : (Lines.pieces 10 stream)[k]? with
  | none =>
    have short : (Lines.pieces 10 stream).length ≤ k := List.getElem?_eq_none_iff.mp reached
    rw [List.drop_eq_nil_of_le short, List.drop_eq_nil_of_le (by omega)]
    rfl
  | some piece =>
    obtain ⟨inside, rfl⟩ := List.getElem?_eq_some_iff.mp reached
    rw [List.drop_eq_getElem_cons inside]

theorem forall_readLines_iff (stream : Bytes) :
    (∀ reading ∈ readLines (Lines.pieces 10 stream).length stream,
        ∃ text, reading.result = .ok (some text)) ↔
      ∃ text, Utf8.encode text = stream := by
  have valid : (∃ text, Utf8.encode text = stream) ↔ (Utf8.decode? stream).isSome = true := by
    rw [Option.isSome_iff_exists]
    exact exists_congr fun text => Utf8.decode?_eq_some_iff.symm
  rw [valid, (Lines.cut_pieces 10 stream).isSome_decode?_iff]
  constructor
  · intro all piece mem
    obtain ⟨k, inside, rfl⟩ := List.mem_iff_getElem.mp mem
    have called := getElem?_readLines inside stream
    rw [List.getElem?_eq_getElem inside] at called
    obtain ⟨text, found⟩ := all _ (List.mem_of_getElem? called)
    cases read : Utf8.decode? (Lines.pieces 10 stream)[k] with
    | none =>
      simp only [ofLine_of_none read] at found
      cases found
    | some text => rfl
  · intro all reading mem
    obtain ⟨k, inside, called⟩ := List.mem_iff_getElem.mp mem
    rw [length_readLines] at inside
    have taken := getElem?_readLines inside stream
    rw [List.getElem?_eq_getElem (by rwa [length_readLines]), called,
      List.getElem?_eq_getElem inside] at taken
    obtain ⟨text, read⟩ := Option.isSome_iff_exists.mp (all _ (List.getElem_mem inside))
    rw [Option.some.inj taken]
    simp only [ofLine_of_some read]
    exact ⟨_, rfl⟩

/-- Calls take the pieces of a stream one by one and then find nothing, for ever. What a call gives
is read from its own piece, no line has an effect on the calls behind it, and all calls succeed
until the stream is used up exactly when the stream is a text. -/
theorem readLines_pieces (stream : Bytes) (calls : Nat) :
    ∃ pieces, Lines.Cut 10 stream pieces ∧
      pieces.flatten = stream ∧
      (∀ k < calls, ∃ reading, (readLines calls stream)[k]? = some reading ∧
        reading.rest = (pieces.drop (k + 1)).flatten ∧
        (∀ piece, pieces[k]? = some piece → ReadFrom piece reading.result) ∧
        (pieces[k]? = none → reading.result = .ok none)) ∧
      (∀ front bad other back : Bytes, (front = [] ∨ ∃ lines, front = lines ++ [10]) →
        10 ∉ bad → 10 ∉ other →
        (readLines calls (front ++ (bad ++ 10 :: back))).drop (front.count 10 + 1) =
          (readLines calls (front ++ (other ++ 10 :: back))).drop (front.count 10 + 1)) ∧
      ((∀ reading ∈ readLines pieces.length stream, ∃ text, reading.result = .ok (some text)) ↔
        ∃ text, Utf8.encode text = stream) := by
  have cut := Lines.cut_pieces 10 stream
  refine ⟨Lines.pieces 10 stream, cut, Lines.flatten_pieces 10 stream, ?_, ?_,
    forall_readLines_iff stream⟩
  · intro k called
    refine ⟨_, getElem?_readLines called stream, rfl, ?_, ?_⟩
    · intro piece reached
      simp only [reached]
      exact readFrom_ofLine cut (List.mem_of_getElem? reached)
    · intro ended
      simp only [ended]
  · intro front bad other back whole clean clean'
    have behind {line : Bytes} (unbroken : 10 ∉ line) :
        (Lines.pieces 10 (front ++ (line ++ 10 :: back))).drop (front.count 10 + 1) =
          Lines.pieces 10 back := by
      rw [Lines.pieces_append whole, Lines.pieces_append_cons unbroken, ← Lines.length_pieces whole,
        List.drop_length_add_append, List.drop_one, List.tail_cons]
    rw [drop_readLines, drop_readLines, behind clean, behind clean']

/-- The second line is no text, and the last call finds the stream used up. -/
theorem readLines_pieces_of_fault :
    let front := Utf8.ofString ".a\n"
    let bad : Bytes := [0xFF]
    let other := Utf8.ofString ".b"
    let back := Utf8.ofString ".c\r\n"
    let stream := front ++ (bad ++ 10 :: back)
    ((3 < 4 ∧ (front = [] ∨ ∃ lines, front = lines ++ [10])) ∧ 10 ∉ bad ∧ 10 ∉ other) ∧
      ∃ pieces, Lines.Cut 10 stream pieces ∧
        (∃ reading, (readLines 4 stream)[3]? = some reading ∧
          reading.rest = (pieces.drop 4).flatten) ∧
        (readLines 4 stream).drop 2 = (readLines 4 (front ++ (other ++ 10 :: back))).drop 2 := by
  intro front bad other back stream
  have whole : front = [] ∨ ∃ lines, front = lines ++ [10] := .inr ⟨Utf8.ofString ".a", rfl⟩
  have clean : 10 ∉ bad := by decide
  have clean' : 10 ∉ other := by decide
  obtain ⟨pieces, cut, -, taken, later, -⟩ := readLines_pieces stream 4
  obtain ⟨reading, called, rest, -⟩ := taken 3 (by decide)
  exact ⟨⟨⟨by decide, whole⟩, clean, clean'⟩, pieces, cut, ⟨reading, called, rest⟩,
    later front bad other back whole clean clean'⟩

end Abbreviation

end ClassQuery
