import ClassQuery.Abbreviation
import ClassQuery.Text.Utf8.Lemmas
import Mathlib.Data.List.Basic
import Mathlib.Data.List.Infix
import Mathlib.Data.List.TakeWhile
import Mathlib.Order.Bounds.Basic

/-!
The language of abbreviations, and what scanning one comes to.

An abbreviation is a row of names, each behind a dot. The row that the bytes are cut into greedily
is the longest that they begin with, and no other row has the same bytes: a name cannot be cut
short, since no dot stands inside of one. A row that cannot go on still cannot with more bytes
behind it, unless a lone dot waits there for a name. Main statement: the cursor passes the names of
a row that cannot go on, and stops at the end of the bytes or, stuck, just behind that row.
-/

set_option autoImplicit false
set_option relaxedAutoImplicit false

/-! ### Rows of names -/

namespace ClassQuery.Abbreviation

def alphabet : Bytes :=
  Utf8.ofString "ABCDEFGHIJKLMNOPQRSTUVWXYZabcdefghijklmnopqrstuvwxyz0123456789_-"

def IsName (name : Bytes) : Prop := name ≠ [] ∧ ∀ b ∈ name, b ∈ alphabet

instance (name : Bytes) : Decidable (IsName name) :=
  inferInstanceAs (Decidable (name ≠ [] ∧ ∀ b ∈ name, b ∈ alphabet))

def row (names : List Bytes) : Bytes := names.flatMap (dot :: ·)

def IsRow (bytes : Bytes) : Prop := ∃ names, (∀ name ∈ names, IsName name) ∧ bytes = row names

/-- A row of names cannot go on: neither does its last name, nor does another name follow. -/
structure EndsBefore (names : List Bytes) (rest : Bytes) : Prop where
  named : ∀ name ∈ names, IsName name
  closed : names ≠ [] → ∀ b ∈ rest.head?, b ∉ alphabet
  stuck : ∀ name, IsName name → ¬ dot :: name <+: rest

@[simp] theorem row_nil : row [] = [] := rfl

@[simp] theorem row_cons (name : Bytes) (names : List Bytes) :
    row (name :: names) = dot :: (name ++ row names) := rfl

theorem row_append (names others : List Bytes) :
    row (names ++ others) = row names ++ row others := List.flatMap_append

theorem row_concat_append (front : List Bytes) (last letters : Bytes) :
    row (front ++ [last ++ letters]) = row (front ++ [last]) ++ letters := by
  rw [row_append, row_append]
  simp

theorem IsName.append {name letters : Bytes} (named : IsName name)
    (inside : ∀ b ∈ letters, b ∈ alphabet) : IsName (name ++ letters) :=
  ⟨List.append_ne_nil_of_left_ne_nil named.1 _, List.forall_mem_append.mpr ⟨named.2, inside⟩⟩

private theorem alphabet_eq : alphabet =
    (List.range' 65 26 ++ List.range' 97 26 ++ List.range' 48 10 ++ [95, 45]).map UInt8.ofNat := by
  rfl

theorem mem_alphabet_iff {b : UInt8} : b ∈ alphabet ↔ isNameByte b = true := by
  rw [alphabet_eq, List.mem_map]
  constructor
  · rintro ⟨n, member, rfl⟩
    simp only [List.mem_append, List.mem_range'_1, List.mem_cons, List.not_mem_nil, or_false]
      at member
    have small : n < 256 := by omega
    have value : (UInt8.ofNat n).toNat = n := UInt8.toNat_ofNat_of_lt' small
    simp only [isNameByte, value, Bool.or_eq_true, Bool.and_eq_true, decide_eq_true_eq]
    omega
  · intro h
    simp only [isNameByte, Bool.or_eq_true, Bool.and_eq_true, decide_eq_true_eq] at h
    refine ⟨b.toNat, ?_, UInt8.ofNat_toNat⟩
    simp only [List.mem_append, List.mem_range'_1, List.mem_cons, List.not_mem_nil, or_false]
    omega

theorem dot_not_mem_alphabet : dot ∉ alphabet := by
  rw [mem_alphabet_iff]
  decide

theorem head?_row_append (names : List Bytes) {rest : Bytes}
    (closed : ∀ b ∈ rest.head?, b ∉ alphabet) : ∀ b ∈ (row names ++ rest).head?, b ∉ alphabet := by
  intro b head
  cases names with
  | nil => exact closed b head
  | cons name names =>
    obtain rfl : dot = b := by simpa using head
    exact dot_not_mem_alphabet

theorem takeWhile_append_of_closed {run rest : Bytes} (inside : ∀ b ∈ run, b ∈ alphabet)
    (closed : ∀ b ∈ rest.head?, b ∉ alphabet) : (run ++ rest).takeWhile isNameByte = run := by
  have letters : ∀ b ∈ run, isNameByte b = true := fun b member =>
    mem_alphabet_iff.mp (inside b member)
  rw [List.takeWhile_append_of_pos letters]
  cases rest with
  | nil => simp
  | cons b rest =>
    have other : isNameByte b = false := by
      rw [← Bool.not_eq_true, ← mem_alphabet_iff]
      exact closed b rfl
    simp [other]

theorem IsName.takeWhile_append {name rest : Bytes} (named : IsName name)
    (closed : ∀ b ∈ rest.head?, b ∉ alphabet) : (name ++ rest).takeWhile isNameByte = name :=
  takeWhile_append_of_closed named.2 closed

theorem row_injective {l r : List Bytes} (namedL : ∀ name ∈ l, IsName name)
    (namedR : ∀ name ∈ r, IsName name) (h : row l = row r) : l = r := by
  induction l generalizing r with
  | nil =>
    cases r with
    | nil => rfl
    | cons name r => simp at h
  | cons name l ih =>
    cases r with
    | nil => simp at h
    | cons other r =>
      rw [List.forall_mem_cons] at namedL namedR
      have ends (names : List Bytes) : ∀ b ∈ (row names).head?, b ∉ alphabet := by
        have closed : ∀ b ∈ ([] : Bytes).head?, b ∉ alphabet := by simp
        simpa using head?_row_append names closed
      have joined : name ++ row l = other ++ row r := (List.cons.inj h).2
      have same : name = other := by
        rw [← namedL.1.takeWhile_append (ends l), joined, namedR.1.takeWhile_append (ends r)]
      subst same
      rw [ih namedL.2 namedR.2 (List.append_cancel_left joined)]

/-- Of two names that begin the same bytes, one behind which no name goes on is the longer; and if
the other is shorter, then its row ends with it. -/
private theorem eq_or_shorter_of_prefix {name other : Bytes} {names : List Bytes} {rest : Bytes}
    (named : IsName name) (named' : IsName other) (closed : ∀ b ∈ rest.head?, b ∉ alphabet)
    (h : other ++ row names <+: name ++ rest) :
    (other = name ∧ row names <+: rest) ∨ (names = [] ∧ other.length ≤ name.length) := by
  obtain ⟨more, joined⟩ := h
  rw [List.append_assoc, List.append_eq_append_iff] at joined
  rcases joined with ⟨extra, rfl, joined⟩ | ⟨extra, rfl, joined⟩
  · cases names with
    | nil => exact .inr ⟨rfl, by simp⟩
    | cons next names =>
      cases extra with
      | nil => exact .inl ⟨by simp, more, by simpa using joined⟩
      | cons b extra =>
        rw [row_cons, List.cons_append, List.cons_append, List.cons.injEq] at joined
        obtain rfl := joined.1
        exact absurd (named.2 dot (by simp)) dot_not_mem_alphabet
  · cases extra with
    | nil => exact .inl ⟨by simp, more, by simpa using joined.symm⟩
    | cons b extra =>
      have head : b ∈ rest.head? := by simp [joined]
      exact absurd (named'.2 b (by simp)) (closed b head)

theorem EndsBefore.length_row_le {names : List Bytes} {rest : Bytes}
    (ends : EndsBefore names rest) {others : List Bytes} (named : ∀ name ∈ others, IsName name)
    (h : row others <+: row names ++ rest) : (row others).length ≤ (row names).length := by
  induction names generalizing others with
  | nil =>
    cases others with
    | nil => simp
    | cons other others =>
      rw [List.forall_mem_cons] at named
      have begun : dot :: other <+: row (other :: others) := ⟨row others, by simp⟩
      exact absurd (begun.trans h) (ends.stuck other named.1)
  | cons name names ih =>
    cases others with
    | nil => simp
    | cons other others =>
      have whole := List.forall_mem_cons.mp ends.named
      rw [List.forall_mem_cons] at named
      have later : EndsBefore names rest :=
        ⟨whole.2, fun _ => ends.closed (by simp), ends.stuck⟩
      have inner : other ++ row others <+: name ++ (row names ++ rest) := by
        rw [row_cons, row_cons, List.cons_append, List.cons_prefix_cons] at h
        simpa using h.2
      have closed := head?_row_append names (ends.closed (by simp))
      rcases eq_or_shorter_of_prefix whole.1 named.1 closed inner with ⟨rfl, rest⟩ | ⟨rfl, shorter⟩
      · have step := ih later named.2 rest
        simp only [row_cons, List.length_cons, List.length_append]
        omega
      · simp only [row_cons, row_nil, List.length_cons, List.length_append, List.length_nil]
        omega

theorem EndsBefore.isGreatest {names : List Bytes} {rest : Bytes} (ends : EndsBefore names rest) :
    IsGreatest {n | n ≤ (row names ++ rest).length ∧ IsRow ((row names ++ rest).take n)}
      (row names).length := by
  constructor
  · refine ⟨by simp, names, ends.named, ?_⟩
    rw [List.take_left]
  · rintro n ⟨within, others, named, taken⟩
    have length : n = (row others).length := by
      rw [← taken, List.length_take, min_eq_left within]
    rw [length]
    refine ends.length_row_le named ?_
    rw [← taken]
    exact List.take_prefix ..

theorem EndsBefore.of_named {names : List Bytes} (named : ∀ name ∈ names, IsName name) :
    EndsBefore names [] :=
  ⟨named, by simp, by simp⟩

theorem EndsBefore.unique {names others : List Bytes} {rest left : Bytes}
    (ends : EndsBefore names rest) (ends' : EndsBefore others left)
    (same : row names ++ rest = row others ++ left) : names = others ∧ rest = left := by
  have shorter : (row others).length ≤ (row names).length := by
    apply ends.length_row_le ends'.named
    rw [same]
    exact List.prefix_append ..
  have longer : (row names).length ≤ (row others).length := by
    apply ends'.length_row_le ends.named
    rw [← same]
    exact List.prefix_append ..
  obtain ⟨rows, left⟩ := List.append_inj same (by omega)
  exact ⟨row_injective ends.named ends'.named rows, left⟩

theorem EndsBefore.append {names others : List Bytes} {rest : Bytes}
    (ends : EndsBefore others rest) (named : ∀ name ∈ names, IsName name)
    (closed : names ≠ [] → ∀ b ∈ (row others ++ rest).head?, b ∉ alphabet) :
    EndsBefore (names ++ others) rest := by
  refine ⟨List.forall_mem_append.mpr ⟨named, ends.named⟩, ?_, ends.stuck⟩
  intro filled
  cases others with
  | nil => exact closed (by simpa using filled)
  | cons name others => exact ends.closed (by simp)

/-- More bytes change nothing where the row cannot go on, unless it waits for a name. -/
theorem EndsBefore.append_right {names : List Bytes} {rest : Bytes} (ends : EndsBefore names rest)
    (more : rest ≠ []) (other : rest ≠ [dot]) (bytes : Bytes) :
    EndsBefore names (rest ++ bytes) := by
  obtain ⟨b, rest, rfl⟩ := List.exists_cons_of_ne_nil more
  refine ⟨ends.named, ends.closed, ?_⟩
  intro name named begun
  obtain ⟨c, name, rfl⟩ := List.exists_cons_of_ne_nil named.1
  rw [List.cons_append, List.cons_prefix_cons] at begun
  obtain ⟨rfl, begun⟩ := begun
  have filled : rest ≠ [] := by
    intro empty
    exact other (by rw [empty])
  obtain ⟨d, rest, rfl⟩ := List.exists_cons_of_ne_nil filled
  rw [List.cons_append, List.cons_prefix_cons] at begun
  obtain ⟨rfl, -⟩ := begun
  have short : IsName [c] := ⟨by simp, by simpa using named.2 c (by simp)⟩
  exact ends.stuck [c] short (by simp)

/-! ### The cursor -/

def asText (bytes : Bytes) : Text := bytes.map fun b => Char.ofNat b.toNat

theorem encode_asText {bytes : Bytes} (ascii : ∀ b ∈ bytes, b.toNat < 0x80) :
    Utf8.encode (asText bytes) = bytes := by
  induction bytes with
  | nil => rfl
  | cons b bytes ih =>
    rw [List.forall_mem_cons] at ascii
    have cut : Utf8.encode (asText (b :: bytes)) =
        Utf8.encodeChar (Char.ofNat b.toNat) ++ Utf8.encode (asText bytes) := List.flatMap_cons
    rw [cut, Utf8.encodeChar_one ascii.1, ih ascii.2]
    rfl

theorem asText_row (names : List Bytes) :
    asText (row names) = (names.map asText).flatMap ('.' :: ·) := by
  induction names with
  | nil => rfl
  | cons name names ih =>
    have first : asText (row (name :: names)) = '.' :: (asText name ++ asText (row names)) := by
      rw [row_cons, asText, List.map_cons, List.map_append]
      rfl
    rw [first, ih, List.map_cons, List.flatMap_cons, List.cons_append]

theorem toNat_lt_of_mem_alphabet {b : UInt8} (h : b ∈ alphabet) : b.toNat < 0x80 := by
  rw [mem_alphabet_iff] at h
  simp only [isNameByte, Bool.or_eq_true, Bool.and_eq_true, decide_eq_true_eq] at h
  omega

theorem toNat_lt_of_mem_row {names : List Bytes} (named : ∀ name ∈ names, IsName name) :
    ∀ b ∈ row names, b.toNat < 0x80 := by
  intro b member
  obtain ⟨name, inside, member⟩ := List.mem_flatMap.mp member
  rcases List.mem_cons.mp member with rfl | member
  · decide
  · exact toNat_lt_of_mem_alphabet ((named name inside).2 b member)

theorem encode_asText_row {names : List Bytes} (named : ∀ name ∈ names, IsName name) :
    Utf8.encode (asText (row names)) = row names :=
  encode_asText (toNat_lt_of_mem_row named)

theorem encode_asText_of_letters {bytes : Bytes} (letters : ∀ b ∈ bytes, b ∈ alphabet) :
    Utf8.encode (asText bytes) = bytes :=
  encode_asText fun b member => toNat_lt_of_mem_alphabet (letters b member)

theorem IsName.encode_asText {name : Bytes} (named : IsName name) :
    Utf8.encode (asText name) = name :=
  encode_asText_of_letters named.2

theorem IsName.decode? {name : Bytes} (named : IsName name) :
    Utf8.decode? name = some (asText name) := by
  rw [← Utf8.decode?_encode (asText name), named.encode_asText]

def classOf (name : Bytes) : Atom := .ofClass (asText name)

theorem exists_name_or_stuck (bytes : Bytes) :
    (∃ name rest, IsName name ∧ (∀ b ∈ rest.head?, b ∉ alphabet) ∧
      bytes = dot :: (name ++ rest)) ∨ ∀ name, IsName name → ¬ dot :: name <+: bytes := by
  by_cases begun : ∃ name, IsName name ∧ dot :: name <+: bytes
  · left
    obtain ⟨name, named, rest, rfl⟩ := begun
    refine ⟨(name ++ rest).takeWhile isNameByte, (name ++ rest).dropWhile isNameByte, ?_, ?_, ?_⟩
    · constructor
      · obtain ⟨b, name, rfl⟩ := List.exists_cons_of_ne_nil named.1
        have inside : isNameByte b = true := mem_alphabet_iff.mp (named.2 b (by simp))
        simp [inside]
      · intro b member
        exact mem_alphabet_iff.mpr (List.mem_takeWhile_imp member)
    · intro b head
      rw [mem_alphabet_iff, Bool.not_eq_true]
      have stopped := List.head?_dropWhile_not isNameByte (name ++ rest)
      rw [Option.mem_def.mp head] at stopped
      simpa using stopped
    · rw [List.takeWhile_append_dropWhile, List.cons_append]
  · right
    intro name named prefixed
    exact begun ⟨name, named, prefixed⟩

namespace Cursor

theorem step_of_nil {c : Cursor} (h : c.rest = []) : c.step = .finished c.atoms.reverse := by
  rw [step, h]

theorem step_of_name {c : Cursor} {name rest : Bytes} (named : IsName name)
    (closed : ∀ b ∈ rest.head?, b ∉ alphabet) (h : c.rest = dot :: (name ++ rest)) :
    c.step = .advanced ⟨c.position + 1 + name.length, rest, classOf name :: c.atoms⟩ := by
  have taken := named.takeWhile_append closed
  have dropped : (name ++ rest).dropWhile isNameByte = rest := by
    have whole := List.takeWhile_append_dropWhile (p := isNameByte) (l := name ++ rest)
    rw [taken] at whole
    exact List.append_cancel_left whole
  have filled : name.isEmpty = false := by
    rw [List.isEmpty_eq_false_iff]
    exact named.1
  rw [step, h]
  simp only [if_true, taken, dropped, filled, named.decode?]
  rfl

theorem step_of_stuck {c : Cursor} (more : c.rest ≠ [])
    (stuck : ∀ name, IsName name → ¬ dot :: name <+: c.rest) : c.step = .stuck c.position := by
  obtain ⟨b, rest, h⟩ := List.exists_cons_of_ne_nil more
  rw [step, h]
  simp only
  by_cases marked : b = dot
  · have empty : (rest.takeWhile isNameByte).isEmpty = true := by
      by_contra filled
      have named : IsName (rest.takeWhile isNameByte) := by
        refine ⟨by simpa using filled, fun b member => ?_⟩
        exact mem_alphabet_iff.mpr (List.mem_takeWhile_imp member)
      refine stuck _ named ?_
      rw [h, marked, List.prefix_cons_inj]
      exact List.takeWhile_prefix _
    rw [if_pos marked, if_pos empty]
  · rw [if_neg marked]

theorem run_of_finished {c : Cursor} {atoms : List Atom} (h : c.step = .finished atoms) :
    c.run = .ok atoms := by
  rw [run]
  split <;> simp_all

theorem run_of_stuck {c : Cursor} {position : Nat} (h : c.step = .stuck position) :
    c.run = .error position := by
  rw [run]
  split <;> simp_all

theorem run_of_advanced {c next : Cursor} (h : c.step = .advanced next) : c.run = next.run := by
  rw [run]
  split <;> simp_all

/-- A run passes a row of names that cannot go on. It succeeds if nothing is left behind the row,
and is otherwise stuck there. -/
theorem exists_run_eq (c : Cursor) : ∃ names rest, EndsBefore names rest ∧
    c.rest = row names ++ rest ∧
    c.run = if rest = [] then .ok (c.atoms.reverse ++ names.map classOf)
      else .error (c.position + (row names).length) := by
  induction size : c.rest.length using Nat.strongRecOn generalizing c with
  | ind n ih =>
    by_cases empty : c.rest = []
    · refine ⟨[], [], ⟨by simp, by simp, by simp⟩, empty, ?_⟩
      rw [run_of_finished (step_of_nil empty), if_pos rfl]
      simp
    rcases exists_name_or_stuck c.rest with ⟨name, rest, named, closed, h⟩ | stuck
    · have stepped := step_of_name named closed h
      have shorter : rest.length < n := by
        rw [← size, h, List.length_cons, List.length_append]
        omega
      obtain ⟨names, left, ends, (parts : rest = row names ++ left), ran⟩ :=
        ih rest.length shorter
          ⟨c.position + 1 + name.length, rest, classOf name :: c.atoms⟩ rfl
      refine ⟨name :: names, left, ⟨?_, fun _ => ?_, ends.stuck⟩, ?_, ?_⟩
      · exact List.forall_mem_cons.mpr ⟨named, ends.named⟩
      · cases names with
        | nil =>
          rw [row_nil, List.nil_append] at parts
          exact parts ▸ closed
        | cons _ _ => exact ends.closed (by simp)
      · rw [h, parts, row_cons, List.cons_append, List.append_assoc]
      · have counted : c.position + 1 + name.length + (row names).length =
            c.position + (row (name :: names)).length := by
          simp only [row_cons, List.length_cons, List.length_append]
          omega
        rw [run_of_advanced stepped, ran, counted]
        simp
    · refine ⟨[], c.rest, ⟨by simp, by simp, stuck⟩, rfl, ?_⟩
      rw [run_of_stuck (step_of_stuck empty stuck), if_neg empty]
      simp

end Cursor

/-- Scanning succeeds on a row of names, and otherwise tells how long the row is that the
abbreviation begins with. -/
theorem exists_scan_eq (abbreviation : Text) : ∃ names rest, EndsBefore names rest ∧
    Utf8.encode abbreviation = row names ++ rest ∧
    scan abbreviation = if rest = [] then .ok (names.map classOf)
      else .error (.invalid (some (row names).length)) := by
  obtain ⟨names, rest, ends, parts, ran⟩ :=
    Cursor.exists_run_eq (.start (Utf8.encode abbreviation))
  refine ⟨names, rest, ends, parts, ?_⟩
  rw [scan, ran]
  by_cases empty : rest = []
  · simp [empty, Cursor.start]
  · simp [empty, Cursor.start]

theorem EndsBefore.scan_eq {names : List Bytes} {rest : Bytes} {s : Text}
    (ends : EndsBefore names rest) (parts : Utf8.encode s = row names ++ rest) :
    scan s = if rest = [] then .ok (names.map classOf)
      else .error (.invalid (some (row names).length)) := by
  obtain ⟨others, left, ends', parts', scanned⟩ := exists_scan_eq s
  obtain ⟨rfl, rfl⟩ := ends.unique ends' (parts.symm.trans parts')
  exact scanned

theorem scan_of_row {names : List Bytes} {s : Text} (named : ∀ name ∈ names, IsName name)
    (whole : Utf8.encode s = row names) : scan s = .ok (names.map classOf) := by
  rw [(EndsBefore.of_named named).scan_eq (by rw [whole, List.append_nil]), if_pos rfl]

theorem exists_row_of_scan {s : Text} {atoms : List Atom} (scanned : scan s = .ok atoms) :
    ∃ names, (∀ name ∈ names, IsName name) ∧ Utf8.encode s = row names ∧
      atoms = names.map classOf := by
  obtain ⟨names, rest, ends, parts, outcome⟩ := exists_scan_eq s
  rw [scanned] at outcome
  split at outcome
  · next empty =>
    rw [empty, List.append_nil] at parts
    exact ⟨names, ends.named, parts, Except.ok.inj outcome⟩
  · cases outcome

theorem exists_rest_of_scan {s : Text} {fault : Fault} (refused : scan s = .error fault) :
    ∃ names rest, EndsBefore names rest ∧ rest ≠ [] ∧ Utf8.encode s = row names ++ rest ∧
      fault = .invalid (some (row names).length) := by
  obtain ⟨names, rest, ends, parts, outcome⟩ := exists_scan_eq s
  rw [refused] at outcome
  split at outcome
  · cases outcome
  · next more => exact ⟨names, rest, ends, more, parts, Except.error.inj outcome⟩

end ClassQuery.Abbreviation
