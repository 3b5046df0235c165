import ClassQuery.Proofs.Abbreviation.Scanning
import Mathlib.Data.List.ModifyLast

/-!
Atoms written out and scanned again, and abbreviations that go on.

Main statements: atoms come back from what they are written as exactly when each is a class with a
name from the alphabet; scanning two texts one behind the other comes to scanning the first and then
the rest, once its last name is lengthened, with faults counted from the start of the whole, and a
fault of the first stays unless it is a dot at the end, which more text may turn into a class.
-/

set_option autoImplicit false
set_option relaxedAutoImplicit false

/-! ### Written out and scanned again -/

namespace ClassQuery.Abbreviation

theorem renderAll_map_classOf (names : List Bytes) :
    Atom.renderAll (names.map classOf) = asText (row names) := by
  rw [asText_row, Atom.renderAll, List.flatMap_map, List.flatMap_map]
  rfl

theorem renderAll_of_scan {s : Text} {atoms : List Atom} (scanned : scan s = .ok atoms) :
    Atom.renderAll atoms = s := by
  obtain ⟨names, named, whole, rfl⟩ := exists_row_of_scan scanned
  apply Utf8.encode_injective
  rw [renderAll_map_classOf, encode_asText_row named, whole]

theorem isName_of_mem_scan {s : Text} {atoms : List Atom} (scanned : scan s = .ok atoms) :
    ∀ a ∈ atoms, a.kind = .cls ∧ IsName (Utf8.encode a.name) := by
  intro a member
  obtain ⟨names, named, -, rfl⟩ := exists_row_of_scan scanned
  obtain ⟨name, listed, rfl⟩ := List.mem_map.mp member
  have isName : IsName name := named name listed
  refine ⟨rfl, ?_⟩
  show IsName (Utf8.encode (asText name))
  rw [isName.encode_asText]
  exact isName

theorem classOf_encode {a : Atom} (cls : a.kind = .cls) (named : IsName (Utf8.encode a.name)) :
    classOf (Utf8.encode a.name) = a := by
  have name : asText (Utf8.encode a.name) = a.name := Utf8.encode_injective named.encode_asText
  obtain ⟨kind, text⟩ := a
  cases cls
  rw [classOf, name]
  rfl

theorem scan_renderAll_of_named {atoms : List Atom}
    (classes : ∀ a ∈ atoms, a.kind = .cls ∧ IsName (Utf8.encode a.name)) :
    scan (Atom.renderAll atoms) = .ok atoms := by
  have same : (atoms.map fun a => Utf8.encode a.name).map classOf = atoms := by
    have each : ∀ a ∈ atoms, (classOf ∘ fun a => Utf8.encode a.name) a = id a := by
      intro a member
      exact classOf_encode (classes a member).1 (classes a member).2
    rw [List.map_map, List.map_congr_left each, List.map_id]
  have named : ∀ name ∈ atoms.map fun a => Utf8.encode a.name, IsName name := by
    intro name listed
    obtain ⟨a, member, rfl⟩ := List.mem_map.mp listed
    exact (classes a member).2
  rw [← same, renderAll_map_classOf]
  apply scan_of_row named
  rw [encode_asText_row named]

/-- The atoms of a text are written as the text. Atoms are read back from what they are written as
exactly when all are classes with names from the alphabet. -/
theorem scan_renderAll :
    (∀ s atoms, scan s = .ok atoms → Atom.renderAll atoms = s) ∧
    ∀ atoms, scan (Atom.renderAll atoms) = .ok atoms ↔
      ∀ a ∈ atoms, a.kind = .cls ∧ IsName (Utf8.encode a.name) := by
  refine ⟨fun _ _ => renderAll_of_scan, ?_⟩
  intro atoms
  exact ⟨isName_of_mem_scan, scan_renderAll_of_named⟩

/-- Classes come back. A tag or a class that is written like one or two other classes does not, nor
do an identifier and a class without a name. -/
theorem scan_renderAll_of_lookalikes :
    let classes := ["b-1", "a", "b-1"].map fun name => Atom.ofClass name.toList
    scan ".b-1.a.b-1".toList = .ok classes ∧ Atom.renderAll classes = ".b-1.a.b-1".toList ∧
    ∀ atoms ∈ [[⟨.tag, ".a".toList⟩], [.ofClass "a.b".toList], [.ofClass [], .ofClass "a".toList],
        [⟨.ident, "a".toList⟩]],
      scan (Atom.renderAll atoms) ≠ .ok atoms := by
  intro classes
  have scanned : scan ".b-1.a.b-1".toList = .ok classes :=
    (scan_renderAll.2 classes).mpr (by decide +kernel)
  refine ⟨scanned, scan_renderAll.1 _ _ scanned, ?_⟩
  intro atoms listed back
  have named := (scan_renderAll.2 atoms).mp back
  revert atoms
  decide +kernel

end ClassQuery.Abbreviation

/-! ### One text behind the other -/

namespace ClassQuery

def Atom.extend (a : Atom) (more : Text) : Atom := { a with name := a.name ++ more }

namespace Abbreviation

def isLetter (c : Char) : Bool := IsName (Utf8.encodeChar c)

/-- A fault as it is counted with some bytes in front of the text that it lies in. -/
def Fault.behind (bytes : Nat) : Fault → Fault
  | .invalid (some position) => .invalid (some (bytes + position))
  | fault => fault

/-- What scanning comes to when it goes on into a text behind some atoms and their bytes. -/
def scanBehind (atoms : List Atom) (bytes : Nat) (text : Text) : Except Fault (List Atom) :=
  match scan text with
  | .ok more => .ok (atoms ++ more)
  | .error fault => .error (fault.behind bytes)

theorem mem_alphabet_of_isLetter {c : Char} (letter : isLetter c = true) :
    ∀ b ∈ Utf8.encodeChar c, b ∈ alphabet := by
  have named : IsName (Utf8.encodeChar c) := by simpa [isLetter] using letter
  exact named.2

theorem not_mem_alphabet_of_isLetter {c : Char} (other : isLetter c = false) :
    ∀ b ∈ Utf8.encodeChar c, b ∉ alphabet := by
  intro b member inside
  have low := toNat_lt_of_mem_alphabet inside
  have value : (Char.ofNat b.toNat).toNat = b.toNat := Utf8.toNat_ofNat (.inl (by omega))
  have same : c = Char.ofNat b.toNat := by
    apply Utf8.eq_of_mem_encodeChar (by omega)
    rwa [value, UInt8.ofNat_toNat]
  have bytes : Utf8.encodeChar c = [b] := by
    rw [same, Utf8.encodeChar_one low]
  have named : IsName [b] := ⟨by simp, by simpa using inside⟩
  simp [isLetter, bytes, named] at other

theorem mem_alphabet_of_mem_run {t : Text} :
    ∀ b ∈ Utf8.encode (t.takeWhile isLetter), b ∈ alphabet := by
  intro b member
  obtain ⟨c, inside, member⟩ := List.mem_flatMap.mp member
  exact mem_alphabet_of_isLetter (List.mem_takeWhile_imp inside) b member

theorem closed_dropWhile_isLetter (t : Text) :
    ∀ b ∈ (Utf8.encode (t.dropWhile isLetter)).head?, b ∉ alphabet := by
  intro b head
  cases left : t.dropWhile isLetter with
  | nil =>
    rw [left] at head
    cases head
  | cons c rest =>
    have other : isLetter c = false := by
      have stopped := List.head?_dropWhile_not isLetter t
      rwa [left] at stopped
    obtain ⟨first, more, bytes⟩ := List.exists_cons_of_ne_nil (Utf8.encodeChar_ne_nil c)
    rw [left, Utf8.encode, List.flatMap_cons, bytes] at head
    obtain rfl : first = b := by simpa using head
    exact not_mem_alphabet_of_isLetter other first (by simp [bytes])

theorem encode_takeWhile_isLetter (t : Text) :
    Utf8.encode (t.takeWhile isLetter) = (Utf8.encode t).takeWhile (· ∈ alphabet) := by
  have parts : Utf8.encode t =
      Utf8.encode (t.takeWhile isLetter) ++ Utf8.encode (t.dropWhile isLetter) := by
    rw [← Utf8.encode_append, List.takeWhile_append_dropWhile]
  have test : (fun b => decide (b ∈ alphabet)) = isNameByte := by
    funext b
    simp [mem_alphabet_iff]
  rw [parts, test]
  exact (takeWhile_append_of_closed mem_alphabet_of_mem_run (closed_dropWhile_isLetter t)).symm

theorem scan_append_of_row {names : List Bytes} {s r : Text}
    (named : ∀ name ∈ names, IsName name) (whole : Utf8.encode s = row names)
    (closed : names ≠ [] → ∀ b ∈ (Utf8.encode r).head?, b ∉ alphabet) :
    scan (s ++ r) = scanBehind (names.map classOf) (Utf8.size s) r := by
  obtain ⟨others, rest, ends, parts, scanned⟩ := exists_scan_eq r
  rw [parts] at closed
  have bytes : Utf8.encode (s ++ r) = row (names ++ others) ++ rest := by
    rw [Utf8.encode_append, whole, parts, row_append, List.append_assoc]
  rw [(ends.append named closed).scan_eq bytes, scanBehind, scanned]
  by_cases empty : rest = []
  · simp [empty]
  · simp [empty, Fault.behind, Utf8.size, whole, row_append]

theorem modifyLast_map_classOf (front : List Bytes) {last : Bytes} {more : Text}
    (letters : ∀ b ∈ Utf8.encode more, b ∈ alphabet) :
    ((front ++ [last]).map classOf).modifyLast (·.extend more) =
      (front ++ [last ++ Utf8.encode more]).map classOf := by
  have text : asText (Utf8.encode more) = more := by
    apply Utf8.encode_injective
    exact encode_asText_of_letters letters
  have joined : asText (last ++ Utf8.encode more) = asText last ++ more := by
    rw [asText, List.map_append]
    exact congrArg (asText last ++ ·) text
  have extended : (classOf last).extend more = classOf (last ++ Utf8.encode more) := by
    show Atom.ofClass (asText last ++ more) = Atom.ofClass (asText (last ++ Utf8.encode more))
    rw [joined]
  rw [List.map_append, List.map_singleton, List.modifyLast_concat, extended, List.map_append,
    List.map_singleton]

theorem scan_append_of_scan {s t : Text} {atoms : List Atom} (scanned : scan s = .ok atoms)
    (filled : atoms ≠ []) :
    scan (s ++ t) = scanBehind (atoms.modifyLast (·.extend (t.takeWhile isLetter)))
      (Utf8.size s + Utf8.size (t.takeWhile isLetter)) (t.dropWhile isLetter) := by
  obtain ⟨names, named, whole, rfl⟩ := exists_row_of_scan scanned
  rcases List.eq_nil_or_concat names with rfl | ⟨front, last, rfl⟩
  · exact absurd rfl filled
  rw [List.concat_eq_append] at named whole ⊢
  have letters : ∀ b ∈ Utf8.encode (t.takeWhile isLetter), b ∈ alphabet := mem_alphabet_of_mem_run
  have cut : s ++ t = (s ++ t.takeWhile isLetter) ++ t.dropWhile isLetter := by
    rw [List.append_assoc, List.takeWhile_append_dropWhile]
  have longer : Utf8.encode (s ++ t.takeWhile isLetter) =
      row (front ++ [last ++ Utf8.encode (t.takeWhile isLetter)]) := by
    rw [Utf8.encode_append, whole, row_concat_append]
  have still : ∀ name ∈ front ++ [last ++ Utf8.encode (t.takeWhile isLetter)], IsName name := by
    rw [List.forall_mem_append, List.forall_mem_singleton] at named ⊢
    exact ⟨named.1, named.2.append letters⟩
  rw [cut, scan_append_of_row still longer fun _ => closed_dropWhile_isLetter t,
    modifyLast_map_classOf front letters, Utf8.size_append]

theorem encode_dotted (front t : Text) :
    Utf8.encode (front ++ '.' :: t) = Utf8.encode front ++ dot :: Utf8.encode t :=
  Utf8.encode_append front ('.' :: t)

theorem exists_scan_append_of_dot {s t front : Text} {p : Nat}
    (refused : scan s = .error (.invalid (some p))) (dotted : s = front ++ ['.'])
    (place : Utf8.size front = p) :
    ∃ atoms, scan front = .ok atoms ∧ scan (s ++ t) = scanBehind atoms p ('.' :: t) := by
  obtain ⟨names, rest, ends, -, parts, fault⟩ := exists_rest_of_scan refused
  have length : (Utf8.encode front).length = (row names).length := by
    cases fault
    exact place
  rw [dotted, encode_dotted] at parts
  obtain ⟨whole, -⟩ := List.append_inj parts length
  have cut : s ++ t = front ++ '.' :: t := by
    rw [dotted, List.append_assoc, List.singleton_append]
  refine ⟨names.map classOf, scan_of_row ends.named whole, ?_⟩
  rw [cut, ← place]
  apply scan_append_of_row ends.named whole
  intro _ b head
  have ascii : '.'.toNat < 0x80 := by decide
  have opened : (Utf8.encode ('.' :: t)).head? = some dot :=
    (Utf8.head?_encode_iff ascii).mpr rfl
  rw [opened] at head
  cases head
  exact dot_not_mem_alphabet

theorem scan_append_of_refused {s t : Text} {fault : Fault} (refused : scan s = .error fault)
    (other : ∀ front, s = front ++ ['.'] → fault ≠ .invalid (some (Utf8.size front))) :
    scan (s ++ t) = .error fault := by
  obtain ⟨names, rest, ends, more, parts, rfl⟩ := exists_rest_of_scan refused
  have notDot : rest ≠ [dot] := by
    rintro rfl
    have front := encode_asText_row ends.named
    apply other (asText (row names))
    · apply Utf8.encode_injective
      rw [encode_dotted, front, parts]
      rfl
    · rw [Utf8.size, front]
  have longer := ends.append_right more notDot (Utf8.encode t)
  rw [longer.scan_eq (by rw [Utf8.encode_append, parts, List.append_assoc]),
    if_neg (by simp [more])]

/-- Behind an abbreviation with atoms, the letters that a text begins with go into the last name and
the rest is scanned on its own. A fault stays where it is whatever follows, but for a dot at the
end, which is scanned with what follows it. -/
theorem scan_append (s t : Text) :
    Utf8.encode (t.takeWhile isLetter) = (Utf8.encode t).takeWhile (· ∈ alphabet) ∧
    (∀ atoms, scan s = .ok atoms → atoms ≠ [] →
      scan (s ++ t) = scanBehind (atoms.modifyLast (·.extend (t.takeWhile isLetter)))
        (Utf8.size s + Utf8.size (t.takeWhile isLetter)) (t.dropWhile isLetter)) ∧
    ∀ fault, scan s = .error fault → ∃ p, fault = .invalid (some p) ∧
      ((∀ front, s = front ++ ['.'] → Utf8.size front ≠ p) → scan (s ++ t) = .error fault) ∧
      ∀ front, s = front ++ ['.'] → Utf8.size front = p →
        ∃ atoms, scan front = .ok atoms ∧ scan (s ++ t) = scanBehind atoms p ('.' :: t) := by
  refine ⟨encode_takeWhile_isLetter t, fun _ => scan_append_of_scan, ?_⟩
  intro fault refused
  obtain ⟨names, rest, -, -, -, rfl⟩ := exists_rest_of_scan refused
  refine ⟨_, rfl, ?_, fun _ => exists_scan_append_of_dot refused⟩
  intro other
  apply scan_append_of_refused refused
  intro front dotted same
  exact other front dotted (Option.some.inj (Fault.invalid.inj same)).symm

/-- The last name is lengthened and the fault behind it counted from the start of the whole. Of the
faults at the same place, the dot at the end is mended by a letter, the other one is not. -/
theorem scan_append_mended :
    scan ".a.b".toList = .ok [.ofClass "a".toList, .ofClass "b".toList] ∧
    scan (".a.b".toList ++ "-1.c.é".toList) = .error (.invalid (some 8)) ∧
    scan ".a.".toList = .error (.invalid (some 2)) ∧
    scan (".a.".toList ++ "b".toList) = .ok [.ofClass "a".toList, .ofClass "b".toList] ∧
    scan ".a#.".toList = .error (.invalid (some 2)) ∧
    scan (".a#.".toList ++ "b".toList) = .error (.invalid (some 2)) := by
  have classes : scan ".a.b".toList = .ok [.ofClass "a".toList, .ofClass "b".toList] := by
    decide +kernel
  have dotted : scan ".a.".toList = .error (.invalid (some 2)) := by decide +kernel
  have hashed : scan ".a#.".toList = .error (.invalid (some 2)) := by decide +kernel
  have lengthened := (scan_append ".a.b".toList "-1.c.é".toList).2.1 _ classes (by simp)
  obtain ⟨p, place, -, mended⟩ := (scan_append ".a.".toList "b".toList).2.2 _ dotted
  cases place
  obtain ⟨atoms, read, behind⟩ := mended ".a".toList rfl (by decide +kernel)
  obtain ⟨q, place, kept, -⟩ := (scan_append ".a#.".toList "b".toList).2.2 _ hashed
  cases place
  refine ⟨classes, lengthened.trans (by decide +kernel), dotted, ?_, hashed, kept ?_⟩
  · have one : scan ".a".toList = .ok [.ofClass "a".toList] := by decide +kernel
    rw [one] at read
    cases read
    exact behind.trans (by decide +kernel)
  · intro front parts
    obtain rfl : front = ".a#".toList := (List.append_inj' parts rfl).1.symm
    decide +kernel

end Abbreviation

end ClassQuery
