import ClassQuery.Proofs.Json.RoundTrip
import ClassQuery.Proofs.Search.Lines
import ClassQuery.Proofs.Search.Overflow

/-!
Records lose nothing, as JSON or plain.

In JSON no control character is written, whatever a record holds, so it takes one line. A plain line
holds a path up to the first colon and a line number up to the next colon with a blank; all that
follows is the text, whatever it holds. Main statements: the JSON lines of some hits are cut at
their line feeds into objects that hold the paths as they are shown, the line numbers and the texts,
and the plain lines of these objects are what is put out of the same hits without JSON; as long as
no path is shown with a colon or a line feed, the plain lines of some hits tell what is shown of
each.
-/

set_option autoImplicit false
set_option relaxedAutoImplicit false

/-! ### JSON lines -/

namespace ClassQuery

def Json.Value.field? (name : Text) : Json.Value → Option Json.Value
  | .object fields => fields.lookup name
  | .null | .truth _ | .number _ | .text _ | .array _ => none

/-- The plain line of an object that has a path, a whole line number and a text. -/
def Json.Value.plainLine? (v : Json.Value) : Option Text :=
  match v.field? "path".toList, v.field? "line".toList, v.field? "text".toList with
  | some (.text path), some (.number ⟨.ofNat line, 0⟩), some (.text content) =>
    some (path ++ ':' :: Text.decimal line ++ ": ".toList ++ content ++ ['\n'])
  | _, _, _ => none

def Hit.object (h : Hit) : Json.Value :=
  .object [("path".toList, .text (Utf8.decodeLossy h.path)), ("line".toList, .number ⟨h.line, 0⟩),
    ("text".toList, .text h.text)]

namespace Record

/-- The text of a record, without its line feed. -/
def line (r : Record) (format : Format) : Text := (r.pieces format).flatten

theorem bytes_eq_encode (r : Record) (format : Format) :
    r.bytes format = Utf8.encode (r.line format ++ ['\n']) := by
  rw [Utf8.encode_append, line, Utf8.encode_flatten]
  rfl

theorem exists_body_json (r : Record) :
    ∃ body, r.bytes .json = body ++ [10] ∧ ∀ b ∈ body, 0x20 ≤ b.toNat := by
  refine ⟨Utf8.encode (r.line .json), by rw [bytes_eq_encode, Utf8.encode_append]; rfl, ?_⟩
  intro b mem
  obtain ⟨c, inside, mem⟩ := List.mem_flatMap.mp mem
  exact Utf8.shown_encodeChar (Json.shown_object r.fields c inside) b mem

theorem lineFeed_not_mem_line_json (r : Record) : '\n' ∉ r.line .json := by
  intro mem
  exact absurd (Json.shown_object r.fields _ mem) (by decide)

theorem read?_line_json (r : Record) :
    Json.read? (r.line .json) = some (.object (r.fields.map Json.fieldValue)) :=
  Json.read?_object r.fields

theorem read?_line_ofHit (h : Hit) :
    Json.read? ((ofHit h).line .json) = some h.object := read?_line_json (ofHit h)

theorem plainLine?_object (h : Hit) :
    h.object.plainLine? = some ((ofHit h).line .plain ++ ['\n']) := by
  have path : h.object.field? "path".toList = some (.text (Utf8.decodeLossy h.path)) := rfl
  have number : h.object.field? "line".toList = some (.number ⟨.ofNat h.line, 0⟩) := rfl
  have content : h.object.field? "text".toList = some (.text h.text) := rfl
  rw [Json.Value.plainLine?, path, number, content]
  exact congrArg some (by simp [line, pieces, ofHit])

end Record

theorem splitOn_flatMap_lineFeed {lines : List Text} (unbroken : ∀ line ∈ lines, '\n' ∉ line) :
    (lines.flatMap (· ++ ['\n'])).splitOn '\n' = lines ++ [[]] := by
  induction lines with
  | nil => exact List.splitOn_nil '\n'
  | cons line lines ih =>
    rw [List.forall_mem_cons] at unbroken
    have apart : ∀ c ∈ line, (c == '\n') = false := by
      intro c mem
      rw [beq_eq_false_iff_ne]
      rintro rfl
      exact unbroken.1 mem
    rw [List.flatMap_cons, List.append_assoc, List.singleton_append, List.splitOn,
      List.splitOnP_append_cons_of_forall_mem apart _ (beq_self_eq_true _)]
    exact congrArg (line :: ·) (ih unbroken.2)

/-- What is written of a hit where all of it fits. -/
def Hit.rendered (format : Format) (h : Hit) : Bytes :=
  (Search.put format (.direct none []) h).1.output

namespace Search

/-- What is written of several hits where all of it fits. -/
def rendered (format : Format) (hits : List Hit) : Bytes := hits.flatMap (Hit.rendered format)

theorem rendered_eq_bytes (format : Format) (h : Hit) :
    h.rendered format = (Record.ofHit h).bytes format :=
  (Record.ofHit h).output_write_direct format []

theorem rendered_cons (format : Format) (h : Hit) (rest : List Hit) :
    rendered format (h :: rest) = h.rendered format ++ rendered format rest := List.flatMap_cons

theorem rendered_eq_encode (format : Format) (hits : List Hit) :
    rendered format hits =
      Utf8.encode ((hits.map fun h => (Record.ofHit h).line format).flatMap (· ++ ['\n'])) := by
  induction hits with
  | nil => rfl
  | cons h hits ih =>
    rw [rendered_cons, rendered_eq_bytes, Record.bytes_eq_encode, ih, List.map_cons,
      List.flatMap_cons, ← Utf8.encode_append]

/-- The JSON lines of some hits are texts on lines of their own, one for each hit. They are read as
the objects of the hits, and the plain lines of these are what is put out of the hits without JSON.
The JSON line of a pattern is read as the abbreviation and the pattern. -/
theorem rendered_json_lossless (hits : List Hit) (abbreviation pattern : Text) :
    (∀ h : Hit, ∃ body, h.rendered .json = body ++ [10] ∧ ∀ b ∈ body, 0x20 ≤ b.toNat) ∧
    (∃ (text : Text) (lines plain : List Text), Utf8.decode? (rendered .json hits) = some text ∧
      text.splitOn '\n' = lines ++ [[]] ∧
      lines.map Json.read? = (hits.map Hit.object).map some ∧
      (hits.map Hit.object).map Json.Value.plainLine? = plain.map some ∧
      Utf8.encode plain.flatten = rendered .plain hits) ∧
    ∃ line, ((Record.ofPattern abbreviation pattern).write .json (.direct none [])).sink.output =
        Utf8.encode (line ++ ['\n']) ∧ '\n' ∉ line ∧
      Json.read? line = some (.object [("abbreviation".toList, .text abbreviation),
        ("pattern".toList, .text pattern)]) := by
  refine ⟨?_, ?_, ?_⟩
  · intro h
    rw [rendered_eq_bytes]
    exact Record.exists_body_json _
  · refine ⟨_, hits.map fun h => (Record.ofHit h).line .json,
      hits.map fun h => (Record.ofHit h).line .plain ++ ['\n'],
      by rw [rendered_eq_encode, Utf8.decode?_encode], ?_, ?_, ?_, ?_⟩
    · apply splitOn_flatMap_lineFeed
      intro line mem
      obtain ⟨h, -, rfl⟩ := List.mem_map.mp mem
      exact Record.lineFeed_not_mem_line_json _
    · rw [List.map_map, List.map_map]
      exact List.map_congr_left fun h _ => Record.read?_line_ofHit h
    · rw [List.map_map, List.map_map]
      exact List.map_congr_left fun h _ => Record.plainLine?_object h
    · rw [rendered_eq_encode, List.flatMap_map, List.flatMap_def]
  · refine ⟨(Record.ofPattern abbreviation pattern).line .json, ?_,
      Record.lineFeed_not_mem_line_json _, Record.read?_line_json _⟩
    rw [Record.output_write_direct, Record.bytes_eq_encode]

end Search

/-! ### Plain lines -/

namespace Text

def cut? (word text : Text) : Option (Text × Text) :=
  (after? word text).map fun behind =>
    (text.take (text.length - word.length - behind.length), behind)

def natural? (digits : Text) : Option Nat :=
  if digits.isEmpty then none
  else digits.foldlM (fun before c => (digitValue? c).map (before * 10 + ·)) 0

end Text

structure Hit.Shown where
  /-- The path, with each fault in it shown as U+FFFD. -/
  path : Text
  line : Nat
  text : Text
deriving DecidableEq

namespace Hit

def shown (h : Hit) : Shown := ⟨Utf8.decodeLossy h.path, h.line, h.text⟩

def Shown.ofLine? (line : Text) : Option Shown :=
  (Text.cut? [':'] line).bind fun front =>
    (Text.cut? ": ".toList front.2).bind fun back =>
      (Text.natural? back.1).map fun number => ⟨front.1, number, back.2⟩

def Shown.ofOutput? (output : Bytes) : Option (List Shown) :=
  (Utf8.decode? output).bind fun text => (text.splitOn '\n').dropLast.mapM ofLine?

end Hit

namespace Text

variable {c : Char} {front : Text}

private theorem after?_of_absent (absent : c ∉ front) (word back : Text) :
    after? (c :: word) (front ++ (c :: word ++ back)) = some back := by
  induction front with
  | nil =>
    have begins : (c :: word).isPrefixOf (c :: (word ++ back)) = true :=
      List.isPrefixOf_iff_prefix.mpr (List.prefix_append (c :: word) back)
    show after? (c :: word) (c :: (word ++ back)) = some back
    rw [after?_cons, if_pos begins, ← List.cons_append, List.drop_left]
  | cons d front ih =>
    rw [List.mem_cons, not_or] at absent
    have other : (c :: word).isPrefixOf (d :: (front ++ (c :: word ++ back))) = false := by
      simp [List.isPrefixOf, absent.1]
    rw [List.cons_append, after?_cons, other, if_neg (by simp), ih absent.2]

theorem cut?_of_absent (absent : c ∉ front) (word back : Text) :
    cut? (c :: word) (front ++ (c :: word ++ back)) = some (front, back) := by
  have length : (front ++ (c :: word ++ back)).length - (c :: word).length - back.length =
      front.length := by
    simp only [List.length_append, List.length_cons]
    omega
  rw [cut?, after?_of_absent absent, Option.map_some, length, List.take_left]

theorem natural?_decimal (n : Nat) : natural? (decimal n) = some n := by
  have filled : (decimal n).isEmpty = false := by simp [decimal_ne_nil]
  rw [natural?, filled, if_neg (by simp)]
  induction n using decimal_induction with
  | one n small => simp [digitValue?_digit small]
  | more n d positive small ih =>
    rw [List.foldlM_append, ih (by simp [decimal_ne_nil])]
    simp [digitValue?_digit small, Nat.mul_comm]

end Text

namespace Hit

variable {h : Hit}

theorem lineFeed_not_mem_text {q : Query} {path : Bytes} {contents : Text}
    (found : h ∈ inText q path contents) : '\n' ∉ h.text := by
  obtain ⟨-, -, listed, -⟩ := mem_inText_iff.mp found
  obtain ⟨before, ending, after, placed, -⟩ := Lines.exists_placed listed
  exact placed.unbroken

/-- A hit whose path is shown without colons and line feeds, and whose text some search finds. -/
structure Legible (h : Hit) : Prop where
  noColon : ':' ∉ Utf8.decodeLossy h.path
  noLineFeed : '\n' ∉ Utf8.decodeLossy h.path
  found : ∃ q path contents, ∃ other ∈ inText q path contents, other.text = h.text

theorem line_plain (h : Hit) : (Record.ofHit h).line .plain =
    Utf8.decodeLossy h.path ++ ([':'] ++
      (Text.decimal h.line ++ (": ".toList ++ h.text))) := by
  simp [Record.line, Record.pieces, Record.ofHit]

theorem Legible.lineFeed_not_mem_line (legible : h.Legible) :
    '\n' ∉ (Record.ofHit h).line .plain := by
  obtain ⟨q, path, contents, other, found, same⟩ := legible.found
  have clean : '\n' ∉ h.text := same ▸ lineFeed_not_mem_text found
  have number : '\n' ∉ Text.decimal h.line := Text.not_mem_decimal (by decide) h.line
  rw [line_plain]
  simp [legible.noLineFeed, number, clean]

theorem Legible.ofLine?_line (legible : h.Legible) :
    Shown.ofLine? ((Record.ofHit h).line .plain) = some h.shown := by
  have first : Text.cut? [':'] ((Record.ofHit h).line .plain) =
      some (Utf8.decodeLossy h.path, Text.decimal h.line ++ (": ".toList ++ h.text)) := by
    rw [line_plain]
    exact Text.cut?_of_absent legible.noColon [] _
  have second : Text.cut? ": ".toList (Text.decimal h.line ++ (": ".toList ++ h.text)) =
      some (Text.decimal h.line, h.text) :=
    Text.cut?_of_absent (Text.not_mem_decimal (by decide) h.line) [' '] h.text
  rw [Shown.ofLine?, first, Option.bind_some, second, Option.bind_some, Text.natural?_decimal]
  rfl

theorem Legible.count_rendered (legible : h.Legible) : (h.rendered .plain).count 10 = 1 := by
  have clean : (10 : UInt8) ∉ Utf8.encode ((Record.ofHit h).line .plain) := fun mem =>
    legible.lineFeed_not_mem_line (Utf8.lineFeed_mem_encode_iff.mp mem)
  have ending : Utf8.encode ['\n'] = [10] := rfl
  rw [Search.rendered_eq_bytes, Record.bytes_eq_encode, Utf8.encode_append, ending,
    List.count_append, List.count_eq_zero.mpr clean, List.count_singleton_self]

end Hit

namespace Search

variable {hits : List Hit}

theorem count_rendered (legible : ∀ h ∈ hits, h.Legible) :
    (rendered .plain hits).count 10 = hits.length := by
  induction hits with
  | nil => rfl
  | cons h hits ih =>
    rw [List.forall_mem_cons] at legible
    rw [rendered_cons, List.count_append, legible.1.count_rendered, ih legible.2, List.length_cons,
      Nat.add_comm]

theorem ofOutput?_rendered (legible : ∀ h ∈ hits, h.Legible) :
    Hit.Shown.ofOutput? (rendered .plain hits) = some (hits.map Hit.shown) := by
  have unbroken : ∀ line ∈ hits.map fun h => (Record.ofHit h).line .plain, '\n' ∉ line := by
    intro line mem
    obtain ⟨h, listed, rfl⟩ := List.mem_map.mp mem
    exact (legible h listed).lineFeed_not_mem_line
  rw [Hit.Shown.ofOutput?, rendered_eq_encode, Utf8.decode?_encode, Option.bind_some,
    splitOn_flatMap_lineFeed unbroken, List.dropLast_concat, List.mapM_map]
  clear unbroken
  induction hits with
  | nil => rfl
  | cons h hits ih =>
    rw [List.forall_mem_cons] at legible
    rw [List.mapM_cons, Function.comp_apply, legible.1.ofLine?_line, ih legible.2]
    rfl

/-- The plain lines of hits that are shown without colons and line feeds in their paths are as many
as the hits and tell what is shown of each, so that hits which are put out as the same bytes are
shown alike. -/
theorem rendered_plain_readable (legible : ∀ h ∈ hits, h.Legible) :
    (rendered .plain hits).count 10 = hits.length ∧
      Hit.Shown.ofOutput? (rendered .plain hits) = some (hits.map Hit.shown) ∧
      ∀ others : List Hit, (∀ h ∈ others, h.Legible) →
        rendered .plain hits = rendered .plain others →
          hits.map Hit.shown = others.map Hit.shown := by
  refine ⟨count_rendered legible, ofOutput?_rendered legible, ?_⟩
  intro others clean same
  have read := ofOutput?_rendered legible
  rw [same, ofOutput?_rendered clean] at read
  exact (Option.some.inj read).symm

/-- The text has colons, a blank behind one of them and a carriage return at its end, and the paths
are two different byte strings, neither of them a text, that are shown alike. -/
theorem rendered_plain_readable_of_colons :
    let text := "className=: b:c\r".toList
    let hits : List Hit := [⟨[0x61, 0xE2, 0x82], 10, text⟩]
    let others : List Hit := [⟨[0x61, 0xFF], 10, text⟩]
    ((∀ h ∈ hits, h.Legible) ∧ (∀ h ∈ others, h.Legible) ∧
        rendered .plain hits = rendered .plain others) ∧
      (rendered .plain hits).count 10 = 1 ∧
      Hit.Shown.ofOutput? (rendered .plain hits) = some [⟨['a', Char.ofNat 0xFFFD], 10, text⟩] ∧
      hits.map Hit.shown = others.map Hit.shown := by
  intro text hits others
  have found : ∃ q path contents, ∃ other ∈ Hit.inText q path contents, other.text = text :=
    ⟨⟨[], []⟩, [], text, ⟨[], 1, text⟩, by decide +kernel, rfl⟩
  have legible : ∀ h ∈ hits, h.Legible := by
    intro h mem
    rw [List.mem_singleton.mp mem]
    exact ⟨by decide +kernel, by decide +kernel, found⟩
  have legible' : ∀ h ∈ others, h.Legible := by
    intro h mem
    rw [List.mem_singleton.mp mem]
    exact ⟨by decide +kernel, by decide +kernel, found⟩
  have same : rendered .plain hits = rendered .plain others := by
    rw [rendered_eq_encode, rendered_eq_encode]
    rfl
  obtain ⟨counted, read, alike⟩ := rendered_plain_readable legible
  exact ⟨⟨legible, legible', same⟩, counted, read, alike others legible' same⟩

end Search

end ClassQuery
