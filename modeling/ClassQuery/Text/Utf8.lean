import ClassQuery.Text.Basic

/-!
The UTF-8 form of a text, and reading it back byte by byte.

The decoder keeps what it has read and, inside a character, how many bytes are still owed and
between which bounds the next one must lie. A byte outside the bounds ends the character as a
fault and is then read afresh, so each longest run of bytes that begins no character counts as
one fault. Feeding bytes is a fold: what was read before a cut never depends on what comes after.
-/

set_option autoImplicit false
set_option relaxedAutoImplicit false

namespace ClassQuery.Utf8

def tailByte (n : Nat) : UInt8 := UInt8.ofNat (0x80 + n % 0x40)

def encodeChar (c : Char) : Bytes :=
  let n := c.toNat
  if n < 0x80 then [UInt8.ofNat n]
  else if n < 0x800 then [UInt8.ofNat (0xC0 + n / 0x40), tailByte n]
  else if n < 0x10000 then
    [UInt8.ofNat (0xE0 + n / 0x1000), tailByte (n / 0x40), tailByte n]
  else
    [UInt8.ofNat (0xF0 + n / 0x40000), tailByte (n / 0x1000), tailByte (n / 0x40), tailByte n]

def encode (text : Text) : Bytes := text.flatMap encodeChar

def size (text : Text) : Nat := (encode text).length

structure Pending where
  /-- The number of bytes still owed, at least one. -/
  owed : Nat
  /-- The least value that the next byte may have. -/
  low : Nat
  /-- The greatest value that the next byte may have. -/
  high : Nat
  bits : Nat
deriving DecidableEq

inductive Opening where
  | whole (c : Char)
  | partly (p : Pending)
  | fault

/-- What a byte between two characters opens. The bounds keep out overlong forms, surrogates and
numbers past the last code point. -/
def opening (b : Nat) : Opening :=
  if b < 0x80 then .whole (Char.ofNat b)
  else if b < 0xC2 then .fault
  else if b < 0xE0 then .partly ⟨1, 0x80, 0xBF, b - 0xC0⟩
  else if b = 0xE0 then .partly ⟨2, 0xA0, 0xBF, 0⟩
  else if b = 0xED then .partly ⟨2, 0x80, 0x9F, 0xD⟩
  else if b < 0xF0 then .partly ⟨2, 0x80, 0xBF, b - 0xE0⟩
  else if b = 0xF0 then .partly ⟨3, 0x90, 0xBF, 0⟩
  else if b < 0xF4 then .partly ⟨3, 0x80, 0xBF, b - 0xF0⟩
  else if b = 0xF4 then .partly ⟨3, 0x80, 0x8F, 4⟩
  else .fault

/-- The state of reading: the characters and faults read so far, newest first, a fault being
`none`; and the character that is still open. -/
structure Decoder where
  /-- What has been read, newest first. -/
  units : List (Option Char)
  /-- The character that is still open, if any. -/
  pending : Option Pending

namespace Decoder

def start : Decoder := ⟨[], none⟩

def begin (d : Decoder) (b : Nat) : Decoder :=
  match opening b with
  | .whole c => ⟨some c :: d.units, none⟩
  | .partly p => ⟨d.units, some p⟩
  | .fault => ⟨none :: d.units, none⟩

def feed (d : Decoder) (b : UInt8) : Decoder :=
  match d.pending with
  | none => d.begin b.toNat
  | some p =>
    if p.low ≤ b.toNat ∧ b.toNat ≤ p.high then
      let bits := p.bits * 0x40 + (b.toNat - 0x80)
      if p.owed ≤ 1 then ⟨some (Char.ofNat bits) :: d.units, none⟩
      else ⟨d.units, some ⟨p.owed - 1, 0x80, 0xBF, bits⟩⟩
    else (⟨none :: d.units, none⟩ : Decoder).begin b.toNat

/-- All that was read, in order. An open character counts as a fault. -/
def finish (d : Decoder) : List (Option Char) :=
  match d.pending with
  | none => d.units.reverse
  | some _ => (none :: d.units).reverse

end Decoder

def units (bytes : Bytes) : List (Option Char) := (bytes.foldl Decoder.feed .start).finish

def decode? (bytes : Bytes) : Option Text :=
  let us := units bytes
  if us.all Option.isSome then some (us.filterMap id) else none

/-- The text of a byte string in which each fault shows as U+FFFD. -/
def decodeLossy (bytes : Bytes) : Text := (units bytes).map (·.getD (Char.ofNat 0xFFFD))

abbrev ofString (s : String) : Bytes := encode s.toList

end ClassQuery.Utf8
