import ClassQuery.Text.Basic

/-!
JSON, as it is written and as it is read.

Of what is written only what must be escaped is: the quotation mark, the backslash, and the
characters below U+0020, which have a short form or are written by number. A reader takes a value
from the beginning of a text and gives back the rest. It reads the whole notation: blanks between
its parts, all escapes, pairs of surrogates, and numbers with a fraction or an exponent, which are
kept as a whole number times a power of ten.
-/

set_option autoImplicit false
set_option relaxedAutoImplicit false

/-! ### Writing -/

namespace ClassQuery.Json

inductive Scalar where
  | text (t : Text)
  | number (n : Nat)
deriving DecidableEq

def hexDigit (n : Nat) : Char := Char.ofNat (if n < 10 then 48 + n else 87 + n)

def escapeChar (c : Char) : Text :=
  if c = '"' then ['\\', '"']
  else if c = '\\' then ['\\', '\\']
  else if c.toNat < 0x20 then
    match c.toNat with
    | 8 => ['\\', 'b']
    | 9 => ['\\', 't']
    | 10 => ['\\', 'n']
    | 12 => ['\\', 'f']
    | 13 => ['\\', 'r']
    | n => ['\\', 'u', '0', '0', hexDigit (n / 16), hexDigit (n % 16)]
  else [c]

def quoted (t : Text) : List Text := ['"'] :: t.map escapeChar ++ [['"']]

def Scalar.written : Scalar → List Text
  | .text t => quoted t
  | .number n => [Text.decimal n]

def field (f : Text × Scalar) : List Text := quoted f.1 ++ [':'] :: f.2.written

def object (fields : List (Text × Scalar)) : List Text :=
  ['\x7b'] :: [[',']].intercalate (fields.map field) ++ [['\x7d']]

/-! ### Reading -/

/-- A number: whole, times a power of ten. -/
structure Number where
  whole : Int
  exponent : Int
deriving DecidableEq

/-- A value in JSON. The fields of an object keep their order. -/
inductive Value where
  | null
  | truth (b : Bool)
  | number (n : Number)
  | text (t : Text)
  | array (values : List Value)
  | object (fields : List (Text × Value))

def Scalar.toValue : Scalar → Value
  | .text t => .text t
  | .number n => .number ⟨n, 0⟩

def isBlank (c : Char) : Bool := c = ' ' || c = '\t' || c = '\n' || c = '\r'

def skipBlanks (text : Text) : Text := text.dropWhile isBlank

def hexValue? (c : Char) : Option Nat :=
  let n := c.toNat
  if 48 ≤ n ∧ n ≤ 57 then some (n - 48)
  else if 97 ≤ n ∧ n ≤ 102 then some (n - 87)
  else if 65 ≤ n ∧ n ≤ 70 then some (n - 55)
  else none

def hexWord? (a b c d : Char) : Option Nat :=
  match hexValue? a, hexValue? b, hexValue? c, hexValue? d with
  | some a, some b, some c, some d => some (((a * 16 + b) * 16 + c) * 16 + d)
  | _, _, _, _ => none

/-- The character that a letter after a backslash stands for. -/
def escaped? (c : Char) : Option Char :=
  match c with
  | '"' | '\\' | '/' => some c
  | 'b' => some (Char.ofNat 8)
  | 'f' => some (Char.ofNat 12)
  | 'n' => some '\n'
  | 'r' => some '\r'
  | 't' => some '\t'
  | _ => none

/-- Whether a number is the first of a pair of surrogates. -/
def isHigh (n : Nat) : Bool := 0xD800 ≤ n && n < 0xDC00

/-- Whether a number is the second of a pair of surrogates. -/
def isLow (n : Nat) : Bool := 0xDC00 ≤ n && n < 0xE000

def joinSurrogates (high low : Nat) : Char :=
  Char.ofNat (0x10000 + (high - 0xD800) * 0x400 + (low - 0xDC00))

def readText : Text → Option (Text × Text)
  | [] => none
  | '"' :: rest => some ([], rest)
  | '\\' :: 'u' :: a :: b :: c :: d :: rest =>
    match hexWord? a b c d with
    | none => none
    | some high =>
      if isHigh high then
        match rest with
        | '\\' :: 'u' :: e :: f :: g :: h :: rest =>
          match hexWord? e f g h with
          | none => none
          | some low =>
            if isLow low then
              (readText rest).map fun r => (joinSurrogates high low :: r.1, r.2)
            else none
        | _ => none
      else if isLow high then none
      else (readText rest).map fun r => (Char.ofNat high :: r.1, r.2)
  | '\\' :: c :: rest =>
    match escaped? c with
    | none => none
    | some c => (readText rest).map fun r => (c :: r.1, r.2)
  | c :: rest =>
    if c.toNat < 0x20 ∨ c = '\\' then none else (readText rest).map fun r => (c :: r.1, r.2)

/-- The number that some digits stand for, after the digits of another number. -/
def digitsValue (before : Nat) (digits : Text) : Nat :=
  digits.foldl (fun n c => n * 10 + (c.toNat - 48)) before

def isDigit (c : Char) : Bool := (Text.digitValue? c).isSome

def readDigits (text : Text) : Option (Text × Text) :=
  let digits := text.takeWhile isDigit
  if digits.isEmpty then none else some (digits, text.dropWhile isDigit)

/-- Reads the digits before the point. A zero stands alone. -/
def readWhole (text : Text) : Option (Text × Text) :=
  match readDigits text with
  | some ('0' :: _ :: _, _) => none
  | read => read

def readFraction (text : Text) : Option (Text × Text) :=
  match text with
  | '.' :: rest => readDigits rest
  | _ => some ([], text)

def readExponent (text : Text) : Option (Int × Text) :=
  match text with
  | e :: rest =>
    if e = 'e' ∨ e = 'E' then
      match rest with
      | '-' :: rest => (readDigits rest).map fun r => (-(digitsValue 0 r.1 : Int), r.2)
      | '+' :: rest => (readDigits rest).map fun r => ((digitsValue 0 r.1 : Int), r.2)
      | _ => (readDigits rest).map fun r => ((digitsValue 0 r.1 : Int), r.2)
    else some (0, text)
  | [] => some (0, [])

def readUnsigned (text : Text) : Option (Number × Text) :=
  match readWhole text with
  | none => none
  | some (whole, rest) =>
    match readFraction rest with
    | none => none
    | some (fraction, rest) =>
      (readExponent rest).map fun r =>
        (⟨digitsValue (digitsValue 0 whole) fraction, r.1 - fraction.length⟩, r.2)

def readNumber (text : Text) : Option (Value × Text) :=
  match text with
  | '-' :: rest => (readUnsigned rest).map fun r => (.number ⟨-r.1.whole, r.1.exponent⟩, r.2)
  | _ => (readUnsigned text).map fun r => (.number r.1, r.2)

mutual

/-- Reads a value that nests no deeper than the given number allows. -/
def readValue : Nat → Text → Option (Value × Text)
  | 0, _ => none
  | depth + 1, text =>
    match skipBlanks text with
    | 'n' :: 'u' :: 'l' :: 'l' :: rest => some (.null, rest)
    | 't' :: 'r' :: 'u' :: 'e' :: rest => some (.truth true, rest)
    | 'f' :: 'a' :: 'l' :: 's' :: 'e' :: rest => some (.truth false, rest)
    | '"' :: rest => (readText rest).map fun r => (.text r.1, r.2)
    | '[' :: rest =>
      match skipBlanks rest with
      | ']' :: rest => some (.array [], rest)
      | _ => (readElements depth rest).map fun r => (.array r.1, r.2)
    | '\x7b' :: rest =>
      match skipBlanks rest with
      | '\x7d' :: rest => some (.object [], rest)
      | _ => (readFields depth rest).map fun r => (.object r.1, r.2)
    | text => readNumber text

def readElements : Nat → Text → Option (List Value × Text)
  | 0, _ => none
  | depth + 1, text =>
    match readValue depth text with
    | none => none
    | some (value, rest) =>
      match skipBlanks rest with
      | ']' :: rest => some ([value], rest)
      | ',' :: rest => (readElements depth rest).map fun r => (value :: r.1, r.2)
      | _ => none

def readFields : Nat → Text → Option (List (Text × Value) × Text)
  | 0, _ => none
  | depth + 1, text =>
    match skipBlanks text with
    | '"' :: rest =>
      match readText rest with
      | none => none
      | some (name, rest) =>
        match skipBlanks rest with
        | ':' :: rest =>
          match readValue depth rest with
          | none => none
          | some (value, rest) =>
            match skipBlanks rest with
            | '\x7d' :: rest => some ([(name, value)], rest)
            | ',' :: rest => (readFields depth rest).map fun r => ((name, value) :: r.1, r.2)
            | _ => none
        | _ => none
    | _ => none

end

/-- The value that a text is the notation of. A value nests no deeper than its text is long. -/
def read? (text : Text) : Option Value :=
  match readValue (text.length + 1) text with
  | some (value, rest) => if (skipBlanks rest).isEmpty then some value else none
  | none => none

end ClassQuery.Json
