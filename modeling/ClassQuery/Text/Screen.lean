import ClassQuery.Text.Utf8

/-!
Texts for a screen, and what is left of them without the marks that only a screen understands.

A mark begins with an escape character, and what follows says of which kind it is. Most marks are a
few characters long; a mark that carries data goes on until it is ended. Control characters are left
out as well, except those that move to another line or column; one of these also ends a mark that
carries no data.
-/

set_option autoImplicit false
set_option relaxedAutoImplicit false

namespace ClassQuery.Screen

def escape : Char := Char.ofNat 0x1B

def setOff (text : Text) : Text := escape :: "[1m".toList ++ text ++ escape :: "[0m".toList

inductive Mode where
  | shown
  /-- A mark of which only the escape character was read. -/
  | opened
  /-- A mark that ends with its next letter, digit or sign past the digits. -/
  | short
  /-- A mark with parameters, which ends with a letter or a sign past the question mark. -/
  | control
  /-- A mark with a title, which ends with a bell. -/
  | title
  /-- A mark that announces data, before anything is said of the data. -/
  | announced
  /-- A mark that announces data, among its parameters. -/
  | parameters
  /-- A mark that announces data, after its parameters. -/
  | details
  /-- Data, up to the byte that ends it. -/
  | data
deriving DecidableEq

def moves (c : Char) : Bool := c ∈ ['\t', '\n', '\r', Char.ofNat 0xC]

def isPrinted (c : Char) : Bool := (0x20 ≤ c.toNat && c.toNat ≠ 0x7F) || moves c

def cancels (c : Char) : Bool := c.toNat = 0x18 || c.toNat = 0x1A

/-- The byte that ends data. It does so inside a longer character too. -/
def terminator : UInt8 := 0x9C

namespace Mode

/-- Whether a character is shown that is read inside of something. One that moves is shown also
inside a mark that carries no data. -/
def shows : Mode → Char → Bool
  | .shown, c => isPrinted c
  | .opened, c | .short, c | .control, c => moves c
  | .title, _ | .announced, _ | .parameters, _ | .details, _ | .data, _ => false

def ofOpening (c : Char) : Mode :=
  if c.toNat < 0x20 || 0x7E < c.toNat then .opened
  else if c.toNat < 0x30 then .short
  else if c = '[' then .control
  else if c = ']' then .title
  else if c = 'P' then .announced
  else if c ∈ ['X', '^', '_'] then .data
  else .shown

def next (m : Mode) (c : Char) : Mode :=
  let within (low high : Nat) : Bool := low ≤ c.toNat && c.toNat ≤ high
  match m with
  | .shown => .shown
  | .opened => ofOpening c
  | .short => if within 0x30 0x7E then .shown else .short
  | .control => if within 0x40 0x7E then .shown else .control
  | .title => if c.toNat = 7 then .shown else .title
  | .announced =>
    if within 0x20 0x2F then .details
    else if within 0x30 0x3F then .parameters
    else if within 0x40 0x7E then .data
    else .announced
  | .parameters =>
    if within 0x20 0x2F then .details
    else if within 0x3C 0x7E then .data
    else .parameters
  | .details => if within 0x30 0x7E then .data else .details
  | .data => if terminator ∈ Utf8.encodeChar c then .shown else .data

def after (m : Mode) (c : Char) : Mode :=
  if c = escape then .opened
  else if cancels c || m.shows c then .shown
  else m.next c

end Mode

def plainFrom (m : Mode) : Text → Text
  | [] => []
  | c :: rest => (if m.shows c then [c] else []) ++ plainFrom (m.after c) rest

def plain (text : Text) : Text := plainFrom .shown text

end ClassQuery.Screen
