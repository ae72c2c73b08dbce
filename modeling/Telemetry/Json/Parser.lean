import Telemetry.Json.Document

/-!
# Reading documents

A text is read from left to right into a document. Reading never fails: a fault of spelling becomes
a part of the document, and the reading ends there.

* `Text.scan`, `Numeral.scan`: a string literal after its opening quote, and a numeral;
* `Doc.value`, `Doc.items`, `Doc.members`: one value and the insides of lists and objects;
* `Doc.parse`: a whole text.
-/

namespace Telemetry.Json

/-- White space between the parts of a document. -/
def isSpace (b : UInt8) : Bool := b == 32 || b == 9 || b == 10 || b == 13

/-- The text from its first byte that is no white space. -/
def skipSpace (bs : List UInt8) : List UInt8 := bs.dropWhile isSpace

/-- A decimal digit. -/
def isDigit (b : UInt8) : Bool := ascii '0' ≤ b && b ≤ ascii '9'

/-- The characters of ASCII codes. -/
def chars (bs : List UInt8) : List Char := bs.map fun b => .ofNat b.toNat

/-! ## String literals -/

/-- The value of a hex digit. -/
def hexValue? (b : UInt8) : Option Nat :=
  let n := b.toNat
  if 48 ≤ n ∧ n ≤ 57 then some (n - 48)
  else if 97 ≤ n ∧ n ≤ 102 then some (n - 87)
  else if 65 ≤ n ∧ n ≤ 70 then some (n - 55)
  else none

/-- The value of four hex digits. -/
def hexValue4? (a b c d : UInt8) : Option Nat := do
  return (← hexValue? a) * 4096 + (← hexValue? b) * 256 + (← hexValue? c) * 16 + (← hexValue? d)

/-- The byte that a backslash and a letter stand for. -/
def unescape? (b : UInt8) : Option UInt8 :=
  if b = ascii '"' ∨ b = ascii '\\' ∨ b = ascii '/' then some b
  else (Text.shortEscapes.find? fun p => p.2 == b).map (·.1)

namespace Text

/-- The literal with one more piece in front. -/
def cons (p : Piece) (t : Text × List UInt8) : Text × List UInt8 :=
  ({ t.1 with pieces := p :: t.1.pieces }, t.2)

/-- The literal that breaks off here. -/
def cut (f : Flaw) : Text × List UInt8 := ({ pieces := [], flaw := some f }, [])

/-- A string literal after its opening quote, and what follows it. -/
def scan : List UInt8 → Text × List UInt8
  | [] => cut .ended
  | b :: rest =>
    if b = ascii '"' then ({ pieces := [] }, rest)
    else if b = ascii '\\' then
      match rest with
      | [] => cut .ended
      | e :: rest =>
        if e = ascii 'u' then
          match rest with
          | h :: i :: j :: k :: rest =>
            match hexValue4? h i j k with
            | some n => cons (.unit n) (scan rest)
            | none => cut .malformed
          | _ => cut .ended
        else
          match unescape? e with
          | some x => cons (.byte x) (scan rest)
          | none => cut .malformed
    else if b < 0x20 then cut .malformed
    else cons (.byte b) (scan rest)

end Text

/-! ## Numerals -/

/-- Digits, at least one, and what follows them. -/
def digits (bs : List UInt8) : Except Flaw (List Char × List UInt8) :=
  match bs with
  | [] => .error .ended
  | b :: _ =>
    if isDigit b then .ok (chars (bs.takeWhile isDigit), bs.dropWhile isDigit)
    else .error .malformed

/-- The digits before the point: a leading zero stands alone. -/
def wholeDigits (bs : List UInt8) : Except Flaw (List Char × List UInt8) := do
  let (ds, rest) ← digits bs
  if ds.head? = some '0' ∧ ds.length ≠ 1 then throw .malformed
  return (ds, rest)

/-- The point and the digits after it, where there is a point. -/
def fractionDigits (bs : List UInt8) : Except Flaw (List Char × List UInt8) :=
  match bs with
  | b :: rest => if b = ascii '.' then digits rest else .ok ([], bs)
  | [] => .ok ([], [])

/-- The mark of an exponent and its digits, where there is a mark. -/
def exponent (bs : List UInt8) : Except Flaw ((List Char × List Char) × List UInt8) :=
  match bs with
  | b :: rest =>
    if b = ascii 'e' ∨ b = ascii 'E' then
      let sign := (rest.take 1).filter fun s => s == ascii '+' || s == ascii '-'
      (digits (rest.drop sign.length)).map fun p => ((chars (b :: sign), p.1), p.2)
    else .ok (([], []), bs)
  | [] => .ok (([], []), [])

/-- A numeral and what follows it. -/
def scanNumeral (bs : List UInt8) : Except Flaw (Numeral × List UInt8) := do
  let negative := bs.head? = some (ascii '-')
  let (whole, rest) ← wholeDigits (if negative then bs.drop 1 else bs)
  let (fraction, rest) ← fractionDigits rest
  let ((mark, power), rest) ← exponent rest
  return ({ negative, whole, fraction, mark, power }, rest)

/-! ## Values -/

/-- The rest of a text after a word. -/
def word (w bs : List UInt8) : Except Flaw (List UInt8) :=
  match w, bs with
  | [], bs => .ok bs
  | _ :: _, [] => .error .ended
  | a :: w, b :: bs => if a = b then word w bs else .error .malformed

namespace Doc

/-- A value with one spelling, after its first letter. -/
def keyword (d : Doc) (w : String) (bs : List UInt8) : Doc × Option (List UInt8) :=
  match word (asciis w.toList) bs with
  | .ok rest => (d, some rest)
  | .error f => (flawed f f, none)

/-- A number. One that is spelled wrong is malformed for whoever skips it. -/
def numeral (bs : List UInt8) : Doc × Option (List UInt8) :=
  match scanNumeral bs with
  | .ok (n, rest) => (number n, some rest)
  | .error f => (flawed f .malformed, none)

/-- Something that begins no value. -/
def unknown : Doc × Option (List UInt8) := (flawed .malformed .malformed, none)

mutual

/-- A value and what follows it, or nothing where a flaw ended the reading. -/
def value : Nat → List UInt8 → Doc × Option (List UInt8)
  | 0, _ => unknown
  | fuel + 1, bs =>
    match skipSpace bs with
    | [] => (absent, none)
    | b :: rest =>
      if b = ascii '"' then
        let (t, rest) := Text.scan rest
        (string t, if t.flaw.isSome then none else some rest)
      else if b = ascii '[' then
        match skipSpace rest with
        | [] => (list [] (some .ended), none)
        | c :: rest' =>
          if c = ascii ']' then (list [], some rest')
          else
            let (ds, flaw, next) := items fuel (c :: rest')
            (list ds flaw, next)
      else if b = ascii '\x7b' then
        match skipSpace rest with
        | [] => (object [] (some .ended), none)
        | c :: rest' =>
          if c = ascii '\x7d' then (object [], some rest')
          else if c = ascii '"' then
            let (ms, flaw, next) := members fuel (c :: rest')
            (object ms flaw, next)
          else (oddObject (value fuel (c :: rest')).1, none)
      else if b = ascii 'n' then keyword null "ull" rest
      else if b = ascii 't' then keyword (bool true) "rue" rest
      else if b = ascii 'f' then keyword (bool false) "alse" rest
      else if b = ascii '-' ∨ isDigit b then numeral (b :: rest)
      else unknown

/-- The items of a list from one on, up to the closing bracket. -/
def items : Nat → List UInt8 → List Doc × Option Flaw × Option (List UInt8)
  | 0, _ => ([], some .malformed, none)
  | fuel + 1, bs =>
    match value fuel bs with
    | (d, none) => ([d], none, none)
    | (d, some rest) =>
      match skipSpace rest with
      | [] => ([d], some .ended, none)
      | b :: rest =>
        if b = ascii ',' then
          let (ds, flaw, next) := items fuel rest
          (d :: ds, flaw, next)
        else if b = ascii ']' then ([d], none, some rest)
        else ([d], some .malformed, none)

/-- The members of an object from one on, up to the closing brace. -/
def members : Nat → List UInt8 → List (Text × Doc) × Option Flaw × Option (List UInt8)
  | 0, _ => ([], some .malformed, none)
  | fuel + 1, bs =>
    match skipSpace bs with
    | [] => ([((Text.cut .ended).1, absent)], none, none)
    | b :: rest =>
      if b = ascii '"' then
        let (k, rest) := Text.scan rest
        if k.flaw.isSome then ([(k, flawed .malformed .malformed)], none, none)
        else
          match skipSpace rest with
          | [] => ([(k, absent)], none, none)
          | b :: rest =>
            if b = ascii ':' then
              match value fuel rest with
              | (d, none) => ([(k, d)], none, none)
              | (d, some rest) =>
                match skipSpace rest with
                | [] => ([(k, d)], some .ended, none)
                | b :: rest =>
                  if b = ascii ',' then
                    let (ms, flaw, next) := members fuel rest
                    ((k, d) :: ms, flaw, next)
                  else if b = ascii '\x7d' then ([(k, d)], none, some rest)
                  else ([(k, d)], some .malformed, none)
            else ([(k, flawed .malformed .malformed)], none, none)
      else ([((Text.cut .malformed).1, flawed .malformed .malformed)], none, none)

end

/-- The document of a text, and whether anything but white space follows it. Every step but the one
into a list or object takes a byte, so twice the length of the text is enough for the reading. -/
def parse (bs : List UInt8) : Doc × Bool :=
  match value (2 * bs.length + 2) bs with
  | (d, none) => (d, false)
  | (d, some rest) => (d, !(skipSpace rest).isEmpty)

end Doc

end Telemetry.Json
