import Telemetry.Numeral

/-!
# Documents

A document is what a JSON text says, before it is known what the text should hold. A reader takes a
text from left to right and stops at its first fault, and a fault of shape may come before one of
spelling. So a document keeps all that was read before the first fault of spelling, and the fault
where it stands.

* `Text`: a string literal; `Doc`: a value;
* `Flaw`: a fault of spelling;
* `Text.ofString`, `Text.read`: a literal for a string, and the string that a literal spells;
* `Doc.print`: the text of a document without flaws;
* `Doc.skipFlaw?`: the first flaw of a value that nobody asks for.
-/

namespace Telemetry.Json

/-- Why a text is no document: it is spelled wrong, or it ends too early. -/
inductive Flaw where
  | malformed
  | ended
deriving DecidableEq, Repr

/-! ## String literals -/

/-- A byte of a string literal, or a code unit written as an escape with four hex digits. -/
inductive Piece where
  | byte (b : UInt8)
  | unit (n : Nat)
deriving DecidableEq, Repr

/-- A string literal. One with a flaw has no end, and nothing follows it. -/
structure Text where
  pieces : List Piece
  flaw : Option Flaw := none
deriving DecidableEq, Repr

namespace Text

/-- The first unit of a pair. -/
def isHigh (n : Nat) : Bool := 0xD800 ≤ n && n ≤ 0xDBFF

/-- The second unit of a pair. -/
def isLow (n : Nat) : Bool := 0xDC00 ≤ n && n ≤ 0xDFFF

/-- The bytes that the pieces spell; a unit of a pair without its partner spells nothing. -/
def bytes : List Piece → Option (List UInt8)
  | [] => some []
  | .byte b :: rest => (bytes rest).map (b :: ·)
  | .unit n :: .unit m :: rest =>
    if isHigh n then
      if isLow m then
        (bytes rest).map
          (String.utf8EncodeChar (.ofNat ((n - 0xD800) * 0x400 + (m - 0xDC00) + 0x10000)) ++ ·)
      else none
    else if isLow n then none
    else (bytes (.unit m :: rest)).map (String.utf8EncodeChar (.ofNat n) ++ ·)
  | .unit n :: rest =>
    if isHigh n || isLow n then none
    else (bytes rest).map (String.utf8EncodeChar (.ofNat n) ++ ·)

/-- Some unit of a pair surely lacks its partner, whatever may follow the pieces. -/
def hasLone : List Piece → Bool
  | [] => false
  | .byte _ :: rest => hasLone rest
  | .unit n :: rest =>
    if isLow n then true
    else if isHigh n then
      match rest with
      | [] => false
      | .unit m :: rest' => if isLow m then hasLone rest' else true
      | .byte _ :: _ => true
    else hasLone rest

/-- The string that a literal spells. Its bytes are looked at when the end is reached. -/
def read (t : Text) : Except Flaw String :=
  match t.flaw with
  | some f => .error (if hasLone t.pieces then .malformed else f)
  | none =>
    match (bytes t.pieces).bind fun bs => String.fromUTF8? ⟨bs.toArray⟩ with
    | some s => .ok s
    | none => .error .malformed

/-- Control characters with an escape of their own. -/
def shortEscapes : List (UInt8 × UInt8) := [(8, 98), (12, 102), (10, 110), (13, 114), (9, 116)]

/-- The literal of a string: a control character without an escape of its own is a code unit. -/
def ofString (s : String) : Text where
  pieces := s.toByteArray.data.toList.map fun b =>
    if b < 0x20 ∧ (shortEscapes.lookup b).isNone then .unit b.toNat else .byte b

end Text

/-! ## Values -/

/-- A value. A list or object with a flaw was cut off by it. An entry that holds a flaw, at any
depth, is the last of its list or object. -/
inductive Doc where
  | null
  | bool (b : Bool)
  | number (n : Numeral)
  | string (t : Text)
  | list (items : List Doc) (flaw : Option Flaw := none)
  | object (members : List (Text × Doc)) (flaw : Option Flaw := none)
  /-- An object that begins with something else than a string. -/
  | oddObject (found : Doc)
  /-- A value that is spelled wrong: what a reader meets, and what one does that only skips. -/
  | flawed (reading skipping : Flaw)
  /-- The text ended before a value began. -/
  | absent
deriving Inhabited

namespace Doc

mutual

/-- The first flaw of a value that is skipped. The bytes of its strings are not looked at. -/
def skipFlaw? : Doc → Option Flaw
  | null => none
  | bool _ => none
  | number _ => none
  | string t => t.flaw
  | list items flaw => skipItems items <|> flaw
  | object members flaw => skipMembers members <|> flaw
  | oddObject _ => some .malformed
  | flawed _ skipping => some skipping
  | absent => some .ended

/-- The first flaw among skipped items. -/
def skipItems : List Doc → Option Flaw
  | [] => none
  | d :: rest => d.skipFlaw? <|> skipItems rest

/-- The first flaw among skipped members. -/
def skipMembers : List (Text × Doc) → Option Flaw
  | [] => none
  | (k, d) :: rest => k.flaw <|> d.skipFlaw? <|> skipMembers rest

end

end Doc

/-! ## Writing -/

/-- The code of an ASCII character. -/
def ascii (c : Char) : UInt8 := c.toNat.toUInt8

/-- The codes of ASCII characters. -/
def asciis (cs : List Char) : List UInt8 := cs.map ascii

/-- A hex digit. -/
def hexDigit (n : Nat) : UInt8 := ascii (Nat.digitChar n)

/-- A piece of a string literal: quotes, backslashes and control characters are escaped. -/
def Piece.print : Piece → List UInt8
  | .byte b =>
    if b = ascii '"' ∨ b = ascii '\\' then [ascii '\\', b]
    else
      match Text.shortEscapes.lookup b with
      | some e => [ascii '\\', e]
      | none => [b]
  | .unit n =>
    [ascii '\\', ascii 'u', hexDigit (n / 4096 % 16), hexDigit (n / 256 % 16),
      hexDigit (n / 16 % 16), hexDigit (n % 16)]

/-- A string literal with its quotes. -/
def Text.print (t : Text) : List UInt8 := ascii '"' :: t.pieces.flatMap Piece.print ++ [ascii '"']

namespace Doc

mutual

/-- The text of a document, without white space. A flaw has no text. -/
def print : Doc → List UInt8
  | null => asciis "null".toList
  | bool b => asciis (if b then "true".toList else "false".toList)
  | number n => asciis n.printChars
  | string t => t.print
  | list items _ => ascii '[' :: printItems items ++ [ascii ']']
  | object members _ => ascii '\x7b' :: printMembers members ++ [ascii '\x7d']
  | oddObject _ => []
  | flawed _ _ => []
  | absent => []

/-- Items with commas between them. -/
def printItems : List Doc → List UInt8
  | [] => []
  | [d] => d.print
  | d :: d' :: rest => d.print ++ ascii ',' :: printItems (d' :: rest)

/-- Members with commas between them. -/
def printMembers : List (Text × Doc) → List UInt8
  | [] => []
  | [(k, d)] => k.print ++ ascii ':' :: d.print
  | (k, d) :: m :: rest => k.print ++ ascii ':' :: d.print ++ ascii ',' :: printMembers (m :: rest)

end

end Doc

end Telemetry.Json
