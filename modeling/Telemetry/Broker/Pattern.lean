import Telemetry.Channel

/-!
# Patterns of brokers

What a subscription at a broker matches. One kind of broker knows plain names and glob patterns over
bytes; the other splits a subject at its dots into tokens.

* `Glob.covers`: `*` stands for any text, `?` for one byte, `[..]` for one byte of a class, and a
  backslash takes the next byte literally;
* `Subject.covers`: `*` stands for one token, and `>` at the end for one or more;
* `Filter`: what a subscription asks for, with its name.
-/

namespace Telemetry

/-! ## Glob patterns -/

namespace Glob

/-- The byte of an ASCII character. -/
def byte (c : Char) : UInt8 := c.toNat.toUInt8

/-- The members of a class, up to its end: whether it has the byte, and the pattern behind it. A
class without an end goes to the end of the pattern. -/
def members (b : UInt8) : Bool → List UInt8 → Bool × List UInt8
  | found, [] => (found, [])
  | found, p :: rest =>
    if p = byte '\\' then
      match rest with
      | [] => (found || p == b, [])
      | q :: rest => members b (found || q == b) rest
    else if p = byte ']' then (found, rest)
    else
      match rest with
      | q :: r :: rest =>
        if q = byte '-' then
          members b (found || (min p r ≤ b && b ≤ max p r)) rest
        else members b (found || p == b) (q :: r :: rest)
      | rest => members b (found || p == b) rest
termination_by _ l => l.length

/-- A class that stands behind its opening bracket. A caret at its begin turns it round. -/
def inClass (b : UInt8) (pattern : List UInt8) : Bool × List UInt8 :=
  match pattern with
  | p :: rest =>
    if p = byte '^' then
      let (found, rest) := members b false rest
      (!found, rest)
    else members b false (p :: rest)
  | [] => (false, [])

/-- Whether the pattern matches the bytes, with fuel for every byte of both. -/
def coversFor : Nat → List UInt8 → List UInt8 → Bool
  | 0, _, _ => false
  | _ + 1, [], text => text.isEmpty
  | fuel + 1, p :: pattern, text =>
    if p = byte '*' then
      coversFor fuel pattern text ||
        match text with
        | [] => false
        | _ :: text => coversFor fuel (p :: pattern) text
    else
      match text with
      | [] => false
      | b :: text =>
        if p = byte '?' then coversFor fuel pattern text
        else if p = byte '[' then
          let (found, pattern) := inClass b pattern
          found && coversFor fuel pattern text
        else if p = byte '\\' then
          match pattern with
          | [] => p == b && coversFor fuel [] text
          | q :: pattern => q == b && coversFor fuel pattern text
        else p == b && coversFor fuel pattern text

/-- Whether a pattern matches a text, byte by byte. -/
def covers (pattern text : String) : Bool :=
  let p := pattern.toUTF8.data.toList
  let t := text.toUTF8.data.toList
  coversFor (p.length + t.length + 1) p t

end Glob

/-! ## Subjects -/

namespace Subject

/-- The token that stands for any one. -/
def one : List Char := ['*']

/-- The token that stands, at the end, for one or more. -/
def more : List Char := ['>']

/-- The tokens of a subject: the parts between its dots, which may be empty. -/
def tokens : List Char → List (List Char)
  | [] => [[]]
  | c :: rest =>
    if c = separator then [] :: tokens rest
    else
      match tokens rest with
      | [] => [[c]]
      | t :: ts => (c :: t) :: ts

/-- Whether the tokens of a pattern match those of a subject. -/
def coversTokens : List (List Char) → List (List Char) → Bool
  | [], ts => ts.isEmpty
  | p :: ps, ts =>
    if p = more ∧ ps = [] then !ts.isEmpty
    else
      match ts with
      | [] => false
      | t :: ts => (p = one || p = t) && coversTokens ps ts

/-- Whether a pattern matches a subject, token by token. -/
def covers (pattern subject : String) : Bool :=
  coversTokens (tokens pattern.toList) (tokens subject.toList)

end Subject

/-! ## Filters -/

/-- What a subscription at a broker asks for. -/
inductive Filter where
  | exact (channel : String)
  | glob (pattern : String)
  | subject (pattern : String)
deriving DecidableEq, Repr

namespace Filter

/-- The name of a filter. -/
def name : Filter → String
  | exact channel => channel
  | glob pattern => pattern
  | subject pattern => pattern

/-- Whether a message on a channel passes. -/
def covers : Filter → String → Bool
  | exact c, channel => c == channel
  | glob pattern, channel => Glob.covers pattern channel
  | subject pattern, channel => Subject.covers pattern channel

end Filter

end Telemetry
