import Telemetry.Json.Document
import Telemetry.Table
import Telemetry.Text.Quoted

/-!
# Readers

A reader takes what it expects from a document, in the order of the text, and stops at the first
fault: a flaw of the spelling, or a misfit between what it finds and what it expects.

* `Found`, `Misfit`, `Fault`: what stands in the text, and why it does not do;
* `Reader`: the readers of scalars, lists and tables;
* `Field`, `record`: records, written as objects or as lists of their fields;
* `Variant`, `choice`: a tag with a value.
-/

namespace Telemetry.Json

/-! ## Faults -/

/-- What a reader found. -/
inductive Found where
  | null
  | bool (b : Bool)
  | integer (i : Int)
  | float (x : Double)
  | string (s : String)
  | sequence
  | map
  | bareTag
deriving DecidableEq, Repr

/-- The words for what was found. -/
def Found.describe : Found → String
  | null => "null"
  | bool b => "boolean `" ++ (if b then "true" else "false") ++ "`"
  | integer i => "integer `" ++ (Numeral.ofInt i).print ++ "`"
  | float x => "floating point `" ++ x.numeral.print ++ "`"
  | string s => "string " ++ Text.quote s
  | sequence => "sequence"
  | map => "map"
  | bareTag => "unit variant"

/-- Why a document does not hold what a reader expects. -/
inductive Misfit where
  | type (found : Found) (expected : String)
  | value (found : Found) (expected : String)
  | length (n : Nat) (expected : String)
  | tag (name : String) (known : List String)
  | missing (field : String)
  | duplicate (field : String)
  | noAlternative (name : String)
deriving DecidableEq, Repr

/-- A name between accents. -/
def accented (s : String) : String := "`" ++ s ++ "`"

/-- The words for the reason. -/
def Misfit.message : Misfit → String
  | type found expected => "invalid type: " ++ found.describe ++ ", expected " ++ expected
  | value found expected => "invalid value: " ++ found.describe ++ ", expected " ++ expected
  | length n expected => "invalid length " ++ (Numeral.ofNat n).print ++ ", expected " ++ expected
  | tag name known =>
    "unknown variant " ++ accented name ++ ", expected one of " ++
      String.intercalate ", " (known.map accented)
  | missing field => "missing field " ++ accented field
  | duplicate field => "duplicate field " ++ accented field
  | noAlternative name => "data did not match any variant of untagged enum " ++ name

/-- Why a text could not be read. -/
inductive Fault where
  | flaw (f : Flaw)
  | misfit (m : Misfit)
deriving DecidableEq, Repr

/-- Takes what it expects from a document. -/
abbrev Reader (α : Type) := Doc → Except Fault α

/-- What a literal spells, for a reader. -/
def fromText {α : Type} : Except Flaw α → Except Fault α
  | .ok a => .ok a
  | .error f => .error (.flaw f)

/-- Fails where there is a flaw. -/
def check (flaw : Option Flaw) : Except Fault Unit :=
  match flaw with
  | some f => .error (.flaw f)
  | none => .ok ()

/-! ## Values of a wrong kind -/

/-- What a number is: an integer within 64 bits, or else a finite double. -/
def Found.ofNumeral (n : Numeral) : Except Fault Found :=
  match n.toInt? with
  | some i => .ok (.integer i)
  | none =>
    match n.toDouble? with
    | some x => .ok (.float x)
    | none => .error (.flaw .malformed)

/-- What a value is. The inside of a list or object is not looked at. -/
def Doc.found : Doc → Except Fault Found
  | .null => .ok .null
  | .bool b => .ok (.bool b)
  | .number n => Found.ofNumeral n
  | .string t => (fromText t.read).map .string
  | .list _ _ => .ok .sequence
  | .object _ _ => .ok .map
  | .oddObject _ => .ok .map
  | .flawed f _ => .error (.flaw f)
  | .absent => .error (.flaw .ended)

/-- The fault of a value of a wrong kind. -/
def mismatch {α : Type} (expected : String) (d : Doc) : Except Fault α := do
  throw (.misfit (.type (← d.found) expected))

/-! ## Scalars, lists and tables -/

namespace Reader

variable {α : Type}

/-- A truth value. -/
def bool : Reader Bool
  | .bool b => .ok b
  | d => mismatch "a boolean" d

/-- A string. -/
def string : Reader String
  | .string t => fromText t.read
  | d => mismatch "a string" d

/-- An integer between two bounds. -/
def integer (low high : Int) (expected : String) : Reader Int
  | .number n => do
    match ← Found.ofNumeral n with
    | .integer i =>
      if low ≤ i ∧ i ≤ high then .ok i else .error (.misfit (.value (.integer i) expected))
    | found => .error (.misfit (.type found expected))
  | d => mismatch expected d

/-- A signed integer of 64 bits. -/
def int64 : Reader Int64 := fun d =>
  (integer Int64.minValue.toInt Int64.maxValue.toInt "i64" d).map Int64.ofInt

/-- An unsigned integer of 64 bits, called by `name`. -/
def word64 (name : String) : Reader UInt64 := fun d =>
  (integer 0 (UInt64.size - 1) name d).map fun i => UInt64.ofNat i.toNat

/-- An unsigned integer of 64 bits. -/
def uint64 : Reader UInt64 := word64 "u64"

/-- An unsigned integer of 32 bits. -/
def uint32 : Reader UInt32 := fun d =>
  (integer 0 (UInt32.size - 1) "u32" d).map fun i => UInt32.ofNat i.toNat

/-- A byte. -/
def uint8 : Reader UInt8 := fun d =>
  (integer 0 (UInt8.size - 1) "u8" d).map fun i => UInt8.ofNat i.toNat

/-- Nothing, or what `r` reads. -/
def option (r : Reader α) : Reader (Option α)
  | .null => .ok none
  | d => (r d).map some

/-- A list of what `r` reads. -/
def list (r : Reader α) : Reader (List α)
  | .list items flaw => do
    let l ← items.mapM r
    check flaw
    return l
  | d => mismatch "a sequence" d

/-- Bytes, as a list of numbers. -/
def bytes : Reader ByteArray := fun d => (list uint8 d).map fun l => ⟨l.toArray⟩

/-- A table of strings. Of two rows of one name the later counts. -/
def table : Reader (Table String)
  | .object members flaw => do
    let rows ← members.mapM fun m => do
      let k ← fromText m.1.read
      let v ← string m.2
      return (k, v)
    check flaw
    return .ofList rows
  | .oddObject _ => .error (.flaw .malformed)
  | d => mismatch "a map" d

end Reader

/-! ## Records -/

/-- A field of a record of type `σ`. -/
structure Field (σ : Type) where
  name : String
  required : Bool := false
  /-- Reads the field into a record. -/
  read : Doc → σ → Except Fault σ

/-- A field that `r` reads and `put` stores. -/
def Field.of {σ α : Type} (name : String) (r : Reader α) (put : α → σ → σ)
    (required : Bool := false) : Field σ where
  name := name
  required := required
  read := fun d s => (r d).map (put · s)

section Record

variable {σ : Type}

/-- The members of an object, put into the record `s`; also the names of the fields seen. The
fields in `seen` may not come again, and members that are no fields are skipped. -/
def readMembers (fields : List (Field σ)) (seen : List String) (s : σ) :
    List (Text × Doc) → Except Fault (σ × List String)
  | [] => .ok (s, seen)
  | (k, d) :: rest => do
    let name ← fromText k.read
    match fields.find? fun f => f.name == name with
    | none =>
      check d.skipFlaw?
      readMembers fields seen s rest
    | some f =>
      if seen.contains name then throw (.misfit (.duplicate name))
      readMembers fields (name :: seen) (← f.read d s) rest

/-- The items of a list, put into the fields in turn; `n` fields came before. -/
def readItems (expected : String) (flaw : Option Flaw) (n : Nat) (s : σ) :
    List (Field σ) → List Doc → Except Fault σ
  | [], [] => do
    check flaw
    return s
  | [], _ :: _ => .error (.flaw .malformed)
  | f :: fields, [] => do
    check flaw
    if f.required then throw (.misfit (.length n expected))
    readItems expected flaw (n + 1) s fields []
  | f :: fields, d :: items => do
    readItems expected flaw (n + 1) (← f.read d s) fields items

/-- A record, written as an object or as the list of its fields; `blank` holds the defaults. -/
def record (name : String) (fields : List (Field σ)) (blank : σ) : Reader σ
  | .object members flaw => do
    let (s, seen) ← readMembers fields [] blank members
    check flaw
    match fields.find? fun f => f.required && !seen.contains f.name with
    | some f => throw (.misfit (.missing f.name))
    | none => return s
  | .oddObject _ => .error (.flaw .malformed)
  | .list items flaw =>
    let count := (Numeral.ofNat fields.length).print
    let expected := "struct " ++ name ++ " with " ++ count ++
      (if fields.length = 1 then " element" else " elements")
    readItems expected flaw 0 blank fields items
  | d => mismatch ("struct " ++ name) d

end Record

/-! ## Tags with values -/

/-- A tag: what it means alone, if anything, and the reader of its value. -/
structure Variant (α : Type) where
  name : String
  alone : Option α := none
  read : Reader α

/-- A tag with a value that `r` reads. -/
def Variant.of {α β : Type} (name : String) (r : Reader β) (put : β → α) : Variant α where
  name := name
  read := fun d => (r d).map put

/-- A tag without a value. Written as an object, its value is null. -/
def Variant.bare {α : Type} (name : String) (a : α) : Variant α where
  name := name
  alone := some a
  read
    | .null => .ok a
    | d => mismatch "unit" d

/-- One of several tags: a string, or an object with the tag as its only name. -/
def choice {α : Type} (variants : List (Variant α)) : Reader α :=
  let find (name : String) : Except Fault (Variant α) :=
    match variants.find? fun v => v.name == name with
    | some v => .ok v
    | none => .error (.misfit (.tag name (variants.map (·.name))))
  fun
  | .string t => do
    let v ← find (← fromText t.read)
    match v.alone with
    | some a => return a
    | none => throw (.misfit (.type .bareTag "newtype variant"))
  | .object [] (some f) => .error (.flaw f)
  | .object ((k, d) :: rest) flaw => do
    let v ← find (← fromText k.read)
    let a ← v.read d
    if !rest.isEmpty then throw (.flaw .malformed)
    check flaw
    return a
  | .oddObject d => mismatch "variant identifier" d
  | .absent => .error (.flaw .ended)
  | _ => .error (.flaw .malformed)

/-! ## Values read in full, whatever they are -/

/-- The first flaw of a number that is read. -/
def numeralFlaw? (n : Numeral) : Option Flaw :=
  if n.toInt?.isNone && n.toDouble?.isNone then some .malformed else none

/-- The first flaw of a literal that is read. -/
def textFlaw? (t : Text) : Option Flaw :=
  match t.read with
  | .ok _ => none
  | .error f => some f

namespace Doc

mutual

/-- The first flaw of a value that is read in full; lists and objects nest at most `depth` deep. -/
def readFlaw? (depth : Nat) : Doc → Option Flaw
  | null => none
  | bool _ => none
  | number n => numeralFlaw? n
  | string t => textFlaw? t
  | list items flaw =>
    if depth = 0 then some .malformed else readFlawItems (depth - 1) items <|> flaw
  | object members flaw =>
    if depth = 0 then some .malformed else readFlawMembers (depth - 1) members <|> flaw
  | oddObject _ => some .malformed
  | flawed f _ => some f
  | absent => some .ended

/-- The first flaw among items that are read in full. -/
def readFlawItems (depth : Nat) : List Doc → Option Flaw
  | [] => none
  | d :: rest => d.readFlaw? depth <|> readFlawItems depth rest

/-- The first flaw among members that are read in full. -/
def readFlawMembers (depth : Nat) : List (Text × Doc) → Option Flaw
  | [] => none
  | (k, d) :: rest => textFlaw? k <|> d.readFlaw? depth <|> readFlawMembers depth rest

end

end Doc

/-! ## Whole texts -/

/-- What `r` reads from a whole text; nothing but white space may follow. -/
def readAll {α : Type} (r : Reader α) (document : Doc × Bool) : Except Fault α := do
  let a ← r document.1
  if document.2 then throw (.flaw .malformed)
  return a

end Telemetry.Json
