import Telemetry.Envelope
import Telemetry.Json.Document

/-!
# Envelopes as documents

The wire form of an envelope is a JSON object. Empty strings, lists and tables and absent values are
left out; the flags and counts are always there. Doubles that are not finite have no numeral and are
written as strings.

* `Path.document`, `Value.document`, `Update.document`, `Notification.document`,
  `Envelope.document`: the wire forms;
* `Envelope.encode`: the bytes of an envelope.
-/

namespace Telemetry

open Json

/-- A member of an object. -/
def entry (name : String) (d : Doc) : Text × Doc := (.ofString name, d)

/-- A string as a document. -/
def stringDocument (s : String) : Doc := .string (.ofString s)

/-- A whole number as a document. -/
def natDocument (n : Nat) : Doc := .number (.ofNat n)

/-- Bytes as a list of numbers. -/
def bytesDocument (b : ByteArray) : Doc := .list (b.data.toList.map fun x => natDocument x.toNat)

/-- The member `name` of a string, unless it is empty. -/
def stringEntry (name s : String) : List (Text × Doc) :=
  if s.isEmpty then [] else [entry name (stringDocument s)]

/-- The member `name` of a list, unless it is empty. -/
def listEntry (name : String) (l : List Doc) : List (Text × Doc) :=
  if l.isEmpty then [] else [entry name (.list l)]

/-- The member `name` of a value, where there is one. -/
def optionEntry (name : String) (o : Option Doc) : List (Text × Doc) :=
  match o with
  | some d => [entry name d]
  | none => []

/-- The member of the keys, unless there are none. -/
def keysEntry (keys : Table String) : List (Text × Doc) :=
  if keys.isEmpty then [] else [entry "key" (.object (keys.rows.map fun r =>
    entry r.1 (stringDocument r.2)))]

/-- The wire form of an element. -/
def Element.document (e : Element) : Doc :=
  .object (entry "name" (stringDocument e.name) :: keysEntry e.keys)

/-- The wire form of a path. -/
def Path.document (p : Path) : Doc :=
  .object (stringEntry "origin" p.origin ++ listEntry "elem" (p.elements.map Element.document) ++
    stringEntry "target" p.target)

/-- The word for a double without a numeral. -/
def Double.word (x : Double) : String :=
  if x.isNaN then "NaN" else if x.negative then "-inf" else "inf"

/-- The wire form of a double. -/
def Double.document (x : Double) : Doc :=
  if x.isFinite then .number x.numeral else stringDocument x.word

/-- The tag of a value. -/
def Value.tag : Value → String
  | string _ => "string_val"
  | int _ => "int_val"
  | uint _ => "uint_val"
  | bool _ => "bool_val"
  | bytes _ => "bytes_val"
  | double _ => "double_val"
  | ascii _ => "ascii_val"
  | json _ => "json_val"
  | jsonIetf _ => "json_ietf_val"

/-- The wire form of what a value holds. -/
def Value.content : Value → Doc
  | string s => stringDocument s
  | int i => .number (.ofInt i.toInt)
  | uint n => natDocument n.toNat
  | bool b => .bool b
  | bytes b => bytesDocument b
  | double x => x.document
  | ascii s => stringDocument s
  | json b => bytesDocument b
  | jsonIetf b => bytesDocument b

/-- The wire form of a value: its tag with what it holds. -/
def Value.document (v : Value) : Doc := .object [entry v.tag v.content]

/-- The wire form of an update. -/
def Update.document (u : Update) : Doc :=
  .object (entry "path" u.path.document :: optionEntry "val" (u.value.map Value.document) ++
    [entry "duplicates" (natDocument u.duplicates.toNat)])

/-- The wire form of a notification. -/
def Notification.document (n : Notification) : Doc :=
  .object (entry "timestamp" (.number (.ofInt n.timestamp.toInt)) ::
    optionEntry "prefix" (n.base.map Path.document) ++
    listEntry "update" (n.updates.map Update.document) ++
    listEntry "delete" (n.deletes.map Path.document) ++
    [entry "atomic" (.bool n.atomic)])

/-- The tag of an envelope. -/
def Envelope.tag : Envelope → String
  | update _ => "update"
  | syncResponse _ => "sync_response"
  | error _ => "error"

/-- The wire form of what an envelope holds. -/
def Envelope.content : Envelope → Doc
  | update n => n.document
  | syncResponse done => .bool done
  | error text => stringDocument text

/-- The wire form of an envelope. -/
def Envelope.document (e : Envelope) : Doc :=
  .object [entry "response" (.object [entry e.tag e.content])]

/-- The bytes of an envelope. -/
def Envelope.encode (e : Envelope) : ByteArray := ⟨e.document.print.toArray⟩

end Telemetry
