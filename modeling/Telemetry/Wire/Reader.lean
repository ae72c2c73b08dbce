import Telemetry.Envelope
import Telemetry.Json.Parser
import Telemetry.Json.Reader

/-!
# Envelopes from documents

Reading the wire form of an envelope. Members may come in any order and unknown ones are skipped;
what the wire form leaves out may be left out.

* `Path.reader`, `Value.reader`, `Update.reader`, `Notification.reader`, `Envelope.reader`;
* `CodecError`: why bytes are no envelope;
* `Envelope.decode`: the envelope of bytes.
-/

namespace Telemetry

open Json

/-- Reads an element. -/
def Element.reader : Reader Element :=
  record "PathElem" [
    .of "name" Reader.string (fun v e => { e with name := v }) true,
    .of "key" Reader.table fun v e => { e with keys := v }] { name := "" }

/-- Reads a path. -/
def Path.reader : Reader Path :=
  record "Path" [
    .of "origin" Reader.string fun v p => { p with origin := v },
    .of "elem" (Reader.list Element.reader) fun v p => { p with elements := v },
    .of "target" Reader.string fun v p => { p with target := v }] {}

/-- The double that a word stands for. -/
def Double.ofWord? (s : String) : Option Double :=
  if s = "NaN" then some .nan
  else if s = "inf" then some (.infinity false)
  else if s = "-inf" then some (.infinity true)
  else none

/-- How deep a value may nest where a double is expected: a text as a whole may nest 127 deep, and
six levels are around the double. -/
def doubleDepth : Nat := 121

/-- Reads a double. The value is read in full before it is known to be none. -/
def Double.reader : Reader Double
  | .number n =>
    match n.toDouble? with
    | some x => .ok x
    | none => .error (.flaw .malformed)
  | .string t => do
    let s ← fromText t.read
    match Double.ofWord? s with
    | some x => return x
    | none => throw (.misfit (.value (.string s) "a number, \"NaN\", \"inf\" or \"-inf\""))
  | d => do
    check (d.readFlaw? doubleDepth)
    throw (.misfit (.noAlternative "Repr"))

/-- Reads a value. -/
def Value.reader : Reader Value :=
  choice [
    .of "string_val" Reader.string .string,
    .of "int_val" Reader.int64 .int,
    .of "uint_val" Reader.uint64 .uint,
    .of "bool_val" Reader.bool .bool,
    .of "bytes_val" Reader.bytes .bytes,
    .of "double_val" Double.reader .double,
    .of "ascii_val" Reader.string .ascii,
    .of "json_val" Reader.bytes .json,
    .of "json_ietf_val" Reader.bytes .jsonIetf]

/-- Reads an update. -/
def Update.reader : Reader Update :=
  record "Update" [
    .of "path" Path.reader (fun v u => { u with path := v }) true,
    .of "val" (Reader.option Value.reader) fun v u => { u with value := v },
    .of "duplicates" Reader.uint32 fun v u => { u with duplicates := v }] { path := {} }

/-- Reads a notification. -/
def Notification.reader : Reader Notification :=
  record "Notification" [
    .of "timestamp" Reader.int64 (fun v n => { n with timestamp := v }) true,
    .of "prefix" (Reader.option Path.reader) fun v n => { n with base := v },
    .of "update" (Reader.list Update.reader) fun v n => { n with updates := v },
    .of "delete" (Reader.list Path.reader) fun v n => { n with deletes := v },
    .of "atomic" Reader.bool fun v n => { n with atomic := v }] {}

/-- Reads what an envelope holds, with its tag. -/
def Envelope.tagReader : Reader Envelope :=
  choice [
    .of "update" Notification.reader .update,
    .of "sync_response" Reader.bool .syncResponse,
    .of "error" Reader.string .error]

/-- Reads an envelope. -/
def Envelope.reader : Reader Envelope :=
  record "SubscribeResponse" [
    .of "response" tagReader (fun v _ => v) true] (.syncResponse false)

/-- Why bytes are no envelope. -/
inductive CodecError where
  | empty
  | unreadable (fault : Fault)
deriving DecidableEq, Repr

/-- The words for the reason. They do not say where the fault is. -/
def CodecError.message : CodecError → String
  | empty => "empty payload"
  | unreadable _ => "failed to decode notification"

/-- The envelope of bytes. -/
def Envelope.decode (payload : ByteArray) : Except CodecError Envelope :=
  if payload.isEmpty then .error .empty
  else
    match readAll reader (Doc.parse payload.data.toList) with
    | .ok e => .ok e
    | .error f => .error (.unreadable f)

end Telemetry
