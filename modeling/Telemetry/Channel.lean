import Telemetry.Text.Blank

/-!
# Channels

Messages travel on channels with names. The data of a subscription about a target travels on the
channel `subscription.target`, and names of subscriptions are announced on one control channel. The
two kinds of broker have rules of their own for names and patterns.

* `dataChannel`, `dataStem`, `controlChannel`: the channels of a subscription;
* `subject`, `wildcard`: names for a broker whose subjects are made of tokens;
* `escapeGlob`: a name inside a glob pattern;
* `Topic`: what a consumer listens to.
-/

namespace Telemetry

/-- The channel on which names of subscriptions are announced. -/
def controlChannel : String := "telemetry_cache_channels"

/-- Stands between subscription and target. -/
def separator : Char := '.'

/-- The start of every data channel of a subscription. -/
def dataStem (subscription : String) : String := subscription.push separator

/-- The channel of a subscription's data about a target. -/
def dataChannel (subscription target : String) : String := dataStem subscription ++ target

theorem toList_dataChannel (s t : String) :
    (dataChannel s t).toList = s.toList ++ separator :: t.toList := by
  simp [dataChannel, dataStem]

/-- What a consumer listens to: one channel, or all whose names start alike. -/
inductive Topic where
  | exact (channel : String)
  | under (stem : String)
deriving DecidableEq, Repr

/-- The name of a topic. -/
def Topic.name : Topic → String
  | exact channel => channel
  | under stem => stem

/-- Whether `stem` begins the text. -/
def startsWith (text stem : String) : Bool := stem.toList.isPrefixOf text.toList

/-- Whether a message on the channel concerns the topic. -/
def Topic.covers : Topic → String → Bool
  | exact c, channel => c == channel
  | under stem, channel => startsWith channel stem

/-! ## Subjects made of tokens -/

/-- Blanks and the wildcard characters may not stand in a token. -/
def subjectChar (c : Char) : Char := if Text.isBlank c || c == '*' || c == '>' then '_' else c

/-- The subject for a channel. -/
def subject (channel : String) : String := .ofList (channel.toList.map subjectChar)

/-- The subject that covers all below a stem. -/
def wildcard (stem : String) : String :=
  let s := subject stem
  (if s.toList.getLast? = some separator then s else s.push separator).push '>'

/-! ## Glob patterns -/

/-- The characters with a meaning in a glob pattern. -/
def isGlobSpecial (c : Char) : Bool := c == '*' || c == '?' || c == '[' || c == ']' || c == '\\'

/-- A text inside a glob pattern, where it stands for itself. -/
def escapeGlob (s : String) : String :=
  .ofList (s.toList.flatMap fun c => if isGlobSpecial c then ['\\', c] else [c])

/-- The pattern of all names that begin with `stem`. -/
def globUnder (stem : String) : String := (escapeGlob stem).push '*'

end Telemetry
