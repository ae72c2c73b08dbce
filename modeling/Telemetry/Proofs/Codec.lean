import Telemetry.Proofs.Canonical
import Telemetry.Proofs.Grammar
import Telemetry.Proofs.Record
import Telemetry.Wire.Reader
import Telemetry.Wire.Writer

/-!
# The wire form read back

The bytes of an envelope are read as that envelope, except that every NaN is read as the one NaN
that has a word on the wire.

* `Path.partly` and its kin: a record as far as it was read;
* `Path.reader_document`, `Notification.reader_document`: the parts of an envelope;
* `Envelope.printable_document`: the wire form is a document that can be read;
* **`Envelope.decode_encode`**: the bytes of an envelope are read as its canonical form.
-/

namespace Telemetry

open Json

/-! ## Members -/

theorem mem_unless {α : Type} {c : Bool} {a b : α} :
    a ∈ (if c then [] else [b]) ↔ c = false ∧ a = b := by
  cases c <;> simp

theorem listEntry_map {α : Type} (name : String) (f : α → Doc) (l : List α) :
    listEntry name (l.map f) = if l.isEmpty then [] else [entry name (.list (l.map f))] := by
  cases l <;> rfl

namespace Json

theorem Takes.of {σ β : Type} {fields : List (Field σ)} {partly : List String → σ}
    {name : String} {r : Reader β} {put : β → σ → σ} {required : Bool} {d : Doc} {v : β}
    (hf : fields.find? (fun f => f.name == name) = some (Field.of name r put required))
    (hr : r d = .ok v) (hp : ∀ seen, put v (partly seen) = partly (name :: seen)) :
    Takes fields partly (Telemetry.entry name d) name :=
  .entry hf fun seen => by
    simp only [Field.of, hr, Except.map, hp]

theorem forall₂_optionEntry {σ α : Type} {fields : List (Field σ)} {partly : List String → σ}
    {name : String} {f : α → Doc} {o : Option α}
    (h : ∀ a, o = some a → Takes fields partly (Telemetry.entry name (f a)) name) :
    List.Forall₂ (Takes fields partly) (optionEntry name (o.map f))
      (if o.isNone then [] else [name]) := by
  cases o with
  | none => exact .nil
  | some a => exact .cons (h a rfl) .nil

theorem choice_entry {α β : Type} {variants : List (Variant α)} {tag : String} {r : Reader β}
    {d : Doc} {b : β} (put : β → α)
    (hv : variants.find? (fun v => v.name == tag) = some (Variant.of tag r put)) (h : r d = .ok b) :
    choice variants (.object [Telemetry.entry tag d]) = .ok (put b) :=
  choice_object hv (congrArg (Except.map put) h)

end Json

/-! ## Elements and paths -/

/-- An element as far as it was read. -/
def Element.partly (e : Element) (seen : List String) : Element where
  name := if "name" ∈ seen then e.name else ""
  keys := if "key" ∈ seen then e.keys else .empty

theorem Element.reader_document (e : Element) : Element.reader e.document = .ok e := by
  have hnames : (["name"] ++ if e.keys.isEmpty then [] else ["key"]).Nodup :=
    ((List.Sublist.refl ["name"]).append (unless_sublist _ "key")).nodup (by decide)
  refine (record_members e.partly "PathElem" (forall₂_append
    (.cons (.of rfl (Reader.string_ofString e.name) fun seen => ?_) .nil)
    (forall₂_unless fun _ => .of rfl (Reader.table_rows e.keys) fun seen => ?_)) hnames ?_).trans
    (congrArg Except.ok ?_)
  · simp [partly]
  · simp [partly]
  · simp [Field.of]
  · cases h : e.keys.isEmpty with
    | false => simp [partly]
    | true => simp [partly, ← Table.eq_empty_of_isEmpty h]

/-- A path as far as it was read. -/
def Path.partly (p : Path) (seen : List String) : Path where
  origin := if "origin" ∈ seen then p.origin else ""
  elements := if "elem" ∈ seen then p.elements else []
  target := if "target" ∈ seen then p.target else ""

theorem Path.reader_document (p : Path) : Path.reader p.document = .ok p := by
  have helem : Reader.list Element.reader (.list (p.elements.map Element.document)) =
      .ok p.elements := by
    rw [Reader.list_map (k := id) fun e _ => e.reader_document, List.map_id]
  have hnames : ((if p.origin.isEmpty then [] else ["origin"]) ++
      (if p.elements.isEmpty then [] else ["elem"]) ++
      if p.target.isEmpty then [] else ["target"]).Nodup :=
    (((unless_sublist _ "origin").append (unless_sublist _ "elem")).append
      (unless_sublist _ "target")).nodup (by decide)
  rw [Path.document, listEntry_map]
  refine (record_members p.partly "Path" (forall₂_append (forall₂_append
    (forall₂_unless fun _ => .of rfl (Reader.string_ofString p.origin) fun seen => ?_)
    (forall₂_unless fun _ => .of rfl helem fun seen => ?_))
    (forall₂_unless fun _ => .of rfl (Reader.string_ofString p.target) fun seen => ?_))
    hnames ?_).trans (congrArg Except.ok ?_)
  · simp [partly]
  · simp [partly]
  · simp [partly]
  · simp [Field.of]
  · obtain ⟨origin, elements, target⟩ := p
    simp only [partly, List.mem_reverse, List.mem_append, mem_unless, Path.mk.injEq]
    simp

/-! ## Values and updates -/

theorem Double.canonical_of_isFinite {x : Double} (hx : x.isFinite = true) : x.canonical = x := by
  have : x.rank < infinityRank := of_decide_eq_true hx
  exact if_neg (by simp only [isNaN, decide_eq_true_eq]; omega)

theorem Double.ofWord?_word {x : Double} (hx : x.isFinite = false) :
    ofWord? x.word = some x.canonical := by
  have hle : infinityRank ≤ x.rank := by simpa [isFinite] using hx
  unfold word canonical
  split
  · rfl
  · rename_i hn
    have hrank : x.rank = infinityRank := by
      have : ¬ infinityRank < x.rank := by simpa [isNaN] using hn
      omega
    have hinf : infinity x.negative = x := by rw [infinity, ← hrank, ofRank_rank]
    rw [← hinf]
    cases x.negative <;> rfl

/-- The wire form of a double is read as that double, or as the NaN if it is one. -/
theorem Double.reader_document (x : Double) : Double.reader x.document = .ok x.canonical := by
  unfold document
  split
  · rename_i hx
    rw [Double.reader, toDouble?_numeral hx, canonical_of_isFinite hx]
  · rename_i hx
    rw [stringDocument, Double.reader, Text.read_ofString]
    simp only [fromText, bind, Except.bind, ofWord?_word (Bool.eq_false_of_not_eq_true hx)]
    rfl

theorem bytes_bytesDocument (b : ByteArray) : Reader.bytes (bytesDocument b) = .ok b := by
  have h : Reader.list Reader.uint8 (bytesDocument b) = .ok b.data.toList := by
    refine (Reader.list_map (k := id) fun x _ => Reader.uint8_ofNat x).trans ?_
    rw [List.map_id]
  rw [Reader.bytes, h]
  rfl

theorem Value.reader_document (v : Value) : Value.reader v.document = .ok v.canonical := by
  cases v with
  | string s => exact choice_entry Value.string rfl (Reader.string_ofString s)
  | int i => exact choice_entry Value.int rfl (Reader.int64_ofInt i)
  | uint n => exact choice_entry Value.uint rfl (Reader.uint64_ofNat n)
  | bool b => exact choice_entry Value.bool (r := Reader.bool) rfl rfl
  | bytes b => exact choice_entry Value.bytes rfl (bytes_bytesDocument b)
  | double x => exact choice_entry Value.double rfl x.reader_document
  | ascii s => exact choice_entry Value.ascii rfl (Reader.string_ofString s)
  | json b => exact choice_entry Value.json rfl (bytes_bytesDocument b)
  | jsonIetf b => exact choice_entry Value.jsonIetf rfl (bytes_bytesDocument b)

/-- An update as far as it was read. -/
def Update.partly (u : Update) (seen : List String) : Update where
  path := if "path" ∈ seen then u.path else {}
  value := if "val" ∈ seen then u.value else none
  duplicates := if "duplicates" ∈ seen then u.duplicates else 0

theorem Update.reader_document (u : Update) : Update.reader u.document = .ok u.canonical := by
  have hnames : (("path" :: if u.value.isNone then [] else ["val"]) ++ ["duplicates"]).Nodup :=
    ((((List.Sublist.refl ["path"]).append (unless_sublist _ "val")).append
      (.refl ["duplicates"]))).nodup (by decide)
  refine (record_members u.canonical.partly "Update" (forall₂_append
    (.cons (.of rfl u.path.reader_document fun seen => ?_)
      (forall₂_optionEntry fun v hv =>
        .of rfl (Reader.option_object v.reader_document) fun seen => ?_))
    (.cons (.of rfl (Reader.uint32_ofNat u.duplicates) fun seen => ?_) .nil))
    hnames ?_).trans (congrArg Except.ok ?_)
  · simp [partly]
  · simp [partly, canonical, hv]
  · simp [partly]
  · simp [Field.of]
  · cases h : u.value <;> simp [partly, canonical, h]

/-! ## Notifications and envelopes -/

/-- A notification as far as it was read. -/
def Notification.partly (n : Notification) (seen : List String) : Notification where
  timestamp := if "timestamp" ∈ seen then n.timestamp else 0
  base := if "prefix" ∈ seen then n.base else none
  updates := if "update" ∈ seen then n.updates else []
  deletes := if "delete" ∈ seen then n.deletes else []
  atomic := if "atomic" ∈ seen then n.atomic else false

theorem Notification.reader_document (n : Notification) :
    Notification.reader n.document = .ok n.canonical := by
  have hupdates : Reader.list Update.reader (.list (n.updates.map Update.document)) =
      .ok n.canonical.updates := Reader.list_map fun u _ => u.reader_document
  have hdeletes : Reader.list Path.reader (.list (n.deletes.map Path.document)) =
      .ok n.deletes := by
    rw [Reader.list_map (k := id) fun p _ => p.reader_document, List.map_id]
  have hnames : (("timestamp" :: if n.base.isNone then [] else ["prefix"]) ++
      (if n.updates.isEmpty then [] else ["update"]) ++
      (if n.deletes.isEmpty then [] else ["delete"]) ++ ["atomic"]).Nodup :=
    (((((List.Sublist.refl ["timestamp"]).append (unless_sublist _ "prefix")).append
      (unless_sublist _ "update")).append (unless_sublist _ "delete")).append
      (.refl ["atomic"])).nodup (by decide)
  rw [Notification.document, listEntry_map, listEntry_map]
  refine (record_members n.canonical.partly "Notification" (forall₂_append
    (forall₂_append (forall₂_append
      (.cons (.of rfl (Reader.int64_ofInt n.timestamp) fun seen => ?_)
        (forall₂_optionEntry fun p hp =>
          .of rfl (Reader.option_object p.reader_document) fun seen => ?_))
      (forall₂_unless fun _ => .of rfl hupdates fun seen => ?_))
      (forall₂_unless fun _ => .of rfl hdeletes fun seen => ?_))
    (.cons (.of (r := Reader.bool) rfl rfl fun seen => ?_) .nil))
    hnames ?_).trans (congrArg Except.ok ?_)
  · simp [partly]
  · simp [partly, hp]
  · simp [partly]
  · simp [partly]
  · simp [partly]
  · simp [Field.of]
  · cases h : n.base <;> simp [partly, canonical, h]

/-- An envelope as far as it was read. -/
def Envelope.partly (e : Envelope) (seen : List String) : Envelope :=
  if "response" ∈ seen then e else .syncResponse false

theorem Envelope.reader_document (e : Envelope) :
    Envelope.reader e.document = .ok e.canonical := by
  have htag : tagReader (.object [entry e.tag e.content]) = .ok e.canonical := by
    cases e with
    | update n => exact choice_entry Envelope.update rfl n.reader_document
    | syncResponse done => exact choice_entry Envelope.syncResponse (r := Reader.bool) rfl rfl
    | error text => exact choice_entry Envelope.error rfl (Reader.string_ofString text)
  refine (record_members e.canonical.partly "SubscribeResponse"
    (.cons (.of rfl htag fun seen => ?_) .nil) (List.nodup_singleton "response") ?_).trans
    (congrArg Except.ok ?_)
  · simp [partly]
  · simp [Field.of]
  · simp [partly]

/-! ## The bytes of an envelope -/

section Printable

open Doc

variable {name : String}

theorem printable_entry {d : Doc} (h : d.Printable) : PrintableMember (entry name d) :=
  ⟨⟨name, rfl⟩, h⟩

theorem printable_stringEntry {s : String} : ∀ m ∈ stringEntry name s, PrintableMember m := by
  unfold stringEntry
  split
  · simp
  · simpa using printable_entry (d := stringDocument s) (printable_string s)

theorem printable_listEntry {α : Type} {f : α → Doc} {l : List α} (h : ∀ a ∈ l, (f a).Printable) :
    ∀ m ∈ listEntry name (l.map f), PrintableMember m := by
  unfold listEntry
  split
  · simp
  · simpa using printable_entry (printable_list (by simpa using h))

theorem printable_optionEntry {α : Type} {f : α → Doc} {o : Option α}
    (h : ∀ a, (f a).Printable) : ∀ m ∈ optionEntry name (o.map f), PrintableMember m := by
  cases o with
  | none => simp [optionEntry]
  | some a => simpa [optionEntry] using printable_entry (h a)

theorem printable_bytesDocument (b : ByteArray) : Printable (bytesDocument b) :=
  printable_list (by
    simp only [List.mem_map, forall_exists_index, and_imp, forall_apply_eq_imp_iff₂]
    exact fun x _ => printable_number (Numeral.wellFormed_ofNat x.toNat))

theorem Element.printable_document (e : Element) : e.document.Printable := by
  refine printable_object fun m hm => ?_
  rcases List.mem_cons.mp hm with rfl | hm
  · exact printable_entry (printable_string e.name)
  · unfold keysEntry at hm
    split at hm
    · simp at hm
    · obtain rfl := List.mem_singleton.mp hm
      refine printable_entry (printable_object fun m hm => ?_)
      obtain ⟨r, -, rfl⟩ := List.mem_map.mp hm
      exact printable_entry (printable_string r.2)

theorem Path.printable_document (p : Path) : p.document.Printable := by
  refine printable_object fun m hm => ?_
  rcases List.mem_append.mp hm with hm | hm
  · rcases List.mem_append.mp hm with hm | hm
    · exact printable_stringEntry m hm
    · exact printable_listEntry (fun e _ => e.printable_document) m hm
  · exact printable_stringEntry m hm

theorem Double.printable_document (x : Double) : x.document.Printable := by
  unfold document
  split
  · rename_i hx
    exact printable_number (wellFormed_numeral hx)
  · exact printable_string x.word

theorem Value.printable_document (v : Value) : v.document.Printable := by
  refine printable_object fun m hm => ?_
  obtain rfl := List.mem_singleton.mp hm
  refine printable_entry ?_
  cases v with
  | string s => exact printable_string s
  | int i => exact printable_number (Numeral.wellFormed_ofInt i.toInt)
  | uint n => exact printable_number (Numeral.wellFormed_ofNat n.toNat)
  | bool b => exact printable_bool b
  | bytes b => exact printable_bytesDocument b
  | double x => exact x.printable_document
  | ascii s => exact printable_string s
  | json b => exact printable_bytesDocument b
  | jsonIetf b => exact printable_bytesDocument b

theorem Update.printable_document (u : Update) : u.document.Printable := by
  refine printable_object fun m hm => ?_
  rcases List.mem_append.mp hm with hm | hm
  · rcases List.mem_cons.mp hm with rfl | hm
    · exact printable_entry u.path.printable_document
    · exact printable_optionEntry Value.printable_document m hm
  · obtain rfl := List.mem_singleton.mp hm
    exact printable_entry (printable_number (Numeral.wellFormed_ofNat u.duplicates.toNat))

theorem Notification.printable_document (n : Notification) : n.document.Printable := by
  refine printable_object fun m hm => ?_
  rcases List.mem_append.mp hm with hm | hm
  · rcases List.mem_append.mp hm with hm | hm
    · rcases List.mem_append.mp hm with hm | hm
      · rcases List.mem_cons.mp hm with rfl | hm
        · exact printable_entry (printable_number (Numeral.wellFormed_ofInt n.timestamp.toInt))
        · exact printable_optionEntry Path.printable_document m hm
      · exact printable_listEntry (fun u _ => u.printable_document) m hm
    · exact printable_listEntry (fun p _ => p.printable_document) m hm
  · obtain rfl := List.mem_singleton.mp hm
    exact printable_entry (printable_bool n.atomic)

theorem Envelope.printable_content (e : Envelope) : e.content.Printable := by
  cases e with
  | update n => exact n.printable_document
  | syncResponse done => exact printable_bool done
  | error text => exact printable_string text

theorem Envelope.printable_document (e : Envelope) : e.document.Printable := by
  refine printable_object fun m hm => ?_
  obtain rfl := List.mem_singleton.mp hm
  refine printable_entry (printable_object fun m hm => ?_)
  obtain rfl := List.mem_singleton.mp hm
  exact printable_entry e.printable_content

end Printable

namespace Envelope

theorem encode_isEmpty (e : Envelope) : e.encode.isEmpty = false := by
  obtain ⟨b, rest, h, -⟩ := e.printable_document.head
  rw [encode, h]
  rfl

/-- A text is read as the envelope of the document that it spells. -/
theorem decode_spelled {e : Envelope} {d : Doc} {ws bs ws' : List UInt8} (hbs : d.Spelled bs)
    (hw : Gap ws) (hw' : Gap ws') (hread : reader d = .ok e) :
    decode ⟨(ws ++ (bs ++ ws')).toArray⟩ = .ok e := by
  have hempty : ByteArray.isEmpty ⟨(ws ++ (bs ++ ws')).toArray⟩ = false := by
    obtain ⟨b, rest, rfl, -⟩ := hbs.head
    cases ws <;> rfl
  have hall : readAll reader (Doc.parse (ws ++ (bs ++ ws'))) = .ok e := by
    rw [Doc.parse_spelled hbs hw hw', readAll, hread]
    rfl
  rw [decode, hempty, hall]
  rfl

/-- **The bytes of an envelope are read as its canonical form.** -/
theorem decode_encode (e : Envelope) : decode e.encode = .ok e.canonical := by
  have h := decode_spelled e.printable_document gap_nil gap_nil e.reader_document
  rwa [List.nil_append, List.append_nil] at h

end Envelope

end Telemetry
