import Mathlib.Logic.Relation
import Telemetry.Proofs.Effects
import Telemetry.Proofs.RoundTrip

/-!
# Other layouts of the wire form

Whoever writes an envelope is free in how it is laid out: members may stand in any order, members
that no field reads may be added, what is left out may be written as it reads then, and there may be
white space. None of this is seen by who reads it.

A layout is given by its changes, one at a time. What was read before a change is read after it, and
so it is after any number of them.

* `Layout`, `Layout.record`: the changes of a document; `Layout.Keeps`: a reader does not see them;
* `Layout.keeps_list`, `Layout.keeps_table`, **`Layout.keeps_record`**: one change;
* `Envelope.layout`: the changes of an envelope; `Envelope.reader_layout`: any number of them;
* **`Envelope.decode_layout`**: the bytes of an envelope in any layout.
-/

namespace Telemetry

open Json

namespace Json

/-! ## Layouts -/

/-- How a document may be changed, one change at a time, so that it says the same. -/
abbrev Layout := Doc → Doc → Prop

/-- A member of a record. -/
structure Slot where
  name : String
  /-- How its value may be changed. -/
  layout : Layout
  /-- What may be written where it is left out. -/
  blank : Option Doc := none

namespace Layout

/-- Nothing may be changed. -/
def fixed : Layout := fun _ _ => False

/-- An item of a list is changed. -/
inductive list (l : Layout) : Doc → Doc → Prop where
  | item {ds ds' : List Doc} {d d' : Doc} : l d d' →
      list l (.list (ds ++ d :: ds')) (.list (ds ++ d' :: ds'))

/-- Rows as the members of an object. -/
def members (rows : List (String × String)) : List (Text × Doc) :=
  rows.map fun r => entry r.1 (stringDocument r.2)

/-- The members of a table change places. -/
inductive table : Doc → Doc → Prop where
  | reorder {t : Table String} {rows rows' : List (String × String)} : rows.Perm t.rows →
      rows'.Perm rows → table (.object (members rows)) (.object (members rows'))

/-- The value of a tag is changed. -/
inductive tagged (tag : String) (l : Layout) : Doc → Doc → Prop where
  | content {d d' : Doc} : l d d' →
      tagged tag l (.object [entry tag d]) (.object [entry tag d'])

/-- The changes of a record. -/
inductive record (slots : List Slot) : Doc → Doc → Prop where
  | reorder {ms ms' : List (Text × Doc)} : ms'.Perm ms → record slots (.object ms) (.object ms')
  /-- A member that is none of the record's is added, whatever its value. -/
  | extend {ms : List (Text × Doc)} {k : Text} {name : String} {d : Doc} {bs : List UInt8} :
      k.read = .ok name → (∀ s ∈ slots, s.name ≠ name) → d.Spelled bs →
      record slots (.object ms) (.object ((k, d) :: ms))
  /-- A member that was left out is written. -/
  | complete {ms : List (Text × Doc)} {s : Slot} {d : Doc} : s ∈ slots → s.blank = some d →
      (∀ m ∈ ms, m.1.read ≠ .ok s.name) →
      record slots (.object ms) (.object (entry s.name d :: ms))
  | inside {ms ms' : List (Text × Doc)} {s : Slot} {d d' : Doc} : s ∈ slots → s.layout d d' →
      record slots (.object (ms ++ entry s.name d :: ms')) (.object (ms ++ entry s.name d' :: ms'))

/-- The reader does not see the changes. -/
def Keeps (l : Layout) {α : Type} (r : Reader α) : Prop :=
  ∀ ⦃d d' : Doc⦄ ⦃a : α⦄, l d d' → r d = .ok a → r d' = .ok a

end Layout

/-! ## Changes of a record -/

section Record

variable {σ : Type} {fields : List (Field σ)} {blank : σ} {slots : List Slot}
  {ms ms' : List (Text × Doc)}

/-- The field reads the member whatever its layout. What stands for the member that is left out puts
nothing into a record in which nothing was put yet. -/
structure Slot.Fits (blank : σ) (s : Slot) (f : Field σ) : Prop where
  name : s.name = f.name
  plain : f.Plain
  keeps : ∀ d d' g, s.layout d d' → f.Puts d g → f.Puts d' g
  blank : ∀ d ∈ s.blank, ∃ g, f.Puts d g ∧ g blank = blank

/-- The members of a record by its fields. -/
structure Slot.Describe (slots : List Slot) (fields : List (Field σ)) (blank : σ) : Prop where
  fits : List.Forall₂ (Slot.Fits blank) slots fields
  nodup : (slots.map (·.name)).Nodup
  commutes : fields.Pairwise Field.Commutes

theorem fits_find? (h : List.Forall₂ (Slot.Fits blank) slots fields)
    (hnodup : (slots.map (·.name)).Nodup) {s : Slot} (hs : s ∈ slots) :
    ∃ f, fields.find? (fun f => f.name == s.name) = some f ∧ s.Fits blank f := by
  induction h with
  | nil => cases hs
  | @cons s' f slots fields hf _ ih =>
    obtain ⟨hname, hnodup⟩ := List.nodup_cons.mp hnodup
    rcases List.mem_cons.mp hs with rfl | hs
    · exact ⟨f, List.find?_cons_of_pos (beq_iff_eq.mpr hf.name.symm), hf⟩
    · obtain ⟨f', hf', hfits⟩ := ih hnodup hs
      refine ⟨f', ?_, hfits⟩
      rw [List.find?_cons_of_neg, hf']
      rw [beq_iff_eq, ← hf.name]
      exact fun heq => hname (List.mem_map.mpr ⟨s, hs, heq.symm⟩)

theorem fits_find?_eq_none (h : List.Forall₂ (Slot.Fits blank) slots fields) {name : String}
    (hname : ∀ s ∈ slots, s.name ≠ name) : fields.find? (fun f => f.name == name) = none := by
  induction h with
  | nil => rfl
  | @cons s f slots fields hf _ ih =>
    rw [List.find?_cons_of_neg, ih fun s hs => hname s (List.mem_cons_of_mem _ hs)]
    rw [beq_iff_eq, ← hf.name]
    exact hname s List.mem_cons_self

theorem Slot.Describe.plain (h : Slot.Describe slots fields blank) : ∀ f ∈ fields, f.Plain := by
  intro f hf
  obtain ⟨i, hi, rfl⟩ := List.getElem_of_mem hf
  exact (h.fits.get (h.fits.length_eq ▸ hi) hi).plain

namespace Layout

/-- **A record is read as before after its members changed places.** -/
theorem keeps_reorder (h : Slot.Describe slots fields blank) {title : String} {s : σ}
    (hperm : ms'.Perm ms) (hread : Json.record title fields blank (.object ms) = .ok s) :
    Json.record title fields blank (.object ms') = .ok s := by
  rw [record_eq_ok_iff h.plain] at hread ⊢
  obtain ⟨es, hes, hnodup, hreq, rfl⟩ := hread
  obtain ⟨es', hes', hperm'⟩ := List.perm_comp_forall₂ hperm hes
  refine ⟨es', hes', (perm_namesOf hperm').nodup_iff.mpr hnodup, fun f hf hr => ?_,
    fill_perm h.commutes hes hnodup hperm'.symm blank⟩
  exact (perm_namesOf hperm').mem_iff.mpr (hreq f hf hr)

theorem keeps_extend (h : Slot.Describe slots fields blank) {title : String} {s : σ} {k : Text}
    {name : String} {d : Doc} (hk : k.read = .ok name) (hname : ∀ s ∈ slots, s.name ≠ name)
    (hd : d.skipFlaw? = none) (hread : Json.record title fields blank (.object ms) = .ok s) :
    Json.record title fields blank (.object ((k, d) :: ms)) = .ok s := by
  rw [record_eq_ok_iff h.plain] at hread ⊢
  obtain ⟨es, hes, hrest⟩ := hread
  exact ⟨none :: es, .cons (.skip hk (fits_find?_eq_none h.fits hname) hd) hes, hrest⟩

theorem keeps_complete (h : Slot.Describe slots fields blank) {title : String} {s : σ}
    {x : Slot} {d : Doc} (hx : x ∈ slots) (hd : x.blank = some d)
    (hout : ∀ m ∈ ms, m.1.read ≠ .ok x.name)
    (hread : Json.record title fields blank (.object ms) = .ok s) :
    Json.record title fields blank (.object (entry x.name d :: ms)) = .ok s := by
  rw [record_eq_ok_iff h.plain] at hread ⊢
  obtain ⟨es, hes, hnodup, hreq, rfl⟩ := hread
  obtain ⟨f, hf, hfits⟩ := fits_find? h.fits h.nodup hx
  obtain ⟨g, hg, hblank⟩ := hfits.blank d hd
  refine ⟨some ⟨x.name, g⟩ :: es, .cons (.take (Text.read_ofString x.name) hf hg) hes, ?_,
    fun f hf hr => List.mem_cons_of_mem _ (hreq f hf hr), ?_⟩
  · refine List.nodup_cons.mpr ⟨fun hmem => ?_, hnodup⟩
    obtain ⟨e, he, hname⟩ := List.mem_map.mp hmem
    obtain ⟨m, hm, -, hk, -⟩ := exists_puts hes he
    exact hout m hm (hk.trans (congrArg Except.ok hname))
  · rw [fill_take]
    exact congrArg (fill es) hblank.symm

theorem keeps_inside (h : Slot.Describe slots fields blank) {title : String} {s : σ}
    {x : Slot} {d d' : Doc} (hx : x ∈ slots) (hd : x.layout d d')
    (hread : Json.record title fields blank (.object (entry x.name d :: ms)) = .ok s) :
    Json.record title fields blank (.object (entry x.name d' :: ms)) = .ok s := by
  rw [record_eq_ok_iff h.plain] at hread ⊢
  obtain ⟨es, hes, hrest⟩ := hread
  obtain ⟨f, hf, hfits⟩ := fits_find? h.fits h.nodup hx
  obtain ⟨o, es₁, ho, hes₁, rfl⟩ := List.forall₂_cons_left_iff.mp hes
  refine ⟨o :: es₁, .cons ?_ hes₁, hrest⟩
  have hname := Text.read_ofString x.name
  cases ho with
  | skip hk hf' _ =>
    rw [← Except.ok.inj (hname.symm.trans hk), hf] at hf'
    cases hf'
  | take hk hf' hg =>
    obtain rfl := Except.ok.inj (hname.symm.trans hk)
    obtain rfl := Option.some.inj (hf.symm.trans hf')
    exact .take hname hf (hfits.keeps d d' _ hd hg)

/-- **The reader of a record does not see any of its changes.** -/
theorem keeps_record (h : Slot.Describe slots fields blank) (title : String) :
    Keeps (record slots) (Json.record title fields blank) := by
  intro d d' s hd hread
  cases hd with
  | reorder hperm => exact keeps_reorder h hperm hread
  | extend hk hname hspelled => exact keeps_extend h hk hname hspelled.skipFlaw? hread
  | complete hx hblank hout => exact keeps_complete h hx hblank hout hread
  | inside hx hd =>
    have hread := keeps_reorder h List.perm_middle.symm hread
    exact keeps_reorder h List.perm_middle (keeps_inside h hx hd hread)

end Layout

variable {α : Type} {name : String} {r : Reader α} {put : α → σ → σ} {required : Bool}

theorem Slot.fits_of {l : Layout} {b : Option Doc} (hkeeps : l.Keeps r)
    (hblank : ∀ d ∈ b, ∃ a, r d = .ok a ∧ put a blank = blank) :
    Slot.Fits blank ⟨name, l, b⟩ (Field.of name r put required) where
  name := rfl
  plain := Field.plain_of
  keeps d d' g hd hg s := by
    obtain ⟨a, ha, hput⟩ := hg.of s
    rw [hput]
    exact Field.puts_of (hkeeps hd ha) s
  blank d hd := by
    obtain ⟨a, ha, hput⟩ := hblank d hd
    exact ⟨put a, Field.puts_of ha, hput⟩

end Record

/-! ## Changes inside -/

namespace Layout

variable {α β : Type}

theorem keeps_fixed (r : Reader α) : fixed.Keeps r := fun _ _ _ h => h.elim

theorem mapM_item {f : α → Except Fault β} {a a' : α} (h : ∀ b, f a = .ok b → f a' = .ok b)
    {l' : List α} : ∀ {l : List α} {bs : List β}, (l ++ a :: l').mapM f = .ok bs →
      (l ++ a' :: l').mapM f = .ok bs
  | [], bs, hbs => by
    rw [List.nil_append, List.mapM_cons] at hbs ⊢
    cases hb : f a with
    | error e =>
      rw [hb] at hbs
      cases hbs
    | ok b =>
      rw [hb] at hbs
      rw [h b hb]
      exact hbs
  | x :: l, bs, hbs => by
    rw [List.cons_append, List.mapM_cons] at hbs ⊢
    cases hx : f x with
    | error e =>
      rw [hx] at hbs
      cases hbs
    | ok b =>
      rw [hx] at hbs
      cases hrest : (l ++ a :: l').mapM f with
      | error e =>
        rw [hrest] at hbs
        cases hbs
      | ok cs =>
        rw [hrest] at hbs
        rw [mapM_item h hrest]
        exact hbs

theorem keeps_list {l : Layout} {r : Reader α} (h : l.Keeps r) :
    Keeps (list l) (Reader.list r) := by
  intro d d' as hd hread
  cases hd with
  | @item ds ds' d d' hd =>
    rw [Reader.list] at hread ⊢
    cases has : (ds ++ d :: ds').mapM r with
    | error e =>
      rw [has] at hread
      cases hread
    | ok as =>
      rw [has] at hread
      rw [mapM_item (fun a ha => h hd ha) has]
      exact hread

theorem keeps_option {slots : List Slot} {r : Reader α} (h : Keeps (record slots) r) :
    Keeps (record slots) (Reader.option r) := by
  intro d d' o hd hread
  have hobject : ∀ ms, Reader.option r (.object ms) = (r (.object ms)).map some := fun ms => rfl
  have hnot : ∀ {ms ms'}, record slots (.object ms) (.object ms') →
      Reader.option r (.object ms) = .ok o → Reader.option r (.object ms') = .ok o := by
    intro ms ms' hd hread
    rw [hobject] at hread ⊢
    cases ha : r (.object ms) with
    | error e =>
      rw [ha] at hread
      cases hread
    | ok a =>
      rw [ha] at hread
      rw [h hd ha]
      exact hread
  cases hd with
  | reorder hperm => exact hnot (.reorder hperm) hread
  | extend hk hname hspelled => exact hnot (.extend hk hname hspelled) hread
  | complete hx hblank hout => exact hnot (.complete hx hblank hout) hread
  | inside hx hd => exact hnot (.inside hx hd) hread

theorem keeps_table : Keeps table Reader.table := by
  intro d d' t hd hread
  cases hd with
  | @reorder t' rows rows' hrows hperm =>
    have hold : Reader.table (.object (members rows)) = .ok t' := Reader.table_perm hrows
    have hnew : Reader.table (.object (members rows')) = .ok t' :=
      Reader.table_perm (hperm.trans hrows)
    rw [hnew, ← hold, hread]

theorem keeps_tagged {tag : String} {l : Layout} {variants : List (Variant α)} {r : Reader β}
    {put : β → α} (hv : variants.find? (fun v => v.name == tag) = some (Variant.of tag r put))
    (h : l.Keeps r) : Keeps (tagged tag l) (choice variants) := by
  intro d d' a hd hread
  cases hd with
  | @content d d' hd =>
    cases hr : r d with
    | error e =>
      have hread : choice variants (.object [(Text.ofString tag, d)]) = .ok a := hread
      simp only [choice, Text.read_ofString, fromText, bind, Except.bind, hv, Variant.of, hr,
        Except.map] at hread
      cases hread
    | ok b =>
      rw [choice_entry put hv hr] at hread
      rw [choice_entry put hv (h hd hr), hread]

end Layout

end Json

/-! ## Envelopes -/

/-- The changes of an element: its name is always there, and its keys stand in any order. -/
def Element.layout : Layout := .record [⟨"name", .fixed, none⟩, ⟨"key", .table, some (.object [])⟩]

/-- The changes of a path. -/
def Path.layout : Layout := .record [
  ⟨"origin", .fixed, some (stringDocument "")⟩,
  ⟨"elem", .list Element.layout, some (.list [])⟩,
  ⟨"target", .fixed, some (stringDocument "")⟩]

/-- The changes of an update: not of what its value holds. -/
def Update.layout : Layout := .record [
  ⟨"path", Path.layout, none⟩,
  ⟨"val", .fixed, some .null⟩,
  ⟨"duplicates", .fixed, none⟩]

/-- The changes of a notification. -/
def Notification.layout : Layout := .record [
  ⟨"timestamp", .fixed, none⟩,
  ⟨"prefix", Path.layout, some .null⟩,
  ⟨"update", .list Update.layout, some (.list [])⟩,
  ⟨"delete", .list Path.layout, some (.list [])⟩,
  ⟨"atomic", .fixed, none⟩]

/-- The changes of an envelope. -/
def Envelope.layout : Layout := .record [⟨"response", .tagged "update" Notification.layout, none⟩]

section Keeps

open Slot Layout

theorem Element.keeps_layout : Element.layout.Keeps Element.reader := by
  refine keeps_record ⟨.cons ?_ (.cons ?_ .nil), by decide, ?_⟩ _
  · exact fits_of (keeps_fixed _) (by simp)
  · refine fits_of keeps_table ?_
    rintro d ⟨⟩
    exact ⟨.empty, rfl, rfl⟩
  · simp only [List.pairwise_cons, List.forall_mem_cons, List.not_mem_nil, List.Pairwise.nil,
      false_implies, implies_true, and_true]
    exact Field.commutes_of fun _ _ _ => rfl

theorem Path.keeps_layout : Path.layout.Keeps Path.reader := by
  refine keeps_record ⟨.cons ?_ (.cons ?_ (.cons ?_ .nil)), by decide, ?_⟩ _
  · refine fits_of (keeps_fixed _) ?_
    rintro d ⟨⟩
    exact ⟨"", Reader.string_ofString "", rfl⟩
  · refine fits_of (keeps_list Element.keeps_layout) ?_
    rintro d ⟨⟩
    exact ⟨[], rfl, rfl⟩
  · refine fits_of (keeps_fixed _) ?_
    rintro d ⟨⟩
    exact ⟨"", Reader.string_ofString "", rfl⟩
  · simp only [List.pairwise_cons, List.forall_mem_cons, List.not_mem_nil, List.Pairwise.nil,
      false_implies, implies_true, and_true]
    exact ⟨⟨Field.commutes_of fun _ _ _ => rfl, Field.commutes_of fun _ _ _ => rfl⟩,
      Field.commutes_of fun _ _ _ => rfl⟩

theorem Update.keeps_layout : Update.layout.Keeps Update.reader := by
  refine keeps_record ⟨.cons ?_ (.cons ?_ (.cons ?_ .nil)), by decide, ?_⟩ _
  · exact fits_of Path.keeps_layout (by simp)
  · refine fits_of (keeps_fixed _) ?_
    rintro d ⟨⟩
    exact ⟨none, rfl, rfl⟩
  · exact fits_of (keeps_fixed _) (by simp)
  · simp only [List.pairwise_cons, List.forall_mem_cons, List.not_mem_nil, List.Pairwise.nil,
      false_implies, implies_true, and_true]
    exact ⟨⟨Field.commutes_of fun _ _ _ => rfl, Field.commutes_of fun _ _ _ => rfl⟩,
      Field.commutes_of fun _ _ _ => rfl⟩

theorem Notification.keeps_layout : Notification.layout.Keeps Notification.reader := by
  refine keeps_record ⟨.cons ?_ (.cons ?_ (.cons ?_ (.cons ?_ (.cons ?_ .nil)))), by decide, ?_⟩ _
  · exact fits_of (keeps_fixed _) (by simp)
  · refine fits_of (keeps_option Path.keeps_layout) ?_
    rintro d ⟨⟩
    exact ⟨none, rfl, rfl⟩
  · refine fits_of (keeps_list Update.keeps_layout) ?_
    rintro d ⟨⟩
    exact ⟨[], rfl, rfl⟩
  · refine fits_of (keeps_list Path.keeps_layout) ?_
    rintro d ⟨⟩
    exact ⟨[], rfl, rfl⟩
  · exact fits_of (keeps_fixed _) (by simp)
  · simp only [List.pairwise_cons, List.forall_mem_cons, List.not_mem_nil, List.Pairwise.nil,
      false_implies, implies_true, and_true]
    refine ⟨⟨?_, ?_, ?_, ?_⟩, ⟨?_, ?_, ?_⟩, ⟨?_, ?_⟩, ?_⟩ <;>
      exact Field.commutes_of fun _ _ _ => rfl

theorem Envelope.keeps_layout : Envelope.layout.Keeps Envelope.reader := by
  refine keeps_record ⟨.cons ?_ .nil, by decide, List.pairwise_singleton _ _⟩ _
  exact fits_of (keeps_tagged rfl Notification.keeps_layout) (by simp)

end Keeps

namespace Envelope

theorem reader_layout {e : Envelope} {d : Doc} (h : Relation.ReflTransGen layout e.document d) :
    reader d = .ok e.canonical := by
  induction h with
  | refl => exact e.reader_document
  | tail _ hd ih => exact keeps_layout hd ih

/-- **The bytes of an envelope in any layout are read as that envelope.** The layout is reached from
the wire form by any number of changes, and the text has white space anywhere between its tokens. -/
theorem decode_layout (e : Envelope) {d : Doc} {ws bs ws' : List UInt8}
    (hd : Relation.ReflTransGen layout e.document d) (hbs : d.Spelled bs) (hw : Gap ws)
    (hw' : Gap ws') : ∃ e', decode ⟨(ws ++ (bs ++ ws')).toArray⟩ = .ok e' ∧ e.Alike e' ∧
      (e.HasNoNaN → e' = e) :=
  ⟨e.canonical, decode_spelled hbs hw hw' (reader_layout hd), e.alike_canonical, canonical_eq_self⟩

/-- A notification with nothing to apply. -/
def beacon : Notification := { timestamp := 1, base := some { target := "r" } }

/-- The members of its document, of which two were left out, and one more that nobody reads. -/
def beaconMembers : List (Text × Doc) := [
  entry "note" (.object [entry "timestamp" (.list [.null])]),
  entry "delete" (.list []),
  entry "timestamp" (.number (.ofInt 1)),
  entry "prefix" (.object [
    entry "origin" (stringDocument ""), entry "target" (stringDocument "r")]),
  entry "atomic" (.bool false)]

theorem printable_beaconNote : (Doc.object [entry "timestamp" (.list [.null])]).Printable := by
  have hlist : (Doc.list [.null]).Printable :=
    Doc.printable_list (List.forall_mem_singleton.mpr Doc.Spelled.null)
  exact Doc.printable_object (List.forall_mem_singleton.mpr (printable_entry hlist))

theorem reaches_beaconMembers : Relation.ReflTransGen Notification.layout beacon.document
    (.object beaconMembers.reverse) := by
  have horigin : Path.layout (.object [entry "target" (stringDocument "r")])
      (.object [entry "origin" (stringDocument ""), entry "target" (stringDocument "r")]) :=
    .complete (.head _) rfl (by simp [entry, Text.read_ofString])
  have hprefix : Notification.layout beacon.document (.object (beaconMembers.drop 2)) :=
    @Layout.record.inside _ [entry "timestamp" (.number (.ofInt 1))] [entry "atomic" (.bool false)]
      ⟨"prefix", Path.layout, some .null⟩ _ _ (.tail _ (.head _)) horigin
  have hdelete : Notification.layout (.object (beaconMembers.drop 2))
      (.object (beaconMembers.drop 1)) :=
    @Layout.record.complete _ _ ⟨"delete", .list Path.layout, some (.list [])⟩ _
      (.tail _ (.tail _ (.tail _ (.head _)))) rfl
      (by simp [beaconMembers, entry, Text.read_ofString])
  have hnote : Notification.layout (.object (beaconMembers.drop 1)) (.object beaconMembers) :=
    .extend (Text.read_ofString "note") (by simp) printable_beaconNote
  exact .tail (.tail (.tail (.single hprefix) hdelete) hnote) (.reorder (List.reverse_perm _))

theorem printable_beaconMembers : (Doc.object beaconMembers.reverse).Printable := by
  have hpath : (Doc.object [entry "origin" (stringDocument ""),
      entry "target" (stringDocument "r")]).Printable :=
    Doc.printable_object (by simpa using
      ⟨printable_entry (Doc.printable_string ""), printable_entry (Doc.printable_string "r")⟩)
  refine Doc.printable_object ?_
  simpa [beaconMembers] using ⟨printable_entry (Doc.printable_bool false), printable_entry hpath,
    printable_entry (Doc.printable_number (Numeral.wellFormed_ofInt 1)),
    printable_entry (Doc.printable_list (List.forall_mem_nil _)),
    printable_entry printable_beaconNote⟩

/-- The only member of an envelope with them. -/
def beaconWire : List (Text × Doc) :=
  [entry "response" (.object [entry "update" (.object beaconMembers.reverse)])]

theorem decode_layout_beacon : (update beacon).HasNoNaN ∧
    Relation.ReflTransGen layout (update beacon).document (.object beaconWire) ∧
    (Doc.object beaconWire).Spelled
      (ascii '\x7b' :: ([32] ++ (Doc.printMembers beaconWire ++ [ascii '\x7d']))) ∧
    Gap [32] ∧ Gap [10] ∧
    ∃ e', decode ⟨([32] ++ ((ascii '\x7b' :: ([32] ++ (Doc.printMembers beaconWire ++
      [ascii '\x7d']))) ++ [10])).toArray⟩ = .ok e' ∧ (update beacon).Alike e' ∧
        ((update beacon).HasNoNaN → e' = update beacon) := by
  have hgap : Gap [32] := by simp [Gap, isSpace]
  have hgap' : Gap [10] := by simp [Gap, isSpace]
  have hlayout : Relation.ReflTransGen layout (update beacon).document (.object beaconWire) :=
    reaches_beaconMembers.lift
      (fun d => Doc.object [entry "response" (.object [entry "update" d])]) fun _ _ hd =>
        @Layout.record.inside _ [] [] ⟨"response", .tagged "update" Notification.layout, none⟩ _ _
          (.head _) (Layout.tagged.content hd)
  have hmembers : ∀ m ∈ beaconWire, Doc.PrintableMember m :=
    List.forall_mem_singleton.mpr (printable_entry (Doc.printable_object
      (List.forall_mem_singleton.mpr (printable_entry printable_beaconMembers))))
  have hspelled : (Doc.object beaconWire).Spelled
      (ascii '\x7b' :: ([32] ++ (Doc.printMembers beaconWire ++ [ascii '\x7d']))) :=
    .object hgap (Doc.membersSpelled_printMembers (List.cons_ne_nil _ _) hmembers)
  refine ⟨?_, hlayout, hspelled, hgap, hgap',
    decode_layout (update beacon) hlayout hspelled hgap hgap'⟩
  rintro n ⟨⟩ u hu
  cases hu

end Envelope

end Telemetry
