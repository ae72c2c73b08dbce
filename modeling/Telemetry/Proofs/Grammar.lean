import Telemetry.Proofs.Literal

/-!
# The grammar of documents

Which texts spell which documents, white space included, and that reading a text finds the document
that it spells.

* `Gap`: white space;
* `Doc.Spelled`, `Doc.ItemsSpelled`, `Doc.MembersSpelled`: the spellings of a document;
* `Doc.reads`: one value, the items of a list, and the members of an object;
* **`Doc.parse_spelled`**: a text that spells a document is read as that document, to its end;
* `Doc.Printable`: the printed form of a document spells it;
* `Doc.Spelled.skipFlaw?`: whoever skips it finds no flaw.
-/

namespace Telemetry.Json

/-! ## White space -/

/-- White space, or nothing. -/
def Gap (ws : List UInt8) : Prop := ∀ b ∈ ws, isSpace b = true

theorem gap_nil : Gap [] := by simp [Gap]

theorem skipSpace_gap {ws : List UInt8} (hw : Gap ws) (rest : List UInt8) :
    skipSpace (ws ++ rest) = skipSpace rest :=
  List.dropWhile_append_of_pos hw

theorem skipSpace_cons {b : UInt8} (h : isSpace b = false) (rest : List UInt8) :
    skipSpace (b :: rest) = b :: rest := by
  simp [skipSpace, h]

theorem ends_gap {ws : List UInt8} (hw : Gap ws) {rest : List UInt8} (hr : Ends rest) :
    Ends (ws ++ rest) := by
  cases ws with
  | nil => exact hr
  | cons b ws =>
    have hb := hw b List.mem_cons_self
    have hne : ∀ c, isSpace c = false → b ≠ c := fun c hc e => by rw [e, hc] at hb; cases hb
    refine .of_head ?_ (hne _ (by decide)) (hne _ (by decide)) (hne _ (by decide))
    simp only [isSpace, Bool.or_eq_true, beq_iff_eq] at hb
    rcases hb with ((rfl | rfl) | rfl) | rfl <;> decide

namespace Doc

/-! ## Spellings -/

mutual

/-- The texts that spell a document. -/
inductive Spelled : Doc → List UInt8 → Prop where
  | null : Spelled .null (asciis "null".toList)
  | yes : Spelled (.bool true) (asciis "true".toList)
  | no : Spelled (.bool false) (asciis "false".toList)
  | number {n : Numeral} : n.WellFormed → Spelled (.number n) (asciis n.printChars)
  | string {ps : List Piece} {bs : List UInt8} : Text.Spelled ps bs →
      Spelled (.string { pieces := ps }) (ascii '"' :: (bs ++ [ascii '"']))
  | emptyList {ws : List UInt8} : Gap ws → Spelled (.list []) (ascii '[' :: (ws ++ [ascii ']']))
  | list {ds : List Doc} {ws bs : List UInt8} : Gap ws → ItemsSpelled ds bs →
      Spelled (.list ds) (ascii '[' :: (ws ++ (bs ++ [ascii ']'])))
  | emptyObject {ws : List UInt8} : Gap ws →
      Spelled (.object []) (ascii '\x7b' :: (ws ++ [ascii '\x7d']))
  | object {ms : List (Text × Doc)} {ws bs : List UInt8} : Gap ws → MembersSpelled ms bs →
      Spelled (.object ms) (ascii '\x7b' :: (ws ++ (bs ++ [ascii '\x7d'])))

/-- The texts that spell the items of a list, from the first on. -/
inductive ItemsSpelled : List Doc → List UInt8 → Prop where
  | last {d : Doc} {bs ws : List UInt8} : Spelled d bs → Gap ws → ItemsSpelled [d] (bs ++ ws)
  | cons {d : Doc} {ds : List Doc} {bs ws ws' rest : List UInt8} : Spelled d bs → Gap ws →
      Gap ws' → ItemsSpelled ds rest →
      ItemsSpelled (d :: ds) (bs ++ (ws ++ (ascii ',' :: (ws' ++ rest))))

/-- The texts that spell a name with its value. -/
inductive MemberSpelled : Text × Doc → List UInt8 → Prop where
  | mk {ps : List Piece} {d : Doc} {k bs ws ws' : List UInt8} : Text.Spelled ps k → Gap ws →
      Gap ws' → Spelled d bs →
      MemberSpelled ({ pieces := ps }, d)
        (ascii '"' :: (k ++ (ascii '"' :: (ws ++ (ascii ':' :: (ws' ++ bs))))))

/-- The texts that spell the members of an object, from the first on. -/
inductive MembersSpelled : List (Text × Doc) → List UInt8 → Prop where
  | last {m : Text × Doc} {bs ws : List UInt8} : MemberSpelled m bs → Gap ws →
      MembersSpelled [m] (bs ++ ws)
  | cons {m : Text × Doc} {ms : List (Text × Doc)} {bs ws ws' rest : List UInt8} :
      MemberSpelled m bs → Gap ws → Gap ws' → MembersSpelled ms rest →
      MembersSpelled (m :: ms) (bs ++ (ws ++ (ascii ',' :: (ws' ++ rest))))

end

theorem head_of_isDigit {b : UInt8} (h : isDigit b = true) : b ≠ ascii '"' ∧ b ≠ ascii '[' ∧
    b ≠ ascii '\x7b' ∧ b ≠ ascii 'n' ∧ b ≠ ascii 't' ∧ b ≠ ascii 'f' ∧ b ≠ ascii ']' ∧
      isSpace b = false := by
  have hne : ∀ c, isDigit c = false → b ≠ c := fun c hc e => by rw [e, hc] at h; cases h
  refine ⟨hne _ (by decide), hne _ (by decide), hne _ (by decide), hne _ (by decide),
    hne _ (by decide), hne _ (by decide), hne _ (by decide), ?_⟩
  simp only [isSpace, Bool.or_eq_false_iff, beq_eq_false_iff_ne]
  exact ⟨⟨⟨hne _ (by decide), hne _ (by decide)⟩, hne _ (by decide)⟩, hne _ (by decide)⟩

theorem head_numeral {n : Numeral} (hn : n.WellFormed) : ∃ b rest,
    asciis n.printChars = b :: rest ∧ (b = ascii '-' ∨ isDigit b = true) := by
  unfold Numeral.printChars
  cases n.negative with
  | true => exact ⟨_, _, rfl, .inl rfl⟩
  | false =>
    obtain ⟨c, ds, hw⟩ := List.exists_cons_of_ne_nil hn.whole_ne_nil
    rw [hw]
    exact ⟨_, _, rfl, .inr (isDigit_ascii (hn.whole_digits c (hw ▸ List.mem_cons_self)))⟩

theorem Spelled.head {d : Doc} {bs : List UInt8} (h : Spelled d bs) : ∃ b rest,
    bs = b :: rest ∧ isSpace b = false ∧ b ≠ ascii ']' := by
  cases h with
  | null | yes | no => exact ⟨_, _, rfl, by decide, by decide⟩
  | number hn =>
    obtain ⟨b, rest, he, hb⟩ := head_numeral hn
    refine ⟨b, rest, he, ?_⟩
    rcases hb with rfl | hb
    · exact ⟨by decide, by decide⟩
    · have := head_of_isDigit hb
      exact ⟨this.2.2.2.2.2.2.2, this.2.2.2.2.2.2.1⟩
  | string _ | emptyList _ | list _ _ | emptyObject _ | object _ _ =>
    exact ⟨_, _, rfl, by decide, by decide⟩

theorem ItemsSpelled.head {ds : List Doc} {bs : List UInt8} (h : ItemsSpelled ds bs) : ∃ b rest,
    bs = b :: rest ∧ isSpace b = false ∧ b ≠ ascii ']' := by
  cases h with
  | last hd _ | cons hd _ _ _ =>
    obtain ⟨b, rest, rfl, hb⟩ := hd.head
    exact ⟨b, _, rfl, hb⟩

theorem MembersSpelled.head {ms : List (Text × Doc)} {bs : List UInt8}
    (h : MembersSpelled ms bs) : ∃ rest, bs = ascii '"' :: rest := by
  cases h with
  | last hm _ | cons hm _ _ _ =>
    cases hm
    exact ⟨_, rfl⟩

/-! ## Reading what is spelled -/

/-- Values are read with so much fuel. -/
def ReadsValues (fuel : ℕ) : Prop := ∀ {d : Doc} {ws bs r : List UInt8}, Spelled d bs → Gap ws →
  Ends r → 2 * bs.length ≤ fuel → value fuel (ws ++ (bs ++ r)) = (d, some r)

/-- The items of lists are read with so much fuel. -/
def ReadsItems (fuel : ℕ) : Prop := ∀ {ds : List Doc} {ws bs r : List UInt8},
  ItemsSpelled ds bs → Gap ws → 2 * bs.length < fuel →
    items fuel (ws ++ (bs ++ ascii ']' :: r)) = (ds, none, some r)

/-- The members of objects are read with so much fuel. -/
def ReadsMembers (fuel : ℕ) : Prop := ∀ {ms : List (Text × Doc)} {ws bs r : List UInt8},
  MembersSpelled ms bs → Gap ws → 2 * bs.length < fuel →
    members fuel (ws ++ (bs ++ ascii '\x7d' :: r)) = (ms, none, some r)

theorem keyword_asciis (d : Doc) (w : String) (rest : List UInt8) :
    keyword d w (asciis w.toList ++ rest) = (d, some rest) := by
  have h : ∀ bs, word bs (bs ++ rest) = .ok rest := by
    intro bs
    induction bs with
    | nil => rfl
    | cons b bs ih => rw [List.cons_append, word, if_pos rfl, ih]
  rw [keyword, h]

theorem numeral_printChars {n : Numeral} (hn : n.WellFormed) {rest : List UInt8} (hr : Ends rest) :
    numeral (asciis n.printChars ++ rest) = (number n, some rest) := by
  rw [numeral, scanNumeral_printChars hn hr]

theorem value_gap {ws : List UInt8} (hw : Gap ws) (fuel : ℕ) (bs : List UInt8) :
    value (fuel + 1) (ws ++ bs) = value (fuel + 1) bs := by
  rw [value, value, skipSpace_gap hw]

theorem reads_value {fuel : ℕ} (hI : ReadsItems fuel) (hM : ReadsMembers fuel) :
    ReadsValues (fuel + 1) := by
  intro d ws bs rest h hw hr hf
  rw [value_gap hw]
  cases h with
  | null =>
    rw [show asciis "null".toList ++ rest = ascii 'n' :: (asciis "ull".toList ++ rest) from rfl,
      value, skipSpace_cons (by decide)]
    dsimp only
    rw [if_neg (by decide), if_neg (by decide), if_neg (by decide), if_pos rfl, keyword_asciis]
  | yes =>
    rw [show asciis "true".toList ++ rest = ascii 't' :: (asciis "rue".toList ++ rest) from rfl,
      value, skipSpace_cons (by decide)]
    dsimp only
    rw [if_neg (by decide), if_neg (by decide), if_neg (by decide), if_neg (by decide), if_pos rfl,
      keyword_asciis]
  | no =>
    rw [show asciis "false".toList ++ rest = ascii 'f' :: (asciis "alse".toList ++ rest) from rfl,
      value, skipSpace_cons (by decide)]
    dsimp only
    rw [if_neg (by decide), if_neg (by decide), if_neg (by decide), if_neg (by decide),
      if_neg (by decide), if_pos rfl, keyword_asciis]
  | number hn =>
    obtain ⟨b, bs, he, hb⟩ := head_numeral hn
    have hne : b ≠ ascii '"' ∧ b ≠ ascii '[' ∧ b ≠ ascii '\x7b' ∧ b ≠ ascii 'n' ∧ b ≠ ascii 't' ∧
        b ≠ ascii 'f' ∧ b ≠ ascii ']' ∧ isSpace b = false := by
      rcases hb with rfl | hb
      · decide
      · exact head_of_isDigit hb
    obtain ⟨h₁, h₂, h₃, h₄, h₅, h₆, -, hs⟩ := hne
    have hnum := numeral_printChars hn hr
    rw [he, List.cons_append] at hnum ⊢
    rw [value, skipSpace_cons hs]
    dsimp only
    rw [if_neg h₁, if_neg h₂, if_neg h₃, if_neg h₄, if_neg h₅, if_neg h₆, if_pos hb, hnum]
  | string ht =>
    rw [List.cons_append, List.append_assoc, List.singleton_append, value,
      skipSpace_cons (by decide)]
    dsimp only
    rw [if_pos rfl, Text.scan_spelled ht]
    rfl
  | emptyList hg =>
    rw [List.cons_append, List.append_assoc, List.singleton_append, value,
      skipSpace_cons (by decide)]
    dsimp only
    rw [if_neg (by decide), if_pos rfl, skipSpace_gap hg, skipSpace_cons (by decide)]
    dsimp only
    rw [if_pos rfl]
  | list hg hds =>
    obtain ⟨b, bs, rfl, hs, hb⟩ := hds.head
    have hitems := hI (r := rest) hds gap_nil (by
      simp only [List.length_cons, List.length_append] at hf ⊢; omega)
    simp only [List.cons_append, List.append_assoc, List.nil_append] at hitems ⊢
    rw [value, skipSpace_cons (by decide)]
    dsimp only
    rw [if_neg (by decide), if_pos rfl, skipSpace_gap hg, skipSpace_cons hs]
    dsimp only
    rw [if_neg hb, hitems]
  | emptyObject hg =>
    rw [List.cons_append, List.append_assoc, List.singleton_append, value,
      skipSpace_cons (by decide)]
    dsimp only
    rw [if_neg (by decide), if_neg (by decide), if_pos rfl, skipSpace_gap hg,
      skipSpace_cons (by decide)]
    dsimp only
    rw [if_pos rfl]
  | object hg hms =>
    obtain ⟨bs, rfl⟩ := hms.head
    have hmembers := hM (r := rest) hms gap_nil (by
      simp only [List.length_cons, List.length_append] at hf ⊢; omega)
    simp only [List.cons_append, List.append_assoc, List.nil_append] at hmembers ⊢
    rw [value, skipSpace_cons (by decide)]
    dsimp only
    rw [if_neg (by decide), if_neg (by decide), if_pos rfl, skipSpace_gap hg,
      skipSpace_cons (by decide)]
    dsimp only
    rw [if_neg (by decide), if_pos rfl, hmembers]

theorem ends_comma (rest : List UInt8) : Ends (ascii ',' :: rest) :=
  .of_head (by decide) (by decide) (by decide) (by decide)

theorem ends_bracket (rest : List UInt8) : Ends (ascii ']' :: rest) :=
  .of_head (by decide) (by decide) (by decide) (by decide)

theorem ends_brace (rest : List UInt8) : Ends (ascii '\x7d' :: rest) :=
  .of_head (by decide) (by decide) (by decide) (by decide)

theorem reads_items {fuel : ℕ} (hV : ReadsValues fuel) (hI : ReadsItems fuel) :
    ReadsItems (fuel + 1) := by
  intro ds ws bs rest h hw hf
  cases h with
  | @last d bs ws' hd hw' =>
    simp only [List.length_append] at hf
    have hval := hV hd hw (ends_gap hw' (ends_bracket rest)) (by omega)
    rw [items, List.append_assoc, hval]
    dsimp only
    rw [skipSpace_gap hw', skipSpace_cons (by decide)]
    dsimp only
    rw [if_neg (by decide), if_pos rfl]
  | @cons d ds bs ws₁ ws₂ rest' hd hw₁ hw₂ hds =>
    simp only [List.length_append, List.length_cons] at hf
    have hval := hV hd hw (ends_gap hw₁ (ends_comma (ws₂ ++ (rest' ++ ascii ']' :: rest))))
      (by omega)
    have hrest := hI (r := rest) hds hw₂ (by omega)
    simp only [List.append_assoc, List.cons_append] at hval ⊢
    rw [items, hval]
    dsimp only
    rw [skipSpace_gap hw₁, skipSpace_cons (by decide)]
    dsimp only
    rw [if_pos rfl, hrest]

theorem members_member {fuel : ℕ} (hV : ReadsValues fuel) {m : Text × Doc}
    {ws bs rest : List UInt8} (h : MemberSpelled m bs) (hw : Gap ws) (hr : Ends rest)
    (hf : 2 * bs.length ≤ fuel) :
    members (fuel + 1) (ws ++ (bs ++ rest)) =
      match skipSpace rest with
      | [] => ([m], some .ended, none)
      | b :: rest =>
        if b = ascii ',' then
          let (ms, flaw, next) := members fuel rest
          (m :: ms, flaw, next)
        else if b = ascii '\x7d' then ([m], none, some rest)
        else ([m], some .malformed, none) := by
  cases h with
  | @mk ps d k bs ws₁ ws₂ hk hw₁ hw₂ hd =>
    simp only [List.length_append, List.length_cons] at hf
    have hval := hV hd hw₂ hr (by omega)
    simp only [List.cons_append, List.append_assoc]
    rw [members, skipSpace_gap hw, skipSpace_cons (by decide)]
    dsimp only
    rw [if_pos rfl, Text.scan_spelled hk]
    dsimp only
    rw [if_neg (by decide), skipSpace_gap hw₁, skipSpace_cons (by decide)]
    dsimp only
    refine (if_pos rfl).trans ?_
    exact hval ▸ rfl

theorem reads_members {fuel : ℕ} (hV : ReadsValues fuel) (hM : ReadsMembers fuel) :
    ReadsMembers (fuel + 1) := by
  intro ms ws bs rest h hw hf
  cases h with
  | @last m bs ws' hm hw' =>
    simp only [List.length_append] at hf
    rw [List.append_assoc, members_member hV hm hw (ends_gap hw' (ends_brace rest)) (by omega),
      skipSpace_gap hw', skipSpace_cons (by decide)]
    dsimp only
    rw [if_neg (by decide), if_pos rfl]
  | @cons m ms bs ws₁ ws₂ rest' hm hw₁ hw₂ hms =>
    simp only [List.length_append, List.length_cons] at hf
    have hrest := hM (r := rest) hms hw₂ (by omega)
    simp only [List.append_assoc, List.cons_append]
    rw [members_member hV hm hw (ends_gap hw₁ (ends_comma _)) (by omega), skipSpace_gap hw₁,
      skipSpace_cons (by decide)]
    dsimp only
    rw [if_pos rfl, hrest]

/-- Reading finds what is spelled, by induction on the fuel. -/
theorem reads : ∀ fuel, ReadsValues fuel ∧ ReadsItems fuel ∧ ReadsMembers fuel
  | 0 => by
    refine ⟨fun {d ws bs rest} h _ _ hf => ?_, fun _ _ hf => ?_, fun _ _ hf => ?_⟩
    · obtain ⟨b, bs, rfl, -⟩ := h.head
      simp at hf
    · omega
    · omega
  | fuel + 1 =>
    have ⟨hV, hI, hM⟩ := reads fuel
    ⟨reads_value hI hM, reads_items hV hI, reads_members hV hM⟩

/-- **A text that spells a document is read as that document, to its end.** -/
theorem parse_spelled {d : Doc} {ws bs ws' : List UInt8} (h : Spelled d bs) (hw : Gap ws)
    (hw' : Gap ws') : parse (ws ++ (bs ++ ws')) = (d, false) := by
  have hval := (reads (2 * (ws ++ (bs ++ ws')).length + 2)).1 (r := ws') h hw
    (by have := ends_gap hw' ends_nil; rwa [List.append_nil] at this)
    (by simp only [List.length_append]; omega)
  have hend : skipSpace ws' = [] := by
    have := skipSpace_gap hw' []
    rwa [List.append_nil] at this
  rw [parse, hval]
  simp only [hend, List.isEmpty_nil, Bool.not_true]

/-! ## Printed documents -/

/-- The printed form of a document spells it. -/
def Printable (d : Doc) : Prop := Spelled d d.print

theorem printable_bool (b : Bool) : Printable (.bool b) := by
  cases b
  · exact .no
  · exact .yes

theorem printable_number {n : Numeral} (h : n.WellFormed) : Printable (.number n) := .number h

theorem printable_string (s : String) : Printable (.string (.ofString s)) :=
  .string (Text.spelled_ofString s)

theorem itemsSpelled_printItems : ∀ {ds : List Doc}, ds ≠ [] → (∀ d ∈ ds, d.Printable) →
    ItemsSpelled ds (printItems ds)
  | [], h, _ => absurd rfl h
  | [d], _, hd => by
    have := ItemsSpelled.last (hd d List.mem_cons_self) gap_nil
    rwa [List.append_nil] at this
  | d :: d' :: ds, _, hd =>
    .cons (hd d List.mem_cons_self) gap_nil gap_nil
      (itemsSpelled_printItems (List.cons_ne_nil d' ds) fun x hx =>
        hd x (List.mem_cons_of_mem _ hx))

theorem printable_list {ds : List Doc} (h : ∀ d ∈ ds, d.Printable) : Printable (.list ds) := by
  cases ds with
  | nil => exact .emptyList gap_nil
  | cons d ds => exact .list gap_nil (itemsSpelled_printItems (List.cons_ne_nil d ds) h)

/-- A name as a string, with a value that is printed and read back. -/
def PrintableMember (m : Text × Doc) : Prop := (∃ s, m.1 = .ofString s) ∧ m.2.Printable

theorem PrintableMember.spelled {m : Text × Doc} (h : PrintableMember m) :
    MemberSpelled m (m.1.print ++ ascii ':' :: m.2.print) := by
  obtain ⟨k, d⟩ := m
  obtain ⟨⟨s, rfl : k = .ofString s⟩, hd⟩ := h
  have := MemberSpelled.mk (Text.spelled_ofString s) gap_nil gap_nil hd
  change MemberSpelled ({ pieces := (Text.ofString s).pieces }, d) _
  simpa only [Text.print, List.cons_append, List.append_assoc, List.nil_append] using this

theorem membersSpelled_printMembers : ∀ {ms : List (Text × Doc)}, ms ≠ [] →
    (∀ m ∈ ms, PrintableMember m) → MembersSpelled ms (printMembers ms)
  | [], h, _ => absurd rfl h
  | [m], _, hm => by
    have := MembersSpelled.last (hm m List.mem_cons_self).spelled gap_nil
    rwa [List.append_nil] at this
  | m :: m' :: ms, _, hm => by
    have hrest := membersSpelled_printMembers (List.cons_ne_nil m' ms) fun x hx =>
      hm x (List.mem_cons_of_mem _ hx)
    have := MembersSpelled.cons (hm m List.mem_cons_self).spelled gap_nil gap_nil hrest
    simpa only [printMembers, List.cons_append, List.append_assoc, List.nil_append] using this

theorem printable_object {ms : List (Text × Doc)} (h : ∀ m ∈ ms, PrintableMember m) :
    Printable (.object ms) := by
  cases ms with
  | nil => exact .emptyObject gap_nil
  | cons m ms => exact .object gap_nil (membersSpelled_printMembers (List.cons_ne_nil m ms) h)

/-! ## Values that are skipped -/

mutual

theorem Spelled.skipFlaw? {d : Doc} {bs : List UInt8} : d.Spelled bs → d.skipFlaw? = none
  | .null | .yes | .no | .number _ | .string _ | .emptyList _ | .emptyObject _ => by
    rfl
  | .list _ h => by
    rw [Doc.skipFlaw?, h.skipItems]
    rfl
  | .object _ h => by
    rw [Doc.skipFlaw?, h.skipMembers]
    rfl

theorem ItemsSpelled.skipItems {ds : List Doc} {bs : List UInt8} :
    ItemsSpelled ds bs → Doc.skipItems ds = none
  | .last h _ => by
    rw [Doc.skipItems, h.skipFlaw?]
    rfl
  | .cons h _ _ hs => by
    rw [Doc.skipItems, h.skipFlaw?, hs.skipItems]
    rfl

theorem MemberSpelled.skipFlaw? {m : Text × Doc} {bs : List UInt8} :
    MemberSpelled m bs → m.1.flaw = none ∧ m.2.skipFlaw? = none
  | .mk _ _ _ h => ⟨rfl, h.skipFlaw?⟩

theorem MembersSpelled.skipMembers {ms : List (Text × Doc)} {bs : List UInt8} :
    MembersSpelled ms bs → Doc.skipMembers ms = none
  | .last h _ => by
    rw [Doc.skipMembers, h.skipFlaw?.1, h.skipFlaw?.2]
    rfl
  | .cons h _ _ hs => by
    rw [Doc.skipMembers, h.skipFlaw?.1, h.skipFlaw?.2, hs.skipMembers]
    rfl

end

end Doc

end Telemetry.Json
