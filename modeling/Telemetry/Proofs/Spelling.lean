import Mathlib.Data.List.Forall2
import Mathlib.Data.List.TakeWhile
import Telemetry.Path.Text
import Telemetry.Proofs.Table

/-!
# The spelling of paths

A text spells a path if it has the elements one after another, with slashes between them. An element
is a name without slashes and brackets, followed by its keys in brackets. Reading accepts just these
texts: it cuts them where no bracket is open, so that brackets balance in every piece, and of two
opening brackets before the first closing one the second would be left without a partner.

* `Separated`, `Element.Spells`, `Path.Spells`: the grammar; `Element.IsSpellable`: the elements that
  some text spells;
* `Path.Scanned`, **`Path.slicesFrom_scanned`**: brackets balance in every piece, and its name has no
  slash;
* `Path.slicesFrom_separated`: the pieces are all there is of a text, but for slashes;
* **`Element.spells_of_read`**, `Element.read_of_spells`: one element;
* **`Path.readElements_eq_ok_iff`**: all elements of a text;
* **`Path.read_eq_ok_iff`**: the texts that are read, and as what.
-/

namespace Telemetry

/-! ## The grammar -/

/-- A text of pieces with slashes between them, one or more, and any number before and after. `P`
says what a piece stands for. -/
inductive Separated {α : Type} (P : List Char → α → Prop) : List Char → List α → Prop where
  | nil : Separated P [] []
  | slash {cs : List Char} {l : List α} : Separated P cs l → Separated P ('/' :: cs) l
  | last {piece : List Char} {a : α} : P piece a → Separated P piece [a]
  | cons {piece cs : List Char} {a : α} {l : List α} : P piece a → Separated P cs l →
      Separated P (piece ++ '/' :: cs) (a :: l)

/-- The name of an element can be written: it ends before a slash or a bracket. -/
structure IsName (name : String) : Prop where
  nonempty : name ≠ ""
  plain : ∀ c ∈ name.toList, c ≠ '/' ∧ c ≠ '[' ∧ c ≠ ']'

/-- A key can be written: its name ends before the equals sign, and its value before the closing
bracket. -/
structure IsKey (r : String × String) : Prop where
  nonempty : r.1 ≠ ""
  name : ∀ c ∈ r.1.toList, c ≠ '=' ∧ c ≠ '[' ∧ c ≠ ']'
  value : ∀ c ∈ r.2.toList, c ≠ '[' ∧ c ≠ ']'

/-- The text is the name of the element followed by keys in brackets. Of a key that is given more
than once the last value counts. -/
def Element.Spells (text : List Char) (e : Element) : Prop :=
  IsName e.name ∧ ∃ rows : List (String × String), (∀ r ∈ rows, IsKey r) ∧
    text = e.name.toList ++ rows.flatMap printKey ∧ ∀ k, e.keys.find? k = rows.reverse.lookup k

/-- The name of the element and all its keys can be written. -/
structure Element.IsSpellable (e : Element) : Prop where
  name : IsName e.name
  keys : ∀ r ∈ e.keys.rows, IsKey r

/-- The text has the elements one after another, with slashes between them. -/
def Path.Spells (text : List Char) (es : List Element) : Prop := Separated Element.Spells text es

namespace Separated

variable {α β : Type} {P : List Char → α → Prop} {Q : List Char → β → Prop}

theorem trans {R : α → β → Prop} (hPQ : ∀ piece a b, P piece a → R a b → Q piece b)
    {cs : List Char} {l : List α} {m : List β} (h : Separated P cs l) (hm : List.Forall₂ R l m) :
    Separated Q cs m := by
  induction h generalizing m with
  | nil =>
    cases hm
    exact .nil
  | slash _ ih => exact .slash (ih hm)
  | last hp =>
    obtain _ | ⟨hr, ⟨⟩⟩ := hm
    exact .last (hPQ _ _ _ hp hr)
  | cons hp _ ih =>
    obtain _ | ⟨hr, hm⟩ := hm
    exact .cons (hPQ _ _ _ hp hr) (ih hm)

theorem exists_of_mem {cs : List Char} {l : List α} (h : Separated P cs l) {a : α} (ha : a ∈ l) :
    ∃ piece, P piece a := by
  induction h with
  | nil => cases ha
  | slash _ ih => exact ih ha
  | last hp =>
    obtain rfl := List.mem_singleton.mp ha
    exact ⟨_, hp⟩
  | cons hp _ ih =>
    rcases List.mem_cons.mp ha with rfl | ha
    · exact ⟨_, hp⟩
    · exact ih ha

end Separated

/-! ## One key -/

theorem splitFirst_append {c : Char} {a : List Char} (h : c ∉ a) (b : List Char) :
    splitFirst c (a ++ c :: b) = some (a, b) := by
  induction a with
  | nil => simp [splitFirst]
  | cons x a ih =>
    have hx : x ≠ c := fun e => h (e ▸ List.mem_cons_self)
    rw [List.cons_append, splitFirst, if_neg hx, ih fun hc => h (List.mem_cons_of_mem _ hc)]
    rfl

namespace IsKey

variable {r : String × String}

theorem equals (h : IsKey r) : '=' ∉ r.1.toList := fun hc => (h.name _ hc).1 rfl

theorem close (h : IsKey r) : ']' ∉ r.1.toList ++ '=' :: r.2.toList := by
  simp only [List.mem_append, List.mem_cons, not_or]
  exact ⟨fun hc => (h.name _ hc).2.2 rfl, by decide, fun hc => (h.value _ hc).2 rfl⟩

end IsKey

namespace Element

/-- What follows a key: the next one, or nothing. -/
def OpensKey (cs : List Char) : Prop := ∀ c ∈ cs.head?, c = '['

theorem opensKey_flatMap (rows : List (String × String)) : OpensKey (rows.flatMap printKey) := by
  cases rows with
  | nil => simp [OpensKey]
  | cons r rows => exact fun c hc => (Option.some.inj hc).symm

/-- A key in brackets is read, and then what follows. -/
theorem readKeys_printKey {r : String × String} (hr : IsKey r) (keys : Table String)
    {rest : List Char} (hrest : OpensKey rest) :
    readKeys keys (printKey r ++ rest) = readKeys (keys.insert r.1 r.2) rest := by
  have htext : printKey r ++ rest = '[' :: ((r.1.toList ++ '=' :: r.2.toList) ++ ']' :: rest) := by
    simp [printKey]
  have hclose := splitFirst_append hr.close rest
  have hequals := splitFirst_append hr.equals r.2.toList
  have hhead : (rest.head?.all (· == '[')) = true := by
    cases hc : rest.head? with
    | none => rfl
    | some c => simp [hrest c hc]
  rw [htext, readKeys]
  split
  · rename_i hnone
    rw [hclose] at hnone
    cases hnone
  · rename_i row rest' hsome
    obtain ⟨rfl, rfl⟩ := Prod.mk.inj (Option.some.inj (hclose.symm.trans hsome))
    split
    · rename_i hnone
      rw [hequals] at hnone
      cases hnone
    · rename_i hname
      have hname := (Prod.mk.inj (Option.some.inj (hequals.symm.trans hname))).1
      exact absurd (String.toList_eq_nil_iff.mp hname) hr.nonempty
    · rename_i hkey
      obtain ⟨rfl, rfl⟩ := Prod.mk.inj (Option.some.inj (hequals.symm.trans hkey))
      rw [if_pos hhead, String.ofList_toList, String.ofList_toList]

/-- **Keys in brackets are read** one after another. -/
theorem readKeys_flatMap {rows : List (String × String)} (hrows : ∀ r ∈ rows, IsKey r)
    (keys : Table String) : readKeys keys (rows.flatMap printKey) =
      .ok (rows.foldl (fun t r => t.insert r.1 r.2) keys) := by
  induction rows generalizing keys with
  | nil => rw [List.flatMap_nil, readKeys, List.foldl_nil]
  | cons r rows ih =>
    rw [List.flatMap_cons, readKeys_printKey (hrows r List.mem_cons_self) keys
      (opensKey_flatMap rows), ih fun x hx => hrows x (List.mem_cons_of_mem _ hx), List.foldl_cons]

/-- What is between the brackets of a key that was read. -/
structure IsRow (r : String × String) : Prop where
  nonempty : r.1 ≠ ""
  equals : '=' ∉ r.1.toList
  close : ']' ∉ r.1.toList ∧ ']' ∉ r.2.toList

theorem isRow_of_splitFirst {body row rest k v : List Char}
    (hrow : splitFirst ']' body = some (row, rest)) (hkey : splitFirst '=' row = some (k, v))
    (hempty : k ≠ []) : IsRow (.ofList k, .ofList v) ∧
      '[' :: body = printKey (.ofList k, .ofList v) ++ rest := by
  obtain ⟨rfl, hclose⟩ := splitFirst_eq_some hrow
  obtain ⟨rfl, hequals⟩ := splitFirst_eq_some hkey
  simp only [List.mem_append, List.mem_cons, not_or] at hclose
  refine ⟨⟨?_, by simpa, by simpa using ⟨hclose.1, hclose.2.2⟩⟩, by simp [printKey]⟩
  rwa [ne_eq, ← String.toList_eq_nil_iff, String.toList_ofList]

theorem exists_rows_of_readKeys {keys t : Table String} {l : List Char} (hl : OpensKey l)
    (h : readKeys keys l = .ok t) : ∃ rows : List (String × String), (∀ r ∈ rows, IsRow r) ∧
      l = rows.flatMap printKey ∧ t = rows.foldl (fun t r => t.insert r.1 r.2) keys := by
  fun_induction readKeys keys l with
  | case1 keys => exact ⟨[], by simp, rfl, (Except.ok.inj h).symm⟩
  | case2 | case3 | case4 | case6 => cases h
  | case5 keys c body row rest hrow k v hempty hkey hhead _ ih =>
    obtain rfl := hl c rfl
    obtain ⟨hr, htext⟩ := isRow_of_splitFirst hrow hkey hempty
    have hrest : OpensKey rest := fun c hc => by
      rw [Option.mem_def.mp hc] at hhead
      simpa using hhead
    obtain ⟨rows, hrows, rfl, rfl⟩ := ih hrest h
    exact ⟨_ :: rows, List.forall_mem_cons.mpr ⟨hr, hrows⟩, htext, rfl⟩

end Element

/-! ## Where a text is cut -/

/-- The name of a piece, which ends at the first bracket, has no slash. -/
def Element.SlashFree (piece : List Char) : Prop := '/' ∉ piece.takeWhile (· != '[')

namespace Path

open Element (SlashFree)

/-- A piece up to a place where `depth` brackets are open: no bracket was closed that was not open,
and there is no slash before the first one. -/
structure Scanned (depth : ℕ) (piece : List Char) : Prop where
  closes : ∀ p, p <+: piece → p.count ']' ≤ p.count '['
  opens : piece.count '[' = piece.count ']' + depth
  slashFree : SlashFree piece

theorem takeWhile_concat (piece : List Char) (c : Char) :
    (piece ++ [c]).takeWhile (· != '[') = piece.takeWhile (· != '[') ∨
      '[' ∉ piece ∧ (piece ++ [c]).takeWhile (· != '[') = piece ++ [c].takeWhile (· != '[') := by
  by_cases h : '[' ∈ piece
  · left
    induction piece with
    | nil => cases h
    | cons x piece ih =>
      by_cases hx : x = '['
      · simp [hx]
      · have hp : '[' ∈ piece := by simpa [Ne.symm hx] using h
        simp [hx, ih hp]
  · refine .inr ⟨h, List.takeWhile_append_of_pos fun x hx => ?_⟩
    simpa using fun e : x = '[' => h (e ▸ hx)

theorem slashFree_concat {piece : List Char} {c : Char} (h : SlashFree piece)
    (hc : '[' ∈ piece ∨ c ≠ '/') : SlashFree (piece ++ [c]) := by
  unfold SlashFree at h ⊢
  rcases takeWhile_concat piece c with heq | ⟨hpiece, heq⟩
  · rwa [heq]
  · have hc := hc.resolve_left hpiece
    have hall : piece.takeWhile (· != '[') = piece :=
      List.takeWhile_eq_self_iff.mpr fun x hx => by simpa using fun e : x = '[' => hpiece (e ▸ hx)
    rw [hall] at h
    rw [heq, List.mem_append]
    rintro (hmem | hmem)
    · exact h hmem
    · have := List.mem_singleton.mp ((List.takeWhile_prefix _).subset hmem)
      exact hc this.symm

namespace Scanned

variable {depth depth' : ℕ} {piece : List Char} {c : Char}

theorem nil : Scanned 0 [] where
  closes p hp := by rw [List.prefix_nil.mp hp, List.count_nil, List.count_nil]
  opens := rfl
  slashFree := by simp [SlashFree]

theorem concat (h : Scanned depth piece)
    (hdepth : [c].count '[' + depth = [c].count ']' + depth') (hc : depth = 0 → c ≠ '/') :
    Scanned depth' (piece ++ [c]) := by
  have hopens : (piece ++ [c]).count '[' = (piece ++ [c]).count ']' + depth' := by
    have := h.opens
    rw [List.count_append, List.count_append]
    omega
  refine ⟨fun p hp => ?_, hopens, slashFree_concat h.slashFree ?_⟩
  · rcases List.prefix_concat_iff.mp hp with rfl | hp
    · omega
    · exact h.closes p hp
  · by_cases hd : depth = 0
    · exact .inr (hc hd)
    · have := h.opens
      exact .inl (List.count_pos_iff.mp (by omega))

end Scanned

/-- **In every piece that is cut out brackets balance**, and there is something in it. -/
theorem slicesFrom_scanned {depth : ℕ} {piece cs : List Char} (h : Scanned depth piece) :
    ∀ slice ∈ (slicesFrom depth piece cs).1, slice ≠ [] ∧ Scanned 0 slice := by
  fun_induction slicesFrom depth piece cs with
  | case1 piece =>
    -- the text ends, and no bracket is open
    dsimp only
    split
    · simp
    · rename_i hpiece
      intro slice hslice
      obtain rfl := List.mem_singleton.mp hslice
      exact ⟨by simpa using hpiece, h⟩
  | case2 | case4 => simp
  | case3 depth piece cs ih => exact ih (h.concat (by simp; omega) (by simp))
  | case5 depth piece cs hdepth _ ih => exact ih (h.concat (by simp; omega) (by simp))
  | case6 depth piece c cs _ _ hc rest balanced heq ih =>
    -- a slash outside brackets ends the piece
    obtain ⟨-, rfl⟩ := hc
    have hrest : ∀ slice ∈ rest, slice ≠ [] ∧ Scanned 0 slice := by simpa only [heq] using ih .nil
    dsimp only
    split
    · exact hrest
    · rename_i hpiece
      intro slice hslice
      rcases List.mem_cons.mp hslice with rfl | hslice
      · exact ⟨by simpa using hpiece, h⟩
      · exact hrest slice hslice
  | case7 depth piece c cs hopen hclose hc ih =>
    exact ih (h.concat (by simp [hopen, hclose]) fun hdepth e => hc ⟨e, hdepth⟩)

/-- **The pieces are all there is of a text**, but for the slashes between them. -/
theorem slicesFrom_separated {depth : ℕ} {piece cs : List Char}
    (h : (slicesFrom depth piece cs).2 = true) :
    Separated (fun slice s => slice = s) (piece ++ cs) (slicesFrom depth piece cs).1 := by
  have hcons : ∀ (piece cs : List Char) (c : Char), piece ++ c :: cs = (piece ++ [c]) ++ cs := by
    simp
  fun_induction slicesFrom depth piece cs with
  | case1 piece =>
    rw [List.append_nil]
    dsimp only
    split
    · rename_i hpiece
      rw [List.isEmpty_iff.mp hpiece]
      exact .nil
    · exact .last rfl
  | case2 | case4 => cases h
  | case3 depth piece cs ih => exact hcons piece cs '[' ▸ ih h
  | case5 depth piece cs _ _ ih => exact hcons piece cs ']' ▸ ih h
  | case6 depth piece c cs _ _ hc rest balanced heq ih =>
    obtain ⟨rfl, rfl⟩ := hc
    have hrest : Separated (fun slice s => slice = s) cs rest := by
      simpa only [heq, List.nil_append] using ih (heq ▸ h)
    dsimp only
    split
    · rename_i hpiece
      rw [List.isEmpty_iff.mp hpiece]
      exact .slash hrest
    · exact .cons rfl hrest
  | case7 depth piece c cs _ _ _ ih => exact hcons piece cs c ▸ ih h

theorem slicesFrom_append {depth : ℕ} {l : List Char}
    (hl : ∀ c ∈ l, c ≠ '[' ∧ c ≠ ']' ∧ (depth = 0 → c ≠ '/')) (piece cs : List Char) :
    slicesFrom depth piece (l ++ cs) = slicesFrom depth (piece ++ l) cs := by
  induction l generalizing piece with
  | nil => rw [List.nil_append, List.append_nil]
  | cons c l ih =>
    obtain ⟨hopen, hclose, hslash⟩ := hl c List.mem_cons_self
    rw [List.cons_append, slicesFrom, if_neg hopen, if_neg hclose,
      if_neg fun hc => hslash hc.2 hc.1, ih fun x hx => hl x (List.mem_cons_of_mem _ hx)]
    simp

theorem slicesFrom_printKey {r : String × String} (hr : IsKey r) (piece cs : List Char) :
    slicesFrom 0 piece (Element.printKey r ++ cs) =
      slicesFrom 0 (piece ++ Element.printKey r) cs := by
  have hbody : ∀ c ∈ r.1.toList ++ '=' :: r.2.toList, c ≠ '[' ∧ c ≠ ']' ∧ (1 = 0 → c ≠ '/') := by
    intro c hc
    rw [List.mem_append, List.mem_cons] at hc
    rcases hc with hc | rfl | hc
    · exact ⟨(hr.name c hc).2.1, (hr.name c hc).2.2, by omega⟩
    · exact ⟨by decide, by decide, by omega⟩
    · exact ⟨(hr.value c hc).1, (hr.value c hc).2, by omega⟩
  have htext : Element.printKey r ++ cs =
      '[' :: ((r.1.toList ++ '=' :: r.2.toList) ++ ']' :: cs) := by
    simp [Element.printKey]
  rw [htext, slicesFrom, if_pos rfl, Nat.zero_add, slicesFrom_append hbody, slicesFrom,
    if_neg (by decide), if_pos rfl, if_neg (by decide), Nat.sub_self]
  simp [Element.printKey]

theorem slicesFrom_spells {text : List Char} {e : Element} (h : Element.Spells text e)
    (piece cs : List Char) : slicesFrom 0 piece (text ++ cs) = slicesFrom 0 (piece ++ text) cs := by
  obtain ⟨hname, rows, hrows, rfl, -⟩ := h
  have hkeys : ∀ piece, slicesFrom 0 piece (rows.flatMap Element.printKey ++ cs) =
      slicesFrom 0 (piece ++ rows.flatMap Element.printKey) cs := by
    induction rows with
    | nil => simp
    | cons r rows ih =>
      intro piece
      rw [List.flatMap_cons, List.append_assoc, slicesFrom_printKey (hrows r List.mem_cons_self),
        ih fun x hx => hrows x (List.mem_cons_of_mem _ hx), List.append_assoc]
  rw [List.append_assoc, slicesFrom_append fun c hc => ⟨(hname.plain c hc).2.1,
    (hname.plain c hc).2.2, fun _ => (hname.plain c hc).1⟩, hkeys, List.append_assoc]

end Path

/-! ## One element -/

namespace Element

theorem count_flatMap_printKey (rows : List (String × String)) :
    (rows.flatMap printKey).count '[' = rows.length +
      (rows.flatMap fun r => r.1.toList ++ r.2.toList).count '[' := by
  induction rows with
  | nil => rfl
  | cons r rows ih =>
    simp only [List.flatMap_cons, List.count_append, ih, printKey, List.length_cons,
      List.count_cons, List.count_nil, beq_iff_eq, Char.reduceEq, if_false, if_true]
    omega

theorem count_close_flatMap_printKey {rows : List (String × String)} (hrows : ∀ r ∈ rows, IsRow r) :
    (rows.flatMap printKey).count ']' = rows.length := by
  induction rows with
  | nil => rfl
  | cons r rows ih =>
    obtain ⟨hname, hvalue⟩ := (hrows r List.mem_cons_self).close
    have := ih fun x hx => hrows x (List.mem_cons_of_mem _ hx)
    simp only [List.flatMap_cons, List.count_append, printKey, List.count_cons, List.count_nil,
      List.count_eq_zero_of_not_mem hname, List.count_eq_zero_of_not_mem hvalue, this, beq_iff_eq,
      Char.reduceEq, if_false, if_true, List.length_cons]
    omega

/-- If no bracket is left over, every key has just its own two. -/
theorem IsRow.isKey {rows : List (String × String)} (hrows : ∀ r ∈ rows, IsRow r)
    (hcount : (rows.flatMap printKey).count '[' = (rows.flatMap printKey).count ']') :
    ∀ r ∈ rows, IsKey r := by
  rw [count_flatMap_printKey, count_close_flatMap_printKey hrows] at hcount
  have hnone : '[' ∉ rows.flatMap fun r => r.1.toList ++ r.2.toList :=
    List.count_eq_zero.mp (by omega)
  intro r hr
  have hname : '[' ∉ r.1.toList := fun h =>
    hnone (List.mem_flatMap.mpr ⟨r, hr, List.mem_append_left _ h⟩)
  have hvalue : '[' ∉ r.2.toList := fun h =>
    hnone (List.mem_flatMap.mpr ⟨r, hr, List.mem_append_right _ h⟩)
  obtain ⟨hnonempty, hequals, hclose⟩ := hrows r hr
  exact ⟨hnonempty,
    fun c hc => ⟨fun e => hequals (e ▸ hc), fun e => hname (e ▸ hc), fun e => hclose.1 (e ▸ hc)⟩,
    fun c hc => ⟨fun e => hvalue (e ▸ hc), fun e => hclose.2 (e ▸ hc)⟩⟩

theorem opensKey_dropWhile (piece : List Char) : OpensKey (piece.dropWhile (· != '[')) := by
  intro c hc
  have := List.head?_dropWhile_not (· != '[') piece
  rw [Option.mem_def.mp hc] at this
  simpa using this

theorem Spells.ne_nil {text : List Char} {e : Element} (h : Spells text e) : text ≠ [] := by
  obtain ⟨hname, rows, -, rfl, -⟩ := h
  intro hnil
  exact hname.nonempty (String.toList_eq_nil_iff.mp (List.append_eq_nil_iff.mp hnil).1)

theorem Spells.isSpellable {text : List Char} {e : Element} (h : Spells text e) :
    e.IsSpellable := by
  obtain ⟨hname, rows, hrows, -, hkeys⟩ := h
  exact ⟨hname, fun r hr => hrows r (Table.mem_of_find?_eq_lookup hkeys hr)⟩

/-- **A piece in which brackets balance spells the element as which it is read.** -/
theorem spells_of_read {piece : List Char} {e : Element} (hpiece : Path.Scanned 0 piece)
    (h : read piece = .ok e) : Spells piece e := by
  unfold read at h
  dsimp only at h
  split at h
  · cases h
  · rename_i hne
    cases ht : readKeys .empty (piece.dropWhile (· != '[')) with
    | error fault =>
      rw [ht] at h
      cases h
    | ok t =>
    rw [ht] at h
    obtain rfl := Except.ok.inj h
    obtain ⟨rows, hrows, hrest, rfl⟩ := exists_rows_of_readKeys (opensKey_dropWhile piece) ht
    have hopen : '[' ∉ piece.takeWhile (· != '[') := fun hc => by
      simpa using List.mem_takeWhile_imp hc
    have hprefix := List.takeWhile_prefix (l := piece) (· != '[')
    have hclose : ']' ∉ piece.takeWhile (· != '[') := by
      have := hpiece.closes _ hprefix
      rw [List.count_eq_zero_of_not_mem hopen] at this
      exact List.count_eq_zero.mp (by omega)
    have htext : piece = piece.takeWhile (· != '[') ++ rows.flatMap printKey := by
      rw [← hrest, List.takeWhile_append_dropWhile]
    have hcount : (rows.flatMap printKey).count '[' = (rows.flatMap printKey).count ']' := by
      have := hpiece.opens
      rw [htext, List.count_append, List.count_append, List.count_eq_zero_of_not_mem hopen,
        List.count_eq_zero_of_not_mem hclose] at this
      omega
    refine ⟨⟨?_, fun c hc => ?_⟩, rows, IsRow.isKey hrows hcount, ?_, ?_⟩
    · rw [ne_eq, ← String.toList_eq_nil_iff, String.toList_ofList]
      simpa using hne
    · rw [String.toList_ofList] at hc
      exact ⟨fun e => hpiece.slashFree (e ▸ hc), fun e => hopen (e ▸ hc), fun e => hclose (e ▸ hc)⟩
    · rw [String.toList_ofList]
      exact htext
    · exact Table.find?_ofList rows

/-- **A text that spells an element is read as that element.** -/
theorem read_of_spells {text : List Char} {e : Element} (h : Spells text e) : read text = .ok e := by
  obtain ⟨hname, rows, hrows, rfl, hkeys⟩ := h
  have hplain : ∀ c ∈ e.name.toList, (c != '[') = true := fun c hc => by
    simpa using (hname.plain c hc).2.1
  have htake : (e.name.toList ++ rows.flatMap printKey).takeWhile (· != '[') = e.name.toList := by
    rw [List.takeWhile_append_of_pos hplain]
    cases rows <;> simp [printKey]
  have hdrop : (e.name.toList ++ rows.flatMap printKey).dropWhile (· != '[') =
      rows.flatMap printKey := by
    rw [List.dropWhile_append_of_pos hplain]
    cases rows <;> simp [printKey]
  have hne : e.name.toList.isEmpty = false := by
    rw [List.isEmpty_eq_false_iff, ne_eq, String.toList_eq_nil_iff]
    exact hname.nonempty
  have htable : rows.foldl (fun t r => t.insert r.1 r.2) .empty = e.keys :=
    Table.ext_find? fun k => (Table.find?_ofList rows k).trans (hkeys k).symm
  rw [read, htake, hdrop, hne, if_neg (by decide), readKeys_flatMap hrows, htable,
    String.ofList_toList]
  rfl

end Element

/-! ## All elements -/

namespace Path

theorem mapM_eq_ok_iff {α β ε : Type} {f : α → Except ε β} {l : List α} {m : List β} :
    l.mapM f = .ok m ↔ List.Forall₂ (fun a b => f a = .ok b) l m := by
  induction l generalizing m with
  | nil =>
    rw [List.mapM_nil, List.forall₂_nil_left_iff]
    exact ⟨fun h => (Except.ok.inj h).symm, fun h => h ▸ rfl⟩
  | cons a l ih =>
    rw [List.mapM_cons, List.forall₂_cons_left_iff]
    cases ha : f a with
    | error e =>
      simp only [reduceCtorEq, false_and, exists_false, iff_false]
      intro h
      cases h
    | ok b =>
      simp only [← ih]
      cases hl : l.mapM f with
      | error e =>
        simp only [reduceCtorEq, false_and, and_false, exists_false, iff_false]
        intro h
        cases h
      | ok m' =>
        constructor
        · intro h
          exact ⟨b, m', rfl, rfl, (Except.ok.inj h).symm⟩
        · rintro ⟨_, _, hb, hm, rfl⟩
          obtain rfl := Except.ok.inj hb
          obtain rfl := Except.ok.inj hm
          rfl

theorem readElements_eq_ok {cs : List Char} {es : List Element} : readElements cs = .ok es ↔
    (slices cs).2 = true ∧
      List.Forall₂ (fun slice e => Element.read slice = .ok e) (slices cs).1 es := by
  rw [← mapM_eq_ok_iff, readElements]
  obtain ⟨pieces, balanced⟩ := slices cs
  cases hread : pieces.mapM Element.read with
  | error fault => simp [hread, bind, Except.bind]
  | ok es' =>
    cases balanced with
    | true => simp [hread, bind, Except.bind, pure, Except.pure]
    | false => simp [hread, bind, Except.bind, throw, throwThe, MonadExceptOf.throw]

theorem slices_of_spells {cs : List Char} {es : List Element} (h : Spells cs es) :
    (slices cs).2 = true ∧
      List.Forall₂ (fun slice e => Element.read slice = .ok e) (slices cs).1 es := by
  induction h with
  | nil => exact ⟨rfl, .nil⟩
  | @slash cs es _ ih =>
    have hcut : slices ('/' :: cs) = slices cs := by
      rw [slices, slicesFrom, if_neg (by decide), if_neg (by decide), if_pos ⟨rfl, rfl⟩]
      rfl
    rw [hcut]
    exact ih
  | @last piece e hp =>
    have hcut : slices piece = ([piece], true) := by
      have := slicesFrom_spells hp [] []
      rw [List.append_nil, List.nil_append] at this
      rw [slices, this, slicesFrom, if_pos rfl, if_neg (by simpa using hp.ne_nil)]
    rw [hcut]
    exact ⟨rfl, .cons (Element.read_of_spells hp) .nil⟩
  | @cons piece cs e es hp _ ih =>
    have hcut : slices (piece ++ '/' :: cs) = (piece :: (slices cs).1, (slices cs).2) := by
      rw [slices, slicesFrom_spells hp, List.nil_append, slicesFrom, if_neg (by decide),
        if_neg (by decide), if_pos ⟨rfl, rfl⟩]
      dsimp only
      rw [if_neg (by simpa using hp.ne_nil)]
      rfl
    rw [hcut]
    exact ⟨ih.1, .cons (Element.read_of_spells hp) ih.2⟩

/-- **A text is read as the elements that it spells**, and nothing else is read. -/
theorem readElements_eq_ok_iff {cs : List Char} {es : List Element} :
    readElements cs = .ok es ↔ Spells cs es := by
  rw [readElements_eq_ok]
  constructor
  · rintro ⟨hbalanced, hread⟩
    have hscanned : ∀ slice ∈ (slices cs).1, slice ≠ [] ∧ Scanned 0 slice :=
      slicesFrom_scanned Scanned.nil
    refine (slicesFrom_separated hbalanced).trans (R := fun slice e => Element.Spells slice e)
      (fun _ _ _ h he => h ▸ he) ?_
    refine (List.forall₂_and_left _ _).mpr ⟨hscanned, hread⟩ |>.imp fun slice e h => ?_
    exact Element.spells_of_read h.1.2 h.2
  · exact slices_of_spells

/-! ## Paths -/

theorem read_eq_ok {text : String} {p : Path} : read text = .ok p ↔
    readElements (Text.trim text.toList) = .ok p.elements ∧ p.origin = "" ∧ p.target = "" := by
  rw [read]
  cases readElements (Text.trim text.toList) with
  | error fault => simp
  | ok es =>
    obtain ⟨origin, elements, target⟩ := p
    simp only [Except.ok.injEq, Path.mk.injEq]
    constructor
    · rintro ⟨rfl, rfl, rfl⟩
      exact ⟨rfl, rfl, rfl⟩
    · rintro ⟨rfl, rfl, rfl⟩
      exact ⟨rfl, rfl, rfl⟩

theorem spells_of_read {text : String} {p : Path} (h : read text = .ok p) :
    Spells (Text.trim text.toList) p.elements :=
  readElements_eq_ok_iff.mp (read_eq_ok.mp h).1

/-- **The texts that are read, and as what**: a text, less the blanks at its ends, that spells some
elements is read as the path with these elements and neither origin nor target; and every other text
is refused. -/
theorem read_eq_ok_iff (text : String) (p : Path) : read text = .ok p ↔
    Spells (Text.trim text.toList) p.elements ∧ p.origin = "" ∧ p.target = "" := by
  rw [read_eq_ok, readElements_eq_ok_iff]

end Path

end Telemetry
