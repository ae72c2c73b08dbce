import Mathlib.Data.String.Basic
import Mathlib.Logic.Relation
import Telemetry.Proofs.Spelling

/-!
# Cutting paths

A text is cut by a scan that counts its bytes, and each piece is read by a loop that takes one key
after another. The scan gives the loop whole characters, and no piece without any. Brackets balance
in a piece, so what is left of it before a round of the loop has at least as many closing brackets
as opening ones, and begins with an opening one: the loop finds a closing bracket in every round.
Brackets that do not balance are thus reported by the scan alone.

* `Path.spans`, `Path.CutOut`, **`Path.spansFrom_cutOut`**: where the scan cuts, in bytes;
* `Path.Balances`, **`Path.slicesFrom_balanced_iff`**: what the scan finds wrong;
* `Element.round`, `Element.Reaches`: what a round of the loop leaves;
* `Element.Sticks`, **`Element.readKeys_unbalanced_iff`**: where the loop reports brackets;
* `Element.reaches_suffix`, `Element.exists_round`: what the rounds keep, and that they go on;
* **`Path.read_slices`**: what the loop is given, how it goes, and who reports brackets.
-/

namespace Telemetry

open String (utf8Len)

/-! ## Where the scan cuts -/

namespace Path

/-- The scan of a text from byte `pos` on, as stretches of bytes: `depth` brackets are open, and the
current piece begins at byte `start`. -/
def spansFrom (depth start pos : ℕ) : List Char → List (ℕ × ℕ)
  | [] => if depth = 0 ∧ start < pos then [(start, pos)] else []
  | c :: cs =>
    if c = '[' then spansFrom (depth + 1) start (pos + c.utf8Size) cs
    else if c = ']' then
      if depth = 0 then [] else spansFrom (depth - 1) start (pos + c.utf8Size) cs
    else if c = '/' ∧ depth = 0 then
      (if start < pos then [(start, pos)] else []) ++ spansFrom 0 (pos + 1) (pos + c.utf8Size) cs
    else spansFrom depth start (pos + c.utf8Size) cs

/-- The stretches of bytes of a trimmed text that are read as elements. -/
def spans (cs : List Char) : List (ℕ × ℕ) := spansFrom 0 0 0 cs

/-- A stretch of bytes of a text, with the characters in it, of which there are some. -/
def CutOut (text : List Char) (span : ℕ × ℕ) (slice : List Char) : Prop :=
  slice ≠ [] ∧ ∃ before after, text = before ++ slice ++ after ∧
    span = (utf8Len before, utf8Len before + utf8Len slice)

theorem span_cutOut (text before : List Char) {piece cs : List Char}
    (h : text = before ++ piece ++ cs) :
    List.Forall₂ (CutOut text)
      (if utf8Len before < utf8Len before + utf8Len piece then
        [(utf8Len before, utf8Len before + utf8Len piece)] else [])
      (if piece.isEmpty then [] else [piece]) := by
  by_cases hpiece : piece = []
  · rw [hpiece, String.utf8Len_nil, Nat.add_zero, if_neg (lt_irrefl _), List.isEmpty_nil,
      if_pos rfl]
    exact .nil
  · have hpos : utf8Len piece ≠ 0 := fun h0 => hpiece (String.utf8Len_eq_zero.mp h0)
    rw [if_pos (by omega), List.isEmpty_eq_false_iff.mpr hpiece, if_neg Bool.false_ne_true]
    exact .cons ⟨hpiece, before, cs, h, rfl⟩ .nil

theorem append_concat (before piece cs : List Char) (c : Char) :
    before ++ piece ++ c :: cs = before ++ (piece ++ [c]) ++ cs := by
  simp

theorem utf8Len_concat (before piece : List Char) (c : Char) :
    utf8Len before + utf8Len piece + c.utf8Size = utf8Len before + utf8Len (piece ++ [c]) := by
  rw [String.utf8Len_append, String.utf8Len_cons, String.utf8Len_nil, Nat.zero_add, Nat.add_assoc]

/-- **The stretches of bytes are the pieces.** -/
theorem spansFrom_cutOut (text before : List Char) {depth : ℕ} {piece cs : List Char}
    (h : text = before ++ piece ++ cs) :
    List.Forall₂ (CutOut text)
      (spansFrom depth (utf8Len before) (utf8Len before + utf8Len piece) cs)
      (slicesFrom depth piece cs).1 := by
  fun_induction slicesFrom depth piece cs generalizing before with
  | case1 piece =>
    rw [spansFrom]
    simp only [true_and]
    exact span_cutOut text before h
  | case2 depth piece hdepth =>
    rw [spansFrom, if_neg (by simp [hdepth])]
    exact .nil
  | case3 depth piece cs ih =>
    rw [spansFrom, if_pos rfl, utf8Len_concat]
    exact ih before (h.trans (append_concat before piece cs '['))
  | case4 =>
    rw [spansFrom, if_neg (by decide), if_pos rfl, if_pos rfl]
    exact .nil
  | case5 depth piece cs hdepth _ ih =>
    rw [spansFrom, if_neg (by decide), if_pos rfl, if_neg hdepth, utf8Len_concat]
    exact ih before (h.trans (append_concat before piece cs ']'))
  | case6 depth piece c cs hopen hclose hc rest balanced heq ih =>
    -- the next piece begins behind the slash, which is one byte long
    obtain ⟨rfl, rfl⟩ := hc
    have hnext : text = before ++ piece ++ ['/'] ++ [] ++ cs := by rw [h]; simp
    have hrest := ih (before ++ piece ++ ['/']) hnext
    have hstart : utf8Len before + utf8Len piece + 1 = utf8Len (before ++ piece ++ ['/']) := by
      simp only [String.utf8Len_append]
      rfl
    rw [heq, String.utf8Len_nil, Nat.add_zero, ← hstart] at hrest
    rw [spansFrom, if_neg hopen, if_neg hclose, if_pos ⟨rfl, rfl⟩]
    have hpiece := List.rel_append (span_cutOut text before h) hrest
    split_ifs at hpiece ⊢ <;> exact hpiece
  | case7 depth piece c cs hopen hclose hc ih =>
    rw [spansFrom, if_neg hopen, if_neg hclose, if_neg hc, utf8Len_concat]
    exact ih before (h.trans (append_concat before piece cs c))

theorem spans_cutOut (cs : List Char) : List.Forall₂ (CutOut cs) (spans cs) (slices cs).1 :=
  spansFrom_cutOut cs [] (List.nil_append cs).symm

namespace CutOut

variable {text slice : List Char} {span : ℕ × ℕ}

theorem lt (h : CutOut text span slice) : span.1 < span.2 := by
  obtain ⟨hne, before, after, rfl, rfl⟩ := h
  exact Nat.lt_add_of_pos_right (Nat.pos_of_ne_zero fun h0 => hne (String.utf8Len_eq_zero.mp h0))

theorem extract (h : CutOut text span slice) :
    String.Pos.Raw.extract (.ofList text) ⟨span.1⟩ ⟨span.2⟩ = .ofList slice := by
  obtain ⟨-, before, after, rfl, rfl⟩ := h
  exact String.extract_of_valid before slice after

theorem isValid (h : CutOut text span slice) :
    String.Pos.Raw.IsValid (.ofList text) ⟨span.1⟩ ∧
      String.Pos.Raw.IsValid (.ofList text) ⟨span.2⟩ := by
  obtain ⟨-, before, after, rfl, rfl⟩ := h
  have hends : ∀ first last : List Char,
      String.Pos.Raw.IsValid (.ofList (first ++ last)) ⟨utf8Len first⟩ := fun first last =>
    String.Pos.Raw.isValid_iff_exists_append.mpr
      ⟨.ofList first, .ofList last, String.ofList_append, (String.rawEndPos_ofList first).symm⟩
  constructor
  · rw [List.append_assoc]
    exact hends before (slice ++ after)
  · rw [← String.utf8Len_append]
    exact hends (before ++ slice) after

end CutOut

/-! ## What the scan finds wrong -/

/-- Brackets balance in what follows a place where `depth` brackets are open. -/
def Balances (depth : ℕ) (cs : List Char) : Prop :=
  (∀ p, p <+: cs → p.count ']' ≤ p.count '[' + depth) ∧ cs.count '[' + depth = cs.count ']'

theorem balances_cons {depth : ℕ} {c : Char} {cs : List Char} (after : ℕ)
    (h : [c].count '[' + depth = [c].count ']' + after) :
    Balances depth (c :: cs) ↔ Balances after cs := by
  have hcons : ∀ (x : Char) (l : List Char), (c :: l).count x = [c].count x + l.count x :=
    fun x l => by rw [← List.count_append, List.singleton_append]
  rw [Balances, Balances, hcons '[' cs, hcons ']' cs]
  refine and_congr ⟨fun hall p hp => ?_, fun hall p hp => ?_⟩ (by omega)
  · have := hall (c :: p) ((List.prefix_cons_inj c).mpr hp)
    rw [hcons '[' p, hcons ']' p] at this
    omega
  · rcases List.prefix_cons_iff.mp hp with rfl | ⟨q, rfl, hq⟩
    · exact Nat.zero_le _
    · have := hall q hq
      rw [hcons '[' q, hcons ']' q]
      omega

/-- **The scan finds brackets that do not balance**, and nothing else. -/
theorem slicesFrom_balanced_iff {depth : ℕ} {piece cs : List Char} :
    (slicesFrom depth piece cs).2 = true ↔ Balances depth cs := by
  fun_induction slicesFrom depth piece cs with
  | case1 piece => simp [Balances]
  | case2 depth piece hdepth => simpa [Balances] using hdepth
  | case3 depth piece cs ih => rw [ih, balances_cons (depth + 1) (by simp; omega)]
  | case4 piece cs =>
    refine iff_of_false Bool.false_ne_true fun h => ?_
    have := h.1 [']'] (by simp)
    simp at this
  | case5 depth piece cs hdepth _ ih => rw [ih, balances_cons (depth - 1) (by simp; omega)]
  | case6 depth piece c cs hopen hclose hc rest balanced heq ih =>
    obtain ⟨rfl, rfl⟩ := hc
    rw [heq] at ih
    rw [balances_cons 0 (by simp), ← ih]
  | case7 depth piece c cs hopen hclose hc ih =>
    rw [ih, balances_cons depth (by simp [hopen, hclose])]

end Path

/-! ## The loop of keys -/

namespace Element

/-- What a round of the loop leaves of the text, if it reads a key. -/
def round : List Char → Option (List Char)
  | [] => none
  | _ :: body =>
    (splitFirst ']' body).bind fun cut =>
      match splitFirst '=' cut.1 with
      | some (_ :: _, _) => if cut.2.head?.all (· == '[') then some cut.2 else none
      | _ => none

/-- The loop that begins with `l` comes to `rest`. -/
def Reaches : List Char → List Char → Prop :=
  Relation.ReflTransGen fun l rest => round l = some rest

variable {l rest : List Char}

theorem reaches_iff : Reaches l rest ↔ l = rest ∨ ∃ next, round l = some next ∧ Reaches next rest :=
  Relation.ReflTransGen.cases_head_iff

/-- A round that reads a key cuts the text at the first closing bracket. -/
theorem round_eq_some {next : List Char} (h : round l = some next) :
    ∃ row, splitFirst ']' l.tail = some (row, next) ∧ OpensKey next := by
  cases l with
  | nil => cases h
  | cons c body =>
    obtain ⟨⟨row, rest⟩, hcut, h⟩ := Option.bind_eq_some_iff.mp h
    dsimp only at h
    split at h
    · split at h
      · rename_i hhead
        obtain rfl := Option.some.inj h
        refine ⟨row, hcut, fun c hc => ?_⟩
        rw [Option.mem_def.mp hc] at hhead
        simpa using hhead
      · cases h
    · cases h

/-- The loop comes to a text in which no bracket closes. -/
def Sticks (l : List Char) : Prop :=
  ∃ rest, Reaches l rest ∧ rest ≠ [] ∧ splitFirst ']' rest.tail = none

theorem not_sticks_nil : ¬ Sticks [] := by
  rintro ⟨rest, hreach, hne, -⟩
  rcases reaches_iff.mp hreach with rfl | ⟨next, hnext, -⟩
  · exact hne rfl
  · cases hnext

theorem sticks_iff {c : Char} {body : List Char} {cut : List Char × List Char}
    (h : splitFirst ']' body = some cut) :
    Sticks (c :: body) ↔ ∃ next, round (c :: body) = some next ∧ Sticks next := by
  constructor
  · rintro ⟨rest, hreach, hne, hnone⟩
    rcases reaches_iff.mp hreach with rfl | ⟨next, hnext, hreach⟩
    · cases h.symm.trans hnone
    · exact ⟨next, hnext, rest, hreach, hne, hnone⟩
  · rintro ⟨next, hnext, rest, hreach, hne, hnone⟩
    exact ⟨rest, reaches_iff.mpr (.inr ⟨next, hnext, hreach⟩), hne, hnone⟩

/-- **The loop reports brackets where it finds none that closes.** -/
theorem readKeys_unbalanced_iff {keys : Table String} :
    readKeys keys l = .error .unbalanced ↔ Sticks l := by
  -- a round that reads no key ends the loop with another fault
  have hends : ∀ {c : Char} {body : List Char} {cut : List Char × List Char} {key : String},
      splitFirst ']' body = some cut → round (c :: body) = none →
      ((.error (.malformedKey key) : Except Path.Fault (Table String)) = .error .unbalanced ↔
        Sticks (c :: body)) := by
    intro c body cut key hcut hnone
    rw [sticks_iff hcut, hnone]
    simp
  fun_induction readKeys keys l with
  | case1 keys => exact iff_of_false (by simp) not_sticks_nil
  | case2 keys c body hnone => exact iff_of_true rfl ⟨c :: body, .refl, by simp, hnone⟩
  | case3 keys c body row rest hrow hkey => exact hends hrow (by simp [round, hrow, hkey])
  | case4 keys c body row rest hrow v hkey => exact hends hrow (by simp [round, hrow, hkey])
  | case5 keys c body row rest hrow k v hempty hkey hhead _ ih =>
    have hround : round (c :: body) = some rest := by
      obtain ⟨x, k, rfl⟩ := List.exists_cons_of_ne_nil hempty
      simp [round, hrow, hkey, hhead]
    refine Iff.trans ih ?_
    rw [sticks_iff hrow, hround]
    simp
  | case6 keys c body row rest hrow k v hempty hkey hhead =>
    obtain ⟨x, k, rfl⟩ := List.exists_cons_of_ne_nil hempty
    exact hends hrow (by simp [round, hrow, hkey, hhead])

/-! ## The rounds on a piece -/

/-- What the loop keeps of a piece: the rest of it, which begins with a bracket if with anything. -/
theorem reaches_suffix (hl : OpensKey l) (h : Reaches l rest) : rest <:+ l ∧ OpensKey rest := by
  induction h with
  | refl => exact ⟨List.suffix_refl l, hl⟩
  | tail _ hround ih =>
    obtain ⟨row, hcut, hopens⟩ := round_eq_some hround
    refine ⟨List.IsSuffix.trans ?_ ih.1, hopens⟩
    have hsplit := (splitFirst_eq_some hcut).1
    exact ((List.suffix_cons _ _).trans ⟨row, hsplit.symm⟩).trans (List.tail_suffix _)

theorem splitFirst_of_mem {c : Char} (h : c ∈ l) : ∃ a b, splitFirst c l = some (a, b) := by
  obtain ⟨a, b, rfl, ha⟩ := List.eq_append_cons_of_mem h
  exact ⟨a, b, splitFirst_append ha b⟩

theorem count_suffix {slice : List Char} (h : Path.Scanned 0 slice) (hrest : rest <:+ slice) :
    rest.count '[' ≤ rest.count ']' := by
  obtain ⟨before, rfl⟩ := hrest
  have hbefore := h.closes before (List.prefix_append before rest)
  have hall := h.opens
  rw [List.count_append, List.count_append] at hall
  omega

/-- **A round on a piece finds a bracket that closes**, and leaves less than there was. -/
theorem exists_round {slice : List Char} (h : Path.Scanned 0 slice) (hrest : rest <:+ slice)
    (hopens : OpensKey rest) (hne : rest ≠ []) :
    ∃ row next, splitFirst ']' rest.tail = some (row, next) ∧ next <:+ rest ∧
      next.length < rest.length := by
  obtain ⟨c, body, rfl⟩ := List.exists_cons_of_ne_nil hne
  obtain rfl : c = '[' := hopens c rfl
  have hcount := count_suffix h hrest
  rw [List.count_cons_self, List.count_cons_of_ne (by decide)] at hcount
  have hclose : ']' ∈ body := List.count_pos_iff.mp (by omega)
  obtain ⟨row, next, hcut⟩ := splitFirst_of_mem hclose
  have hbody : body = row ++ ']' :: next := (splitFirst_eq_some hcut).1
  refine ⟨row, next, hcut, ⟨'[' :: row ++ [']'], ?_⟩, ?_⟩
  · rw [hbody]
    simp
  · rw [hbody]
    simp
    omega

/-- **The loop does not report the brackets of a piece.** -/
theorem read_ne_unbalanced {slice : List Char} (h : Path.Scanned 0 slice) :
    Element.read slice ≠ .error .unbalanced := by
  have hkeys : readKeys .empty (slice.dropWhile (· != '[')) ≠ .error .unbalanced := by
    rw [ne_eq, readKeys_unbalanced_iff]
    rintro ⟨rest, hreach, hne, hnone⟩
    obtain ⟨hsuffix, hopens⟩ := reaches_suffix (opensKey_dropWhile slice) hreach
    obtain ⟨row, next, hcut, -⟩ :=
      exists_round h (hsuffix.trans (List.dropWhile_suffix _)) hopens hne
    cases hcut.symm.trans hnone
  intro hread
  unfold Element.read at hread
  dsimp only at hread
  split at hread
  · cases hread
  · cases hrest : readKeys .empty (slice.dropWhile (· != '[')) with
    | ok keys =>
      rw [hrest] at hread
      cases hread
    | error fault =>
      rw [hrest] at hread
      obtain rfl := Except.error.inj hread
      exact hkeys hrest

end Element

namespace Path

/-! ## Who reports brackets -/

theorem mapM_eq_error {α β ε : Type} {f : α → Except ε β} {l : List α} {e : ε}
    (h : l.mapM f = .error e) : ∃ a ∈ l, f a = .error e := by
  induction l with
  | nil => cases h
  | cons a l ih =>
    rw [List.mapM_cons] at h
    cases ha : f a with
    | error e' =>
      rw [ha] at h
      obtain rfl : e' = e := Except.error.inj h
      exact ⟨a, List.mem_cons_self, ha⟩
    | ok b =>
      rw [ha] at h
      cases hl : l.mapM f with
      | error e' =>
        rw [hl] at h
        obtain rfl : e' = e := Except.error.inj h
        obtain ⟨x, hx, hfx⟩ := ih hl
        exact ⟨x, List.mem_cons_of_mem a hx, hfx⟩
      | ok m =>
        rw [hl] at h
        cases h

theorem readElements_unbalanced_iff {cs : List Char} : readElements cs = .error .unbalanced ↔
    ¬ Balances 0 cs ∧ ∀ slice ∈ (slices cs).1, ∃ e, Element.read slice = .ok e := by
  have hscanned : ∀ slice ∈ (slices cs).1, slice ≠ [] ∧ Scanned 0 slice :=
    slicesFrom_scanned Scanned.nil
  have hbalanced : (slices cs).2 = true ↔ Balances 0 cs := slicesFrom_balanced_iff
  rw [← hbalanced, readElements]
  generalize slices cs = cut at hscanned
  obtain ⟨pieces, balanced⟩ := cut
  dsimp only at hscanned ⊢
  cases hread : pieces.mapM Element.read with
  | error fault =>
    -- a piece is at fault, and its fault is another
    obtain ⟨slice, hslice, hfault⟩ := mapM_eq_error hread
    have hne : fault ≠ .unbalanced :=
      fun h => Element.read_ne_unbalanced (hscanned slice hslice).2 (h ▸ hfault)
    refine iff_of_false (fun h => hne (Except.error.inj h)) fun h => ?_
    obtain ⟨e, he⟩ := h.2 slice hslice
    cases he.symm.trans hfault
  | ok es =>
    have hall : ∀ slice ∈ pieces, ∃ e, Element.read slice = .ok e := by
      intro slice hslice
      obtain ⟨i, hi, rfl⟩ := List.mem_iff_getElem.mp hslice
      have hforall := mapM_eq_ok_iff.mp hread
      exact ⟨_, hforall.get hi (hforall.length_eq ▸ hi)⟩
    cases balanced with
    | true => exact iff_of_false (by simp) fun h => h.1 rfl
    | false => exact iff_of_true rfl ⟨by simp, hall⟩

theorem read_eq_error_iff {text : String} {e : Error} : read text = .error e ↔
    e.text = text ∧ readElements (Text.trim text.toList) = .error e.fault := by
  rw [read]
  cases readElements (Text.trim text.toList) with
  | ok elements => simp
  | error fault =>
    obtain ⟨text', fault'⟩ := e
    simp [eq_comm]

/-- **The loop of keys is given pieces of balanced brackets only.** The pieces of a trimmed text are
stretches of its bytes that begin and end between characters, and none is empty. Whatever the loop
comes to in a piece begins with an opening bracket, if it is not empty, and has a closing one; a
round leaves an end of it that is shorter. So the loop never reports brackets, and reading does if
brackets do not balance in the text and all pieces that the scan came to before were read. -/
theorem read_slices (text : String) :
    List.Forall₂
      (fun span slice => span.1 < span.2 ∧
        String.Pos.Raw.IsValid (.ofList (Text.trim text.toList)) ⟨span.1⟩ ∧
        String.Pos.Raw.IsValid (.ofList (Text.trim text.toList)) ⟨span.2⟩ ∧
        String.Pos.Raw.extract (.ofList (Text.trim text.toList)) ⟨span.1⟩ ⟨span.2⟩ =
          .ofList slice)
      (spans (Text.trim text.toList)) (slices (Text.trim text.toList)).1 ∧
    (∀ slice ∈ (slices (Text.trim text.toList)).1,
      slice ≠ [] ∧ Element.read slice ≠ .error .unbalanced ∧
      ∀ rest, Element.Reaches (slice.dropWhile (· != '[')) rest → rest ≠ [] →
        rest.head? = some '[' ∧
        ∃ row next, splitFirst ']' rest.tail = some (row, next) ∧ next <:+ rest ∧
          next.length < rest.length ∧ ∀ left, Element.round rest = some left → left = next) ∧
    ∀ t, read text = .error ⟨t, .unbalanced⟩ ↔
      t = text ∧ ¬ Balances 0 (Text.trim text.toList) ∧
        ∀ slice ∈ (slices (Text.trim text.toList)).1, ∃ e, Element.read slice = .ok e := by
  have hscanned : ∀ slice ∈ (slices (Text.trim text.toList)).1, slice ≠ [] ∧ Scanned 0 slice :=
    slicesFrom_scanned Scanned.nil
  refine ⟨?_, fun slice hslice => ?_, fun t => ?_⟩
  · exact (spans_cutOut _).imp fun span slice h => ⟨h.lt, h.isValid.1, h.isValid.2, h.extract⟩
  · obtain ⟨hne, hscanned⟩ := hscanned slice hslice
    refine ⟨hne, Element.read_ne_unbalanced hscanned, fun rest hreach hrest => ?_⟩
    obtain ⟨hsuffix, hopens⟩ :=
      Element.reaches_suffix (Element.opensKey_dropWhile slice) hreach
    obtain ⟨row, next, hcut, hnext, hlt⟩ :=
      Element.exists_round hscanned (hsuffix.trans (List.dropWhile_suffix _)) hopens hrest
    refine ⟨?_, row, next, hcut, hnext, hlt, fun left hleft => ?_⟩
    · obtain ⟨c, body, rfl⟩ := List.exists_cons_of_ne_nil hrest
      exact congrArg some (hopens c rfl)
    · obtain ⟨row', hcut', -⟩ := Element.round_eq_some hleft
      exact (Prod.mk.inj (Option.some.inj (hcut'.symm.trans hcut))).2
  · rw [read_eq_error_iff, readElements_unbalanced_iff]

end Path

end Telemetry
