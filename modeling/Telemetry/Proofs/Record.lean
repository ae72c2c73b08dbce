import Mathlib.Data.List.Forall2
import Telemetry.Json.Reader
import Telemetry.Proofs.Literal
import Telemetry.Proofs.Table

/-!
# Reading records back

A record is read member by member, and the members may come in any order. What was read so far is
described by the names seen: the fields seen hold their values, and the others their defaults.

* `Takes`: a member is read into its field, whatever was read before it;
* **`record_members`**: a record is read from members with different names;
* `choice_object`, `Reader.list_map`, `Reader.table_perm`: tags, lists and tables;
* `Reader.int64_ofInt`, `Reader.integer_ofNat`: whole numbers.
-/

namespace Telemetry

namespace Json

/-! ## Records -/

section Record

variable {σ : Type} {fields : List (Field σ)} {partly : List String → σ}

/-- The member is read into the field `name`: from what the names in `seen` leave to what they and
`name` leave. -/
def Takes (fields : List (Field σ)) (partly : List String → σ) (m : Text × Doc) (name : String) :
    Prop :=
  m.1.read = .ok name ∧ ∃ f, fields.find? (fun f => f.name == name) = some f ∧
    ∀ seen, f.read m.2 (partly seen) = .ok (partly (name :: seen))

theorem Takes.entry {name : String} {d : Doc} {f : Field σ}
    (hf : fields.find? (fun f => f.name == name) = some f)
    (h : ∀ seen, f.read d (partly seen) = .ok (partly (name :: seen))) :
    Takes fields partly (Text.ofString name, d) name :=
  ⟨Text.read_ofString name, f, hf, h⟩

theorem readMembers_takes {ms : List (Text × Doc)} {names : List String}
    (h : List.Forall₂ (Takes fields partly) ms names) : names.Nodup → ∀ seen : List String,
      (∀ n ∈ names, n ∉ seen) → readMembers fields seen (partly seen) ms =
        .ok (partly (names.reverse ++ seen), names.reverse ++ seen) := by
  induction h with
  | nil => intro _ seen _; rfl
  | @cons m name ms names hm _ ih =>
    intro hnd seen hseen
    obtain ⟨hname, f, hf, hread⟩ := hm
    have hnot : seen.contains name = false := by
      simpa using hseen name List.mem_cons_self
    have hrest := ih (List.nodup_cons.mp hnd).2 (name :: seen) fun n hn hmem => by
      rcases List.mem_cons.mp hmem with rfl | hmem
      · exact (List.nodup_cons.mp hnd).1 hn
      · exact hseen n (List.mem_cons_of_mem _ hn) hmem
    rw [readMembers]
    simp only [hname, fromText, bind, Except.bind, hf, hnot, hread, hrest, Bool.false_eq_true,
      if_false, List.reverse_cons, List.append_assoc, List.singleton_append]

variable (partly) in
/-- **A record is read from members with different names**, all required fields among them. -/
theorem record_members {ms : List (Text × Doc)} {names : List String} (title : String)
    (h : List.Forall₂ (Takes fields partly) ms names) (hnd : names.Nodup)
    (hreq : ∀ f ∈ fields, f.required = true → f.name ∈ names) :
    record title fields (partly []) (.object ms) = .ok (partly names.reverse) := by
  have hread := readMembers_takes h hnd [] (by simp)
  have hnone : fields.find? (fun f => f.required && !names.reverse.contains f.name) = none := by
    refine List.find?_eq_none.mpr fun f hf => ?_
    cases hr : f.required with
    | false => simp
    | true => simpa using hreq f hf hr
  rw [List.append_nil] at hread
  simp only [record, hread, bind, Except.bind, check, hnone]
  rfl

end Record

/-! ## Optional members -/

section Optional

variable {α β : Type} {R : α → β → Prop}

theorem forall₂_unless {c : Bool} {a : α} {b : β} (h : c = false → R a b) :
    List.Forall₂ R (if c then [] else [a]) (if c then [] else [b]) := by
  cases c
  · exact .cons (h rfl) .nil
  · exact .nil

theorem forall₂_append {l₁ l₂ : List α} {m₁ m₂ : List β} (h₁ : List.Forall₂ R l₁ m₁)
    (h₂ : List.Forall₂ R l₂ m₂) : List.Forall₂ R (l₁ ++ l₂) (m₁ ++ m₂) :=
  List.rel_append h₁ h₂

theorem unless_sublist (c : Bool) (a : α) : (if c then [] else [a]).Sublist [a] := by
  cases c
  · exact .refl _
  · exact List.nil_sublist _

end Optional

/-! ## Tags, lists and tables -/

theorem choice_object {α : Type} {variants : List (Variant α)} {tag : String} {d : Doc} {a : α}
    {v : Variant α} (hv : variants.find? (fun v => v.name == tag) = some v) (h : v.read d = .ok a) :
    choice variants (.object [(Text.ofString tag, d)]) = .ok a := by
  simp only [choice, Text.read_ofString, fromText, bind, Except.bind, hv, h, List.isEmpty_nil,
    Bool.not_true, Bool.false_eq_true, if_false, check]
  rfl

theorem mapM_map_ok {α β γ ε : Type} {f : β → Except ε γ} {g : α → β} {k : α → γ} {l : List α}
    (h : ∀ a ∈ l, f (g a) = .ok (k a)) : (l.map g).mapM f = .ok (l.map k) := by
  induction l with
  | nil => rfl
  | cons a l ih =>
    rw [List.map_cons, List.mapM_cons, h a List.mem_cons_self,
      ih fun x hx => h x (List.mem_cons_of_mem _ hx)]
    rfl

namespace Reader

variable {α β : Type}

theorem string_ofString (s : String) : string (.string (.ofString s)) = .ok s := by
  rw [string, Text.read_ofString]
  rfl

theorem list_map {r : Reader β} {g : α → Doc} {k : α → β} {l : List α}
    (h : ∀ a ∈ l, r (g a) = .ok (k a)) : list r (.list (l.map g)) = .ok (l.map k) := by
  rw [list, mapM_map_ok h]
  rfl

theorem table_perm {t : Table String} {l : List (String × String)} (hl : l.Perm t.rows) :
    table (.object (l.map fun r => (Text.ofString r.1, Doc.string (.ofString r.2)))) = .ok t := by
  have h : (l.map fun r => (Text.ofString r.1, Doc.string (.ofString r.2))).mapM
      (fun m => do
        let k ← fromText m.1.read
        let v ← string m.2
        return (k, v)) = (.ok (l.map id) : Except Fault (List (String × String))) :=
    mapM_map_ok fun r _ => by
      simp only [Text.read_ofString, string_ofString, fromText, bind, Except.bind]
      rfl
  rw [table, h, List.map_id]
  simp only [bind, Except.bind, check, Table.ofList_perm hl]
  rfl

theorem table_rows (t : Table String) : table (.object (t.rows.map fun r =>
    (Text.ofString r.1, Doc.string (.ofString r.2)))) = .ok t := table_perm (.refl _)

theorem option_object {r : Reader α} {ms : List (Text × Doc)} {a : α}
    (h : r (.object ms) = .ok a) : option r (.object ms) = .ok (some a) := by
  rw [option]
  · rw [h]
    rfl
  · exact Doc.noConfusion

/-! ## Whole numbers -/

theorem integer_ofNat {low high : ℤ} {n : ℕ} (expected : String) (hn : n < UInt64.size)
    (h₁ : low ≤ n) (h₂ : (n : ℤ) ≤ high) :
    integer low high expected (.number (.ofNat n)) = .ok (n : ℤ) := by
  simp only [integer, Found.ofNumeral, Numeral.toInt?_ofNat hn, bind, Except.bind,
    if_pos (And.intro h₁ h₂)]

theorem uint64_ofNat (n : UInt64) : uint64 (.number (.ofNat n.toNat)) = .ok n := by
  have hlt := n.toNat_lt
  have hsize : UInt64.size = 2 ^ 64 := rfl
  rw [uint64, word64, integer_ofNat "u64" (by omega) (by omega) (by omega)]
  simp [Except.map]

theorem uint32_ofNat (n : UInt32) : uint32 (.number (.ofNat n.toNat)) = .ok n := by
  have hlt := n.toNat_lt
  have hsize : UInt64.size = 2 ^ 64 := rfl
  have hsize' : UInt32.size = 2 ^ 32 := rfl
  rw [uint32, integer_ofNat "u32" (by omega) (by omega) (by omega)]
  simp [Except.map]

theorem uint8_ofNat (n : UInt8) : uint8 (.number (.ofNat n.toNat)) = .ok n := by
  have hlt := n.toNat_lt
  have hsize : UInt64.size = 2 ^ 64 := rfl
  have hsize' : UInt8.size = 2 ^ 8 := rfl
  rw [uint8, integer_ofNat "u8" (by omega) (by omega) (by omega)]
  simp [Except.map]

theorem int64_ofInt (i : Int64) : int64 (.number (.ofInt i.toInt)) = .ok i := by
  have hrange := And.intro i.minValue_le_toInt i.toInt_le
  simp only [int64, integer, Found.ofNumeral, Numeral.toInt?_ofInt hrange.1 hrange.2, bind,
    Except.bind, if_pos hrange]
  simp [Except.map]

end Reader

end Json

end Telemetry
