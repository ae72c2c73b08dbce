import Mathlib.Data.Set.Card
import Telemetry.Proofs.Announcing

/-!
# Marking names side by side

A call that marks a name has two sections under the lock: it looks whether the name is there, and if
not, it enters it. Anything may happen in between: the sections of other calls, and resets. But a
name that was entered stays until the next reset, so that between two resets it is new to just one
of the calls that enter it.

* `Roster.Call`, `Roster.Call.act`: a call and its sections;
* `Roster.Schedule`, `Roster.Schedule.state`: the sections of many calls, and resets, in any order;
* `Roster.Schedule.Epoch`: a stretch without resets that begins with one;
* `Roster.Schedule.succ`: what one section does;
* `Roster.Schedule.Epoch.contains_iff`, `Roster.Schedule.Epoch.size_eq`: the names at any moment;
* `Roster.Schedule.Returns.cases`: what a call returns, and why;
* `Roster.Schedule.Epoch.exists_new`: one call of an epoch to which the name is new;
* `Writer.Outcome.call`, `Roster.Schedule.exists_of_run`: the calls of the writes of a node;
* **`Roster.Schedule.marked_once`**: all of it.
-/

namespace Telemetry

namespace Roster

theorem ncard_contains (r : Roster) : {s | r.contains s = true}.ncard = r.size := by
  have hset : {s | r.contains s = true} = (r.names.toFinset : Set String) := by
    ext s
    simp [contains]
  rw [hset, Set.ncard_coe_finset, List.toFinset_card_of_nodup r.nodup, size]

/-! ## Calls -/

/-- Where a call that marks a name stands. -/
inductive Call where
  /-- About to look whether the name is there. -/
  | looking
  /-- It was not there: about to enter it. -/
  | entering
  | ended (new : Bool)
deriving DecidableEq

/-- The next section of a call: what it leaves of the roster, and where the call stands then. -/
def Call.act (name : String) (r : Roster) : Call → Option (Roster × Call)
  | looking => some (r, if r.contains name then ended false else entering)
  | entering => some ((r.enter name).1, ended (r.enter name).2)
  | ended _ => none

/-- What goes on under the lock. -/
inductive Section where
  | call (i : ℕ)
  | reset
  | idle
deriving DecidableEq

/-- A roster with the calls that mark names in it. -/
structure Desk where
  roster : Roster := .empty
  calls : ℕ → Call := fun _ => .looking

/-- The desk after a section. A call that is over has none left. -/
def Desk.act (names : ℕ → String) (d : Desk) : Section → Desk
  | .call i =>
    match (d.calls i).act (names i) d.roster with
    | some (roster, c) => { roster, calls := Function.update d.calls i c }
    | none => d
  | .reset => { d with roster := .empty }
  | .idle => d

/-- Calls with their names, and the order of all sections. -/
structure Schedule where
  names : ℕ → String
  order : ℕ → Section

namespace Schedule

/-- The desk after so many sections. -/
def state (σ : Schedule) : ℕ → Desk
  | 0 => {}
  | k + 1 => (σ.state k).act σ.names (σ.order k)

/-- The call enters its name in this section. -/
def Enters (σ : Schedule) (i k : ℕ) : Prop :=
  σ.order k = .call i ∧ (σ.state k).calls i = .entering

/-- The call is over after this section, and said whether its name was new. -/
def Returns (σ : Schedule) (i k : ℕ) (new : Bool) : Prop :=
  σ.order k = .call i ∧ (∀ b, (σ.state k).calls i ≠ .ended b) ∧
    (σ.state (k + 1)).calls i = .ended new

/-- There is no reset from one moment to another, and the first comes right after one, or is the
beginning. -/
structure Epoch (σ : Schedule) (a b : ℕ) : Prop where
  le : a ≤ b
  opens : a = 0 ∨ ∃ k, a = k + 1 ∧ σ.order k = .reset
  lasts : ∀ k, a ≤ k → k < b → σ.order k ≠ .reset

variable {σ : Schedule} {a b i j k : ℕ} {s : String} {new : Bool}

/-! ## One section -/

/-- What the next section does. -/
inductive Succ (σ : Schedule) (k : ℕ) : Prop where
  | look {i : ℕ} : σ.order k = .call i → (σ.state k).calls i = .looking →
      (σ.state (k + 1)).roster = (σ.state k).roster →
      (σ.state (k + 1)).calls = Function.update (σ.state k).calls i
        (if (σ.state k).roster.contains (σ.names i) then .ended false else .entering) → Succ σ k
  | enter {i : ℕ} : σ.Enters i k →
      (σ.state (k + 1)).roster = (σ.state k).roster.add (σ.names i) →
      (σ.state (k + 1)).calls = Function.update (σ.state k).calls i
        (.ended !(σ.state k).roster.contains (σ.names i)) → Succ σ k
  | reset : σ.order k = .reset → (σ.state (k + 1)).roster = .empty →
      (σ.state (k + 1)).calls = (σ.state k).calls → Succ σ k
  | rest : σ.order k ≠ .reset → (∀ i, σ.order k = .call i → ∃ b, (σ.state k).calls i = .ended b) →
      σ.state (k + 1) = σ.state k → Succ σ k

/-- **No section does anything else.** -/
theorem succ (σ : Schedule) (k : ℕ) : σ.Succ k := by
  have hstate : σ.state (k + 1) = (σ.state k).act σ.names (σ.order k) := rfl
  cases horder : σ.order k with
  | call i =>
    rw [horder, Desk.act] at hstate
    cases hcall : (σ.state k).calls i with
    | looking =>
      rw [hcall] at hstate
      exact .look horder hcall (by rw [hstate]; rfl) (by rw [hstate]; rfl)
    | entering =>
      rw [hcall] at hstate
      exact .enter ⟨horder, hcall⟩ (by rw [hstate]; rfl) (by rw [hstate]; rfl)
    | ended b =>
      rw [hcall] at hstate
      refine .rest (by rw [horder]; exact Section.noConfusion) (fun j hj => ?_) hstate
      obtain rfl := Section.call.inj (horder.symm.trans hj)
      exact ⟨b, hcall⟩
  | reset =>
    rw [horder] at hstate
    exact .reset horder (by rw [hstate]; rfl) (by rw [hstate]; rfl)
  | idle =>
    rw [horder] at hstate
    exact .rest (by rw [horder]; exact Section.noConfusion)
      (fun j hj => Section.noConfusion (horder.symm.trans hj)) hstate

theorem call_inj (hi : σ.order k = .call i) (hj : σ.order k = .call j) : i = j :=
  Section.call.inj (hi.symm.trans hj)

theorem contains_succ (hreset : σ.order k ≠ .reset) :
    (σ.state (k + 1)).roster.contains s = true ↔
      (σ.state k).roster.contains s = true ∨ ∃ i, σ.names i = s ∧ σ.Enters i k := by
  have hnone : (∀ i, ¬ σ.Enters i k) → (σ.state (k + 1)).roster = (σ.state k).roster →
      ((σ.state (k + 1)).roster.contains s = true ↔ (σ.state k).roster.contains s = true ∨
        ∃ i, σ.names i = s ∧ σ.Enters i k) := fun hno heq => by
    rw [heq]
    exact (or_iff_left fun ⟨i, _, hi⟩ => hno i hi).symm
  cases σ.succ k with
  | look horder hcall hroster _ =>
    refine hnone (fun i hi => ?_) hroster
    rw [call_inj horder hi.1, hi.2] at hcall
    cases hcall
  | @enter i hi hroster _ =>
    rw [hroster, contains_add, Bool.or_eq_true, beq_iff_eq]
    refine or_congr_right ⟨fun hs => ⟨i, hs.symm, hi⟩, ?_⟩
    rintro ⟨j, hs, hj⟩
    rw [← hs, call_inj hi.1 hj.1]
  | reset horder _ _ => exact absurd horder hreset
  | rest _ hended hstate =>
    refine hnone (fun i hi => ?_) (by rw [hstate])
    obtain ⟨b, hb⟩ := hended i hi.1
    cases hb.symm.trans hi.2

/-! ## The names of an epoch -/

/-- **The names at any moment are those entered since the last reset.** -/
theorem Epoch.contains_iff (h : σ.Epoch a b) (s : String) :
    (σ.state b).roster.contains s = true ↔
      ∃ i k, a ≤ k ∧ k < b ∧ σ.names i = s ∧ σ.Enters i k := by
  obtain ⟨hab, hopens, hlasts⟩ := h
  induction b, hab using Nat.le_induction with
  | base =>
    have hempty : (σ.state a).roster = .empty := by
      rcases hopens with rfl | ⟨k, rfl, hreset⟩
      · rfl
      · rw [state, hreset]
        rfl
    rw [hempty, contains_empty]
    constructor
    · exact fun hf => Bool.noConfusion hf
    · rintro ⟨i, k, hak, hka, -⟩
      omega
  | succ b hab ih =>
    rw [contains_succ (hlasts b hab (Nat.lt_succ_self b)),
      ih fun k hak hkb => hlasts k hak (Nat.lt_succ_of_lt hkb)]
    constructor
    · rintro (⟨i, k, hak, hkb, hi⟩ | ⟨i, hi⟩)
      · exact ⟨i, k, hak, Nat.lt_succ_of_lt hkb, hi⟩
      · exact ⟨i, b, hab, Nat.lt_succ_self b, hi⟩
    · rintro ⟨i, k, hak, hkb, hi⟩
      rcases Nat.lt_succ_iff_lt_or_eq.mp hkb with hkb | rfl
      · exact .inl ⟨i, k, hak, hkb, hi⟩
      · exact .inr ⟨i, hi⟩

theorem Epoch.size_eq (h : σ.Epoch a b) : (σ.state b).roster.size =
    {s | ∃ i k, a ≤ k ∧ k < b ∧ σ.names i = s ∧ σ.Enters i k}.ncard := by
  rw [← ncard_contains]
  congr 1
  ext s
  exact h.contains_iff s

theorem exists_epoch (σ : Schedule) (b : ℕ) : ∃ a, σ.Epoch a b := by
  induction b with
  | zero => exact ⟨0, le_rfl, .inl rfl, fun k _ hk => absurd hk (Nat.not_lt_zero k)⟩
  | succ b ih =>
    by_cases hreset : σ.order b = .reset
    · exact ⟨b + 1, le_rfl, .inr ⟨b, rfl, hreset⟩, fun k hbk hkb => by omega⟩
    · obtain ⟨a, hab, hopens, hlasts⟩ := ih
      refine ⟨a, Nat.le_succ_of_le hab, hopens, fun k hak hkb => ?_⟩
      rcases Nat.lt_succ_iff_lt_or_eq.mp hkb with hkb | rfl
      · exact hlasts k hak hkb
      · exact hreset

theorem Epoch.upTo (h : σ.Epoch a b) (hak : a ≤ k) (hkb : k ≤ b) : σ.Epoch a k where
  le := hak
  opens := h.opens
  lasts x hax hxk := h.lasts x hax (hxk.trans_le hkb)

/-! ## What calls return -/

theorem Enters.returns (h : σ.Enters i k) :
    σ.Returns i k !(σ.state k).roster.contains (σ.names i) := by
  refine ⟨h.1, fun b hb => ?_, ?_⟩
  · cases h.2.symm.trans hb
  · cases σ.succ k with
    | look horder hcall _ _ =>
      rw [call_inj horder h.1, h.2] at hcall
      cases hcall
    | enter hj _ hcalls =>
      obtain rfl := call_inj hj.1 h.1
      rw [hcalls, Function.update_self]
    | reset horder _ _ => cases horder.symm.trans h.1
    | rest _ hended _ =>
      obtain ⟨b, hb⟩ := hended i h.1
      cases hb.symm.trans h.2

/-- **A call returns because it entered a name that was not there, or because it was there**, be it
when the call looked or when it was about to enter it. -/
theorem Returns.cases (h : σ.Returns i k new) :
    (new = true ∧ σ.Enters i k ∧ (σ.state k).roster.contains (σ.names i) = false) ∨
    (new = false ∧ (σ.state k).roster.contains (σ.names i) = true ∧
      ((σ.state k).calls i = .looking ∨ σ.Enters i k)) := by
  obtain ⟨horder, hnot, hended⟩ := h
  cases σ.succ k with
  | look horder' hcall _ hcalls =>
    obtain rfl := call_inj horder' horder
    rw [hcalls, Function.update_self] at hended
    split at hended
    · rename_i hthere
      exact .inr ⟨(Call.ended.inj hended).symm, hthere, .inl hcall⟩
    · cases hended
  | enter hi _ hcalls =>
    obtain rfl := call_inj hi.1 horder
    rw [hcalls, Function.update_self] at hended
    obtain rfl := Call.ended.inj hended
    cases hthere : (σ.state k).roster.contains (σ.names _) with
    | false => exact .inl ⟨rfl, hi, rfl⟩
    | true => exact .inr ⟨rfl, rfl, .inr hi⟩
  | reset horder' _ _ => cases horder'.symm.trans horder
  | rest _ hrest _ =>
    obtain ⟨b, hb⟩ := hrest i horder
    exact absurd hb (hnot b)

theorem calls_ended_mono {x y : ℕ} (hxy : x ≤ y) (h : (σ.state x).calls i = .ended new) :
    (σ.state y).calls i = .ended new := by
  have hother : ∀ {j k c}, (σ.state k).calls i = .ended new → (σ.state k).calls j ≠ .ended new →
      Function.update (σ.state k).calls j c i = .ended new := fun {j k c} hi hj => by
    have hij : i ≠ j := by
      rintro rfl
      exact hj hi
    rw [Function.update_of_ne hij, hi]
  induction y, hxy using Nat.le_induction with
  | base => exact h
  | succ y _ ih =>
    cases σ.succ y with
    | look _ hcall _ hcalls =>
      rw [hcalls]
      exact hother ih (by rw [hcall]; exact Call.noConfusion)
    | enter hj _ hcalls =>
      rw [hcalls]
      exact hother ih (by rw [hj.2]; exact Call.noConfusion)
    | reset _ _ hcalls => rwa [hcalls]
    | rest _ _ hstate => rwa [hstate]

theorem Returns.unique {k' : ℕ} {new' : Bool} (h : σ.Returns i k new)
    (h' : σ.Returns i k' new') : k = k' ∧ new = new' := by
  have hnot : ∀ {x y b b'}, σ.Returns i x b → σ.Returns i y b' → ¬ x < y :=
    fun hx hy hxy => hy.2.1 _ (calls_ended_mono hxy hx.2.2)
  obtain rfl : k = k' := by
    have hle := hnot h h'
    have hge := hnot h' h
    omega
  exact ⟨rfl, Call.ended.inj (h.2.2.symm.trans h'.2.2)⟩

/-- Of two calls of an epoch to which one name is new, none comes before the other. -/
theorem Epoch.new_unique {k' : ℕ} (h : σ.Epoch a b) (hk : a ≤ k ∧ k < b) (hk' : a ≤ k' ∧ k' < b)
    (hnames : σ.names i = σ.names j) (hi : σ.Returns i k true) (hj : σ.Returns j k' true) :
    i = j := by
  -- the name is still there when the second call enters it
  have hnot : ∀ {i j k k'}, a ≤ k → k' < b → σ.names i = σ.names j → σ.Returns i k true →
      σ.Returns j k' true → ¬ k < k' := by
    intro i j k k' hak hkb hnames hi hj hlt
    obtain ⟨-, henters, -⟩ | ⟨hf, -⟩ := hi.cases
    · obtain ⟨-, -, hfresh⟩ | ⟨hf, -⟩ := hj.cases
      · have hthere := ((h.upTo (by omega) hkb.le).contains_iff (σ.names j)).mpr
          ⟨i, k, hak, hlt, hnames, henters⟩
        cases hfresh.symm.trans hthere
      · cases hf
    · cases hf
  have hle := hnot hk.1 hk'.2 hnames hi hj
  have hge := hnot hk'.1 hk.2 hnames.symm hj hi
  obtain rfl : k = k' := by omega
  exact call_inj hi.1 hj.1

/-- **A name is new to one of the calls of an epoch that enter it**, if there are any, and to no
other. -/
theorem Epoch.exists_new (h : σ.Epoch a b)
    (henters : ∃ i k, a ≤ k ∧ k < b ∧ σ.names i = s ∧ σ.Enters i k) :
    ∃ i k, a ≤ k ∧ k < b ∧ σ.names i = s ∧ σ.Enters i k ∧ σ.Returns i k true ∧
      ∀ j k' new, a ≤ k' → k' < b → σ.names j = s → σ.Returns j k' new → j ≠ i →
        new = false := by
  classical
  have hfirst : ∃ k, ∃ i, a ≤ k ∧ k < b ∧ σ.names i = s ∧ σ.Enters i k := by
    obtain ⟨i, k, hi⟩ := henters
    exact ⟨k, i, hi⟩
  obtain ⟨i, hak, hkb, hs, hi⟩ := Nat.find_spec hfirst
  set k := Nat.find hfirst with hk
  -- nobody entered it before the first
  have hfresh : (σ.state k).roster.contains (σ.names i) = false := by
    rw [Bool.eq_false_iff, hs]
    intro hthere
    obtain ⟨j, x, hax, hxk, hj⟩ := ((h.upTo hak hkb.le).contains_iff s).mp hthere
    exact Nat.find_min hfirst hxk ⟨j, hax, hxk.trans hkb, hj⟩
  have hnew : σ.Returns i k true := by
    have hreturns := hi.returns
    rwa [hfresh] at hreturns
  refine ⟨i, k, hak, hkb, hs, hi, hnew, ?_⟩
  rintro j x (_ | _) hax hxb hsj hj hji
  · rfl
  · exact absurd (h.new_unique ⟨hax, hxb⟩ ⟨hak, hkb⟩ (hsj.trans hs.symm) hj hnew) hji

end Schedule

end Roster

/-! ## In a cluster -/

/-- The stage of a write whose call stands there. -/
def Roster.Call.stage : Call → Stage
  | looking => .marking
  | entering => .entering
  | ended new => if new then .announcing .starting else .resolving

/-- Where the call of a write stands that is at the stage. -/
def Stage.call : Stage → Roster.Call
  | storing | checking | marking => .looking
  | entering => .entering
  | announcing _ => .ended true
  | resolving | requesting _ _ | publishing _ _ | done => .ended false

theorem Roster.Call.call_stage (c : Call) : c.stage.call = c := by
  cases c with
  | looking | entering => rfl
  | ended new => cases new <;> rfl

theorem Roster.Call.stage_inj {c c' : Call} (h : c.stage = c'.stage) : c = c' := by
  rw [← c.call_stage, h, c'.call_stage]

/-- **A write marks its subscription as a call does.** -/
theorem Writer.Outcome.call {μ : Type} [Medium μ] {m : μ} {n : Node} {w : Writer} {r : Written μ}
    {c : Roster.Call} (h : w.Outcome m n r) (hdone : r.stage ≠ .done) (hstage : w.stage = c.stage)
    (hended : ∀ new, c ≠ .ended new) :
    ∃ c', c.act w.subscription n.announced = some (r.node.announced, c') ∧
      r.stage = c'.stage := by
  cases c with
  | looking =>
    cases h with
    | known _ hthere =>
      exact ⟨.ended false, by rw [Roster.Call.act, if_pos hthere], rfl⟩
    | unknown _ hthere =>
      exact ⟨.entering, by rw [Roster.Call.act, hthere]; rfl, rfl⟩
    | quit _ _ => exact absurd rfl hdone
    | store hst | check hst | overtaken hst _ | enter hst _ | pause hst | announce hst _ _
    | unannounced hst _ | untargeted hst _ | targeted hst _ | request hst | unrequested hst
    | linger hst | publish hst _ _ | unpublished hst _ => cases hst.symm.trans hstage
  | entering =>
    cases h with
    | overtaken _ hthere =>
      refine ⟨.ended false, ?_, rfl⟩
      rw [Roster.Call.act, Roster.enter, Roster.add, dif_pos hthere, hthere]
      rfl
    | enter _ hthere =>
      refine ⟨.ended true, ?_, rfl⟩
      rw [Roster.Call.act, Roster.enter, hthere]
      rfl
    | quit _ _ => exact absurd rfl hdone
    | store hst | check hst | known hst _ | unknown hst _ | pause hst | announce hst _ _
    | unannounced hst _ | untargeted hst _ | targeted hst _ | request hst | unrequested hst
    | linger hst | publish hst _ _ | unpublished hst _ => cases hst.symm.trans hstage
  | ended new => exact absurd rfl (hended new)

/-- The names that the node `i` announced in its epoch. There are none before it joins. -/
def Cluster.roster (c : Cluster Network) (i : ℕ) : Roster :=
  (c.nodes[i]?).elim .empty (·.announced)

theorem Cluster.roster_of_getElem? {c : Cluster Network} {i : ℕ} {n : Node}
    (hn : c.nodes[i]? = some n) : c.roster i = n.announced := by
  rw [roster, hn, Option.elim_some]

namespace Run

variable {r : Run} {i k q : ℕ}

/-- The write `q` has a section at the roster of the node `i`. -/
def Locks (r : Run) (i q k : ℕ) : Prop :=
  r.deed k = .act (.writer q) ∧
    (∃ w ∈ (r.state k).writers[q]?, w.node = i ∧ (w.stage = .marking ∨ w.stage = .entering)) ∧
    r.stage q (k + 1) ≠ .done

theorem Locks.act (h : r.Locks i q k) : ∃ w c c', (r.state k).writers[q]? = some w ∧
    w.node = i ∧ (∀ new, c ≠ .ended new) ∧ w.stage = c.stage ∧
    Roster.Call.act w.subscription ((r.state k).roster i) c =
      some ((r.state (k + 1)).roster i, c') ∧ r.stage q (k + 1) = c'.stage := by
  obtain ⟨hd, ⟨w, hw, rfl, hbefore⟩, hdone⟩ := h
  obtain ⟨w₁, n, x, n', hw₁, hn, hout, -, hstage', -, hn', hannounced⟩ := act_stage hd
  obtain rfl := Option.some.inj (hw₁.symm.trans hw)
  obtain ⟨c, hended, hc⟩ : ∃ c : Roster.Call, (∀ new, c ≠ .ended new) ∧ w₁.stage = c.stage := by
    rcases hbefore with hbefore | hbefore
    · exact ⟨.looking, fun new => Roster.Call.noConfusion, hbefore⟩
    · exact ⟨.entering, fun new => Roster.Call.noConfusion, hbefore⟩
  obtain ⟨c', hact, hc'⟩ := hout.call (hstage' ▸ hdone) hc hended
  refine ⟨w₁, c, c', hw, rfl, hended, hc, ?_, hstage'.trans hc'⟩
  rw [Cluster.roster_of_getElem? hn, Cluster.roster_of_getElem? hn', hannounced, hact]

theorem roster_eq (hreset : ¬ r.Resets i k) (hlocks : ∀ q, ¬ r.Locks i q k) :
    (r.state (k + 1)).roster i = (r.state k).roster i := by
  cases hn' : (r.state (k + 1)).nodes[i]? with
  | none =>
    cases hn : (r.state k).nodes[i]? with
    | none => rw [Cluster.roster, Cluster.roster, hn, hn']
    | some n =>
      obtain ⟨m, hm, -⟩ := Deed.does_node (r.step k) hn
      cases hn'.symm.trans hm
  | some n' =>
    rw [Cluster.roster_of_getElem? hn']
    rcases Deed.node_cases (r.step k) hn' with
      ⟨n, hn, halters⟩ | ⟨hn, settings, link, now, readFault, rfl⟩
    · rw [Cluster.roster_of_getElem? hn]
      cases halters with
      | @enter q w hd hw hnode hentering hnew =>
        subst hnode
        refine (hlocks q ⟨hd, ⟨w, hw, rfl, .inr hentering⟩, fun hdone => ?_⟩).elim
        obtain ⟨w₁, n₁, x, n₁', hw₁, hn₁, hout, -, hstage', -, hn₁', hannounced⟩ := act_stage hd
        obtain rfl := Option.some.inj (hw₁.symm.trans hw)
        obtain rfl := Option.some.inj (hn₁.symm.trans hn)
        obtain rfl := Option.some.inj (hn₁'.symm.trans hn')
        have hx := hstage'.symm.trans hdone
        cases hout with
        | quit _ _ =>
          -- a write that is over has entered nothing
          have hthere := congrArg (·.contains w₁.subscription) hannounced
          dsimp only at hthere
          rw [Roster.contains_add, hnew] at hthere
          simp at hthere
        | untargeted hst _ | publish hst _ _ | unpublished hst _ => cases hst.symm.trans hentering
        | store | check | known | unknown | overtaken | enter | pause | announce | unannounced
        | targeted | request | unrequested | linger => cases hx
      | reset hd hlive => exact (hreset ⟨hd, n, hn, hlive⟩).elim
      | keep | ask | discover | leave | retire | skip | start | consume => rfl
    · rw [Cluster.roster, hn]
      cases link <;> rfl

theorem Resets.roster_eq (h : r.Resets i k) : (r.state (k + 1)).roster i = .empty := by
  obtain ⟨n, hn, hlive⟩ := h.2
  obtain ⟨n', hn', -⟩ := Deed.does_node (r.step k) hn
  have hnot : ∀ s, n'.announced.contains s ≠ true := fun s hs =>
    Opens.not_entered (.inr ⟨k, rfl, h⟩) ⟨n', hn', hs⟩
  rw [Cluster.roster_of_getElem? hn']
  cases hnames : n'.announced with
  | mk names nodup =>
    rw [hnames] at hnot
    cases names with
    | nil => rfl
    | cons s _ => exact absurd (by simp [Roster.contains]) (hnot s)

theorem exists_names (r : Run) : ∃ names : ℕ → String,
    ∀ k q : ℕ, ∀ w ∈ (r.state k).writers[q]?, w.subscription = names q := by
  have hname : ∀ q : ℕ, ∃ name : String, ∀ k, ∀ w : Writer,
      w ∈ (r.state k).writers[q]? → w.subscription = name := by
    intro q
    by_cases h : ∃ x w, w ∈ (r.state x).writers[q]?
    · obtain ⟨x, w, hw⟩ := h
      refine ⟨w.subscription, fun k w' hw' => ?_⟩
      rcases Nat.le_total x k with hxk | hkx
      · obtain ⟨w₁, hw₁, -, hs⟩ := writes_mono hxk ⟨w, hw, rfl, rfl⟩
        rwa [Option.some.inj (hw'.symm.trans hw₁)]
      · obtain ⟨w₁, hw₁, -, hs⟩ := writes_mono hkx ⟨w', hw', rfl, rfl⟩
        rw [← hs, Option.some.inj (hw.symm.trans hw₁)]
    · exact ⟨"", fun k w hw => (h ⟨k, w, hw⟩).elim⟩
  choose names hnames using hname
  exact ⟨names, fun k q => hnames q k⟩

end Run

namespace Roster

/-- The desk shows the node `i`: what it announced, and where its writes stand. -/
structure Desk.Shows (d : Desk) (c : Cluster Network) (i : ℕ) : Prop where
  roster : d.roster = c.roster i
  looking : ∀ q, (c.stage q).rank ≤ 2 → d.calls q = .looking
  entering : ∀ q, ∀ w ∈ c.writers[q]?, w.node = i → w.stage = .entering → d.calls q = .entering

/-- The schedule has the sections of the writes of the node `i`, and its resets. -/
structure Schedule.Follows (σ : Schedule) (r : Run) (i : ℕ) : Prop where
  name : ∀ k q, ∀ w ∈ (r.state k).writers[q]?, w.subscription = σ.names q
  call : ∀ k q, σ.order k = .call q ↔ r.Locks i q k
  reset : ∀ k, σ.order k = .reset ↔ r.Resets i k

namespace Schedule

variable {σ : Schedule} {r : Run} {i k q : ℕ} {new : Bool}

theorem exists_follows (r : Run) (i : ℕ) : ∃ σ : Schedule, σ.Follows r i := by
  obtain ⟨names, hnames⟩ := r.exists_names
  have horder : ∀ k, ∃ s : Section, (∀ q, s = .call q ↔ r.Locks i q k) ∧
      (s = .reset ↔ r.Resets i k) := by
    intro k
    by_cases hlocks : ∃ q, r.Locks i q k
    · obtain ⟨q, hq⟩ := hlocks
      refine ⟨.call q, fun p => ⟨fun h => Section.call.inj h ▸ hq, fun hp => ?_⟩,
        ⟨fun h => Section.noConfusion h, fun h => ?_⟩⟩
      · rw [Task.writer.inj (Deed.act.inj (hq.1.symm.trans hp.1))]
      · cases hq.1.symm.trans h.1
    · by_cases hreset : r.Resets i k
      · exact ⟨.reset, fun q => ⟨fun h => Section.noConfusion h, fun h => (hlocks ⟨q, h⟩).elim⟩,
          ⟨fun _ => hreset, fun _ => rfl⟩⟩
      · exact ⟨.idle, fun q => ⟨fun h => Section.noConfusion h, fun h => (hlocks ⟨q, h⟩).elim⟩,
          ⟨fun h => Section.noConfusion h, fun h => (hreset h).elim⟩⟩
  choose order hcall hreset using horder
  exact ⟨⟨names, order⟩, hnames, hcall, hreset⟩

theorem calls_eq (h : σ.order k ≠ .call q) : (σ.state (k + 1)).calls q = (σ.state k).calls q := by
  cases σ.succ k with
  | look horder _ _ hcalls =>
    rw [hcalls, Function.update_of_ne]
    rintro rfl
    exact h horder
  | enter hj _ hcalls =>
    rw [hcalls, Function.update_of_ne]
    rintro rfl
    exact h hj.1
  | reset _ _ hcalls => rw [hcalls]
  | rest _ _ hstate => rw [hstate]

theorem Follows.locks (h : σ.Follows r i) (hshows : (σ.state k).Shows (r.state k) i)
    (hlocks : r.Locks i q k) : (∀ new, (σ.state k).calls q ≠ .ended new) ∧
      (σ.state (k + 1)).roster = (r.state (k + 1)).roster i ∧
      r.stage q (k + 1) = ((σ.state (k + 1)).calls q).stage := by
  obtain ⟨w, c, c', hw, hnode, hended, hstage, hact, hstage'⟩ := hlocks.act
  have hc : (σ.state k).calls q = c := by
    cases c with
    | looking =>
      refine hshows.looking q ?_
      rw [Cluster.stage_of_getElem? hw, hstage]
      exact le_rfl
    | entering => exact hshows.entering q w hw hnode hstage
    | ended new => exact absurd rfl (hended new)
  have hstate : σ.state (k + 1) = (σ.state k).act σ.names (.call q) := by
    rw [← (h.call k q).mpr hlocks]
    rfl
  rw [Desk.act, hc, hshows.roster, ← h.name k q w hw, hact] at hstate
  rw [hstate, hc]
  refine ⟨hended, rfl, ?_⟩
  dsimp only
  rw [Function.update_self, hstage']

/-- **The desk shows the node at all times.** -/
theorem Follows.shows (h : σ.Follows r i) (k : ℕ) : (σ.state k).Shows (r.state k) i := by
  induction k with
  | zero =>
    rw [r.start]
    exact ⟨rfl, fun q _ => rfl, fun q w hw => by cases hw⟩
  | succ k ih =>
    refine ⟨?_, fun q hrank => ?_, fun q w' hw' hnode hentering => ?_⟩
    · -- only sections of calls and resets change the roster
      cases horder : σ.order k with
      | call q => exact (h.locks ih ((h.call k q).mp horder)).2.1
      | reset =>
        rw [((h.reset k).mp horder).roster_eq, state, horder]
        rfl
      | idle =>
        rw [Run.roster_eq, ← ih.roster, state, horder]
        · rfl
        · exact fun hreset => by cases horder.symm.trans ((h.reset k).mpr hreset)
        · exact fun q hq => by cases horder.symm.trans ((h.call k q).mpr hq)
    · by_cases hlocks : r.Locks i q k
      · obtain ⟨-, -, hstage⟩ := h.locks ih hlocks
        have hrank : (r.stage q (k + 1)).rank ≤ 2 := hrank
        rw [hstage] at hrank
        cases hc : (σ.state (k + 1)).calls q with
        | looking => rfl
        | entering =>
          rw [hc] at hrank
          exact absurd hrank (by decide)
        | ended new =>
          rw [hc] at hrank
          cases new <;> exact absurd hrank (by decide)
      · rw [calls_eq fun horder => hlocks ((h.call k q).mp horder)]
        exact ih.looking q ((Cluster.rank_le (r.step k) q).trans hrank)
    · have hstage' : r.stage q (k + 1) = .entering :=
        (Cluster.stage_of_getElem? hw').trans hentering
      by_cases hlocks : r.Locks i q k
      · obtain ⟨-, -, hstage⟩ := h.locks ih hlocks
        have hc : ((σ.state (k + 1)).calls q).stage = Call.entering.stage :=
          hstage.symm.trans hstage'
        exact Call.stage_inj hc
      · rw [calls_eq fun horder => hlocks ((h.call k q).mp horder)]
        rcases Deed.writer_cases (r.step k) hw' with
          hw | ⟨-, hstoring⟩ | ⟨hd, w, n, x, hw, -, hx, rfl⟩
        · exact ih.entering q w' hw hnode hentering
        · cases hstoring.symm.trans hentering
        · -- whoever is about to enter has just looked
          refine (hlocks ⟨hd, ⟨w, hw, hnode, ?_⟩, by rw [hstage']; exact Stage.noConfusion⟩).elim
          have hentering : x.stage = .entering := hentering
          cases Writer.act_outcome hx with
          | unknown hst _ => exact .inl hst
          | store | quit | check | known | overtaken | enter | pause | announce | unannounced
          | untargeted | targeted | request | unrequested | linger | publish | unpublished =>
            cases hentering

theorem Follows.returns_iff (h : σ.Follows r i) : σ.Returns q k new ↔
    r.Locks i q k ∧ r.stage q (k + 1) = (Call.ended new).stage := by
  constructor
  · rintro ⟨horder, -, hended⟩
    have hlocks := (h.call k q).mp horder
    refine ⟨hlocks, ?_⟩
    rw [(h.locks (h.shows k) hlocks).2.2, hended]
  · rintro ⟨hlocks, hstage'⟩
    obtain ⟨hended, -, hstage⟩ := h.locks (h.shows k) hlocks
    exact ⟨(h.call k q).mpr hlocks, hended, Call.stage_inj (hstage.symm.trans hstage')⟩

theorem Follows.returns_true_iff (h : σ.Follows r i) :
    σ.Returns q k true ↔ r.Wins i (σ.names q) q k := by
  rw [h.returns_iff]
  constructor
  · rintro ⟨hlocks, hstage'⟩
    obtain ⟨w, c, c', hw, hnode, -, hstage, hact, hc'⟩ := hlocks.act
    obtain rfl := Call.stage_inj (hc'.symm.trans hstage')
    refine ⟨⟨w, hw, hnode, h.name k q w hw⟩, ?_, by rw [hstage']; rfl⟩
    cases c with
    | looking =>
      rw [Call.act, Option.some.injEq, Prod.mk.injEq] at hact
      have hnew := hact.2
      split at hnew <;> cases hnew
    | entering => exact (Cluster.stage_of_getElem? hw).trans hstage
    | ended new => cases hact
  · rintro ⟨⟨w, hw, hnode, -⟩, hentering, hannouncing⟩
    have hd := Run.deed_of_stage (r := r) (q := q) (k := k) fun heq => by
      rw [heq, hentering] at hannouncing
      cases hannouncing
    have hlocks : r.Locks i q k := by
      refine ⟨hd, ⟨w, hw, hnode, .inr ((Cluster.stage_of_getElem? hw).symm.trans hentering)⟩, ?_⟩
      intro hdone
      rw [hdone] at hannouncing
      cases hannouncing
    refine ⟨hlocks, ?_⟩
    obtain ⟨w, c, c', -, -, -, -, -, hc'⟩ := hlocks.act
    rw [hc'] at hannouncing ⊢
    cases c' with
    | looking | entering => cases hannouncing
    | ended new =>
      cases new with
      | false => cases hannouncing
      | true => rfl

theorem Follows.returns_false_iff (h : σ.Follows r i) :
    σ.Returns q k false ↔ r.Loses i (σ.names q) q k := by
  rw [h.returns_iff]
  constructor
  · rintro ⟨⟨hd, ⟨w, hw, hnode, hbefore⟩, hdone⟩, hstage'⟩
    have hstage := Cluster.stage_of_getElem? hw
    exact ⟨⟨w, hw, hnode, h.name k q w hw⟩, hbefore.imp hstage.trans hstage.trans, hstage'⟩
  · rintro ⟨⟨w, hw, hnode, -⟩, hbefore, hresolving⟩
    have hstage := Cluster.stage_of_getElem? hw
    have hd := Run.deed_of_stage (r := r) (q := q) (k := k) fun heq => by
      rw [heq] at hresolving
      rcases hbefore with hbefore | hbefore <;> cases hbefore.symm.trans hresolving
    refine ⟨⟨hd, ⟨w, hw, hnode, hbefore.imp hstage.symm.trans hstage.symm.trans⟩, ?_⟩, hresolving⟩
    rw [hresolving]
    exact Stage.noConfusion

/-- **What a node has announced follows a schedule**: the calls are those of its writes, which win
if the name was new and lose if it was not. -/
theorem exists_of_run (r : Run) (i : ℕ) : ∃ σ : Schedule, ∀ k,
    (σ.state k).roster = (r.state k).roster i ∧ (σ.order k = .reset ↔ r.Resets i k) ∧
      ∀ q, (σ.Returns q k true ↔ r.Wins i (σ.names q) q k) ∧
        (σ.Returns q k false ↔ r.Loses i (σ.names q) q k) := by
  obtain ⟨σ, hσ⟩ := exists_follows r i
  exact ⟨σ, fun k => ⟨(hσ.shows k).roster, hσ.reset k, fun q =>
    ⟨hσ.returns_true_iff, hσ.returns_false_iff⟩⟩⟩

/-- **Between two resets a name is new to just one of the calls that enter it**, and every other
call finds it there, be it when it looks or when it enters it. At any moment there are the names
that were entered since the last reset. So it is with the writes of a node that announce. -/
theorem marked_once :
    (∀ (σ : Schedule) (b : ℕ), ∃ a, σ.Epoch a b) ∧
    (∀ (σ : Schedule) (a b : ℕ), σ.Epoch a b →
      (∀ s, (∃ i k, a ≤ k ∧ k < b ∧ σ.names i = s ∧ σ.Enters i k) →
        ∃ i k, a ≤ k ∧ k < b ∧ σ.names i = s ∧ σ.Enters i k ∧ σ.Returns i k true ∧
          ∀ j k' new, a ≤ k' → k' < b → σ.names j = s → σ.Returns j k' new → j ≠ i →
            new = false) ∧
      (∀ s, (σ.state b).roster.contains s = true ↔
        ∃ i k, a ≤ k ∧ k < b ∧ σ.names i = s ∧ σ.Enters i k) ∧
      (σ.state b).roster.size =
        {s | ∃ i k, a ≤ k ∧ k < b ∧ σ.names i = s ∧ σ.Enters i k}.ncard) ∧
    (∀ (σ : Schedule) (i k : ℕ),
      (σ.Enters i k → ∃ new, σ.Returns i k new) ∧
      (σ.Returns i k true → σ.Enters i k) ∧
      (σ.Returns i k false → (σ.state k).roster.contains (σ.names i) = true ∧
        ((σ.state k).calls i = .looking ∨ σ.Enters i k)) ∧
      ∀ k' new new', σ.Returns i k new → σ.Returns i k' new' → k = k' ∧ new = new') ∧
    ∀ (r : Run) (i : ℕ), ∃ σ : Schedule, ∀ k,
      (σ.state k).roster = (r.state k).roster i ∧ (σ.order k = .reset ↔ r.Resets i k) ∧
        ∀ q, (σ.Returns q k true ↔ r.Wins i (σ.names q) q k) ∧
          (σ.Returns q k false ↔ r.Loses i (σ.names q) q k) := by
  refine ⟨exists_epoch, fun σ a b h => ⟨fun s => h.exists_new, h.contains_iff, h.size_eq⟩,
    fun σ i k => ⟨fun h => ⟨_, h.returns⟩, fun h => ?_, fun h => ?_, fun k' new new' =>
      Returns.unique⟩, exists_of_run⟩
  · obtain ⟨-, henters, -⟩ | ⟨hf, -⟩ := h.cases
    · exact henters
    · cases hf
  · obtain ⟨hf, -⟩ | ⟨-, hthere⟩ := h.cases
    · cases hf
    · exact hthere

/-- Three calls find that a name is not there. Two enter it, and the third does so after a reset. -/
def racing : Schedule where
  names _ := "a"
  order k := [.call 0, .call 1, .call 2, .call 1, .call 0, .reset, .call 2].getD k .idle

theorem marked_once_racing :
    racing.Epoch 0 5 ∧ racing.Enters 1 3 ∧ racing.Enters 0 4 ∧
    (∃ i k, 0 ≤ k ∧ k < 5 ∧ racing.names i = "a" ∧ racing.Enters i k ∧ racing.Returns i k true ∧
      ∀ j k' new, 0 ≤ k' → k' < 5 → racing.names j = "a" → racing.Returns j k' new → j ≠ i →
        new = false) ∧
    racing.Returns 1 3 true ∧ racing.Returns 0 4 false ∧
    racing.Epoch 6 7 ∧ racing.Enters 2 6 ∧
    (∃ i k, 6 ≤ k ∧ k < 7 ∧ racing.names i = "a" ∧ racing.Enters i k ∧ racing.Returns i k true ∧
      ∀ j k' new, 6 ≤ k' → k' < 7 → racing.names j = "a" → racing.Returns j k' new → j ≠ i →
        new = false) ∧
    racing.Returns 2 6 true := by
  have hepoch : racing.Epoch 0 5 := by
    refine ⟨by decide, .inl rfl, fun k _ hk => ?_⟩
    interval_cases k <;> exact Section.noConfusion
  have hepoch' : racing.Epoch 6 7 := by
    refine ⟨by decide, .inr ⟨5, rfl, rfl⟩, fun k hk hk' => ?_⟩
    obtain rfl : k = 6 := by omega
    exact Section.noConfusion
  have hreturns : ∀ {i k new}, racing.order k = .call i → (racing.state k).calls i = .entering →
      (racing.state (k + 1)).calls i = .ended new → racing.Returns i k new :=
    fun horder hcall hended => ⟨horder, fun b hb => Call.noConfusion (hcall.symm.trans hb), hended⟩
  exact ⟨hepoch, ⟨rfl, rfl⟩, ⟨rfl, rfl⟩,
    (marked_once.2.1 racing 0 5 hepoch).1 "a" ⟨1, 3, by decide, by decide, rfl, rfl, rfl⟩,
    hreturns rfl rfl rfl, hreturns rfl rfl rfl, hepoch', ⟨rfl, rfl⟩,
    (marked_once.2.1 racing 6 7 hepoch').1 "a" ⟨2, 6, by decide, by decide, rfl, rfl, rfl⟩,
    hreturns rfl rfl rfl⟩

end Schedule

end Roster

end Telemetry
