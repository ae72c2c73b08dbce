import Telemetry.Proofs.Announcing
import Telemetry.Proofs.Consuming
import Telemetry.Proofs.Stopping

/-!
# What a node keeps

The store of a node changes in three ways: a write of the node puts something into it, its owner
looks after it, and a consumer writes what it hears. Where a node is called only when its earlier
writes are over, what its writes do follows the order of the calls; and every write that has begun
has put what it says into the store, whatever becomes of it later.

* `Cluster.writes`, `Run.InTurn`: the writes of a node, and calling it only when they are over;
* **`Run.filterMap_mover`**: what the writes of a node do is what one after the other does;
* `StoreChange`, `Run.changes`: what changes the store of a node; **`Deed.does_store`**: nothing
  else does;
* **`Run.store_eq`**: a store after its changes; `Run.locals`: those that no message brings;
* **`Run.filterMap_changes`**: what the writes of a node keep.
-/

namespace Telemetry

/-! ## Writes in turn -/

namespace Cluster

variable {c c' : Cluster Network} {d : Deed} {i p q : ℕ} {w : Writer} {s : String} {e : Envelope}

/-- The write `q` is one of the node `i`, of an envelope under a subscription. -/
def Says (c : Cluster Network) (i : ℕ) (s : String) (e : Envelope) (q : ℕ) : Prop :=
  ∃ w ∈ c.writers[q]?, w.node = i ∧ w.subscription = s ∧ w.envelope = e

theorem Says.does (h : c.Says i s e q) (hdoes : d.does c = some c') : c'.Says i s e q := by
  obtain ⟨w, hw, rfl, rfl, rfl⟩ := h
  obtain ⟨w', hw', rfl | ⟨-, honward⟩⟩ := Deed.does_writer hdoes hw
  · exact ⟨w', hw', rfl, rfl, rfl⟩
  · exact ⟨w', hw', honward.node, honward.subscription, honward.envelope⟩

/-- The writes of the node `i`, in the order of the calls. -/
def writes (c : Cluster Network) (i : ℕ) : List ℕ :=
  (List.range c.writers.size).filter fun q => c.writers[q]?.any (·.node == i)

theorem mem_writes : q ∈ c.writes i ↔ ∃ w ∈ c.writers[q]?, w.node = i := by
  rw [writes, List.mem_filter, List.mem_range, Option.any_eq_true]
  constructor
  · rintro ⟨-, w, hw, hnode⟩
    exact ⟨w, hw, eq_of_beq hnode⟩
  · rintro ⟨w, hw, hnode⟩
    exact ⟨(Array.getElem?_eq_some_iff.mp hw).1, w, hw, beq_iff_eq.mpr hnode⟩

theorem writes_eq_concat (hq : q ∈ c.writes i) (hlast : ∀ p ∈ c.writes i, p ≤ q) :
    ∃ earlier, c.writes i = earlier ++ [q] ∧ ∀ p ∈ earlier, p ≠ q := by
  obtain ⟨w, hw, hnode⟩ := mem_writes.mp hq
  obtain ⟨k, hk⟩ := Nat.exists_eq_add_of_lt (Array.getElem?_eq_some_iff.mp hw).1
  have hrange : List.range c.writers.size =
      List.range q ++ q :: (List.range k).map fun x => q + 1 + x := by
    rw [hk, Nat.add_right_comm, List.range_add, List.range_succ, List.append_assoc,
      List.singleton_append]
  have hlater : ((List.range k).map fun x => q + 1 + x).filter
      (fun p => c.writers[p]?.any (·.node == i)) = [] := by
    refine List.filter_eq_nil_iff.mpr fun p hp hany => ?_
    obtain ⟨x, hx, rfl⟩ := List.mem_map.mp hp
    have hle := hlast (q + 1 + x) (mem_writes.mpr ?_)
    · omega
    · obtain ⟨w', hw', hnode'⟩ := (Option.any_eq_true _ _).mp hany
      exact ⟨w', hw', eq_of_beq hnode'⟩
  refine ⟨(List.range q).filter fun p => c.writers[p]?.any (·.node == i), ?_, fun p hp => ?_⟩
  · rw [writes, hrange, List.filter_append, List.filter_cons_of_pos, hlater]
    rw [Option.any_eq_true]
    exact ⟨w, hw, beq_iff_eq.mpr hnode⟩
  · exact Nat.ne_of_lt (List.mem_range.mp (List.mem_of_mem_filter hp))

theorem writes_of_onward (hsize : c'.writers.size = c.writers.size)
    (h : ∀ (q : ℕ) w', c'.writers[q]? = some w' → ∃ w, c.writers[q]? = some w ∧ w.Onward w') :
    c'.writes i = c.writes i := by
  rw [writes, writes, hsize]
  refine List.filter_congr fun q hq => ?_
  have hlt : q < c'.writers.size := hsize ▸ List.mem_range.mp hq
  obtain ⟨w, hw, honward⟩ := h q _ (Array.getElem?_eq_getElem hlt)
  rw [Array.getElem?_eq_getElem hlt, hw, Option.any_some, Option.any_some, honward.node]

theorem writes_push (h : c'.writers = c.writers.push w) :
    c'.writes i = c.writes i ++ if w.node = i then [c.writers.size] else [] := by
  rw [writes, h, Array.size_push, List.range_succ, List.filter_append]
  congr 1
  · refine List.filter_congr fun q hq => ?_
    rw [Array.getElem?_push, if_neg (Nat.ne_of_lt (List.mem_range.mp hq))]
  · by_cases hnode : w.node = i <;> simp [hnode]

end Cluster

namespace Deed

variable {c c' : Cluster Network} {d : Deed} {i : ℕ}

/-- The node that a deed calls to write. -/
def called? : Deed → Option ℕ
  | call node _ _ _ => some node
  | _ => none

theorem does_writes (h : d.does c = some c') : c'.writes i = c.writes i ∨
    d.called? = some i ∧ c'.writes i = c.writes i ++ [c.writers.size] := by
  cases d with
  | act t =>
    obtain ⟨hsize, honward⟩ := Cluster.act_onward h
    exact .inl (Cluster.writes_of_onward hsize honward)
  | call node token s e =>
    obtain rfl := Option.some.inj h
    rw [Cluster.writes_push (c := c) (i := i) rfl]
    by_cases hnode : node = i
    · subst hnode
      exact .inr ⟨rfl, by rw [if_pos rfl]⟩
    · exact .inl (by rw [if_neg hnode, List.append_nil])
  | forget j =>
    obtain rfl := Option.some.inj h
    have hwriters := (Cluster.release_eq
      { c with nodes := c.nodes.modify j fun n => { n with held := false } } j).1
    exact .inl (Cluster.writes_of_onward (congrArg Array.size hwriters)
      fun q w' hw' => ⟨w', hwriters ▸ hw', .refl w'⟩)
  | connect | join | stop | revoke | disturb | outside | clock | tend =>
    obtain rfl := Option.some.inj h
    exact .inl rfl

end Deed

namespace Run

variable {r : Run} {i k p q x y : ℕ} {α : Type}

/-- The node `i` is called to write only when its earlier writes are over. -/
def InTurn (r : Run) (i y : ℕ) : Prop :=
  ∀ k < y, (r.deed k).called? = some i → ∀ q ∈ (r.state k).writes i, r.stage q k = .done

instance (r : Run) (i y : ℕ) : Decidable (r.InTurn i y) :=
  inferInstanceAs (Decidable (∀ k < y, (r.deed k).called? = some i →
    ∀ q ∈ (r.state k).writes i, r.stage q k = .done))

theorem says_mono {s : String} {e : Envelope} (hxy : x ≤ y) (h : (r.state x).Says i s e q) :
    (r.state y).Says i s e q := by
  induction y, hxy using Nat.le_induction with
  | base => exact h
  | succ y _ ih => exact ih.does (r.step y)

theorem says_of_later {s : String} {e : Envelope} {w : Writer} (hxy : x ≤ y)
    (hw : (r.state x).writers[q]? = some w) (h : (r.state y).Says i s e q) :
    (r.state x).Says i s e q := by
  obtain ⟨w', hw', hnode, hs, he⟩ := says_mono hxy ⟨w, hw, rfl, rfl, rfl⟩
  obtain ⟨w₁, hw₁, rfl, rfl, rfl⟩ := h
  obtain rfl := Option.some.inj (hw'.symm.trans hw₁)
  exact ⟨w, hw, hnode.symm, hs.symm, he.symm⟩

theorem says_succ {s : String} {e : Envelope} (h : (r.state (y + 1)).Says i s e q) :
    (r.state y).Says i s e q ∨
      (r.state y).writers[q]? = none ∧ r.stage q (y + 1) = .storing := by
  cases hw : (r.state y).writers[q]? with
  | none =>
    obtain ⟨w', hw', -⟩ := h
    refine .inr ⟨rfl, ?_⟩
    exact (Cluster.stage_of_getElem? hw').trans (Deed.does_new_writer (r.step y) hw hw')
  | some w => exact .inl (says_of_later (Nat.le_succ y) hw h)

theorem stage_eq_done_iff : r.stage q k = .done ↔ 8 ≤ (r.stage q k).rank := by
  cases r.stage q k <;> simp [Stage.rank]

theorem done_mono (hxy : x ≤ y) (h : r.stage q x = .done) : r.stage q y = .done := by
  rw [stage_eq_done_iff] at h ⊢
  exact h.trans (r.rank_mono q hxy)

theorem exists_writer (hd : r.deed k = .act (.writer q)) : ∃ w n z,
    (r.state k).writers[q]? = some w ∧ (r.state k).nodes[w.node]? = some n ∧
    w.act (r.state k).now ((r.state k).isRevoked w) (r.state k).medium n = some z ∧
    r.stage q k = w.stage ∧ r.stage q (k + 1) = z.stage ∧ w.stage ≠ .done ∧
    (r.state (k + 1)).medium = z.medium := by
  have hact := r.step k
  rw [hd] at hact
  obtain ⟨w, n, z, n', hw, hn, hz, -, hstate⟩ := Cluster.actWriter_cases hact
  have hq := (Array.getElem?_eq_some_iff.mp hw).1
  refine ⟨w, n, z, hw, hn, hz, Cluster.stage_of_getElem? hw, ?_, fun hdone => ?_, by rw [hstate]⟩
  · rw [stage, hstate, Cluster.stage, Array.getElem?_setIfInBounds_self_of_lt hq, Option.elim_some]
  · simp [Writer.act, hdone] at hz

theorem InTurn.done (h : r.InTurn i y) (hp : p ∈ (r.state y).writes i)
    (hq : q ∈ (r.state y).writes i) (hpq : p < q) : r.stage p y = .done := by
  induction y with
  | zero =>
    obtain ⟨w, hw, -⟩ := Cluster.mem_writes.mp hp
    rw [r.start] at hw
    cases hw
  | succ y ih =>
    have hearlier := ih fun k hk => h k (Nat.lt_succ_of_lt hk)
    rcases Deed.does_writes (i := i) (r.step y) with hsame | ⟨hd, hpush⟩
    · rw [hsame] at hp hq
      exact done_mono (Nat.le_succ y) (hearlier hp hq)
    · rw [hpush] at hp hq
      have hold : p ∈ (r.state y).writes i := by
        rcases List.mem_append.mp hp with hp | hp
        · exact hp
        · -- the new write has the greatest number
          obtain rfl := List.mem_singleton.mp hp
          rcases List.mem_append.mp hq with hq | hq
          · obtain ⟨w, hw, -⟩ := Cluster.mem_writes.mp hq
            exact absurd (Array.getElem?_eq_some_iff.mp hw).1 hpq.not_gt
          · exact absurd (List.mem_singleton.mp hq) hpq.ne'
      exact done_mono (Nat.le_succ y) (h y (Nat.lt_succ_self y) hd p hold)

/-- The write of the node `i` that moves. -/
def mover? (r : Run) (i k : ℕ) : Option ℕ :=
  match r.deed k with
  | .act (.writer q) => if q ∈ (r.state k).writes i then some q else none
  | _ => none

theorem mover?_eq_some_iff :
    r.mover? i k = some q ↔ r.deed k = .act (.writer q) ∧ q ∈ (r.state k).writes i := by
  unfold mover?
  split
  · rename_i p hd
    rw [hd]
    constructor
    · intro h
      split at h
      · rename_i hp
        obtain rfl := Option.some.inj h
        exact ⟨rfl, hp⟩
      · cases h
    · rintro ⟨hd, hp⟩
      obtain rfl := Task.writer.inj (Deed.act.inj hd)
      rw [if_pos hp]
  · rename_i hnot
    exact ⟨nofun, fun h => absurd h.1 (hnot q)⟩

theorem mover?_eq {w : Writer} (hd : r.deed k = .act (.writer q))
    (hw : (r.state k).writers[q]? = some w) :
    r.mover? i k = if w.node = i then some q else none := by
  by_cases hnode : w.node = i
  · rw [if_pos hnode]
    exact mover?_eq_some_iff.mpr ⟨hd, Cluster.mem_writes.mpr ⟨w, hw, hnode⟩⟩
  · rw [if_neg hnode]
    refine Option.eq_none_iff_forall_ne_some.mpr fun p hp => ?_
    obtain ⟨hd', hmem⟩ := mover?_eq_some_iff.mp hp
    obtain rfl := Task.writer.inj (Deed.act.inj (hd.symm.trans hd'))
    obtain ⟨w', hw', hnode'⟩ := Cluster.mem_writes.mp hmem
    obtain rfl := Option.some.inj (hw.symm.trans hw')
    exact hnode hnode'

theorem mover?_of_ne (hd : ∀ q, r.deed k ≠ .act (.writer q)) : r.mover? i k = none :=
  Option.eq_none_iff_forall_ne_some.mpr fun q hq => hd q (mover?_eq_some_iff.mp hq).1

theorem filterMap_succ (g : ℕ → Option α) (y : ℕ) :
    (List.range (y + 1)).filterMap g = (List.range y).filterMap g ++ (g y).toList := by
  rw [List.range_succ, List.filterMap_append]
  cases hg : g y <;> simp [hg]

theorem filterMap_of_none {f : ℕ → ℕ → Option α}
    (hf : ∀ q k a, f q k = some a → r.deed k = .act (.writer q))
    (hw : (r.state y).writers[q]? = none) : (List.range y).filterMap (f q) = [] := by
  refine List.filterMap_eq_nil_iff.mpr fun k hk => ?_
  refine Option.eq_none_iff_forall_ne_some.mpr fun a ha => ?_
  obtain ⟨w, -, -, hw₀, -⟩ := exists_writer (hf q k a ha)
  obtain ⟨w', hw', -⟩ := says_mono (Nat.le_of_lt (List.mem_range.mp hk)) ⟨w, hw₀, rfl, rfl, rfl⟩
  cases hw.symm.trans hw'

/-- **What the writes of a node do, when it is called in turn, is what they do one after the
other**, for whatever a move of a write does. -/
theorem filterMap_mover (h : r.InTurn i y) (f : ℕ → ℕ → Option α)
    (hf : ∀ q k a, f q k = some a → r.deed k = .act (.writer q)) :
    (List.range y).filterMap (fun k => (r.mover? i k).bind (f · k)) =
      ((r.state y).writes i).flatMap fun q => (List.range y).filterMap (f q) := by
  induction y with
  | zero =>
    rw [r.start]
    rfl
  | succ y ih =>
    have ih := ih fun k hk => h k (Nat.lt_succ_of_lt hk)
    have hnone : ∀ q, r.deed y ≠ .act (.writer q) → f q y = none := fun q hd =>
      Option.eq_none_iff_forall_ne_some.mpr fun a ha => hd (hf q y a ha)
    simp only [filterMap_succ, ih]
    rcases Deed.does_writes (i := i) (r.step y) with hsame | ⟨hd, hpush⟩
    · rw [hsame]
      cases hmover : r.mover? i y with
      | none =>
        rw [Option.bind_none, Option.toList_none, List.append_nil]
        refine List.flatMap_congr fun q hq => ?_
        rw [hnone q fun hd => ?_, Option.toList_none, List.append_nil]
        rw [mover?_eq_some_iff.mpr ⟨hd, hq⟩] at hmover
        cases hmover
      | some p =>
        obtain ⟨hd, hp⟩ := mover?_eq_some_iff.mp hmover
        obtain ⟨w, n, z, hw, -, -, hstage, -, hdone, -⟩ := exists_writer hd
        -- a write that moves is not over, so no later one was called
        obtain ⟨earlier, hwrites, hne⟩ := Cluster.writes_eq_concat hp fun q hq => by
          by_contra hlt
          have hover := InTurn.done (fun k hk => h k (Nat.lt_succ_of_lt hk)) hp hq (by omega)
          exact hdone (hstage.symm.trans hover)
        have hquiet : ∀ q ∈ earlier, f q y = none := fun q hq =>
          hnone q fun hd' => hne q hq (Task.writer.inj (Deed.act.inj (hd'.symm.trans hd)))
        rw [hwrites, List.flatMap_append, List.flatMap_append, List.flatMap_singleton,
          List.flatMap_singleton, Option.bind_some, List.append_assoc]
        congr 1
        refine List.flatMap_congr fun q hq => ?_
        rw [hquiet q hq, Option.toList_none, List.append_nil]
    · have hnot : ∀ q, r.deed y ≠ .act (.writer q) := fun q hq => by
        rw [hq] at hd
        cases hd
      rw [hpush, mover?_of_ne hnot, Option.bind_none, Option.toList_none, List.append_nil,
        List.flatMap_append, List.flatMap_singleton,
        filterMap_of_none hf (Array.getElem?_eq_none (Nat.le_refl _)), hnone _ (hnot _),
        Option.toList_none, List.append_nil, List.append_nil]
      refine List.flatMap_congr fun q _ => ?_
      rw [hnone q (hnot q), Option.toList_none, List.append_nil]

end Run

/-! ## Changes of a store -/

/-- What changes the store of a node. -/
inductive StoreChange where
  /-- A write of its own. -/
  | write (subscription : String) (e : Envelope)
  /-- Its owner. -/
  | tend (f : Watched → Watched)
  /-- A message that one of its consumers hears. -/
  | inbound (subscription : String) (e : Envelope)

namespace StoreChange

/-- The store after a change. -/
def apply : StoreChange → Watched → Watched
  | write s e | inbound s e => .write s e
  | tend f => f

def isInbound : StoreChange → Bool
  | inbound _ _ => true
  | _ => false

/-- What a write of the node puts into its store. -/
def written? : StoreChange → Option (String × Envelope)
  | write s e => some (s, e)
  | _ => none

theorem written?_eq_some_iff {ch : StoreChange} {p : String × Envelope} :
    ch.written? = some p ↔ ch = .write p.1 p.2 := by
  cases ch <;> simp [written?, Prod.ext_iff]

theorem eq_map_write {l : List StoreChange} {ps : List (String × Envelope)}
    (h : l.map written? = ps.map some) : l = ps.map fun p => .write p.1 p.2 := by
  induction l generalizing ps with
  | nil => rw [List.map_eq_nil_iff.mp h.symm, List.map_nil]
  | cons ch l ih =>
    cases ps with
    | nil => cases h
    | cons p ps =>
      obtain ⟨hch, hl⟩ := List.cons.inj h
      rw [List.map_cons, ← ih hl, written?_eq_some_iff.mp hch]

end StoreChange

/-- A new store of a node with these settings. -/
def Watched.fresh (settings : Settings) : Watched :=
  { store := { lifetime := settings.expiration } }

/-- How a deed changes the store of the node `i`. -/
def Cluster.change? (c : Cluster Network) (i : ℕ) (d : Deed) : Option StoreChange :=
  c.nodes[i]?.bind fun n =>
    match d with
    | .act (.writer q) =>
      c.writers[q]?.bind fun w =>
        if w.node = i ∧ w.stage = .storing then some (.write w.subscription w.envelope) else none
    | .act (.consumer j k) =>
      if j = i then
        n.link.bind fun link => n.consumers[k]?.bind fun co =>
          ((n.taken c.now k c.medium).bind
            (·.belonging (Medium.inbound c.medium link) co.subscription)).map
            (.inbound co.subscription)
      else none
    | .tend j f => if j = i then some (.tend f) else none
    | _ => none

theorem Cluster.change?_writer {c : Cluster Network} {i q : ℕ} {n : Node} {w : Writer}
    (hn : c.nodes[i]? = some n) (hw : c.writers[q]? = some w) :
    c.change? i (.act (.writer q)) =
      if w.node = i ∧ w.stage = .storing then some (.write w.subscription w.envelope)
      else none := by
  simp only [change?, hn, hw, Option.bind_some]

/-- Who receives leaves the lines alone, and with them the names of what comes in. -/
theorem Network.inbound_receive (a : Network) (σ link : ℕ) :
    Medium.inbound (Medium.receive a σ).1 link = Medium.inbound a link := by
  funext channel
  have hlines : ∀ b : Network, b.lines = a.lines →
      Medium.inbound b link channel = Medium.inbound a link channel := fun b hb => by
    simp only [Medium.inbound, Network.line, Line.name, hb, Array.getD_eq_getD_getElem?]
    cases a.lines[link]? <;> rfl
  exact hlines _ rfl

theorem Node.store_of_consume {n : Node} {now k : ℕ} {a : Network} {mv : Move Network}
    (h : n.consume now k a = some mv) : ∃ link co, n.link = some link ∧
      n.consumers[k]? = some co ∧
      mv.node.store = ((n.taken now k a).bind
        (·.belonging (Medium.inbound a link) co.subscription)).elim n.store
          (n.store.write co.subscription) := by
  obtain ⟨link, co, -, hlink, -, -, -, -⟩ := consume_cases h
  obtain ⟨co, l, hco, -, -, -, -, -, hstore, -⟩ := consume_accounts h hlink rfl
  refine ⟨link, co, hlink, hco, hstore.trans ?_⟩
  cases htaken : n.taken now k a with
  | none => rfl
  | some msg =>
    obtain ⟨hlive, -, s, σ, hco', hrec⟩ := taken_eq_some_iff.mp htaken
    obtain ⟨-, mv', hmv', hmedium, -⟩ := exists_consume now hlink hlive hco' hrec
    obtain rfl := Option.some.inj (h.symm.trans hmv')
    rw [hmedium, Network.inbound_receive]

namespace Deed

variable {c c' : Cluster Network} {d : Deed} {i : ℕ} {n n' : Node}

theorem store_of_writer {q : ℕ} (h : c.act (.writer q) = some c') (hn : c.nodes[i]? = some n)
    (hn' : c'.nodes[i]? = some n') :
    n'.store = (c.change? i (.act (.writer q))).elim n.store (·.apply n.store) := by
  obtain ⟨w, m, z, m', hw, hm, hz, hm', rfl⟩ := Cluster.actWriter_cases h
  have hstore : m'.store = z.node.store := by
    rcases hm' with rfl | ⟨-, rfl⟩
    · rfl
    · rfl
  have hn' : (c.nodes.setIfInBounds w.node m')[i]? = some n' := hn'
  rw [Cluster.change?_writer hn hw]
  by_cases hnode : w.node = i
  · subst hnode
    obtain rfl := Option.some.inj (hm.symm.trans hn)
    rw [Array.getElem?_setIfInBounds_self_of_lt (Array.getElem?_eq_some_iff.mp hm).1] at hn'
    obtain rfl := Option.some.inj hn'
    rw [hstore]
    cases Writer.act_outcome hz with
    | store hstage =>
      rw [if_pos ⟨rfl, hstage⟩]
      rfl
    | quit hstage _ =>
      rw [if_neg fun h => hstage h.2]
      rfl
    | check hstage | known hstage _ | unknown hstage _ | overtaken hstage _ | enter hstage _
    | pause hstage | announce hstage _ _ | unannounced hstage _ | untargeted hstage _
    | targeted hstage _ | request hstage | unrequested hstage | linger hstage
    | publish hstage _ _ | unpublished hstage _ =>
      rw [if_neg (by rw [hstage]; simp)]
      rfl
  · rw [Array.getElem?_setIfInBounds_ne hnode] at hn'
    obtain rfl := Option.some.inj (hn.symm.trans hn')
    rw [if_neg fun h => hnode h.1]
    rfl

theorem store_of_consumer {j k : ℕ} (h : c.act (.consumer j k) = some c')
    (hn : c.nodes[i]? = some n) (hn' : c'.nodes[i]? = some n') :
    n'.store = (c.change? i (.act (.consumer j k))).elim n.store (·.apply n.store) := by
  obtain ⟨m, hm, mv, hmv, rfl⟩ := Cluster.act_consumer_iff.mp h
  have hn' : (c.nodes.setIfInBounds j mv.node)[i]? = some n' := hn'
  simp only [Cluster.change?, hn, Option.bind_some]
  by_cases hji : j = i
  · subst hji
    obtain rfl := Option.some.inj (hm.symm.trans hn)
    rw [Array.getElem?_setIfInBounds_self_of_lt (Array.getElem?_eq_some_iff.mp hm).1] at hn'
    obtain rfl := Option.some.inj hn'
    obtain ⟨link, co, hlink, hco, hstore⟩ := Node.store_of_consume hmv
    rw [hstore, if_pos rfl, hlink, Option.bind_some, hco, Option.bind_some]
    cases (m.taken c.now k c.medium).bind
      (·.belonging (Medium.inbound c.medium link) co.subscription) <;> rfl
  · rw [Array.getElem?_setIfInBounds_ne hji] at hn'
    obtain rfl := Option.some.inj (hn.symm.trans hn')
    rw [if_neg hji]
    rfl

/-- **The store of a node changes in no other way.** -/
theorem does_store (h : d.does c = some c') (hn : c.nodes[i]? = some n)
    (hn' : c'.nodes[i]? = some n') :
    n'.store = (c.change? i d).elim n.store (·.apply n.store) := by
  have hquiet : ¬ d.IsLocal c i → (∀ k, d ≠ .act (.consumer i k)) → n'.store = n.store :=
    fun hlocal hconsumer => by
      obtain ⟨n₁, hn₁, htouches⟩ := does_touches h hn
      obtain rfl := Option.some.inj (hn₁.symm.trans hn')
      rcases htouches.store_cases with hstore | hislocal | ⟨k, -, hd, -⟩
      · exact hstore
      · exact absurd hislocal hlocal
      · exact absurd hd (hconsumer k)
  cases d with
  | act t =>
    cases t with
    | writer q => exact store_of_writer h hn hn'
    | consumer j k => exact store_of_consumer h hn hn'
    | discovery | epoch | dispatch | stopper =>
      rw [Cluster.change?, hn]
      exact hquiet (by simp [IsLocal]) (by simp)
  | tend j f =>
    obtain rfl := Option.some.inj h
    have hn' : (c.nodes.modify j fun n => { n with store := f n.store })[i]? = some n' := hn'
    rw [Array.getElem?_modify, hn] at hn'
    simp only [Cluster.change?, hn, Option.bind_some]
    by_cases hji : j = i
    · rw [if_pos hji] at hn' ⊢
      obtain rfl := Option.some.inj hn'
      rfl
    · rw [if_neg hji] at hn' ⊢
      obtain rfl := Option.some.inj hn'
      rfl
  | connect | join | call | stop | forget | revoke | disturb | outside | clock =>
    rw [Cluster.change?, hn]
    exact hquiet (by simp [IsLocal]) (by simp)

end Deed

namespace Run

variable {r : Run} {i k q x y : ℕ} {n : Node}

/-- What changes the store of the node `i`. -/
def changes (r : Run) (i y : ℕ) : List StoreChange :=
  (List.range y).filterMap fun k => (r.state k).change? i (r.deed k)

/-- What changes the store of the node `i` besides messages. -/
def locals (r : Run) (i y : ℕ) : List StoreChange := (r.changes i y).filter fun ch => !ch.isInbound

theorem changes_succ (r : Run) (i y : ℕ) :
    r.changes i (y + 1) = r.changes i y ++ ((r.state y).change? i (r.deed y)).toList := by
  rw [changes, filterMap_succ, changes]

theorem changes_of_none (hn : (r.state y).nodes[i]? = none) : r.changes i y = [] := by
  refine List.filterMap_eq_nil_iff.mpr fun k hk => ?_
  rw [Cluster.change?]
  cases hn₀ : (r.state k).nodes[i]? with
  | none => rfl
  | some n₀ =>
    obtain ⟨n, hn'⟩ := exists_node (Nat.le_of_lt (List.mem_range.mp hk)) hn₀
    cases hn.symm.trans hn'

theorem kept_eq (hxy : x ≤ y) {n₀ : Node} (hn₀ : (r.state x).nodes[i]? = some n₀)
    (hn : (r.state y).nodes[i]? = some n) : n.link = n₀.link ∧ n.settings = n₀.settings := by
  induction y, hxy using Nat.le_induction generalizing n with
  | base =>
    obtain rfl := Option.some.inj (hn₀.symm.trans hn)
    exact ⟨rfl, rfl⟩
  | succ y hxy ih =>
    obtain ⟨n₁, hn₁⟩ := exists_node hxy hn₀
    obtain ⟨n₂, hn₂, halters⟩ := Deed.does_node (r.step y) hn₁
    obtain rfl := Option.some.inj (hn₂.symm.trans hn)
    obtain ⟨-, hlink, hsettings⟩ := halters.settled
    exact ⟨hlink.trans (ih hn₁).1, hsettings.trans (ih hn₁).2⟩

/-- **The store of a node is a new one after its changes.** -/
theorem store_eq (hn : (r.state y).nodes[i]? = some n) :
    n.store = (r.changes i y).foldl (fun st ch => ch.apply st) (.fresh n.settings) := by
  induction y generalizing n with
  | zero =>
    rw [r.start] at hn
    cases hn
  | succ y ih =>
    cases hn₀ : (r.state y).nodes[i]? with
    | none =>
      have hnone : (r.state y).change? i (r.deed y) = none := by
        rw [Cluster.change?, hn₀]
        rfl
      rw [changes_succ, changes_of_none hn₀, hnone]
      rcases Deed.node_cases (r.step y) hn with
        ⟨n₁, hn₁, -⟩ | ⟨-, settings, link, now, readFault, rfl⟩
      · cases hn₀.symm.trans hn₁
      · cases link <;> rfl
    | some n₀ =>
      rw [changes_succ, List.foldl_append, (kept_eq (Nat.le_succ y) hn₀ hn).2, ← ih hn₀,
        Deed.does_store (r.step y) hn₀ hn]
      cases (r.state y).change? i (r.deed y) <;> rfl

theorem locals_eq (hn : (r.state y).nodes[i]? = some n) (hlink : n.link = none) :
    r.locals i y = r.changes i y := by
  refine List.filter_eq_self.mpr fun ch hch => ?_
  obtain ⟨k, hk, hchange⟩ := List.mem_filterMap.mp hch
  obtain ⟨n₀, hn₀, hchange⟩ := Option.bind_eq_some_iff.mp hchange
  have hlink₀ : n₀.link = none :=
    (kept_eq (Nat.le_of_lt (List.mem_range.mp hk)) hn₀ hn).1.symm.trans hlink
  split at hchange
  · obtain ⟨w, -, hwrite⟩ := Option.bind_eq_some_iff.mp hchange
    split at hwrite
    · obtain rfl := Option.some.inj hwrite
      rfl
    · cases hwrite
  · rw [hlink₀] at hchange
    split at hchange <;> cases hchange
  · split at hchange
    · obtain rfl := Option.some.inj hchange
      rfl
    · cases hchange
  · cases hchange

end Run

/-! ## What writes keep -/

/-- What the writes of the node `i` say that have begun. -/
def Cluster.kept (c : Cluster Network) (i : ℕ) : List (String × Envelope) :=
  (c.writes i).flatMap fun q => (c.writers[q]?).elim [] fun w =>
    if w.stage = .storing then [] else [(w.subscription, w.envelope)]

namespace Run

variable {r : Run} {i k q y : ℕ} {s : String} {e : Envelope}

/-- What the write `q` puts into the store of its node at a time. -/
def kept? (r : Run) (q k : ℕ) : Option (String × Envelope) :=
  if (r.deed k).task? = some (.writer q) ∧ r.stage q k = .storing then
    ((r.state k).writers[q]?).map fun w => (w.subscription, w.envelope)
  else none

theorem deed_of_kept? {a : String × Envelope} (h : r.kept? q k = some a) :
    r.deed k = .act (.writer q) := by
  rw [kept?] at h
  split at h
  · rename_i hd
    exact Deed.task?_eq_some_iff.mp hd.1
  · cases h

theorem kept?_of_storing (hd : r.deed k = .act (.writer q)) (hcalled : (r.state k).Says i s e q)
    (hstage : r.stage q k = .storing) : r.kept? q k = some (s, e) := by
  obtain ⟨w, hw, -, rfl, rfl⟩ := hcalled
  rw [kept?, if_pos ⟨Deed.task?_eq_some_iff.mpr hd, hstage⟩, Option.mem_def.mp hw, Option.map_some]

theorem bind_written? (r : Run) (i k : ℕ) :
    ((r.state k).change? i (r.deed k)).bind StoreChange.written? =
      (r.mover? i k).bind (r.kept? · k) := by
  by_cases hd : ∃ q, r.deed k = .act (.writer q)
  · obtain ⟨q, hd⟩ := hd
    obtain ⟨w, n, z, hw, hn, -, hstage, -⟩ := exists_writer hd
    rw [mover?_eq hd hw]
    by_cases hnode : w.node = i
    · subst hnode
      rw [if_pos rfl, Option.bind_some, hd, Cluster.change?_writer hn hw]
      by_cases hstoring : w.stage = .storing
      · rw [if_pos ⟨rfl, hstoring⟩,
          kept?_of_storing hd ⟨w, hw, rfl, rfl, rfl⟩ (hstage.trans hstoring)]
        rfl
      · rw [if_neg fun h => hstoring h.2, kept?, if_neg fun h => hstoring (hstage ▸ h.2)]
        rfl
    · rw [if_neg hnode, hd]
      cases hi : (r.state k).nodes[i]? with
      | none => rw [Cluster.change?, hi, Option.bind_none, Option.bind_none, Option.bind_none]
      | some n =>
        rw [Cluster.change?_writer hi hw, if_neg fun h => hnode h.1, Option.bind_none,
          Option.bind_none]
  · -- who is no write keeps nothing that a write says
    rw [mover?_of_ne fun q hq => hd ⟨q, hq⟩, Option.bind_none, Option.bind_eq_none_iff]
    intro ch hch
    obtain ⟨n, -, hch⟩ := Option.bind_eq_some_iff.mp hch
    split at hch
    · rename_i q hq
      exact absurd ⟨q, hq⟩ hd
    · split at hch
      · obtain ⟨link, -, hch⟩ := Option.bind_eq_some_iff.mp hch
        obtain ⟨co, -, hch⟩ := Option.bind_eq_some_iff.mp hch
        obtain ⟨e, -, rfl⟩ := Option.map_eq_some_iff.mp hch
        rfl
      · cases hch
    · split at hch
      · obtain rfl := Option.some.inj hch
        rfl
      · cases hch
    · cases hch

theorem filterMap_kept? (h : (r.state y).Says i s e q) : (List.range y).filterMap (r.kept? q) =
    if r.stage q y = .storing then [] else [(s, e)] := by
  induction y with
  | zero =>
    obtain ⟨w, hw, -⟩ := h
    rw [r.start] at hw
    cases hw
  | succ y ih =>
    rw [filterMap_succ]
    rcases says_succ h with hcalled | ⟨hnone, hstoring⟩
    · rw [ih hcalled]
      by_cases hstoring : r.stage q y = .storing
      · rw [if_pos hstoring]
        by_cases hd : r.deed y = .act (.writer q)
        · obtain ⟨w, n, z, hw, hn, hz, hstage, hstage', -⟩ := exists_writer hd
          rw [hstage] at hstoring
          simp only [Writer.act, hstoring] at hz
          obtain rfl := Option.some.inj hz
          rw [kept?_of_storing hd hcalled (hstage.trans hstoring), hstage', if_neg (by simp)]
          rfl
        · rw [stage_succ hd, if_pos hstoring, kept?,
            if_neg fun h => hd (Deed.task?_eq_some_iff.mp h.1)]
          rfl
      · have hnot : r.stage q (y + 1) ≠ .storing := fun hstoring' => by
          have hrank := r.rank_mono q (Nat.le_succ y)
          rw [hstoring'] at hrank
          revert hrank hstoring
          cases r.stage q y <;> simp [Stage.rank]
        rw [if_neg hstoring, if_neg hnot, kept?, if_neg fun h => hstoring h.2]
        rfl
    · have hdeed : r.deed y ≠ .act (.writer q) := fun hd => by
        obtain ⟨w, -, -, hw, -⟩ := exists_writer hd
        cases hnone.symm.trans hw
      rw [filterMap_of_none (fun _ _ _ => deed_of_kept?) hnone, if_pos hstoring, kept?,
        if_neg fun h => hdeed (Deed.task?_eq_some_iff.mp h.1)]
      rfl

/-- **The writes of a node that is called in turn keep what they say**, one after the other. -/
theorem filterMap_changes (h : r.InTurn i y) :
    (r.changes i y).filterMap StoreChange.written? = (r.state y).kept i := by
  rw [changes, List.filterMap_filterMap, Cluster.kept]
  simp only [bind_written?]
  rw [filterMap_mover h _ fun _ _ _ => deed_of_kept?]
  refine List.flatMap_congr fun q hq => ?_
  obtain ⟨w, hw, hnode⟩ := Cluster.mem_writes.mp hq
  rw [filterMap_kept? ⟨w, hw, hnode, rfl, rfl⟩, stage, Cluster.stage_of_getElem? hw,
    Option.mem_def.mp hw, Option.elim_some]

end Run

end Telemetry
