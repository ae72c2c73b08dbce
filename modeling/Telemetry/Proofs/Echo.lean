import Telemetry.Proofs.Calling

/-!
# Hearing one's own writes

A node that is called keeps every write at once and hears it again later. When everything has come
back, it lists what a store lists to which the same calls were made and that hears nothing, as long
as no target was deleted while something about it was still to come back. What comes back after that
brings back what was deleted.

* `Cluster.owed`: the notifications that a shelf is still to hear;
* `Solo.Echoing`: the invariant of a node, by what it is still to hear;
* `Solo.Echoing.loop`, `Solo.Echoing.speak`, `Solo.Echoing.call`, `Solo.Echoing.delete`: a loop
  moves, a write goes on, and the node is called;
* **`Solo.Echoing.step`**: the invariant is kept;
* **`Solo.read_of_settled`**: what is listed when everything has come back.
-/

namespace Telemetry

open Relation

theorem Store.canonical_shelf (st : Store) (s t : String) :
    st.canonical.shelf s t = (st.shelf s t).canonical := by
  rw [shelf, shelf?, canonical, Table.find?_map, shelf, shelf?]
  cases st.contents.find? s with
  | none => rfl
  | some shelves =>
    rw [Option.map_some, Option.bind_some, Option.bind_some, Table.find?_map]
    cases shelves.find? t <;> rfl

/-! ## What is still to be heard -/

theorem heard?_target {s t : String} {m : Message} {n : Notification} (h : heard? s t m = some n) :
    n.target = t ∧ t.isEmpty = false := by
  obtain ⟨e, he, habout⟩ := Option.bind_eq_some_iff.mp h
  obtain ⟨hn, hcond⟩ := Option.filter_eq_some_iff.mp habout
  have htarget : n.target = t := eq_of_beq (Bool.and_eq_true_iff.mp hcond).2
  obtain ⟨t', ht', -⟩ := accepted_target he
  rw [Envelope.target?, hn, Option.bind_some, Notification.target?] at ht'
  split at ht'
  · cases ht'
  · rename_i hne
    exact ⟨htarget, by simpa [htarget] using hne⟩

/-- What a write is still to bring to the shelf of a target: until its data is published, or until
it is kept if it is not to be published. -/
def Writer.coming (s t : String) (w : Writer) : List Notification :=
  if w.subscription = s ∧ (w.stage = .storing ∨
      w.stage ≠ .done ∧ w.envelope.target?.isSome = true) then
    (w.envelope.canonical.about? t).toList else []

namespace Writer

variable {s t : String} {w w' : Writer}

theorem coming_of_ne (h : w.subscription ≠ s) : w.coming s t = [] := if_neg fun hc => h hc.1

theorem coming_of_done (h : w.stage = .done) : w.coming s t = [] := by
  refine if_neg fun hc => ?_
  rcases hc.2 with hs | hs
  · cases h.symm.trans hs
  · exact hs.1 h

theorem coming_of_storing (hs : w.subscription = s) (h : w.stage = .storing) :
    w.coming s t = (w.envelope.canonical.about? t).toList := if_pos ⟨hs, .inl h⟩

theorem coming_of_target (hs : w.subscription = s) (h : w.stage ≠ .done)
    (ht : w.envelope.target?.isSome = true) :
    w.coming s t = (w.envelope.canonical.about? t).toList := if_pos ⟨hs, .inr ⟨h, ht⟩⟩

theorem coming_of_target_none (h : w.stage ≠ .storing) (ht : w.envelope.target? = none) :
    w.coming s t = [] := by
  refine if_neg fun hc => hc.2.elim h fun hs => ?_
  rw [ht] at hs
  exact absurd hs.2 Bool.false_ne_true

end Writer

namespace Cluster

variable {c c' : Cluster Network} {s t : String} {next : ℕ} {m : Message}

/-- What is on the bus for a shelf, for whoever has seen the first messages. -/
def unheard (c : Cluster Network) (s t : String) (next : ℕ) : List Notification :=
  (c.medium.bus.log.drop next).filterMap (heard? s t)

/-- What the last write is still to bring to a shelf. -/
def coming (c : Cluster Network) (s t : String) : List Notification :=
  (c.writers[c.writers.size - 1]?).elim [] (Writer.coming s t)

/-- What a shelf is still to hear, or to keep. -/
def owed (c : Cluster Network) (s t : String) (next : ℕ) : List Notification :=
  c.unheard s t next ++ c.coming s t

theorem unheard_cons (hm : c.medium.bus.log[next]? = some m) :
    c.unheard s t next = (heard? s t m).toList ++ c.unheard s t (next + 1) := by
  obtain ⟨hlt, rfl⟩ := List.getElem?_eq_some_iff.mp hm
  rw [unheard, List.drop_eq_getElem_cons hlt, List.filterMap_cons]
  cases heard? s t c.medium.bus.log[next] <;> rfl

theorem unheard_put (hmed : c'.medium = c.medium.put m) (hnext : next ≤ c.medium.bus.log.length) :
    c'.unheard s t next = c.unheard s t next ++ (heard? s t m).toList := by
  rw [unheard, hmed, Network.put, Network.log_put, List.drop_append_of_le_length hnext,
    List.filterMap_append, List.filterMap_cons, List.filterMap_nil, unheard]
  cases heard? s t m <;> rfl

theorem unheard_of_untargeted {e : Envelope} (he : e.target? = none) (h : e.about? t ≠ none) :
    c.unheard s t next = [] := by
  refine List.filterMap_eq_nil_iff.mpr fun m _ => Option.eq_none_iff_forall_not_mem.mpr ?_
  intro n hn
  obtain ⟨n', hn'⟩ := Option.ne_none_iff_exists'.mp h
  obtain ⟨hn', hcond⟩ := Option.filter_eq_some_iff.mp hn'
  have htarget : n'.target = t := eq_of_beq (Bool.and_eq_true_iff.mp hcond).2
  rw [Envelope.target?, hn', Option.bind_some, Notification.target?, htarget,
    (heard?_target hn).2] at he
  cases he

theorem coming_of_last {q : ℕ} {w : Writer} (hw : c.writers[q]? = some w)
    (hq : q + 1 = c.writers.size) : c.coming s t = w.coming s t := by
  rw [coming, ← hq, Nat.add_sub_cancel, hw, Option.elim_some]

theorem coming_of_done (h : ∀ w ∈ c.writers, w.stage = .done) : c.coming s t = [] := by
  rw [coming]
  cases hw : c.writers[c.writers.size - 1]? with
  | none => rfl
  | some w => exact Writer.coming_of_done (h w (Array.mem_of_getElem? hw))

end Cluster

/-! ## A write goes on -/

namespace Writer.Onward

variable {c : Cluster Network} {w w' : Writer} {s t : String} {next : ℕ} {P : Prop}
  {own : Shelf} {st : Store}

theorem coming_eq (h : w.Onward w') (hstage : w.stage ≠ .storing) (hdone : w.stage ≠ .done)
    (hstage' : w'.stage ≠ .storing) (hdone' : w'.stage = .done → w.envelope.target? = none) :
    w'.coming s t = w.coming s t := by
  by_cases hsub : w.subscription = s
  · cases htarget : w.envelope.target? with
    | none => rw [coming_of_target_none hstage htarget,
        coming_of_target_none hstage' (h.envelope ▸ htarget)]
    | some t' =>
      have hsome : w.envelope.target?.isSome = true := by simp [htarget]
      have hnot : w'.stage ≠ .done := fun hd => by
        rw [hdone' hd] at hsome
        cases hsome
      rw [coming_of_target hsub hdone hsome,
        coming_of_target (h.subscription.trans hsub) hnot (h.envelope ▸ hsome), h.envelope]
  · rw [coming_of_ne hsub, coming_of_ne (h.subscription ▸ hsub)]

theorem owes_keep (h : w.Onward w') (hstage : w.stage = .storing) (hstage' : w'.stage = .checking)
    (hplain : P → w.envelope.HasNoNaN) (now : ℕ)
    (ht : Shelf.Owes P (c.unheard s t next ++ w.coming s t) (st.shelf s t) own) :
    Shelf.Owes P (c.unheard s t next ++ w'.coming s t)
      ((st.write now w.subscription w.envelope).shelf s t) own := by
  by_cases hsub : w.subscription = s
  · have hsub' : w'.subscription = s := h.subscription.trans hsub
    rw [coming_of_storing hsub hstage] at ht
    rw [hsub]
    cases htarget : w.envelope.target? with
    | some _ =>
      rw [coming_of_target hsub' (by simp [hstage']) (by simp [h.envelope, htarget]), h.envelope]
      exact ht.write_early hplain now
    | none =>
      -- without a target it does not come back, and neither does anything about its shelf
      rw [coming_of_target_none (by simp [hstage']) (h.envelope ▸ htarget), List.append_nil]
      exact ht.write_last (Cluster.unheard_of_untargeted htarget) hplain now
  · rw [coming_of_ne hsub] at ht
    rw [coming_of_ne (h.subscription ▸ hsub), Store.shelf_write_of_ne (Ne.symm hsub)]
    exact ht

end Writer.Onward

theorem Writer.owes_publish {c : Cluster Network} {w : Writer} {s t t' : String} {next : ℕ}
    {P : Prop} {mine own : Shelf} (hdone : w.stage ≠ .done) (htarget : w.envelope.target? = some t')
    (ht : Shelf.Owes P (c.unheard s t next ++ w.coming s t) mine own) :
    Shelf.Owes P (c.unheard s t next ++ (heard? s t (w.data t')).toList) mine own := by
  by_cases hsub : w.subscription = s
  · rw [coming_of_target hsub hdone (by simp [htarget])] at ht
    rw [heard?, ← hsub, accepted_data htarget, hsub]
    exact ht
  · rw [coming_of_ne hsub] at ht
    rw [heard?, accepted_data_of_ne htarget (Ne.symm hsub)]
    exact ht

namespace Solo

variable {i : ℕ} {s s₀ t : String} {r r' : Solo} {c : Cluster Network}

/-! ## The invariant -/

/-- The consumer of `s` at the node `i` listens, and its shelves are still to hear what is owed. -/
def Echoing (i : ℕ) (s : String) (r : Solo) : Prop :=
  ∃ n k σ st, r.cluster.nodes[i]? = some n ∧ n.core.Consumes s k σ ∧
    r.cluster.medium.bus.streams[σ]? = some st ∧
    ∀ t, Shelf.Owes (NaNFree r.calls) (r.cluster.owed s t st.next) (n.store.store.shelf s t)
      ((Store.run r.calls {}).shelf s t)

theorem exists_node_of_moves {c c' : Cluster Network} (hm : Cluster.Moves c c') {n : Node}
    (hn : c.nodes[i]? = some n) : ∃ n', c'.nodes[i]? = some n' := by
  have hset : ∀ {j : ℕ} {n' : Node}, c'.nodes = c.nodes.setIfInBounds j n' →
      ∃ n', c'.nodes[i]? = some n' := fun {j n'} hnodes => by
    have hlt := (Array.getElem?_eq_some_iff.mp hn).1
    refine ⟨_, Array.getElem?_eq_getElem (i := i) ?_⟩
    rwa [hnodes, Array.size_setIfInBounds]
  cases hm with
  | still hsame _ =>
    have hi := hsame i
    rw [hn, Option.map_some] at hi
    obtain ⟨n', hn', -⟩ := Option.map_eq_some_iff.mp hi
    exact ⟨n', hn'⟩
  | store _ _ hnodes | start _ _ _ _ hnodes | rest _ _ _ _ _ hnodes
  | subscribe _ _ _ _ _ hnodes | hear _ _ _ _ _ hnodes => exact hset hnodes

/-- **A loop moves.** -/
theorem Echoing.loop (h : r.Echoing i s) (hsound : r.Sound s₀ i) (hkeeps : KeepsUp i r.cluster)
    {task : Task} (ht : ∀ q, task ≠ .writer q) (hact : r.cluster.act task = some c) :
    Echoing i s { r with cluster := c } := by
  obtain ⟨n, k, σ, st, hn, hk, hst, howes⟩ := h
  -- a loop does not look at the writes, and without them it does not matter under what they write
  have hsteady : ({ r.cluster with writers := #[] } : Cluster Network).Steady s :=
    ⟨hsound.steady.stoppers, hsound.steady.revoked, hsound.steady.cores,
      hsound.steady.lifetimes, by simp, hsound.steady.streams, hsound.steady.unique⟩
  obtain ⟨-, hm⟩ := hsteady.moves (.act (Cluster.act_setWriters #[] ht hact))
  obtain ⟨n', hn'⟩ := exists_node_of_moves hm hn
  have hn' : c.nodes[i]? = some n' := hn'
  obtain ⟨n₁, hn₁, hcarries⟩ := hsteady.turn hm hn'
  obtain rfl : n = n₁ := Option.some.inj (hn.symm.trans hn₁)
  obtain ⟨hk', st', hst', hturn⟩ := hcarries hk hst
  have hlog : c.medium.bus.log = r.cluster.medium.bus.log := by
    rw [Bus.log, Cluster.act_feed ht hact, Bus.log]
  have hunheard : ∀ t next, c.unheard s t next = r.cluster.unheard s t next := fun t next => by
    rw [Cluster.unheard, hlog, Cluster.unheard]
  have howed : ∀ t next, c.owed s t next = r.cluster.owed s t next := fun t next => by
    rw [Cluster.owed, hunheard, Cluster.coming, Cluster.act_writers ht hact]
    rfl
  have howed_next : ∀ {m : Message}, r.cluster.medium.bus.log[st.next]? = some m → ∀ t,
      r.cluster.owed s t st.next =
        (heard? s t m).toList ++ r.cluster.owed s t (st.next + 1) := fun hm t => by
    rw [Cluster.owed, Cluster.unheard_cons hm, List.append_assoc]
    rfl
  refine ⟨n', k, σ, st', hn', hk', hst', fun t => ?_⟩
  rw [howed]
  cases hturn with
  | idle hshelf heq =>
    rw [heq, hshelf]
    exact howes t
  | @early q now w hw _ _ _ _ => simp at hw
  | @heard now m? honward hstore =>
    rw [hstore]
    cases honward with
    | @message m hlog hcovers hnext =>
      have ht := howes t
      rw [howed_next hlog] at ht
      rw [hnext]
      exact ht.hear now
    | @passed m hlog hcovers hnext =>
      obtain ⟨st₁, hst₁, htopic, -⟩ := hsound.steady.streams hn hk.hears
      obtain rfl := Option.some.inj (hst.symm.trans hst₁)
      have hnone : accepted s m = none := accepted_of_not_covers (htopic ▸ hcovers)
      have ht := howes t
      rw [howed_next hlog, heard?, hnone] at ht
      rw [hnext]
      exact ht
    | lagged hold =>
      obtain ⟨co, hco, hsub, hseen⟩ := Cluster.seen?_of_consumes hk hst
      have hnext := hkeeps n hn co hco st.next hseen
      have hold : st.next < r.cluster.medium.bus.feed.oldest := hold
      omega
    | parked hnext =>
      rw [hnext]
      exact howes t

/-- **A write goes on.** -/
theorem Echoing.speak (h : r.Echoing i s) (hsound : r.Sound s₀ i) {q : ℕ}
    (hact : r.cluster.act (.writer q) = some c) : Echoing i s { r with cluster := c } := by
  obtain ⟨w, w', n, n', hw, hdone, honward, hwriters, hn, hnodes, hcore, hspeaks⟩ :=
    hsound.steady.speaks hact
  obtain ⟨hnode, now, hcall⟩ := hsound.called w (Array.mem_of_getElem? hw)
  subst hnode
  obtain ⟨n₁, k, σ, st, hn₁, hk, hst, howes⟩ := h
  obtain rfl : n = n₁ := Option.some.inj (hn.symm.trans hn₁)
  have hlast := hsound.last q w hw hdone
  have hw' : c.writers[q]? = some w' := by
    rw [hwriters]
    exact Array.getElem?_setIfInBounds_self_of_lt (Array.getElem?_eq_some_iff.mp hw).1
  have hn' : c.nodes[w.node]? = some n' := by
    rw [hnodes]
    exact Array.getElem?_setIfInBounds_self_of_lt (Array.getElem?_eq_some_iff.mp hn).1
  have hcoming : ∀ t, r.cluster.coming s t = w.coming s t := fun t =>
    Cluster.coming_of_last hw hlast
  have hcoming' : ∀ t, c.coming s t = w'.coming s t := fun t =>
    Cluster.coming_of_last hw' (by rw [hwriters, Array.size_setIfInBounds, hlast])
  obtain ⟨st₁, hst₁, -, hreads⟩ := hsound.steady.streams hn hk.hears
  obtain rfl : st = st₁ := Option.some.inj (hst.symm.trans hst₁)
  have hput : ∀ {m : Message}, c.medium = r.cluster.medium.put m →
      ∀ t, c.unheard s t st.next = r.cluster.unheard s t st.next ++ (heard? s t m).toList :=
    fun hmed t => Cluster.unheard_put hmed hreads.next
  refine ⟨n', k, σ, st, hn', hcore ▸ hk, ?_, fun t => ?_⟩
  · cases hspeaks with
    | keep _ _ _ hmed => rw [hmed, hst]
    | silent _ _ _ _ hmed =>
      rcases hmed with hmed | hmed
      · rw [hmed, hst]
      · rw [hmed]
        exact hst
    | publish _ _ _ _ hmed =>
      rw [hmed]
      exact hst
  have ht := howes t
  rw [Cluster.owed, hcoming] at ht
  show Shelf.Owes (NaNFree r.calls) (c.owed s t st.next) _ _
  rw [Cluster.owed, hcoming']
  cases hspeaks with
  | keep hstage hstage' hstore hmed =>
    -- what is kept now has still to come back
    have hunheard : c.unheard s t st.next = r.cluster.unheard s t st.next := by
      rw [Cluster.unheard, hmed, Cluster.unheard]
    have hkeep : n'.store.store = n.store.store.write n.store.now w.subscription w.envelope := by
      rw [hstore]
      rfl
    rw [hunheard, hkeep]
    exact honward.owes_keep hstage hstage' (fun hfree => hfree _ _ _ hcall) _ ht
  | silent hstage hstage' hdone' hstore hmed =>
    have hunheard : c.unheard s t st.next = r.cluster.unheard s t st.next := by
      rcases hmed with hmed | hmed
      · rw [Cluster.unheard, hmed, Cluster.unheard]
      · -- an announcement is on the bus, which brings nothing back
        have hnone : heard? s t w.announcement = none := by
          rw [heard?, accepted_of_control rfl s]
          rfl
        rw [hput hmed, hnone]
        exact List.append_nil _
    rw [hunheard, honward.coming_eq hstage hdone hstage' hdone', hstore]
    exact ht
  | @publish t' hstage hstage' htarget hstore hmed =>
    -- what was to come from the write is on the bus, and still unheard
    rw [Writer.coming_of_done hstage', List.append_nil, hput hmed, hstore]
    exact Writer.owes_publish hdone htarget ht

/-- **The node is called to write.** -/
theorem Echoing.call (h : r.Echoing i s) (w : Writer) (now : ℕ) (hstage : w.stage = .storing)
    (hover : ∀ w' ∈ r.cluster.writers, w'.stage = .done) : Echoing i s
      { cluster := { r.cluster with writers := r.cluster.writers.push w }
        calls := r.calls ++ [.write now w.subscription w.envelope] } := by
  obtain ⟨n, k, σ, st, hn, hk, hst, howes⟩ := h
  refine ⟨n, k, σ, st, hn, hk, hst, fun t => ?_⟩
  have hcoming : Cluster.coming { r.cluster with writers := r.cluster.writers.push w } s t =
      w.coming s t :=
    Cluster.coming_of_last (q := r.cluster.writers.size) (by simp) (by simp)
  have ht := howes t
  rw [Cluster.owed, Cluster.coming_of_done hover, List.append_nil] at ht
  have ht := ht.mono
    (NaNFree.mono · (List.prefix_append _ [StoreOp.write now w.subscription w.envelope]))
  rw [Cluster.owed, hcoming, Store.run_concat, StoreOp.apply]
  show Shelf.Owes _ (r.cluster.unheard s t st.next ++ _) _ _
  by_cases hsub : w.subscription = s
  · subst hsub
    rw [Writer.coming_of_storing rfl hstage]
    refine ht.write_call (fun hfree => ?_) now
    exact hfree now w.subscription w.envelope (by simp)
  · rw [Writer.coming_of_ne hsub, List.append_nil, Store.shelf_write_of_ne (Ne.symm hsub)]
    exact ht

/-- **A target is deleted about which nothing is to come.** -/
theorem Echoing.delete (h : r.Echoing i s) {n : Node} (hn : r.cluster.nodes[i]? = some n)
    (hover : ∀ w' ∈ r.cluster.writers, w'.stage = .done) (hfree : EchoFree i r.cluster t) :
    Echoing i s
      { cluster := r.cluster.setNode i { n with store := n.store.deleteTarget t }
        calls := r.calls ++ [.deleteTarget t] } := by
  obtain ⟨n₁, k, σ, st, hn₁, hk, hst, howes⟩ := h
  obtain rfl : n = n₁ := Option.some.inj (hn.symm.trans hn₁)
  have hlt := (Array.getElem?_eq_some_iff.mp hn).1
  refine ⟨{ n with store := n.store.deleteTarget t }, k, σ, st,
    Array.getElem?_setIfInBounds_self_of_lt hlt, hk, hst, fun t' => ?_⟩
  have hshelf : ∀ store : Store, (store.deleteTarget t).shelf s t' =
      if t' = t then {} else store.shelf s t' := fun store => by
    rw [Store.shelf, Store.shelf?_deleteTarget]
    split <;> rfl
  rw [Store.run_concat, StoreOp.apply, hshelf]
  show Shelf.Owes _ (r.cluster.owed s t' st.next) ((n.store.store.deleteTarget t).shelf s t') _
  rw [hshelf]
  by_cases ht : t' = t
  · subst ht
    obtain ⟨co, hco, rfl, hseen⟩ := Cluster.seen?_of_consumes hk hst
    have hnone : r.cluster.unheard co.subscription t' st.next = [] :=
      List.filterMap_eq_nil_iff.mpr (hfree n hn co hco st.next hseen)
    rw [if_pos rfl, if_pos rfl, Cluster.owed, Cluster.coming_of_done hover, hnone]
    exact .empty
  · rw [if_neg ht, if_neg ht]
    exact (howes t').mono (NaNFree.mono · (List.prefix_append _ _))

/-- Nothing happens to the writes, and nodes and bus change only where it does not matter. -/
theorem Echoing.still (h : r.Echoing i s) (hwriters : c.writers = r.cluster.writers)
    (hnodes : ∀ n, r.cluster.nodes[i]? = some n → ∃ n', c.nodes[i]? = some n' ∧
      n'.core = n.core ∧ n'.store.store = n.store.store)
    (hstreams : c.medium.bus.streams = r.cluster.medium.bus.streams)
    (hlog : ∀ t next, next ≤ r.cluster.medium.bus.log.length →
      c.unheard s t next = r.cluster.unheard s t next) (hsound : r.Sound s₀ i) :
    Echoing i s { r with cluster := c } := by
  obtain ⟨n, k, σ, st, hn, hk, hst, howes⟩ := h
  obtain ⟨n', hn', hcore, hstore⟩ := hnodes n hn
  obtain ⟨st₁, hst₁, -, hreads⟩ := hsound.steady.streams hn hk.hears
  obtain rfl : st = st₁ := Option.some.inj (hst.symm.trans hst₁)
  refine ⟨n', k, σ, st, hn', hcore ▸ hk, hstreams ▸ hst, fun t => ?_⟩
  have howed : c.owed s t st.next = r.cluster.owed s t st.next := by
    rw [Cluster.owed, hlog t _ hreads.next, Cluster.coming, hwriters, Cluster.owed, Cluster.coming]
  rw [howed, hstore]
  exact howes t

/-- **The invariant is kept**, if no consumer loses a message. -/
theorem Echoing.step (h : r.Echoing i s) (hsound : r.Sound s₀ i) (hkeeps : KeepsUp i r.cluster)
    (hstep : Step (EchoFree i) i r r') : r'.Echoing i s := by
  cases hstep with
  | @act c task hact =>
    by_cases ht : ∃ q, task = .writer q
    · obtain ⟨q, rfl⟩ := ht
      exact h.speak hsound hact
    · exact h.loop hsound hkeeps (fun q hq => ht ⟨q, hq⟩) hact
  | write w now _ hstage hover => exact h.call w now hstage hover
  | deleteTarget t hn hover hfree => exact h.delete hn hover hfree
  | announced m hm =>
    have hnone : ∀ t, heard? s t m = none := fun t => by
      rw [heard?, accepted_of_control hm]
      rfl
    refine h.still rfl (fun n hn => ⟨n, hn, rfl, rfl⟩) rfl (fun t next hnext => ?_) hsound
    rw [Cluster.unheard_put rfl hnext, hnone]
    exact List.append_nil _
  | clock now =>
    exact h.still rfl (fun n hn => ⟨n, hn, rfl, rfl⟩) rfl (fun _ _ _ => rfl) hsound
  | @look j n w hn hw =>
    refine h.still rfl (fun m hm => ?_) rfl (fun _ _ _ => rfl) hsound
    by_cases hj : j = i
    · subst hj
      obtain rfl := Option.some.inj (hn.symm.trans hm)
      have hlt := (Array.getElem?_eq_some_iff.mp hn).1
      exact ⟨_, Array.getElem?_setIfInBounds_self_of_lt hlt, rfl, hw⟩
    · exact ⟨m, (Array.getElem?_setIfInBounds_ne hj).trans hm, rfl, rfl⟩

theorem Echoing.run (h : r.Echoing i s) (hsound : r.Sound s₀ i)
    (hrun : ReflTransGen (fun r r' => KeepsUp i r.cluster ∧ Step (EchoFree i) i r r') r r')
    (hnew : ¬ Called s₀ r'.calls) : r'.Sound s₀ i ∧ r'.Echoing i s := by
  induction hrun with
  | refl => exact ⟨hsound, h⟩
  | tail _ hstep ih =>
    obtain ⟨hsound', h'⟩ := ih fun hc => hnew (hc.mono hstep.2.calls_mono)
    exact ⟨hsound'.step hstep.2 hnew, h'.step hsound' hstep.1 hstep.2⟩

/-! ## When everything has come back -/

theorem Echoing.start {c₀ : Cluster Network} (h₀ : c₀.Initial) (hlog : c₀.medium.bus.log = [])
    (hrun : ReflTransGen (Step (EchoFree i) i) { cluster := c₀ } r) (hcalls : r.calls = [])
    (htuned : Tuned i s r.cluster) : r.Echoing i s := by
  have hnew : ¬ Called s r.calls := by
    rintro ⟨now, e, hmem⟩
    rw [hcalls] at hmem
    cases hmem
  obtain ⟨hsound, hsilent, hblank, hrun⟩ := uncalled h₀ hlog hrun hnew
  obtain ⟨n, hn, co, hco, rfl, hseen⟩ := htuned
  obtain ⟨k, σ, st, hk, hst⟩ := Cluster.consumes_of_seen? hco hseen
  refine ⟨n, k, σ, st, hn, hk, hst, fun t => ?_⟩
  have hover : ∀ w ∈ r.cluster.writers, w.stage = .done := fun w hw => by
    obtain ⟨-, now, hmem⟩ := hsound.called w hw
    rw [hcalls] at hmem
    cases hmem
  have hnone : r.cluster.unheard co.subscription t st.next = [] :=
    List.filterMap_eq_nil_iff.mpr fun m hm => by
      rw [heard?, hsilent.log m (List.mem_of_mem_drop hm)]
      rfl
  rw [Cluster.owed, Cluster.coming_of_done hover, hnone, hrun t,
    hblank n (Array.mem_of_getElem? hn) t]
  exact .empty

theorem Echoing.settled (h : r.Echoing i s) (hsettled : Settled i r.cluster) {n : Node}
    (hn : r.cluster.nodes[i]? = some n) (t : String) : Shelf.Owes (NaNFree r.calls) []
      (n.store.store.shelf s t) ((Store.run r.calls {}).shelf s t) := by
  obtain ⟨n₁, k, σ, st, hn₁, hk, hst, howes⟩ := h
  obtain rfl : n = n₁ := Option.some.inj (hn.symm.trans hn₁)
  obtain ⟨co, hco, -, hseen⟩ := Cluster.seen?_of_consumes hk hst
  have hnext : st.next = _ := hsettled.consumers n hn co hco st.next hseen
  have howed := howes t
  rwa [Cluster.owed, Cluster.coming_of_done hsettled.writers, Cluster.unheard, hnext,
    List.drop_length] at howed

/-- **When everything has come back**, the node lists what a store lists to which the same calls
were made, up to NaNs: if it listened to every subscription before the first call, has lost no
message since, and no target was deleted while something about it was still to come back. -/
theorem read_of_calls {c₀ : Cluster Network} {r₁ r₂ : Solo} (h₀ : c₀.Initial)
    (hlog : c₀.medium.bus.log = [])
    (h₁ : ReflTransGen (Step (EchoFree i) i) { cluster := c₀ } r₁) (hcalls : r₁.calls = [])
    (htuned : ∀ s, Called s r₂.calls → Tuned i s r₁.cluster)
    (h₂ : ReflTransGen (fun r r' => KeepsUp i r.cluster ∧ Step (EchoFree i) i r r') r₁ r₂)
    (hsettled : Settled i r₂.cluster) {n : Node} (hn : r₂.cluster.nodes[i]? = some n) (now : ℕ) :
    n.canonical.read.2 = .ok ((Store.run r₂.calls {}).canonical.read now).2 ∧
    (NaNFree r₂.calls → n.read.2 = .ok ((Store.run r₂.calls {}).read now).2) := by
  have h₁₂ : ReflTransGen (Step (EchoFree i) i) { cluster := c₀ } r₂ :=
    h₁.trans (ReflTransGen.mono (fun _ _ hstep => hstep.2) _ _ h₂)
  obtain ⟨s₀, hs₀⟩ := exists_not_called r₂.calls
  have hs₀' : ¬ Called s₀ r₁.calls := by
    rintro ⟨now, e, hmem⟩
    rw [hcalls] at hmem
    cases hmem
  have howes : ∀ s t, Shelf.Owes (NaNFree r₂.calls) [] (n.store.store.shelf s t)
      ((Store.run r₂.calls {}).shelf s t) := fun s t => by
    by_cases hs : Called s r₂.calls
    · have hstart := Echoing.start h₀ hlog h₁ hcalls (htuned s hs)
      have hsound := (uncalled h₀ hlog h₁ hs₀').1
      exact (hstart.run hsound h₂ hs₀).2.settled hsettled hn t
    · obtain ⟨-, -, hblank, hrun⟩ := uncalled h₀ hlog h₁₂ hs
      rw [hrun t, hblank n (Array.mem_of_getElem? hn) t]
      exact .empty
  have hsteady := (uncalled h₀ hlog h₁₂ hs₀).1.steady
  have hlife : n.store.store.lifetime = none := hsteady.lifetimes hn
  have hlife' := Store.lifetime_run r₂.calls
  have hlife_canonical : n.store.store.canonical.lifetime = none := hlife
  have hlife_canonical' : (Store.run r₂.calls {}).canonical.lifetime = none := hlife'
  have hfault : n.readFault = none := (hsteady.cores hn).readFault
  constructor
  · have hview : n.store.store.canonical.view = (Store.run r₂.calls {}).canonical.view := by
      refine Table.ext_find? fun s => Store.find?_view_congr fun t => ?_
      rw [Store.notification?_eq_shelf, Store.notification?_eq_shelf, Store.canonical_shelf,
        Store.canonical_shelf, (howes s t).notification?_eq]
    simp only [Node.read, Node.canonical, hfault, Watched.read,
      Store.read_of_lifetime_none hlife_canonical, Store.read_of_lifetime_none hlife_canonical',
      hview]
  · intro hfree
    have hview : n.store.store.view = (Store.run r₂.calls {}).view := by
      refine Table.ext_find? fun s => Store.find?_view_congr fun t => ?_
      obtain ⟨ha, hb⟩ := (howes s t).plain hfree
      rw [Store.notification?_eq_shelf, Store.notification?_eq_shelf, ← ha, ← hb,
        (howes s t).notification?_eq]
    simp only [Node.read, hfault, Watched.read, Store.read_of_lifetime_none hlife,
      Store.read_of_lifetime_none hlife', hview]

/-! ## One node that writes, deletes and writes again -/

variable {may : Cluster Network → String → Prop}

theorem run_of_acts {ts : List Task} (h : r.cluster.acts ts = some c) :
    ReflTransGen (fun r r' => KeepsUp i r.cluster ∧ Step may i r r') r
      { r with cluster := c } := by
  induction ts generalizing r with
  | nil =>
    obtain rfl := Option.some.inj h
    exact .refl
  | cons t ts ih =>
    rw [Cluster.acts] at h
    split at h
    · rename_i hold
      obtain ⟨d, hact, hacts⟩ := Option.bind_eq_some_iff.mp h
      have hkeeps : KeepsUp i r.cluster := fun _ _ _ _ next _ => hold ▸ Nat.zero_le next
      exact .head ⟨hkeeps, .act hact⟩ (ih (r := { r with cluster := d }) hacts)
    · cases h

instance (i : ℕ) (c : Cluster Network) (t : String) : Decidable (EchoFree i c t) :=
  inferInstanceAs (Decidable (∀ n ∈ c.nodes[i]?, ∀ co ∈ n.consumers, ∀ next ∈ c.seen? co,
    ∀ m ∈ c.medium.bus.log.drop next, heard? co.subscription t m = none))

instance (i : ℕ) (s : String) (c : Cluster Network) : Decidable (Tuned i s c) :=
  inferInstanceAs (Decidable (∃ n ∈ c.nodes[i]?, ∃ co ∈ n.consumers,
    co.subscription = s ∧ (c.seen? co).isSome = true))

instance (i : ℕ) (c : Cluster Network) : Decidable (Settled i c) :=
  decidable_of_iff ((∀ w ∈ c.writers, w.stage = .done) ∧
    ∀ n ∈ c.nodes[i]?, ∀ co ∈ n.consumers, ∀ next ∈ c.seen? co,
      next = c.medium.bus.log.length) ⟨fun h => ⟨h.1, h.2⟩, fun h => ⟨h.1, h.2⟩⟩

def alone : Cluster Network where
  medium := { bus := { sockets := #[false] }, lines := #[{ socket := 0 }] }
  nodes := #[(Node.create {} (some 0) 0).1]

theorem initial_alone : alone.Initial where
  nodes n hn := by
    obtain rfl := List.mem_singleton.mp (Array.mem_def.mp hn)
    exact ⟨{}, 0, 0, rfl, rfl, rfl, rfl, rfl⟩
  writers := rfl
  stoppers := rfl
  revoked := rfl

/-- The name `a` was announced, and the node consumes it. -/
def aloneTuned : Option (Cluster Network) :=
  (alone.acts [.discovery 0]).bind fun c =>
    Cluster.acts { c with medium := c.medium.put ⟨controlChannel, "a".toUTF8⟩ }
      [.discovery 0, .discovery 0, .dispatch 0, .consumer 0 0]

/-- No write is on its way, and no message is too old to be fetched. -/
def AtRest (c : Cluster Network) : Prop :=
  c.medium.bus.feed.oldest = 0 ∧ ∀ w ∈ c.writers, w.stage = .done

instance (c : Cluster Network) : Decidable (AtRest c) :=
  inferInstanceAs (Decidable (_ ∧ _))

/-- The node is called to write, and the write is over after so many moves. -/
def afterWrite (moves : ℕ) (c : Cluster Network) : Option (Cluster Network) :=
  Cluster.acts { c with writers := c.writers.push Node.dottedWrite }
    (List.replicate moves (.writer c.writers.size))

/-- The consumer takes so many steps. -/
def afterEcho (moves : ℕ) (c : Cluster Network) : Option (Cluster Network) :=
  c.acts (List.replicate moves (.consumer 0 0))

def afterDelete (c : Cluster Network) : Option (Cluster Network) :=
  c.nodes[0]?.map fun n => c.setNode 0 { n with store := n.store.deleteTarget "b.c" }

def writing : List StoreOp := [.write 0 "a" Node.dottedWrite.envelope]

def deleting : List StoreOp := [.deleteTarget "b.c"]

section Runs

variable {c' : Cluster Network} {moves : ℕ}

theorem tuned_run (h : aloneTuned = some c) :
    ReflTransGen (Step may 0) { cluster := alone } { cluster := c } := by
  obtain ⟨d, hd, hc⟩ := Option.bind_eq_some_iff.mp h
  have hrun : ∀ {c c' : Cluster Network} {ts}, c.acts ts = some c' →
      ReflTransGen (Step may 0) { cluster := c } { cluster := c' } := fun hacts =>
    ReflTransGen.mono (fun _ _ hstep => hstep.2) _ _
      (run_of_acts (r := { cluster := _ }) (i := 0) hacts)
  exact ((hrun hd).tail (.announced _ rfl)).trans (hrun hc)

theorem AtRest.keepsUp (h : AtRest c) : KeepsUp i c := fun _ _ _ _ next _ => h.1 ▸ Nat.zero_le next

theorem write_run (calls : List StoreOp) (hrest : AtRest c)
    (h : afterWrite moves c = some c') :
    ReflTransGen (fun r r' => KeepsUp 0 r.cluster ∧ Step may 0 r r') { cluster := c, calls }
      { cluster := c', calls := calls ++ writing } :=
  .head ⟨hrest.keepsUp, .write Node.dottedWrite 0 rfl rfl hrest.2⟩
    (run_of_acts (r := { cluster := _, calls := _ }) h)

theorem echo_run (calls : List StoreOp) (h : afterEcho moves c = some c') :
    ReflTransGen (fun r r' => KeepsUp 0 r.cluster ∧ Step may 0 r r') { cluster := c, calls }
      { cluster := c', calls } := run_of_acts (r := { cluster := _, calls := _ }) h

theorem delete_run (calls : List StoreOp) (hrest : AtRest c) (hmay : may c "b.c")
    (h : afterDelete c = some c') :
    ReflTransGen (fun r r' => KeepsUp 0 r.cluster ∧ Step may 0 r r') { cluster := c, calls }
      { cluster := c', calls := calls ++ deleting } := by
  obtain ⟨n, hn, rfl⟩ := Option.map_eq_some_iff.mp h
  exact .single ⟨hrest.keepsUp, .deleteTarget "b.c" hn hrest.2 hmay⟩

end Runs

/-- The node writes and hears it, deletes it, writes again and hears that: then it lists what it
would list if it heard nothing. -/
theorem read_alone : ∃ (r₁ r₂ : Solo) (n : Node),
    ReflTransGen (Step (EchoFree 0) 0) { cluster := alone } r₁ ∧ r₁.calls = [] ∧
    (∀ s, Called s r₂.calls → Tuned 0 s r₁.cluster) ∧
    ReflTransGen (fun r r' => KeepsUp 0 r.cluster ∧ Step (EchoFree 0) 0 r r') r₁ r₂ ∧
    Settled 0 r₂.cluster ∧ r₂.cluster.nodes[0]? = some n ∧
    r₂.calls = writing ++ deleting ++ writing ∧
    n.read.2 = .ok ((Store.run (writing ++ deleting ++ writing) {}).read 0).2 := by
  have hrun : aloneTuned.any (fun c => decide (Tuned 0 "a" c ∧ AtRest c) &&
      (afterWrite 8 c).any fun c => (afterEcho 3 c).any fun c =>
        decide (AtRest c ∧ EchoFree 0 c "b.c") && (afterDelete c).any fun c => decide (AtRest c) &&
          (afterWrite 6 c).any fun c => (afterEcho 2 c).any fun c =>
            decide (Settled 0 c ∧ c.nodes.size = 1)) = true := by
    decide +kernel
  simp only [Option.any_eq_true, Bool.and_eq_true, decide_eq_true_eq] at hrun
  obtain ⟨c₁, h₁, ⟨htuned, hrest₁⟩, c₂, h₂, c₃, h₃, ⟨hrest₃, hfree⟩, c₄, h₄, hrest₄, c₅, h₅, c₆, h₆,
    hsettled, hsize⟩ := hrun
  have hn : c₆.nodes[0]? = some c₆.nodes[0] := Array.getElem?_eq_getElem (by omega)
  have hcalls : ∀ s e now, StoreOp.write now s e ∈ writing ++ deleting ++ writing →
      s = "a" ∧ e = Node.dottedWrite.envelope := by
    intro s e now h
    simp only [writing, deleting, List.mem_append, List.mem_singleton, StoreOp.write.injEq] at h
    rcases h with (⟨-, h⟩ | h) | ⟨-, h⟩
    · exact h
    · cases h
    · exact h
  have hall : ∀ s, Called s (writing ++ deleting ++ writing) → Tuned 0 s c₁ :=
    fun s ⟨now, e, hmem⟩ => (hcalls s e now hmem).1 ▸ htuned
  have hrun₂ : ReflTransGen (fun r r' => KeepsUp 0 r.cluster ∧ Step (EchoFree 0) 0 r r')
      { cluster := c₁ } { cluster := c₆, calls := writing ++ deleting ++ writing } :=
    ((((write_run [] hrest₁ h₂).trans (echo_run _ h₃)).trans
      (delete_run _ hrest₃ hfree h₄)).trans (write_run _ hrest₄ h₅)).trans (echo_run _ h₆)
  refine ⟨{ cluster := c₁ }, { cluster := c₆, calls := writing ++ deleting ++ writing }, _,
    tuned_run h₁, rfl, hall, hrun₂, hsettled, hn, rfl, ?_⟩
  refine (read_of_calls initial_alone rfl (tuned_run h₁) rfl hall hrun₂ hsettled hn 0).2 ?_
  intro now s e hmem
  rw [(hcalls s e now hmem).2]
  exact Node.hasNoNaN_dottedWrite

/-- Where the target is deleted before the write has come back, the node lists it again, and a store
that hears nothing does not. -/
theorem read_alone_ne : ∃ (r₁ r₂ : Solo) (n : Node),
    ReflTransGen (Step (fun _ _ => True) 0) { cluster := alone } r₁ ∧ r₁.calls = [] ∧
    (∀ s, Called s r₂.calls → Tuned 0 s r₁.cluster) ∧
    ReflTransGen (fun r r' => KeepsUp 0 r.cluster ∧ Step (fun _ _ => True) 0 r r') r₁ r₂ ∧
    Settled 0 r₂.cluster ∧ r₂.cluster.nodes[0]? = some n ∧ r₂.calls = writing ++ deleting ∧
    n.read.2 ≠ .ok ((Store.run (writing ++ deleting) {}).read 0).2 := by
  have hrun : aloneTuned.any (fun c => decide (Tuned 0 "a" c ∧ AtRest c) &&
      (afterWrite 8 c).any fun c => decide (AtRest c) && (afterDelete c).any fun c =>
        (afterEcho 3 c).any fun c => decide (Settled 0 c) && c.nodes[0]?.any fun n =>
          decide (n.read.2 ≠ .ok ((Store.run (writing ++ deleting) {}).read 0).2)) = true := by
    decide +kernel
  simp only [Option.any_eq_true, Bool.and_eq_true, decide_eq_true_eq] at hrun
  obtain ⟨c₁, h₁, ⟨htuned, hrest₁⟩, c₂, h₂, hrest₂, c₃, h₃, c₄, h₄, hsettled, n, hn, hne⟩ := hrun
  have hall : ∀ s, Called s (writing ++ deleting) → Tuned 0 s c₁ := by
    rintro s ⟨now, e, hmem⟩
    simp only [writing, deleting, List.mem_append, List.mem_singleton, StoreOp.write.injEq] at hmem
    rcases hmem with ⟨-, rfl, -⟩ | hmem
    · exact htuned
    · cases hmem
  exact ⟨{ cluster := c₁ }, { cluster := c₄, calls := writing ++ deleting }, n, tuned_run h₁, rfl,
    hall, ((write_run [] hrest₁ h₂).trans (delete_run _ hrest₂ trivial h₃)).trans (echo_run _ h₄),
    hsettled, hn, rfl, hne⟩

end Solo

end Telemetry
