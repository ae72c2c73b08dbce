import Mathlib.Data.Fintype.EquivFin
import Telemetry.Proofs.Convergence
import Telemetry.Proofs.History
import Telemetry.Proofs.Owing
import Telemetry.Proofs.Tasks

/-!
# Calls to one node

Only one node of a cluster is called, and one call after another. Each write is kept at once and
comes back later, at any time between the calls that follow. Names that are never written leave no
trace.

* `Solo`, `Solo.Step`: a cluster of which one node is called, and the calls so far;
* `Solo.EchoFree`, `Solo.KeepsUp`, `Solo.Settled`: what the node is still to hear;
* **`Cluster.Steady.speaks`**: what a move of a write says on the bus;
* `Solo.Sound`: the invariant of the calls; **`Solo.Sound.step`**: it is kept;
* **`Solo.uncalled`**: nobody keeps anything of a name that is not written.
-/

namespace Telemetry

open Relation

/-! ## Calls -/

/-- The subscription that a change writes under. -/
def StoreOp.subscription? : StoreOp → Option String
  | write _ s _ => some s
  | _ => none

/-- A cluster, and what was asked of the store of one node so far. -/
structure Solo where
  cluster : Cluster Network
  calls : List StoreOp := []

namespace Solo

variable {may : Cluster Network → String → Prop} {i : ℕ} {s s₀ t : String} {r r' : Solo}

/-- One step of a cluster in which only the node `i` is called. Every call waits until the write
before it is over, and a target may be deleted where `may` says so. Others only announce names. -/
inductive Step (may : Cluster Network → String → Prop) (i : ℕ) : Solo → Solo → Prop where
  | act {r : Solo} {c : Cluster Network} {t : Task} : r.cluster.act t = some c →
      Step may i r { r with cluster := c }
  | write {r : Solo} (w : Writer) (now : ℕ) : w.node = i → w.stage = .storing →
      (∀ w' ∈ r.cluster.writers, w'.stage = .done) → Step may i r
        { cluster := { r.cluster with writers := r.cluster.writers.push w }
          calls := r.calls ++ [.write now w.subscription w.envelope] }
  | deleteTarget {r : Solo} {n : Node} (t : String) : r.cluster.nodes[i]? = some n →
      (∀ w' ∈ r.cluster.writers, w'.stage = .done) → may r.cluster t → Step may i r
        { cluster := r.cluster.setNode i { n with store := n.store.deleteTarget t }
          calls := r.calls ++ [.deleteTarget t] }
  | announced {r : Solo} (m : Message) : m.channel = controlChannel →
      Step may i r { r with cluster := { r.cluster with medium := r.cluster.medium.put m } }
  | clock {r : Solo} (now : ℕ) : Step may i r { r with cluster := { r.cluster with now } }
  | look {r : Solo} {j : ℕ} {n : Node} (w : Watched) : r.cluster.nodes[j]? = some n →
      w.store = n.store.store → Step may i r
        { r with cluster := r.cluster.setNode j { n with store := w } }

/-- No consumer of the node `i` is still to hear something about the target. -/
def EchoFree (i : ℕ) (c : Cluster Network) (t : String) : Prop :=
  ∀ n ∈ c.nodes[i]?, ∀ co ∈ n.consumers, ∀ next ∈ c.seen? co,
    ∀ m ∈ c.medium.bus.log.drop next, heard? co.subscription t m = none

/-- The node `i` listens to the data of a subscription. -/
def Tuned (i : ℕ) (s : String) (c : Cluster Network) : Prop :=
  ∃ n ∈ c.nodes[i]?, ∃ co ∈ n.consumers, co.subscription = s ∧ (c.seen? co).isSome = true

/-- No consumer of the node `i` has lost a message. -/
def KeepsUp (i : ℕ) (c : Cluster Network) : Prop :=
  ∀ n ∈ c.nodes[i]?, ∀ co ∈ n.consumers, ∀ next ∈ c.seen? co, c.medium.bus.feed.oldest ≤ next

/-- No write is on its way, and the consumers of the node `i` have seen the whole bus. -/
structure Settled (i : ℕ) (c : Cluster Network) : Prop where
  writers : ∀ w ∈ c.writers, w.stage = .done
  consumers : ∀ n ∈ c.nodes[i]?, ∀ co ∈ n.consumers, ∀ next ∈ c.seen? co,
    next = c.medium.bus.log.length

/-- Something was written under the subscription. -/
def Called (s : String) (calls : List StoreOp) : Prop := ∃ now e, .write now s e ∈ calls

/-- Nothing that was written has a NaN. -/
def NaNFree (calls : List StoreOp) : Prop := ∀ now s e, .write now s e ∈ calls → e.HasNoNaN

theorem Step.calls_mono (h : Step may i r r') : r.calls <+: r'.calls := by
  cases h with
  | write | deleteTarget => exact List.prefix_append _ _
  | act | announced | clock | look => exact List.prefix_refl _

end Solo

/-! ## What a write says -/

theorem accepted_target {s : String} {m : Message} {e : Envelope} (h : accepted s m = some e) :
    ∃ t, e.target? = some t ∧ dataChannel s t = m.channel := by
  unfold accepted judge at h
  split at h
  · cases h
  · split at h
    · cases h
    · split at h
      · rename_i e' _ htarget
        obtain rfl := Option.some.inj h
        obtain ⟨t, ht, hchannel⟩ := Option.map_eq_some_iff.mp htarget
        exact ⟨t, ht, hchannel⟩
      · cases h

theorem accepted_of_control {m : Message} (h : m.channel = controlChannel) (s : String) :
    accepted s m = none := by
  refine Option.eq_none_iff_forall_not_mem.mpr fun e he => ?_
  obtain ⟨t, -, hchannel⟩ := accepted_target he
  exact dataChannel_ne_controlChannel s t (hchannel.trans h)

theorem accepted_data_of_ne {w : Writer} {s t : String} (ht : w.envelope.target? = some t)
    (hne : s ≠ w.subscription) : accepted s (w.data t) = none := by
  have hjudge := judge_data (f := id) (g := id) (fun _ => rfl) ht s
  rw [Message.named_id, if_neg (by simpa [dataChannel_left_inj] using hne)] at hjudge
  rw [accepted, hjudge]
  rfl

/-- What a write of a node that nobody stops does in one move: it keeps what it writes, or it says
nothing but its announcement, or it publishes its data and is over. -/
inductive Writer.Speaks (a b : Network) (n n' : Node) (w w' : Writer) : Prop
  | keep : w.stage = .storing → w'.stage = .checking →
      n'.store = n.store.write w.subscription w.envelope → b = a → Speaks a b n n' w w'
  | silent : w.stage ≠ .storing → w'.stage ≠ .storing →
      (w'.stage = .done → w.envelope.target? = none) → n'.store = n.store →
      (b = a ∨ b = a.put w.announcement) → Speaks a b n n' w w'
  | publish {t : String} : w.stage ≠ .storing → w'.stage = .done →
      w.envelope.target? = some t → n'.store = n.store → b = a.put (w.data t) →
      Speaks a b n n' w w'

namespace Cluster

variable {s : String} {c c' : Cluster Network}

theorem Steady.speaks (hc : c.Steady s) {q : ℕ} (hact : c.act (.writer q) = some c') :
    ∃ w w' n n', c.writers[q]? = some w ∧ w.stage ≠ .done ∧ w.Onward w' ∧
      c'.writers = c.writers.setIfInBounds q w' ∧ c.nodes[w.node]? = some n ∧
      c'.nodes = c.nodes.setIfInBounds w.node n' ∧ n'.core = n.core ∧
      w.Speaks c.medium c'.medium n n' w' := by
  have hsteady := hc.step (.act hact)
  obtain ⟨w, n, r, n', hw, hn, hr, hn', rfl⟩ := actWriter_cases hact
  have hlt := (Array.getElem?_eq_some_iff.mp hn).1
  have hrev : c.isRevoked w = false := by
    unfold isRevoked
    split
    · rw [hc.revoked]
      rfl
    · rfl
  rw [hrev] at hr
  obtain ⟨link, hlink, hopen⟩ := (hc.cores hn).link
  have hlink : n.link = some link := hlink
  have hcancelled : n.cancelled = false := (hc.cores hn).cancelled
  have hmoves := Writer.moves (hc.cores hn) (hc.writers hw) hr
  have hcancelled' : n'.cancelled = false :=
    (hsteady.cores (Array.getElem?_setIfInBounds_self_of_lt hlt)).cancelled
  obtain rfl : n' = r.node := by
    rcases hn' with rfl | ⟨-, rfl⟩
    · rfl
    · cases hcancelled'
  refine ⟨w, { w with stage := r.stage, finished := if r.stage = .done then some c.now else none },
    n, r.node, hw, ?_, ⟨rfl, rfl, rfl, rfl, fun hdone => ?_⟩, rfl, hn, rfl, hmoves.core_eq, ?_⟩
  · intro hdone
    simp [Writer.act, hdone] at hr
  · simp [Writer.act, hdone] at hr
  by_cases hpub : ∃ t att, w.stage = .publishing t att
  · obtain ⟨t, att, hstage⟩ := hpub
    obtain ⟨ht, rfl⟩ := (hc.writers hw).publishing t att hstage
    simp only [Writer.act, hstage, hlink, hcancelled, Bool.or_self,
      Attempt.act_starting hopen, Option.map_some, Option.some.injEq] at hr
    subst hr
    exact .publish (by simp [hstage]) rfl ht rfl rfl
  have hnot : ∀ t att, w.stage ≠ .publishing t att := fun t att h => hpub ⟨t, att, h⟩
  cases Writer.act_outcome hr with
  | store hstage => exact .keep hstage rfl rfl rfl
  | quit _ hquit =>
    rcases hquit with hnone | ⟨hcancel, -⟩
    · cases hlink.symm.trans hnone
    · cases hcancelled.symm.trans hcancel
  | check hstage | known hstage _ | unknown hstage _ | overtaken hstage _ | enter hstage _
  | pause hstage | targeted hstage _ | request hstage | unrequested hstage =>
    exact .silent (by simp [hstage]) (by simp) (by simp) rfl (.inl rfl)
  | untargeted hstage ht => exact .silent (by simp [hstage]) (by simp) (fun _ => ht) rfl (.inl rfl)
  | announce hstage hl hp =>
    obtain rfl := Option.some.inj (hlink.symm.trans hl)
    obtain rfl := (Prod.mk.inj (hp.symm.trans (hopen.publish _))).1
    exact .silent (by simp [hstage]) (by simp) (by simp) rfl (.inr rfl)
  | unannounced hstage hm =>
    rcases hm with rfl | ⟨e, hp⟩
    · exact .silent (by simp [hstage]) (by simp) (by simp) rfl (.inl rfl)
    · exact .silent (by simp [hstage]) (by simp) (by simp) rfl (.inl (Network.publish_error hp))
  | linger hstage | publish hstage _ _ | unpublished hstage _ => exact absurd hstage (hnot _ _)

/-! ## The invariant of the calls -/

theorem Steady.setStore (hc : c.Steady s) {i : ℕ} {n : Node} (hn : c.nodes[i]? = some n)
    {w : Watched} (hw : w.store.lifetime = n.store.store.lifetime) :
    (c.setNode i { n with store := w }).Steady s := by
  have hnodes : ∀ {j : ℕ} {m : Node}, (c.setNode i { n with store := w }).nodes[j]? = some m →
      ∃ n, c.nodes[j]? = some n ∧ m.core = n.core ∧
        m.store.store.lifetime = n.store.store.lifetime := fun hj =>
    rel_of_set (P := fun n m => m.core = n.core ∧
      m.store.store.lifetime = n.store.store.lifetime) hn hj (fun _ => ⟨rfl, rfl⟩) ⟨rfl, hw⟩
  exact {
    stoppers := hc.stoppers
    revoked := hc.revoked
    cores := fun hj => by
      obtain ⟨n, hn, hcore, -⟩ := hnodes hj
      exact hcore ▸ hc.cores hn
    lifetimes := fun hj => by
      obtain ⟨n, hn, -, hlife⟩ := hnodes hj
      exact hlife.trans (hc.lifetimes hn)
    writers := hc.writers
    streams := fun hj hh => by
      obtain ⟨n, hn, hcore, -⟩ := hnodes hj
      exact hc.streams hn (hcore ▸ hh)
    unique := fun hj hj' hh hh' => by
      obtain ⟨n, hn, hcore, -⟩ := hnodes hj
      obtain ⟨n', hn', hcore', -⟩ := hnodes hj'
      exact hc.unique hn hn' (hcore ▸ hh) (hcore' ▸ hh') }

end Cluster

namespace Solo

variable {may : Cluster Network → String → Prop} {i : ℕ} {s s₀ t : String} {r r' : Solo}

theorem Called.mono {calls calls' : List StoreOp} (h : Called s calls) (hp : calls <+: calls') :
    Called s calls' := by
  obtain ⟨now, e, hmem⟩ := h
  exact ⟨now, e, hp.subset hmem⟩

theorem NaNFree.mono {calls calls' : List StoreOp} (h : NaNFree calls') (hp : calls <+: calls') :
    NaNFree calls := fun now s e hmem => h now s e (hp.subset hmem)

theorem exists_not_called (calls : List StoreOp) : ∃ s, ¬ Called s calls := by
  obtain ⟨s, hs⟩ := Infinite.exists_notMem_finset (calls.filterMap StoreOp.subscription?).toFinset
  refine ⟨s, fun ⟨now, e, hmem⟩ => hs ?_⟩
  rw [List.mem_toFinset, List.mem_filterMap]
  exact ⟨_, hmem, rfl⟩

/-- Nobody stops a node, all writes on their way were called, and only the last of them may not be
over. Nothing is written under `s₀`. -/
structure Sound (s₀ : String) (i : ℕ) (r : Solo) : Prop where
  steady : r.cluster.Steady s₀
  called : ∀ w ∈ r.cluster.writers, w.node = i ∧
    ∃ now, .write now w.subscription w.envelope ∈ r.calls
  last : ∀ (q : ℕ) w, r.cluster.writers[q]? = some w → w.stage ≠ .done →
    q + 1 = r.cluster.writers.size

theorem Sound.step (h : r.Sound s₀ i) (hstep : Step may i r r') (hnew : ¬ Called s₀ r'.calls) :
    r'.Sound s₀ i := by
  cases hstep with
  | act hact =>
    obtain ⟨hsize, hold⟩ := Cluster.act_onward hact
    refine ⟨h.steady.step (.act hact), fun w' hw' => ?_, fun q w' hw' hdone => ?_⟩
    · obtain ⟨q, hq⟩ := Array.getElem?_of_mem hw'
      obtain ⟨w, hw, honward⟩ := hold q w' hq
      rw [honward.node, honward.subscription, honward.envelope]
      exact h.called w (Array.mem_of_getElem? hw)
    · obtain ⟨w, hw, honward⟩ := hold q w' hw'
      exact hsize ▸ h.last q w hw fun hd => hdone (honward.done hd)
  | write w now hnode hstage hover =>
    refine ⟨h.steady.step (.call w hstage fun hs => ?_), fun w' hw' => ?_,
      fun q w' hw' hdone => ?_⟩
    · exact absurd ⟨now, w.envelope, by simp [hs]⟩ hnew
    · rcases Array.mem_push.mp hw' with hw' | rfl
      · obtain ⟨hnode', now', hmem⟩ := h.called w' hw'
        exact ⟨hnode', now', List.mem_append_left _ hmem⟩
      · exact ⟨hnode, now, by simp⟩
    · rw [Array.getElem?_push] at hw'
      split at hw'
      · rename_i hq
        rw [Array.size_push, hq]
      · exact absurd (hover w' (Array.mem_of_getElem? hw')) hdone
  | deleteTarget t hn _ _ =>
    refine ⟨h.steady.setStore hn rfl, fun w hw => ?_, h.last⟩
    obtain ⟨hnode, now, hmem⟩ := h.called w hw
    exact ⟨hnode, now, List.mem_append_left _ hmem⟩
  | announced m _ => exact ⟨h.steady.step (.outside m), h.called, h.last⟩
  | clock now => exact ⟨h.steady.step (.clock now), h.called, h.last⟩
  | look w hn hw => exact ⟨h.steady.step (.look w hn hw), h.called, h.last⟩

/-! ## Names that are not written -/

theorem silent_of_act {c c' : Cluster Network} (hc : c.Steady s₀) (h : c.Silent s) {t : Task}
    (hact : c.act t = some c') : c'.Silent s where
  writers w' hw' := by
    obtain ⟨q, hq⟩ := Array.getElem?_of_mem hw'
    obtain ⟨w, hw, honward⟩ := (Cluster.act_onward hact).2 q w' hq
    rw [honward.subscription]
    exact h.writers w (Array.mem_of_getElem? hw)
  log := by
    have hput : ∀ m, c'.medium = c.medium.put m → accepted s m = none →
        ∀ m ∈ c'.medium.bus.log, accepted s m = none := fun m hmed hm m' hm' => by
      rw [hmed, Network.put, Network.log_put] at hm'
      rcases List.mem_append.mp hm' with hm' | hm'
      · exact h.log m' hm'
      · rwa [List.mem_singleton.mp hm']
    by_cases ht : ∃ q, t = .writer q
    · obtain ⟨q, rfl⟩ := ht
      obtain ⟨w, w', n, n', hw, -, -, -, -, -, -, hspeaks⟩ := hc.speaks hact
      have hne : s ≠ w.subscription := (h.writers w (Array.mem_of_getElem? hw)).symm
      cases hspeaks with
      | keep _ _ _ hmed => exact hmed ▸ h.log
      | silent _ _ _ _ hmed =>
        rcases hmed with hmed | hmed
        · exact hmed ▸ h.log
        · exact hput _ hmed (accepted_of_control rfl s)
      | publish _ _ ht _ hmed => exact hput _ hmed (accepted_data_of_ne ht hne)
    · have hfeed := Cluster.act_feed (fun q hq => ht ⟨q, hq⟩) hact
      rw [Bus.log, hfeed]
      exact h.log

/-- **Nobody keeps anything of a name that is not written.** -/
theorem uncalled {c₀ : Cluster Network} (h₀ : c₀.Initial) (hlog : c₀.medium.bus.log = [])
    (hrun : ReflTransGen (Step may i) { cluster := c₀ } r) (hnew : ¬ Called s r.calls) :
    r.Sound s i ∧ r.cluster.Silent s ∧ r.cluster.Blank s ∧
      ∀ t, (Store.run r.calls {}).shelf s t = {} := by
  induction hrun with
  | refl =>
    refine ⟨⟨h₀.steady s, fun w hw => ?_, fun q w hw => ?_⟩, ⟨fun w hw => ?_, fun m hm => ?_⟩,
      fun n hn t => ?_, fun t => rfl⟩
    · simp [h₀.writers] at hw
    · simp [h₀.writers] at hw
    · simp [h₀.writers] at hw
    · rw [hlog] at hm
      cases hm
    · rw [(h₀.core hn).2.1]
      rfl
  | @tail r r' _ hstep ih =>
    obtain ⟨hsound, hsilent, hblank, hrun⟩ := ih fun h => hnew (h.mono hstep.calls_mono)
    refine ⟨hsound.step hstep hnew, ?_⟩
    cases hstep with
    | act hact =>
      have hsilent' := silent_of_act hsound.steady hsilent hact
      exact ⟨hsilent', hblank.step hsound.steady (.act hact) hsilent', hrun⟩
    | write w now hnode hstage hover =>
      have hne : w.subscription ≠ s := fun hs => hnew ⟨now, w.envelope, by simp [hs]⟩
      refine ⟨⟨fun w' hw' => ?_, hsilent.log⟩, hblank, fun t => ?_⟩
      · rcases Array.mem_push.mp hw' with hw' | rfl
        · exact hsilent.writers w' hw'
        · exact hne
      · rw [Store.run_concat, StoreOp.apply, Store.shelf_write_of_ne hne.symm, hrun t]
    | deleteTarget t hn _ _ =>
      have hdelete : ∀ st : Store, ∀ t', st.shelf s t' = {} →
          (st.deleteTarget t).shelf s t' = {} := fun st t' h => by
        rw [Store.shelf, Store.shelf?_deleteTarget]
        split
        · rfl
        · exact h
      refine ⟨⟨hsilent.writers, hsilent.log⟩, fun m hm t' => ?_, fun t' => ?_⟩
      · obtain ⟨j, hj⟩ := Array.getElem?_of_mem hm
        rcases Cluster.node_of_set hn hj with ⟨-, rfl⟩ | ⟨-, hj⟩
        · exact hdelete _ t' (hblank _ (Array.mem_of_getElem? hn) t')
        · exact hblank m (Array.mem_of_getElem? hj) t'
      · rw [Store.run_concat, StoreOp.apply]
        exact hdelete _ t' (hrun t')
    | announced m hm =>
      refine ⟨⟨hsilent.writers, fun m' hm' => ?_⟩, hblank, hrun⟩
      rcases List.mem_append.mp ((Network.log_put _ m) ▸ hm') with hm' | hm'
      · exact hsilent.log m' hm'
      · rw [List.mem_singleton.mp hm']
        exact accepted_of_control hm s
    | clock now => exact ⟨⟨hsilent.writers, hsilent.log⟩, hblank, hrun⟩
    | @look j n w hn hw =>
      have hsilent' : (r.cluster.setNode j { n with store := w }).Silent s :=
        ⟨hsilent.writers, hsilent.log⟩
      exact ⟨hsilent', hblank.step hsound.steady (.look w hn hw) hsilent', hrun⟩

end Solo

end Telemetry
