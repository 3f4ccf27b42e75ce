import DistGalois.BcPull.Assertions
import DistGalois.BcPull.Simulation

/-!
# The assertions of `BC::go` on many hosts

On one host no assertion of `BC::go` fails (`loop_asserts`).  On many hosts each host
checks the same assertions on its own records, and none of them fails either, under every
version and on every partition of a graph with fewer than `2 ^ 32` edges, although the δ
phase leaves the hosts' records apart from one host's (`bc_unevenForkSplit`):

* the BFS, `PredAndSucc` and the σ phase keep every replica in step with one host's
  records, so every replica ends the σ phase without predecessors or σ buffers, and holds
  the δ token only where it has no successors left;
* the records a host keeps of vertices it holds no replica of are touched only by the
  resets and the apply loops, which leave them clear;
* in a δ round every replica hands on the token it holds, and `DependencyPropChanges`
  gives one back only where the replica's own `num_successors` is `0`, whatever the syncs
  of `trim2` then did to it: the line-845 check of the next round reads that count before
  anything else writes it.  A replica takes the token at most once per source, so the
  hosts' δ loop ends within one round more than the graph has edges.

Main results:

* `DpReady` — token holders without successors and `trim` at `0` — is kept by every δ
  round on every host (`DpReady.dpRound`), and the hosts' pending vertices drop in every
  round that pushes (`pendingHosts_dpRound`);
* `dependencyPropogation_ready` — the δ phase on every host ends within
  `G.numEdges + 1` rounds with no failed assertion;
* `SigmaReady` — the replicas in step, every host's assertions, and the records of
  vertices a host holds no replica of — is kept by every σ round;
* `iteration_hostsClean` — one source on every host leaves every host clean for the next;
* `loop_start_asserts` — `BC::go`'s loop over any sources on every host, from
  `InitializeGraph`, ends with no failed assertion on any host;
* `mainRuns_asserts` — so does `main`'s run loop, for any number of runs:
  `InitializeGraph::go` between runs leaves every host clean.
-/

namespace DistGalois.BcPull

namespace Partition

open DependencyPropogation

variable {G : Graph} (P : Partition G)

/-! ## A δ round on every host -/

section DpRound

/-- The hosts' records after the push superstep of a δ round while `cur` is the current
source. -/
def dpPushed (cur : Nat) (S : Nat → State) : Nat → State :=
  (P.superstep (fun h => DependencyPropogation.superstep (P.localGraph h) cur
    (P.localGraph h).nodesWithEdges) S).1

/-- The hosts' records after the push superstep, the syncs of `trim2` and `to_add_float`
and the apply loops of a δ round: what `DependencyPropChanges` then runs on. -/
def dpApplied (optVersion cur : Nat) (S : Nat → State) : Nat → State :=
  P.onHosts DPAdd.go (P.sync reduceAddToAddFloat broadcastToAddFloat
    (P.onHosts DPTrim.go (P.sync reduceAddTrim2 (dpBroadcast optVersion) (P.dpPushed cur S))))

variable {P} {optVersion cur i : Nat} {S : Nat → State}

theorem dpRound_fst : (P.dpRound optVersion cur i S).1 =
    P.onHosts DependencyPropChanges.go (P.dpApplied optVersion cur S) := rfl

/-- A vertex with edges on host `h` ends the round with `DependencyPropChanges` run on it. -/
theorem dpRound_data_of_edges {h u : Nat} (he : (P.localGraph h).edges u ≠ []) :
    ((P.dpRound optVersion cur i S).1 h).data u =
      DependencyPropChanges.operator ((P.dpApplied optVersion cur S h).data u) := by
  simp only [dpRound_fst, onHosts_apply, DependencyPropChanges.go, doAllWithEdges, if_pos he]

/-- A field that ignores `trim2` and `trim` is kept by the sync of `trim2`, whichever
broadcast the version pairs with it. -/
theorem sync_trim2_field {β : Type} (f : NodeData → β) (h2 : ∀ d x, f { d with trim2 := x } = f d)
    (ht : ∀ d x, f { d with trim := x } = f d) (h v : Nat) :
    f ((P.sync reduceAddTrim2 (dpBroadcast optVersion) S h).data v) = f ((S h).data v) :=
  sync_field (R := reduceAddTrim2) (B := dpBroadcast optVersion) f (fun m _ => h2 m _)
    (fun d => h2 d _) (fun d _ => by
      unfold dpBroadcast; split
      · exact h2 d _
      · exact ht d _) h v

/-- A field that ignores `to_add_float` is kept by its sync. -/
theorem sync_toAddFloat_field {β : Type} (f : NodeData → β)
    (ha : ∀ d x, f { d with toAddFloat := x } = f d) (h v : Nat) :
    f ((P.sync reduceAddToAddFloat broadcastToAddFloat S h).data v) = f ((S h).data v) :=
  sync_field (R := reduceAddToAddFloat) (B := broadcastToAddFloat) f (fun m _ => ha m _)
    (fun d => ha d _) (fun d _ => ha d _) h v

/-- The syncs and the apply loops keep the length and the flags the push superstep left. -/
theorem flags_dpApplied (h u : Nat) :
    flags ((P.dpApplied optVersion cur S h).data u) = flags ((P.dpPushed cur S h).data u) := by
  rw [dpApplied, onHosts_apply, DPAdd.go, doAll_field flags (fun _ => flags_dpAdd),
    sync_toAddFloat_field flags (fun _ _ => rfl), onHosts_apply, DPTrim.go,
    doAll_field flags (fun _ => flags_dpTrim), sync_trim2_field flags (fun _ _ => rfl) fun _ _ => rfl]

/-- After a δ round every host's token holders have no successors left. -/
theorem tokensClear_dpRound (h : Nat) :
    TokensClear (P.localGraph h) ((P.dpRound optVersion cur i S).1 h) := by
  intro u hu hh
  have he := Graph.mem_nodesWithEdges.mp hu
  rw [Holds, dpRound_data_of_edges he] at hh
  rw [dpRound_data_of_edges he]
  exact holds_changes hu (flags_dpApplied h u) hh

/-- A host's pending vertices never grow in a δ round, and drop when it pushed. -/
theorem pending_dpRound (h : Nat) :
    pending (P.localGraph h) ((P.dpRound optVersion cur i S).1 h) ≤ pending (P.localGraph h) (S h) ∧
      ((DependencyPropogation.superstep (P.localGraph h) cur (P.localGraph h).nodesWithEdges (S h)).2 ≠ 0 →
        pending (P.localGraph h) ((P.dpRound optVersion cur i S).1 h) < pending (P.localGraph h) (S h)) :=
  pending_after fun u hu hp => by
    rw [dpRound_data_of_edges (Graph.mem_nodesWithEdges.mp hu)] at hp
    exact pending_changes hu (flags_dpApplied h u) hp

/-- A host's assertions survive a δ round exactly when its token holders had no successors
left. -/
theorem asserts_dpRound (h : Nat) :
    ((P.dpRound optVersion cur i S).1 h).asserts = true ↔
      (S h).asserts = true ∧ TokensClear (P.localGraph h) (S h) :=
  (steps_core _ cur _ (P.localGraph h).nodup_nodesWithEdges (S h, 0)).2.1

/-- A field that neither a push, nor the token hand-over, nor the syncs, the apply loops
and the flag update write is kept by a δ round on every host. -/
theorem dpRound_field {α : Type} (f : NodeData → α) (hc : ∀ e, f (core e) = f e)
    (hs : ∀ e, f (spent e) = f e) (hr : ∀ e, f (roundFrame e) = f e) (h u : Nat) :
    f (((P.dpRound optVersion cur i S).1 h).data u) = f ((S h).data u) := by
  have hop : ∀ d, f (DependencyPropChanges.operator d) = f d ∧ f (DPAdd.operator d) = f d ∧
      f (DPTrim.operator d) = f d := fun d => by
    obtain ⟨h₁, h₂, h₃⟩ := roundFrame_operators d
    exact ⟨by rw [← hr, h₃, hr], by rw [← hr, h₂, hr], by rw [← hr, h₁, hr]⟩
  have hpush : f ((P.dpPushed cur S h).data u) = f ((S h).data u) := by
    show f (_ : NodeData) = _
    rw [← hc, show core ((P.dpPushed cur S h).data u) = _ from superstep_core _ cur (S h) u]
    split <;> simp only [hc, hs]
  have happ : f (((P.dpRound optVersion cur i S).1 h).data u) =
      f ((P.dpApplied optVersion cur S h).data u) := by
    simp only [dpRound_fst, onHosts_apply, DependencyPropChanges.go, doAllWithEdges]
    split
    · exact (hop _).1
    · rfl
  rw [happ, dpApplied, onHosts_apply, DPAdd.go, doAll_field f fun _ d => (hop d).2.1,
    sync_toAddFloat_field f fun d _ => (hc _).symm.trans (hc d), onHosts_apply, DPTrim.go,
    doAll_field f fun _ d => (hop d).2.2,
    sync_trim2_field f (fun d _ => (hc _).symm.trans (hc d)) (fun d _ => (hr _).symm.trans (hr d)), hpush]

/-- `trim` stays `0` on every host's records of the graph's vertices: `DPTrim` only ever
zeroes it, and versions 3 and 4 broadcast the master's. -/
theorem trim_dpRound (ht : ∀ h < P.numHosts, ∀ v < G.size, ((S h).data v).trim = 0) {h v : Nat}
    (hh : h < P.numHosts) (hv : v < G.size) : (((P.dpRound optVersion cur i S).1 h).data v).trim = 0 := by
  have hpush : ∀ h < P.numHosts, ((P.dpPushed cur S h).data v).trim = 0 := fun h hh => by
    have := congrArg NodeData.trim (superstep_core (P.localGraph h) cur (S h) v)
    simp only [core, spent, apply_ite NodeData.trim, ite_self] at this
    show ((DependencyPropogation.superstep _ cur _ (S h)).1.data v).trim = 0
    rw [this]
    exact ht h hh v hv
  have hsync : ((P.sync reduceAddTrim2 (dpBroadcast optVersion) (P.dpPushed cur S) h).data v).trim = 0 := by
    have hred : (P.reduced reduceAddTrim2 (P.dpPushed cur S) v).trim = 0 :=
      (reduced_field NodeData.trim fun _ _ => rfl).trans (hpush _ (P.master_lt v))
    have hown := hpush h hh
    by_cases hm : h = P.master v
    · subst hm; rw [sync_master]; exact hred
    · by_cases hmi : h ∈ P.mirrors v
      · rw [sync_mirror hmi]
        generalize P.reduced reduceAddTrim2 (P.dpPushed cur S) v = M at hred ⊢
        generalize (P.dpPushed cur S h).data v = d at hown ⊢
        unfold dpBroadcast; split
        · exact hown
        · exact hred
      · rw [sync_other hm hmi]; exact hown
  have hop : ∀ d, (DependencyPropChanges.operator d).trim = d.trim ∧ (DPAdd.operator d).trim = d.trim :=
    fun d => ⟨by unfold DependencyPropChanges.operator; split <;> rfl,
      by unfold DPAdd.operator; split <;> rfl⟩
  have happ : (((P.dpRound optVersion cur i S).1 h).data v).trim =
      ((P.dpApplied optVersion cur S h).data v).trim := by
    simp only [dpRound_fst, onHosts_apply, DependencyPropChanges.go, doAllWithEdges]
    split
    · exact (hop _).1
    · rfl
  rw [happ, dpApplied, onHosts_apply, DPAdd.go, doAll_field NodeData.trim (fun _ d => (hop d).2),
    sync_toAddFloat_field NodeData.trim (fun _ _ => rfl), onHosts_apply, DPTrim.go,
    doAll_data_of_lt ((P.size_localGraph h).symm ▸ hv), DPTrim.operator]
  split
  · rfl
  · exact hsync

end DpRound

/-! ## The δ phase on every host -/

section DpLoop

/-- The vertices with edges that may still push, over all hosts. -/
def pendingHosts (S : Nat → State) : Nat :=
  ((List.range P.numHosts).map fun h => pending (P.localGraph h) (S h)).sum

/-- Each host has at most as many pending vertices as edges. -/
theorem pendingHosts_le_numEdges (S : Nat → State) : P.pendingHosts S ≤ G.numEdges := by
  rw [← P.sum_numEdges_hosts]
  exact List.sum_le_sum fun h _ => (List.countP_le_length _).trans Graph.length_nodesWithEdges_le

/-- Between two δ rounds on every host: token holders have no successors left, and `trim`
is `0` on every record of the graph's vertices. -/
structure DpReady (S : Nat → State) : Prop where
  tokens : ∀ h < P.numHosts, TokensClear (P.localGraph h) (S h)
  trim : ∀ h < P.numHosts, ∀ v < G.size, ((S h).data v).trim = 0

variable {P} {optVersion cur i : Nat} {S : Nat → State}

theorem DpReady.dpRound (hS : P.DpReady S) : P.DpReady (P.dpRound optVersion cur i S).1 :=
  ⟨fun h _ => tokensClear_dpRound h, fun _ hh _ hv => trim_dpRound hS.trim hh hv⟩

/-- A round that pushes on some host leaves fewer pending vertices over the hosts. -/
theorem pendingHosts_dpRound (hw : (P.dpRound optVersion cur i S).2 ≠ 0) :
    P.pendingHosts (P.dpRound optVersion cur i S).1 < P.pendingHosts S := by
  obtain ⟨w, hw, hw0⟩ := List.exists_mem_ne_zero_of_sum_ne_zero hw
  obtain ⟨h, hh, rfl⟩ := List.mem_map.mp hw
  exact List.sum_lt_sum _ _ (fun h _ => (pending_dpRound h).1) ⟨h, hh, (pending_dpRound h).2 hw0⟩

/-- **The δ phase on every host.** From records where token holders have no successors
left and `trim` is `0`, `DependencyPropogation::go` on every host ends within one round
more than the hosts' pending vertices, under every version, with the same records ready:
no host's line-845 check fails, and every host keeps its predecessor counts and `to_add`
buffers. -/
theorem dependencyPropogation_ready (optVersion cur : Nat) (hS : P.DpReady S) {fuel : Nat}
    (hfuel : P.pendingHosts S < fuel) :
    ∃ S' k, P.dependencyPropogation optVersion cur fuel S = some (S', k) ∧
      k ≤ P.pendingHosts S + 1 ∧ P.DpReady S' ∧ ∀ h < P.numHosts, (S' h).asserts = (S h).asserts ∧
        ∀ v, ((S' h).data v).numPredecessors = ((S h).data v).numPredecessors ∧
          ((S' h).data v).toAdd = ((S h).data v).toAdd := by
  let I : (Nat → State) → Prop := fun S' => P.DpReady S' ∧ ∀ h < P.numHosts,
    (S' h).asserts = (S h).asserts ∧ ∀ v, ((S' h).data v).numPredecessors = ((S h).data v).numPredecessors ∧
      ((S' h).data v).toAdd = ((S h).data v).toAdd
  have hI : ∀ i S', I S' → I (P.dpRound optVersion cur i S').1 := fun i S' hS' =>
    ⟨hS'.1.dpRound, fun h hh => ⟨(Bool.eq_iff_iff.mpr ((asserts_dpRound h).trans
        (and_iff_left (hS'.1.tokens h hh)))).trans (hS'.2 h hh).1, fun v =>
      ⟨(dpRound_field NodeData.numPredecessors (fun _ => rfl) (fun _ => rfl) (fun _ => rfl) h v).trans
        ((hS'.2 h hh).2 v).1,
       (dpRound_field NodeData.toAdd (fun _ => rfl) (fun _ => rfl) (fun _ => rfl) h v).trans
        ((hS'.2 h hh).2 v).2⟩⟩⟩
  obtain ⟨⟨S', k⟩, hgo, hk, hready, hkept⟩ := doWhile_of_measure I P.pendingHosts hI
    (fun _ _ _ hw => pendingHosts_dpRound hw) ⟨hS, fun _ _ => ⟨rfl, fun _ => ⟨rfl, rfl⟩⟩⟩ hfuel 0
  exact ⟨S', k, hgo, by omega, hready, hkept⟩

end DpLoop

/-! ## The σ phase on every host -/

section Sigma

open NumShortestPaths

variable {P} {S : Nat → State}

/-- Between two σ rounds: the replicas in step, no failed assertion on any host, and
every host's records of the vertices it holds no replica of without predecessors or σ
buffers. -/
structure SigmaReady (S : Nat → State) : Prop where
  synced : P.Synced S
  asserts : ∀ h < P.numHosts, (S h).asserts = true
  other : ∀ h < P.numHosts, ∀ v < G.size, P.isReplica h v = false →
    ((S h).data v).numPredecessors = 0 ∧ ((S h).data v).trim = 0 ∧ ((S h).data v).toAdd = 0

/-- On a vertex it holds no replica of a host's σ round runs only the apply loops and the
flag update. -/
theorem nspRound_of_not_replica (hS : P.Synced S) (i : Nat) {h v : Nat} (hh : h < P.numHosts)
    (hv : v < G.size) (hr : P.isReplica h v = false) :
    ((P.nspRound i S).1 h).data v =
      NumShortestPathsChanges.operator (NSPAdd.operator (NSPTrim.operator ((S h).data v))) := by
  have hout : v ∉ (P.localGraph h).nodesWithEdges := fun hm =>
    Graph.mem_nodesWithEdges.mp hm (P.edges_eq_nil_of_not_replica hr)
  simp only [nspRound, onHosts_apply, NumShortestPathsChanges.go, NSPAdd.go, NSPTrim.go,
    doAll_data_of_lt ((P.size_localGraph h).symm ▸ hv), sync_of_not_replica hr, Partition.superstep,
    NumShortestPaths.superstep]
  rw [(steps_foldl _ _ (P.localGraph h).nodup_nodesWithEdges (S h, 0) (hS.buffersFit hh)).2.2.2 v,
    if_neg fun h => hout h.1]

/-- A σ round on every host keeps `SigmaReady`. -/
theorem SigmaReady.nspRound (hS : P.SigmaReady S) (i : Nat) : P.SigmaReady (P.nspRound i S).1 where
  synced := hS.synced.nspRound i
  asserts h hh := by
    simp only [Partition.nspRound, onHosts_apply, NumShortestPathsChanges.go_asserts, NSPAdd.go, NSPTrim.go,
      doAll_asserts, sync_asserts, Partition.superstep, NumShortestPaths.superstep,
      (steps_foldl _ _ (P.localGraph h).nodup_nodesWithEdges (S h, 0) (hS.synced.buffersFit hh)).2.1]
    exact hS.asserts h hh
  other h hh v hv hr := by
    obtain ⟨hp, ht, ha⟩ := hS.other h hh v hv hr
    have hd : NSPAdd.operator (NSPTrim.operator ((S h).data v)) = (S h).data v := by
      rw [NSPTrim.operator, if_neg (by omega), NSPAdd.operator, if_neg (by omega)]
    rw [nspRound_of_not_replica hS.synced i hh hv hr, hd, NumShortestPathsChanges.operator_numPredecessors,
      NumShortestPathsChanges.operator_trim, NumShortestPathsChanges.operator_toAdd]
    exact ⟨hp, ht, ha⟩

end Sigma

/-! ## One source, then all of them -/

section Loop

open SSSP

/-- Between two sources, on every host: no failed assertion so far, and the predecessor
counts and σ buffers clear on every record of the graph's vertices. -/
def HostsClean (S : Nat → State) : Prop := ∀ h < P.numHosts, Clean (P.localGraph h) (S h)

theorem hostsClean_start : P.HostsClean P.start := fun h _ => clean_initializeGraph (P.localGraph h)

variable {P}

theorem iteration_of_phases {optVersion : Nat} {sched : Nat → Nat → List Nat} {fuel src : Nat}
    {S S₂ S₃ S₄ : Nat → State} {k₂ k₃ k₄ : Nat}
    (h₂ : P.sssp sched fuel (P.onHosts (fun G => InitializeIteration.go G src) S) = some (S₂, k₂))
    (h₃ : P.numShortestPaths fuel (P.predAndSucc S₂) = some (S₃, k₃))
    (h₄ : P.dependencyPropogation optVersion src fuel S₃ = some (S₄, k₄)) :
    P.iteration optVersion sched fuel src S =
      some (P.onHosts (fun G => doAll G fun _ => BC.operator) S₄) := by
  simp [iteration, h₂, h₃, h₄]

/-- From clean hosts, the BFS and `PredAndSucc` on every host hand the σ phase
`SigmaReady` records. -/
theorem sigmaReady_predAndSucc {t : Nat} {S S₂ : Nat → State} (hS : P.HostsClean S)
    (hframe : ∀ h, LengthFrame (P.onHosts (fun G => InitializeIteration.go G t) S h) (S₂ h))
    (hsync : P.Synced (P.predAndSucc S₂)) : P.SigmaReady (P.predAndSucc S₂) where
  synced := hsync
  asserts h hh := by
    simp only [predAndSucc, sync_asserts, onHosts_apply, PredAndSucc.go_asserts, (hframe h).1]
    exact (InitializeIteration.go_asserts _ t (S h)).mpr ⟨(hS h hh).1, fun v hv => ((hS h hh).2 v hv).1⟩
  other h hh v hv hr := by
    have hv' : v < (P.localGraph h).size := (P.size_localGraph h).symm ▸ hv
    have hrec : (S₂ h).data v =
        { InitializeIteration.operator t v ((S h).data v) with currentLength := len (S₂ h) v } := by
      rw [(hframe h).2 v, onHosts_apply, InitializeIteration.go_data_of_lt hv']
    obtain ⟨hp, ht, ha⟩ := (hS h hh).2 v hv'
    have hfit : PredAndSucc.CountsFit ((S₂ h).data v) := by
      rw [hrec]; simp [PredAndSucc.CountsFit, hp]
    rw [predAndSucc, sync_of_not_replica hr, sync_of_not_replica hr, onHosts_apply,
      PredAndSucc.go_data v hfit]
    simp [PredAndSucc.bump, Graph.predCount, P.edges_eq_nil_of_not_replica hr, hrec, hp, ht, ha, u32]

/-- After the σ phase on every host, with every master holding the single host's final
σ records: the δ phase finds its tokens clear and `trim` at `0`, and every record of the
graph's vertices has no predecessors and an empty `to_add`. -/
theorem dpReady_of_sigma {t D : Nat} {Q : State} {S₃ : Nat → State} (hn : G.size ≤ infinity)
    (hP : NumShortestPaths.Start G t Q) (hD : ∀ v < G.size, ∀ d, IsDist G t v d → d ≤ D)
    (hS : P.SigmaReady S₃)
    (hm : ∀ v < G.size, (P.masters S₃).data v = (NumShortestPaths.expected G t Q (D + 1)).data v) :
    P.DpReady S₃ ∧ ∀ h < P.numHosts, ∀ v < G.size,
      ((S₃ h).data v).numPredecessors = 0 ∧ ((S₃ h).data v).toAdd = 0 := by
  have hf : ∀ {h v : Nat}, h < P.numHosts → v < G.size → P.isReplica h v = true →
      ∀ {α : Type} (f : NodeData → α), (∀ d, f (NumShortestPaths.sigmaPart d) = f d) →
        f ((S₃ h).data v) = f ((NumShortestPaths.expected G t Q (D + 1)).data v) :=
    fun hh hv hr _ f hsig => (hS.synced.field hh hv hr f hsig).trans (congrArg f (hm _ hv))
  refine ⟨⟨fun h hh u hu hH => ?_, fun h hh v hv => ?_⟩, fun h hh v hv => ?_⟩
  · have hr := P.isReplica_of_mem_nodesWithEdges hu
    have hus := P.lt_size_of_mem_nodesWithEdges hu
    obtain ⟨w, hw⟩ := List.exists_mem_of_ne_nil _ (Graph.mem_nodesWithEdges.mp hu)
    have hu' : u ∈ G.nodesWithEdges :=
      Graph.mem_nodesWithEdges.mpr (List.ne_nil_of_mem (P.mem_edges_of_mem_localGraph hh hw))
    rw [hf hh hus hr NodeData.numSuccessors fun _ => rfl]
    refine tokensClear_expected hn hP hD u hu' ⟨?_, ?_⟩
    · rw [← hf hh hus hr NodeData.currentLength fun _ => rfl]; exact hH.1
    · rw [← hf hh hus hr NodeData.propogationFlag fun _ => rfl]; exact hH.2
  · cases hr : P.isReplica h v
    · exact (hS.other h hh v hv hr).2.1
    · exact (hS.synced.clear h hh v hv hr).1
  · cases hr : P.isReplica h v
    · exact ⟨(hS.other h hh v hv hr).1, (hS.other h hh v hv hr).2.2⟩
    · exact ⟨(hf hh hv hr NodeData.numPredecessors fun _ => rfl).trans (expected_clean hn hP hD hv).1,
        (hS.synced.clear h hh v hv hr).2⟩

/-- One source on every host from clean hosts, under every version, whatever the
partition and the BFS orders: every loop ends, no assertion fails on any host, and every
host is clean for the next source. -/
theorem iteration_hostsClean (hn : G.size ≤ infinity) (hm : G.numEdges < 2 ^ 32) (optVersion : Nat)
    {sched : Nat → Nat → List Nat} (hsched : ∀ h i, (sched h i).Perm (P.localGraph h).nodesWithEdges)
    {fuel : Nat} (hfuel : G.size < fuel) (hfuelE : G.numEdges < fuel) (src : Nat) {S : Nat → State}
    (hS : P.HostsClean S) :
    ∃ S', P.iteration optVersion sched fuel src S = some S' ∧ P.HostsClean S' := by
  obtain ⟨D, hD, hDex⟩ := exists_maxDist (G := G) (t := src)
  have hDf : D < fuel := by
    rcases hDex with h | ⟨v, hv, hvD⟩
    · omega
    · have := hvD.lt_size hv; omega
  have hclean : ∀ h < P.numHosts, ∀ v < G.size, ((S h).data v).numPredecessors = 0 ∧
      ((S h).data v).trim = 0 ∧ ((S h).data v).toAdd = 0 :=
    fun h hh v hv => (hS h hh).2 v ((P.size_localGraph h).symm ▸ hv)
  -- the BFS on every host, and on one host from the masters' records
  obtain ⟨S₂, k₂, h₂, -⟩ := P.sssp_eq_some hn src hsched S hD hDf
  obtain ⟨hex, hrep, hframe⟩ := P.exact_of_sssp hn hm hsched h₂
  obtain ⟨s₁, k₁, h₁, -⟩ := SSSP.go_eq_some G hn src (fun _ => List.Perm.refl G.nodesWithEdges)
    (P.masters S) hD hDf
  obtain ⟨hex', hframe'⟩ := SSSP.exact_of_go hn hm (fun _ => List.Perm.refl _) h₁
  -- `PredAndSucc` leaves the replicas in step with that host, and the σ phase keeps them so
  obtain ⟨hsync, hmasters⟩ := P.predAndSucc_synced (fun h hh u hu _ => hclean h hh u hu)
    (fun _ _ => rfl) hframe hframe' fun h hh u hu hr => (hrep.agree h hh u hr).trans (hex.len_eq hex' hu)
  have hP := NumShortestPaths.start_of_go hn hm (fun _ => List.Perm.refl _)
    (fun v hv => hclean _ (P.master_lt v) v hv) h₁
  have hrel := P.numShortestPaths_sim hsync hmasters fuel
  rw [NumShortestPaths.go_expected hn hm hP hD hDex fuel hDf] at hrel
  obtain ⟨⟨S₃, k₃⟩, h₃, hm₃⟩ : ∃ r, P.numShortestPaths fuel (P.predAndSucc S₂) = some r ∧
      ∀ v < G.size, (P.masters r.1).data v =
        (NumShortestPaths.expected G src (PredAndSucc.go G s₁) (D + 1)).data v := by
    generalize P.numShortestPaths fuel (P.predAndSucc S₂) = r at hrel
    cases hrel with
    | some h => exact ⟨_, rfl, h.1.2⟩
  have hσ : P.SigmaReady S₃ := doWhile_inv P.SigmaReady (fun i _ h => h.nspRound i)
    (P.sigmaReady_predAndSucc hS hframe hsync) h₃
  -- the δ phase on every host
  obtain ⟨hready, hzero⟩ := P.dpReady_of_sigma hn hP hD hσ hm₃
  obtain ⟨S₄, k₄, h₄, -, hready₄, hkept⟩ := P.dependencyPropogation_ready optVersion src hready
    (lt_of_le_of_lt (P.pendingHosts_le_numEdges S₃) hfuelE)
  refine ⟨_, iteration_of_phases h₂ h₃ h₄, fun h hh => ⟨?_, fun v hv => ?_⟩⟩
  · rw [onHosts_apply, doAll_asserts, (hkept h hh).1]
    exact hσ.asserts h hh
  · have hvs : v < G.size := P.size_localGraph h ▸ hv
    obtain ⟨hp, ht, ha⟩ := BC.operator_fields ((S₄ h).data v)
    rw [onHosts_apply, doAll_data_of_lt hv, hp, ht, ha, ((hkept h hh).2 v).1, ((hkept h hh).2 v).2]
    exact ⟨(hzero h hh v hvs).1, hready₄.trim h hh v hvs, (hzero h hh v hvs).2⟩

/-- `BC::go`'s loop over any sources on every host from clean hosts ends with clean hosts. -/
theorem loop_hostsClean (hn : G.size ≤ infinity) (hm : G.numEdges < 2 ^ 32) (optVersion : Nat)
    {sched : Nat → Nat → Nat → List Nat}
    (hsched : ∀ i h j, (sched i h j).Perm (P.localGraph h).nodesWithEdges) {fuel : Nat}
    (hfuel : G.size < fuel) (hfuelE : G.numEdges < fuel) (srcs : List Nat) (i : Nat)
    {S : Nat → State} (hS : P.HostsClean S) :
    ∃ S', P.loop optVersion sched fuel i srcs S = some S' ∧ P.HostsClean S' := by
  induction srcs generalizing i S with
  | nil => exact ⟨S, rfl, hS⟩
  | cons src rest ih =>
    obtain ⟨S', hit, hS'⟩ := P.iteration_hostsClean hn hm optVersion (hsched i) hfuel hfuelE src hS
    simpa [loop, hit] using ih (i + 1) hS'

variable (P)

/-- **No assertion fails on any host.** `BC::go`'s loop over any sources, run in bulk
synchronous supersteps on every host of any partition of a graph of at most `infinity`
vertices and fewer than `2 ^ 32` edges, under every `__OPT_VERSION__`, from
`InitializeGraph::go` on zero-initialised records and with any processing orders for the
BFS supersteps: given more rounds per loop than the graph has vertices and edges, it ends,
and every host's assertions have held. -/
theorem loop_start_asserts (hn : G.size ≤ infinity) (hm : G.numEdges < 2 ^ 32) (optVersion : Nat)
    {sched : Nat → Nat → Nat → List Nat}
    (hsched : ∀ i h j, (sched i h j).Perm (P.localGraph h).nodesWithEdges) {fuel : Nat}
    (hfuel : G.size < fuel) (hfuelE : G.numEdges < fuel) (srcs : List Nat) :
    ∃ S, P.loop optVersion sched fuel 0 srcs P.start = some S ∧
      ∀ h < P.numHosts, (S h).asserts = true := by
  obtain ⟨S, hS, hclean⟩ := loop_hostsClean hn hm optVersion hsched hfuel hfuelE srcs 0
    P.hostsClean_start
  exact ⟨S, hS, fun h hh => (hclean h hh).1⟩

/-- The uneven fork split over two hosts, every vertex a source in turn, under version 4:
the run where the master of `1` ends with the wrong centrality fails no assertion. -/
theorem loop_start_asserts_unevenForkSplit :
    ∃ S, unevenForkSplit.loop 4 (fun _ h _ => (unevenForkSplit.localGraph h).nodesWithEdges) 8 0
        [0, 1, 2, 3, 4, 5, 6] unevenForkSplit.start = some S ∧
      ∀ h < unevenForkSplit.numHosts, (S h).asserts = true :=
  unevenForkSplit.loop_start_asserts (by decide) (by decide) 4 (fun _ _ _ => List.Perm.refl _)
    (by decide) (by decide) _

end Loop

end Partition

end DistGalois.BcPull
