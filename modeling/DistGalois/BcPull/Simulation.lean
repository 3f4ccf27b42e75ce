import DistGalois.BcPull.Replicas
import DistGalois.BcPull.ShortestPathCounts

/-!
# The σ phase on many hosts is the σ phase on one

A σ round on many hosts runs the pull superstep over each host's edges, totals every
vertex's `trim` and `to_add` buffers on its master with the add-syncs and copies the
totals to every mirror, and then runs `NSPTrim`, `NSPAdd` and
`NumShortestPathsChanges` on every replica.  Once every replica holds its master's
values of the fields the round reads and buffers nothing, the totals are the buffers
one host fills from all of the vertex's edges, so every replica ends the round with the
record one host's round leaves: the masters' records take the single-host round and
the replicas stay in step.  The hosts' work adds up to the single host's, so both loops
stop in the same round.

Main results:

* `Synced` — the replicas agree on what a σ round reads and buffer nothing — is kept by
  every round (`Synced.nspRound`);
* `nspRound_replica` — what a round leaves in every replica of a vertex, in terms of
  the masters' records;
* `numShortestPaths_sim` — from records in step with one host's, `NumShortestPaths::go`
  on every host returns exactly when it returns on one host, after as many rounds, with
  every master holding the single host's record;
* `predAndSucc_synced` — after the BFS and `PredAndSucc` on every host the records are
  in step with one host's;
* `numShortestPaths_phases` — so the first three phases of an iteration on many hosts
  are those on one host, whatever the partition.
-/

namespace DistGalois.BcPull

namespace NumShortestPaths

/-- The DAG edges `v` pulls in a σ superstep from `s`, over all its stored edges. -/
def pulledEdges (G : Graph) (s : State) (v : Nat) : Nat :=
  if Active s v then pullCount s v (G.edges v) else 0

/-- The path counts those edges bring. -/
def pulledPaths (G : Graph) (s : State) (v : Nat) : Nat :=
  if Active s v then pullSum s v (G.edges v) else 0

section Records

/-- The part of a record a σ round reads and writes: every field but those of the δ phase
and of `BC`. -/
def sigmaPart (d : NodeData) : NodeData :=
  { d with dependency := 0, betweenessCentrality := 0, trim2 := 0, toAddFloat := 0,
           depPropFlag := false }

theorem sigmaPart_pulled (d : NodeData) (c a : Nat) :
    sigmaPart (pulled d c a) = pulled (sigmaPart d) c a := rfl

theorem sigmaPart_nspTrim (d : NodeData) :
    sigmaPart (NSPTrim.operator d) = NSPTrim.operator (sigmaPart d) := by
  by_cases h : 0 < d.trim <;> simp [NSPTrim.operator, sigmaPart, h]

theorem sigmaPart_nspAdd (d : NodeData) :
    sigmaPart (NSPAdd.operator d) = NSPAdd.operator (sigmaPart d) := by
  by_cases h : 0 < d.toAdd <;> simp [NSPAdd.operator, sigmaPart, h]

theorem sigmaPart_changes (d : NodeData) :
    sigmaPart (NumShortestPathsChanges.operator d) =
      NumShortestPathsChanges.operator (sigmaPart d) := by
  unfold NumShortestPathsChanges.operator sigmaPart
  dsimp only
  split_ifs <;> rfl

/-- The σ round's part of a record after the apply loops depends only on its part before. -/
theorem sigmaPart_applyRound (d : NodeData) (c a : Nat) :
    sigmaPart (applyRound (pulled d c a)) = applyRound (pulled (sigmaPart d) c a) := by
  simp only [applyRound, sigmaPart_changes, sigmaPart_nspAdd, sigmaPart_nspTrim, sigmaPart_pulled]

theorem buffersFit_of_clear {d : NodeData} (h : d.trim = 0 ∧ d.toAdd = 0) : BuffersFit d :=
  ⟨h.1 ▸ by decide, h.2 ▸ by decide⟩

/-- `NSPTrim` neither reads nor writes `to_add`. -/
theorem nspTrim_set_toAdd (d : NodeData) (x : Nat) :
    NSPTrim.operator { d with toAdd := x } = { NSPTrim.operator d with toAdd := x } := by
  by_cases h : 0 < d.trim <;> simp [NSPTrim.operator, h]

/-- The apply loops empty both buffers. -/
theorem applyRound_clear (d : NodeData) : (applyRound d).trim = 0 ∧ (applyRound d).toAdd = 0 := by
  simp [applyRound]

/-- A replica's record through the σ round's syncs: whatever its host pulled, the totals
`u32 c` and `u32 a` replace the buffers around `NSPTrim`, so the apply loops end as they
end on a record that pulled `c` edges bringing `a` paths. -/
theorem applyRound_synced {d : NodeData} (hd : d.trim = 0 ∧ d.toAdd = 0) (c a c' a' : Nat) :
    NumShortestPathsChanges.operator (NSPAdd.operator
        (Field.toAdd.set (NSPTrim.operator (Field.trim.set (pulled d c' a') (u32 c))) (u32 a))) =
      applyRound (pulled d c a) := by
  have hrec : Field.toAdd.set (NSPTrim.operator (Field.trim.set (pulled d c' a') (u32 c))) (u32 a) =
      NSPTrim.operator (pulled d c a) := by
    show { NSPTrim.operator _ with toAdd := u32 a } = _
    rw [← nspTrim_set_toAdd]
    simp [Field.trim, pulled, hd.1, hd.2]
  rw [hrec]
  rfl

end Records

/-! ## One host's round on records with empty buffers -/

section Single

variable {G : Graph} {s : State}

/-- One host's σ round from records with empty buffers. -/
theorem body_data_of_clear (hs : ∀ u < G.size, (s.data u).trim = 0 ∧ (s.data u).toAdd = 0)
    (i : Nat) {v : Nat} (hv : v < G.size) :
    (body G i s).1.data v = applyRound (pulled (s.data v) (pulledEdges G s v) (pulledPaths G s v)) := by
  have hfit : ∀ u ∈ G.nodesWithEdges, BuffersFit ((s, 0).1.data u) := fun u hu =>
    buffersFit_of_clear (hs u (G.lt_size_of_edges_ne_nil (Graph.mem_nodesWithEdges.mp hu)))
  rw [body_data, if_pos hv, superstep, (steps_foldl G _ G.nodup_nodesWithEdges (s, 0) hfit).2.2.2 v]
  by_cases hm : v ∈ G.nodesWithEdges
  · by_cases ha : Active s v <;> simp [hm, ha, pulledEdges, pulledPaths, pulled_zero,
      BuffersFit, (hs v hv).1, (hs v hv).2]
  · have he : G.edges v = [] := by simpa using hm
    simp [hm, pulledEdges, pulledPaths, he, pullCount, pullSum, pulled_zero, BuffersFit,
      (hs v hv).1, (hs v hv).2]

/-- One host's σ work from records with empty buffers. -/
theorem body_work_of_clear (hs : ∀ u < G.size, (s.data u).trim = 0 ∧ (s.data u).toAdd = 0)
    (i : Nat) : (body G i s).2 = (G.nodesWithEdges.map (pulledEdges G s)).sum := by
  have hfit : ∀ u ∈ G.nodesWithEdges, BuffersFit ((s, 0).1.data u) := fun u hu =>
    buffersFit_of_clear (hs u (G.lt_size_of_edges_ne_nil (Graph.mem_nodesWithEdges.mp hu)))
  rw [show (body G i s).2 = (superstep G G.nodesWithEdges s).2 from rfl, superstep,
    (steps_foldl G _ G.nodup_nodesWithEdges (s, 0) hfit).2.2.1, Nat.zero_add]
  rfl

/-- States that agree on the graph's vertices pull alike. -/
theorem pulled_congr {s' : State} (h : ∀ u < G.size, s.data u = s'.data u) {v : Nat}
    (hv : v < G.size) : pulledEdges G s v = pulledEdges G s' v ∧ pulledPaths G s v = pulledPaths G s' v := by
  have hpulls : ∀ w ∈ G.edges v, Pulls s v w ↔ Pulls s' v w := fun w hw => by
    simp only [Pulls, h v hv, h w (Graph.lt_size_of_mem_edges hw)]
  have hact : Active s v ↔ Active s' v := by simp only [Active, h v hv]
  refine ⟨?_, ?_⟩
  · simp only [pulledEdges, hact, pullCount]
    split
    · exact List.countP_congr fun w hw => by simp [hpulls w hw]
    · rfl
  · simp only [pulledPaths, hact, pullSum]
    split
    · refine congrArg List.sum (List.map_congr_left fun w hw => ?_)
      simp only [hpulls w hw, h w (Graph.lt_size_of_mem_edges hw)]
    · rfl

end Single

end NumShortestPaths

namespace Partition

open NumShortestPaths

/-! ## The replicas in step -/

section Synced

variable {G : Graph} (P : Partition G)

/-- Between two σ rounds: every replica of a vertex holds its master's part of the record
a round reads and writes, and its `trim` and `to_add` buffers are empty. -/
structure Synced (S : Nat → State) : Prop where
  agree : ∀ h < P.numHosts, ∀ v < G.size, P.isReplica h v = true →
    sigmaPart ((S h).data v) = sigmaPart ((P.masters S).data v)
  clear : ∀ h < P.numHosts, ∀ v < G.size, P.isReplica h v = true →
    ((S h).data v).trim = 0 ∧ ((S h).data v).toAdd = 0

theorem isReplica_master (v : Nat) : P.isReplica (P.master v) v = true := by simp [isReplica]

theorem isReplica_of_mem_nodesWithEdges {h u : Nat} (hu : u ∈ (P.localGraph h).nodesWithEdges) :
    P.isReplica h u = true := by
  obtain ⟨w, hw⟩ := List.exists_mem_of_ne_nil _ (Graph.mem_nodesWithEdges.mp hu)
  exact (P.isReplica_of_mem_edges hw).1

theorem lt_size_of_mem_nodesWithEdges {h u : Nat} (hu : u ∈ (P.localGraph h).nodesWithEdges) :
    u < G.size :=
  P.size_localGraph h ▸ Graph.lt_size_of_edges_ne_nil (Graph.mem_nodesWithEdges.mp hu)

/-- Every stored copy of the edges of `v` brings what `g` gives it once. -/
theorem sum_map_hosts (v : Nat) (g : Nat → Nat) :
    ((List.range P.numHosts).map fun h => (((P.localGraph h).edges v).map g).sum).sum =
      ((G.edges v).map g).sum := by
  rw [← ((P.edges_perm v).map g).sum_eq]
  induction List.range P.numHosts with
  | nil => rfl
  | cons _ l ih => simp [ih]

variable {P} {S : Nat → State}

theorem Synced.clear_master (hS : P.Synced S) {v : Nat} (hv : v < G.size) :
    ((P.masters S).data v).trim = 0 ∧ ((P.masters S).data v).toAdd = 0 :=
  hS.clear _ (P.master_lt v) v hv (P.isReplica_master v)

theorem Synced.field (hS : P.Synced S) {h v : Nat} (hh : h < P.numHosts) (hvs : v < G.size)
    (hv : P.isReplica h v = true) {α : Type} (f : NodeData → α) (hf : ∀ d, f (sigmaPart d) = f d) :
    f ((S h).data v) = f ((P.masters S).data v) := by
  rw [← hf, hS.agree h hh v hvs hv, hf]

/-- Every vertex a host runs the pull operator on has empty buffers. -/
theorem Synced.buffersFit (hS : P.Synced S) {h : Nat} (hh : h < P.numHosts) :
    ∀ u ∈ (P.localGraph h).nodesWithEdges, BuffersFit ((S h, 0).1.data u) := fun u hu =>
  buffersFit_of_clear (hS.clear h hh u (P.lt_size_of_mem_nodesWithEdges hu)
    (P.isReplica_of_mem_nodesWithEdges hu))

/-- A replica pulls an edge its host stores exactly when the masters' records pull it. -/
theorem Synced.pulls_iff (hS : P.Synced S) {h u w : Nat} (hh : h < P.numHosts)
    (hw : w ∈ (P.localGraph h).edges u) : Pulls (S h) u w ↔ Pulls (P.masters S) u w := by
  obtain ⟨hu, hw'⟩ := P.isReplica_of_mem_edges hw
  obtain ⟨hus, hws⟩ := P.lt_size_of_mem_localGraph hw
  simp only [Pulls, hS.field hh hus hu NodeData.currentLength (fun _ => rfl),
    hS.field hh hws hw' NodeData.currentLength (fun _ => rfl),
    hS.field hh hws hw' NodeData.propogationFlag (fun _ => rfl)]

theorem Synced.active_iff (hS : P.Synced S) {h u : Nat} (hh : h < P.numHosts) (hus : u < G.size)
    (hu : P.isReplica h u = true) : Active (S h) u ↔ Active (P.masters S) u := by
  simp only [Active, hS.field hh hus hu NodeData.currentLength (fun _ => rfl),
    hS.field hh hus hu NodeData.numPredecessors (fun _ => rfl)]

theorem Synced.pullCount_eq (hS : P.Synced S) {h : Nat} (hh : h < P.numHosts) (u : Nat) :
    pullCount (S h) u ((P.localGraph h).edges u) = pullCount (P.masters S) u ((P.localGraph h).edges u) :=
  List.countP_congr fun w hw => by simp [hS.pulls_iff hh hw]

theorem Synced.pullSum_eq (hS : P.Synced S) {h : Nat} (hh : h < P.numHosts) (u : Nat) :
    pullSum (S h) u ((P.localGraph h).edges u) = pullSum (P.masters S) u ((P.localGraph h).edges u) := by
  unfold NumShortestPaths.pullSum
  refine congrArg List.sum (List.map_congr_left fun w hw => ?_)
  simp only [hS.pulls_iff hh hw, hS.field hh (P.lt_size_of_mem_localGraph hw).2
    (P.isReplica_of_mem_edges hw).2 NodeData.numShortestPaths (fun _ => rfl)]

/-- Host `h`'s pull superstep fills each of its replicas' buffers from the edges it stores,
as the masters' records would. -/
theorem Synced.superstep_replica (hS : P.Synced S) {h v : Nat} (hh : h < P.numHosts)
    (hvs : v < G.size) (hv : P.isReplica h v = true) :
    (NumShortestPaths.superstep (P.localGraph h) (P.localGraph h).nodesWithEdges (S h)).1.data v =
      pulled ((S h).data v)
        (if Active (P.masters S) v then pullCount (P.masters S) v ((P.localGraph h).edges v) else 0)
        (if Active (P.masters S) v then pullSum (P.masters S) v ((P.localGraph h).edges v) else 0) := by
  have hfit := hS.buffersFit hh
  have hc := hS.clear h hh v hvs hv
  rw [NumShortestPaths.superstep,
    (steps_foldl _ _ (P.localGraph h).nodup_nodesWithEdges (S h, 0) hfit).2.2.2 v]
  by_cases hm : v ∈ (P.localGraph h).nodesWithEdges
  · by_cases ha : Active (P.masters S) v <;>
      simp [hm, ha, hS.active_iff hh hvs hv, hS.pullCount_eq hh, hS.pullSum_eq hh, pulled_zero, BuffersFit,
        hc.1, hc.2]
  · have he : (P.localGraph h).edges v = [] := by simpa using hm
    simp [hm, he, pullCount, pullSum, pulled_zero, BuffersFit, hc.1, hc.2]

/-- The add-sync of `trim` after the pull supersteps totals, on the master, the edges the
masters' records pull over all of the vertex's edges. -/
theorem Synced.reduced_trim (hS : P.Synced S) {v : Nat} (hvs : v < G.size) :
    Field.trim.get (P.reduced reduceAddTrim (fun h =>
        (NumShortestPaths.superstep (P.localGraph h) (P.localGraph h).nodesWithEdges (S h)).1) v) =
      u32 (pulledEdges G (P.masters S) v) := by
  refine (P.get_reduced_add Field.trim _ v
    (fun h => if Active (P.masters S) v then
      NumShortestPaths.pullCount (P.masters S) v ((P.localGraph h).edges v) else 0)
    (fun h hh => ?_) fun h _ hr => by simp [P.edges_eq_nil_of_not_replica hr, NumShortestPaths.pullCount]).trans ?_
  · obtain ⟨hlt, hr⟩ := P.isReplica_of_replica hh
    simp [hS.superstep_replica hlt hvs hr, Field.trim, pulled, (hS.clear h hlt v hvs hr).1]
  · unfold pulledEdges
    split
    · exact congrArg u32 (P.sum_countP_hosts v _)
    · simp

/-- The add-sync of `to_add` totals, on the master, the paths those edges bring. -/
theorem Synced.reduced_toAdd (hS : P.Synced S) {v : Nat} (hvs : v < G.size) :
    Field.toAdd.get (P.reduced reduceAddToAdd (P.onHosts NSPTrim.go (P.sync reduceAddTrim broadcastTrim
        fun h => (NumShortestPaths.superstep (P.localGraph h) (P.localGraph h).nodesWithEdges (S h)).1)) v) =
      u32 (pulledPaths G (P.masters S) v) := by
  refine (P.get_reduced_add Field.toAdd _ v
    (fun h => if Active (P.masters S) v then
      NumShortestPaths.pullSum (P.masters S) v ((P.localGraph h).edges v) else 0)
    (fun h hh => ?_) fun h _ hr => by simp [P.edges_eq_nil_of_not_replica hr, NumShortestPaths.pullSum]).trans ?_
  · obtain ⟨hlt, hr⟩ := P.isReplica_of_replica hh
    show ((NSPTrim.go _ _).data v).toAdd = _
    rw [NSPTrim.go, doAll_field NodeData.toAdd (fun _ => NSPTrim.operator_toAdd),
      sync_field (R := reduceAddTrim) (B := broadcastTrim) NodeData.toAdd (fun _ _ => rfl) (fun _ => rfl)
        (fun _ _ => rfl)]
    simp [hS.superstep_replica hlt hvs hr, pulled, (hS.clear h hlt v hvs hr).2]
  · unfold pulledPaths
    split
    · exact congrArg u32 (P.sum_map_hosts v _)
    · simp

/-- What a σ round leaves in a replica of a vertex of the graph: the single host's apply
loops on its record, with the buffers the masters' records pull over all of the vertex's
edges. -/
theorem Synced.nspRound_replica (hS : P.Synced S) (i : Nat) {h v : Nat} (hh : h < P.numHosts)
    (hv : P.isReplica h v = true) (hvs : v < G.size) :
    ((P.nspRound i S).1 h).data v =
      applyRound (pulled ((S h).data v) (pulledEdges G (P.masters S) v) (pulledPaths G (P.masters S) v)) := by
  have hrep := P.replica_of_isReplica hh hv
  have hsize : v < (P.localGraph h).size := (P.size_localGraph h).symm ▸ hvs
  set r : Nat → State := fun h =>
    (NumShortestPaths.superstep (P.localGraph h) (P.localGraph h).nodesWithEdges (S h)).1
  set T := P.onHosts NSPTrim.go (P.sync reduceAddTrim broadcastTrim r)
  have htrim : (P.sync reduceAddTrim broadcastTrim r h).data v =
      Field.trim.set ((r h).data v) (u32 (pulledEdges G (P.masters S) v)) :=
    (sync_ofField_replica Field.trim (fun a b => u32 (a + b)) 0 (fun _ _ _ => rfl) (fun _ => rfl)
      hrep).trans (congrArg _ (hS.reduced_trim hvs))
  have hadd : (P.sync reduceAddToAdd broadcastToAdd T h).data v =
      Field.toAdd.set ((T h).data v) (u32 (pulledPaths G (P.masters S) v)) :=
    (sync_ofField_replica Field.toAdd (fun a b => u32 (a + b)) 0 (fun _ _ _ => rfl) (fun _ => rfl)
      hrep).trans (congrArg _ (hS.reduced_toAdd hvs))
  have hT : (T h).data v = NSPTrim.operator ((P.sync reduceAddTrim broadcastTrim r h).data v) :=
    doAll_data_of_lt hsize
  calc ((P.nspRound i S).1 h).data v
      = NumShortestPathsChanges.operator (NSPAdd.operator
          ((P.sync reduceAddToAdd broadcastToAdd T h).data v)) := by
        simp only [nspRound, onHosts, NumShortestPathsChanges.go, NSPAdd.go, doAll_data_of_lt hsize]
        rfl
    _ = _ := by
        rw [hadd, hT, htrim, hS.superstep_replica hh hvs hv]
        exact applyRound_synced (hS.clear h hh v hvs hv) _ _ _ _

/-- A σ round keeps the replicas in step. -/
theorem Synced.nspRound (hS : P.Synced S) (i : Nat) : P.Synced (P.nspRound i S).1 where
  agree h hh v hvs hv := by
    rw [masters_data, hS.nspRound_replica i hh hv hvs,
      hS.nspRound_replica i (P.master_lt v) (P.isReplica_master v) hvs, sigmaPart_applyRound,
      sigmaPart_applyRound, hS.agree h hh v hvs hv, masters_data]
  clear h hh v hvs hv := by
    rw [hS.nspRound_replica i hh hv hvs]
    exact applyRound_clear _

/-- The hosts' σ work adds up to the edges the masters' records pull. -/
theorem Synced.nspRound_work (hS : P.Synced S) (i : Nat) :
    (P.nspRound i S).2 = (G.nodesWithEdges.map (pulledEdges G (P.masters S))).sum := by
  have hhost : ∀ h < P.numHosts,
      (NumShortestPaths.superstep (P.localGraph h) (P.localGraph h).nodesWithEdges (S h)).2 =
        ∑ u in Finset.range G.size, if Active (P.masters S) u then
          NumShortestPaths.pullCount (P.masters S) u ((P.localGraph h).edges u) else 0 := fun h hh => by
    have hfit := hS.buffersFit hh
    rw [NumShortestPaths.superstep,
      (steps_foldl _ _ (P.localGraph h).nodup_nodesWithEdges (S h, 0) hfit).2.2.1, Nat.zero_add,
      ← P.size_localGraph h, ← Graph.sum_nodesWithEdges _ fun u hu => by
        simp [hu, NumShortestPaths.pullCount]]
    refine congrArg List.sum (List.map_congr_left fun u hu => ?_)
    have hr := P.isReplica_of_mem_nodesWithEdges hu
    simp only [hS.active_iff hh (P.lt_size_of_mem_nodesWithEdges hu) hr, hS.pullCount_eq hh]
  have hsum : (P.nspRound i S).2 = ∑ h in Finset.range P.numHosts,
      (NumShortestPaths.superstep (P.localGraph h) (P.localGraph h).nodesWithEdges (S h)).2 := rfl
  rw [hsum, Finset.sum_congr rfl fun h hh => hhost h (Finset.mem_range.mp hh), Finset.sum_comm,
    Graph.sum_nodesWithEdges _ fun u hu => by simp [pulledEdges, hu, NumShortestPaths.pullCount]]
  refine Finset.sum_congr rfl fun u _ => ?_
  unfold pulledEdges
  split
  · exact P.sum_countP_hosts u _
  · simp

/-- One σ round on every host against one on a single host whose records the masters
hold: the replicas stay in step, the masters keep the single host's records and both add
the same work. -/
theorem nspRound_sim {s : State} (hS : P.Synced S) (hs : ∀ v < G.size, (P.masters S).data v = s.data v)
    (i : Nat) :
    (P.Synced (P.nspRound i S).1 ∧
      ∀ v < G.size, (P.masters (P.nspRound i S).1).data v = (body G i s).1.data v) ∧
      (P.nspRound i S).2 = (body G i s).2 := by
  have hclear : ∀ u < G.size, (s.data u).trim = 0 ∧ (s.data u).toAdd = 0 := fun u hu =>
    hs u hu ▸ hS.clear_master hu
  refine ⟨⟨hS.nspRound i, fun v hv => ?_⟩, ?_⟩
  · obtain ⟨hc, ha⟩ := pulled_congr hs hv
    rw [masters_data, hS.nspRound_replica i (P.master_lt v) (P.isReplica_master v) hv,
      body_data_of_clear hclear i hv, ← masters_data, hs v hv, hc, ha]
  · rw [hS.nspRound_work i, body_work_of_clear hclear i]
    exact congrArg List.sum (List.map_congr_left fun u hu =>
      (pulled_congr hs (G.lt_size_of_edges_ne_nil (Graph.mem_nodesWithEdges.mp hu))).1)

variable (P)

/-- **The σ phase on many hosts.** From records where every replica is in step with its
master and the masters hold a single host's records `s`, `NumShortestPaths::go` on every
host returns exactly when it returns on the single host, after as many rounds, with the
replicas still in step and every master holding the single host's record, whatever the
partition. -/
theorem numShortestPaths_sim {s : State} (hS : P.Synced S)
    (hs : ∀ v < G.size, (P.masters S).data v = s.data v) (fuel : Nat) :
    Option.Rel (fun r r' => (P.Synced r.1 ∧ ∀ v < G.size, (P.masters r.1).data v = r'.1.data v) ∧
        r.2 = r'.2)
      (P.numShortestPaths fuel S) (NumShortestPaths.go G fuel s) :=
  doWhile_rel (fun (S : Nat → State) (s : State) =>
      P.Synced S ∧ ∀ v < G.size, (P.masters S).data v = s.data v)
    (fun i _ _ h => nspRound_sim h.1 h.2 i) fuel 0 ⟨hS, hs⟩

end Synced

/-! ## The first three phases

After the BFS and `PredAndSucc` on every host, the replicas are in step with their
masters and the masters hold the records the same two phases leave on one host: the
reset writes the same values on every host, the BFS leaves every replica exact and the
add-syncs leave every replica with the single host's counts.  The σ phases then run
together. -/

section Phases

open SSSP

variable {G : Graph} (P : Partition G)

/-- The part of a record the BFS and `PredAndSucc` leave alone: all but the length and the
two counts. -/
def keptPart (d : NodeData) : NodeData :=
  { d with currentLength := 0, numPredecessors := 0, numSuccessors := 0 }

theorem eq_of_keptPart {d e : NodeData} (h : keptPart d = keptPart e)
    (hl : d.currentLength = e.currentLength) (hp : d.numPredecessors = e.numPredecessors)
    (hs : d.numSuccessors = e.numSuccessors) : d = e := by
  cases d; cases e
  simp only [keptPart, NodeData.mk.injEq] at h hl hp hs ⊢
  exact ⟨hl, h.2.1, hs, hp, h.2.2.2.2⟩

/-- What the σ round reads of a freshly reset record, but for its length and counts, is
the same for every record with the same buffers. -/
theorem sigmaPart_keptPart_initialize {d e : NodeData} (ht : d.trim = e.trim) (ha : d.toAdd = e.toAdd)
    (t v : Nat) : sigmaPart (keptPart (InitializeIteration.operator t v d)) =
      sigmaPart (keptPart (InitializeIteration.operator t v e)) := by
  cases d; cases e
  simp only at ht ha
  subst ht ha
  unfold InitializeIteration.operator
  split <;> rfl

theorem countsFit_of_lengthFrame {H : Graph} {t : Nat} {s₀ s : State}
    (hf : LengthFrame (InitializeIteration.go H t s₀) s) {u : Nat} (hu : u < H.size)
    (hp : (s₀.data u).numPredecessors = 0) : PredAndSucc.CountsFit (s.data u) := by
  obtain ⟨h₁, h₂⟩ := counts_of_lengthFrame hf hu hp
  exact ⟨by rw [h₁]; decide, by rw [h₂]; decide⟩

/-- `PredAndSucc::go` after the BFS, on one host, keeps what the reset left but the length
and the counts. -/
theorem keptPart_predAndSucc_go {H : Graph} {t : Nat} {s₀ s : State}
    (hf : LengthFrame (InitializeIteration.go H t s₀) s) {v : Nat} (hv : v < H.size)
    (hp : (s₀.data v).numPredecessors = 0) :
    keptPart ((PredAndSucc.go H s).data v) = keptPart (InitializeIteration.operator t v (s₀.data v)) := by
  rw [PredAndSucc.go_data v (countsFit_of_lengthFrame hf hv hp), hf.2 v,
    InitializeIteration.go_data_of_lt hv]
  rfl

/-- The same on every host, through the two syncs. -/
theorem keptPart_predAndSucc {t : Nat} {S₀ S : Nat → State} {h v : Nat}
    (hf : LengthFrame (P.onHosts (fun G => InitializeIteration.go G t) S₀ h) (S h)) (hv : v < G.size)
    (hp : ((S₀ h).data v).numPredecessors = 0) :
    keptPart ((P.predAndSucc S h).data v) =
      keptPart (InitializeIteration.operator t v ((S₀ h).data v)) := by
  rw [predAndSucc, sync_field (R := reduceAddNumSuccessors) (B := broadcastNumSuccessors) keptPart
      (fun _ _ => rfl) (fun _ => rfl) (fun _ _ => rfl),
    sync_field (R := reduceAddNumPredecessors) (B := broadcastNumPredecessors) keptPart
      (fun _ _ => rfl) (fun _ => rfl) (fun _ _ => rfl)]
  exact keptPart_predAndSucc_go hf ((P.size_localGraph h).symm ▸ hv) hp

/-- After the BFS, from hosts whose replicas agree on the lengths of one host's run `s₁`
and entered the iteration without predecessors or σ buffers, `PredAndSucc` on every host
and its two syncs leave the replicas in step, with every master holding the record
`PredAndSucc::go` computes from `s₁` on one host. -/
theorem predAndSucc_synced {t : Nat} {S₀ S₁ : Nat → State} {s₀ s₁ : State}
    (hS₀ : ∀ h < P.numHosts, ∀ u < G.size, P.isReplica h u = true →
      ((S₀ h).data u).numPredecessors = 0 ∧ ((S₀ h).data u).trim = 0 ∧ ((S₀ h).data u).toAdd = 0)
    (hs₀ : ∀ v < G.size, (P.masters S₀).data v = s₀.data v)
    (hframe : ∀ h, LengthFrame (P.onHosts (fun G => InitializeIteration.go G t) S₀ h) (S₁ h))
    (hframe' : LengthFrame (InitializeIteration.go G t s₀) s₁)
    (hlen : ∀ h < P.numHosts, ∀ u < G.size, P.isReplica h u = true → len (S₁ h) u = len s₁ u) :
    P.Synced (P.predAndSucc S₁) ∧
      ∀ v < G.size, (P.masters (P.predAndSucc S₁)).data v = (PredAndSucc.go G s₁).data v := by
  have hmaster : ∀ v < G.size, P.isReplica (P.master v) v = true := fun v _ => P.isReplica_master v
  have hp₀ : ∀ v < G.size, (s₀.data v).numPredecessors = 0 := fun v hv =>
    hs₀ v hv ▸ (hS₀ _ (P.master_lt v) v hv (hmaster v hv)).1
  -- the single host's record after `PredAndSucc`, and its length and counts on every replica
  have hzero : ∀ h < P.numHosts, ∀ u < G.size, P.isReplica h u = true →
      ((S₁ h).data u).numPredecessors = 0 ∧ ((S₁ h).data u).numSuccessors = 0 :=
    fun h hh u hu hr =>
      counts_of_lengthFrame (hframe h) ((P.size_localGraph h).symm ▸ hu) (hS₀ h hh u hu hr).1
  have hcounts := fun {h v : Nat} (hv : v < G.size) (hh : h = P.master v ∨ h ∈ P.mirrors v) =>
    P.predAndSucc_replica s₁ S₁ hlen hzero (fun u hu => counts_of_lengthFrame hframe' hu (hp₀ u hu)) hv hh
  have hkeep : ∀ h v, len (P.predAndSucc S₁ h) v = len (S₁ h) v := fun h v =>
    (sync_field (R := reduceAddNumSuccessors) (B := broadcastNumSuccessors) NodeData.currentLength
      (fun _ _ => rfl) (fun _ => rfl) (fun _ _ => rfl) h v).trans
    ((sync_field (R := reduceAddNumPredecessors) (B := broadcastNumPredecessors) NodeData.currentLength
      (fun _ _ => rfl) (fun _ => rfl) (fun _ _ => rfl) h v).trans (congrFun PredAndSucc.go_lengths v))
  have hlen₂ : ∀ h < P.numHosts, ∀ v < G.size, P.isReplica h v = true →
      len (P.predAndSucc S₁ h) v = len (PredAndSucc.go G s₁) v := fun h hh v hv hr => by
    rw [hkeep, hlen h hh v hv hr]
    exact (congrFun PredAndSucc.go_lengths v).symm
  have hkept : ∀ v < G.size, keptPart ((PredAndSucc.go G s₁).data v) =
      keptPart (InitializeIteration.operator t v (s₀.data v)) := fun v hv =>
    keptPart_predAndSucc_go hframe' hv (hp₀ v hv)
  -- every replica's σ part is the single host's
  have hsigma : ∀ h < P.numHosts, ∀ v < G.size, P.isReplica h v = true →
      sigmaPart ((P.predAndSucc S₁ h).data v) = sigmaPart ((PredAndSucc.go G s₁).data v) :=
    fun h hh v hv hr => by
      have hc := hcounts hv (P.replica_of_isReplica hh hr)
      have hk : sigmaPart (keptPart ((P.predAndSucc S₁ h).data v)) =
          sigmaPart (keptPart ((PredAndSucc.go G s₁).data v)) := by
        have h₀ := hS₀ h hh v hv hr
        have hm₀ := hS₀ _ (P.master_lt v) v hv (hmaster v hv)
        rw [P.keptPart_predAndSucc (hframe h) hv h₀.1, hkept v hv]
        refine sigmaPart_keptPart_initialize ?_ ?_ t v
        · rw [h₀.2.1, ← hs₀ v hv, masters_data, hm₀.2.1]
        · rw [h₀.2.2, ← hs₀ v hv, masters_data, hm₀.2.2]
      exact eq_of_keptPart hk (hlen₂ h hh v hv hr) hc.1 hc.2
  refine ⟨⟨fun h hh v hv hr => ?_, fun h hh v hv hr => ?_⟩, fun v hv => ?_⟩
  · rw [hsigma h hh v hv hr, masters_data, hsigma _ (P.master_lt v) v hv (hmaster v hv)]
  · have hk := congrArg (fun d => (d.trim, d.toAdd))
      (P.keptPart_predAndSucc (hframe h) hv (hS₀ h hh v hv hr).1)
    simp only [keptPart, Prod.mk.injEq] at hk
    rw [hk.1, hk.2]
    simp [(hS₀ h hh v hv hr).2]
  · have hc := hcounts hv (.inl rfl)
    refine eq_of_keptPart ?_ (hlen₂ _ (P.master_lt v) v hv (hmaster v hv)) hc.1 hc.2
    rw [masters_data, P.keptPart_predAndSucc (hframe _) hv (hS₀ _ (P.master_lt v) v hv (hmaster v hv)).1,
      hkept v hv, ← hs₀ v hv, masters_data]

/-- **The first three phases on many hosts.** On any partition of a graph with fewer than
`2 ^ 32` edges, from hosts' records whose masters hold a single host's records `s₀` and
whose replicas enter the iteration without predecessors or σ buffers, the BFS returns on
every host and on the single host, whatever their orders; then the σ phase on every host,
after `PredAndSucc` and its syncs, returns exactly when the single host's does, after as
many rounds, with the replicas in step and every master holding the single host's
record. -/
theorem numShortestPaths_phases (hn : G.size ≤ infinity) (hm : G.numEdges < 2 ^ 32) (t : Nat)
    (sched : Nat → Nat → List Nat) (hsched : ∀ h i, (sched h i).Perm (P.localGraph h).nodesWithEdges)
    (sched₁ : Nat → List Nat) (hsched₁ : ∀ i, (sched₁ i).Perm G.nodesWithEdges)
    (S₀ : Nat → State) (s₀ : State)
    (hS₀ : ∀ h < P.numHosts, ∀ u < G.size, P.isReplica h u = true →
      ((S₀ h).data u).numPredecessors = 0 ∧ ((S₀ h).data u).trim = 0 ∧ ((S₀ h).data u).toAdd = 0)
    (hs₀ : ∀ v < G.size, (P.masters S₀).data v = s₀.data v)
    (D : Nat) (hD : ∀ v < G.size, ∀ d, IsDist G t v d → d ≤ D) (fuel : Nat) (hfuel : D < fuel) :
    ∃ S₁ k s₁ k', P.sssp sched fuel (P.onHosts (fun G => InitializeIteration.go G t) S₀) =
        some (S₁, k) ∧ SSSP.go G sched₁ fuel (InitializeIteration.go G t s₀) = some (s₁, k') ∧
      Option.Rel (fun r r' => (P.Synced r.1 ∧ ∀ v < G.size, (P.masters r.1).data v = r'.1.data v) ∧
          r.2 = r'.2)
        (P.numShortestPaths fuel (P.predAndSucc S₁)) (NumShortestPaths.go G fuel (PredAndSucc.go G s₁)) := by
  obtain ⟨S₁, k, hgo, -⟩ := P.sssp_eq_some hn t hsched S₀ hD hfuel
  obtain ⟨hex, hrep, hframe⟩ := P.exact_of_sssp hn hm hsched hgo
  obtain ⟨s₁, k', hgo', -⟩ := go_eq_some G hn t hsched₁ s₀ hD hfuel
  obtain ⟨hex', hframe'⟩ := exact_of_go hn hm hsched₁ hgo'
  obtain ⟨hsync, hmasters⟩ := P.predAndSucc_synced hS₀ hs₀ hframe hframe'
    fun h hh u hu hr => (hrep.agree h hh u hr).trans (hex.len_eq hex' hu)
  exact ⟨S₁, k, s₁, k', hgo, hgo', P.numShortestPaths_sim hsync hmasters fuel⟩

/-- The uneven fork on its two hosts from `InitializeGraph`, source `0`: the hosts' σ phase
runs with the one host holds the masters' records on. -/
theorem numShortestPaths_phases_unevenForkSplit :
    ∃ S₁ k s₁ k', unevenForkSplit.sssp (fun h _ => (unevenForkSplit.localGraph h).nodesWithEdges) 8
        (unevenForkSplit.onHosts (fun G => InitializeIteration.go G 0) unevenForkSplit.start) =
        some (S₁, k) ∧
      SSSP.go unevenFork (fun _ => unevenFork.nodesWithEdges) 8
        (InitializeIteration.go unevenFork 0 (unevenForkSplit.masters unevenForkSplit.start)) =
        some (s₁, k') ∧
      Option.Rel (fun r r' => (unevenForkSplit.Synced r.1 ∧
          ∀ v < unevenFork.size, (unevenForkSplit.masters r.1).data v = r'.1.data v) ∧ r.2 = r'.2)
        (unevenForkSplit.numShortestPaths 8 (unevenForkSplit.predAndSucc S₁))
        (NumShortestPaths.go unevenFork 8 (PredAndSucc.go unevenFork s₁)) :=
  unevenForkSplit.numShortestPaths_phases (by decide) (by decide) 0 _ (fun _ _ => List.Perm.refl _) _
    (fun _ => List.Perm.refl _) _ _ (by decide) (fun _ _ => rfl) 7 (fun _ hv _ hd => (hd.lt_size hv).le)
    8 (by decide)

end Phases

end Partition

end DistGalois.BcPull
