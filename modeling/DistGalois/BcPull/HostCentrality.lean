import DistGalois.BcPull.HostAssertions
import Mathlib.Algebra.Order.Ring.Unbundled.Rat

/-!
# The centralities through `BC::go` on every host

Only `BC::operator()` (lines 986-994) writes `betweeness_centrality`, and it adds the
dependency only when that is positive: every other phase, with its syncs, writes other
fields.  So no run of `BC::go`'s loop lowers a centrality on any host.  The statement
reads no `float` arithmetic beyond that one addition of a positive value.

Main result:

* `loop_centrality_mono` — `BC::go`'s loop on every host of any partition, under every
  version, never lowers a centrality on any host.
-/

namespace DistGalois.BcPull

namespace Partition

section Centrality

/-- A fold of steps that each keep every record's centrality keeps it. -/
theorem foldl_centrality {σ β : Type} (st : σ → State) {g : σ → β → σ}
    (hg : ∀ p b u, ((st (g p b)).data u).betweenessCentrality = ((st p).data u).betweenessCentrality)
    (l : List β) (p : σ) (u : Nat) :
    ((st (l.foldl g p)).data u).betweenessCentrality = ((st p).data u).betweenessCentrality := by
  induction l generalizing p with
  | nil => rfl
  | cons b l ih => rw [List.foldl_cons, ih, hg]

theorem centrality_predAndSucc_go (H : Graph) (s : State) (u : Nat) :
    ((PredAndSucc.go H s).data u).betweenessCentrality = (s.data u).betweenessCentrality := by
  refine foldl_centrality id (fun s src u => ?_) _ s u
  unfold PredAndSucc.operator
  split
  · refine foldl_centrality id (fun s dst u => ?_) _ s u
    unfold PredAndSucc.edge
    split
    · simp only [id, State.modify_data]
      split_ifs <;> subst_vars <;> rfl
    · rfl
  · rfl

theorem centrality_nspSuperstep (H : Graph) (s : State) (u : Nat) :
    ((NumShortestPaths.superstep H H.nodesWithEdges s).1.data u).betweenessCentrality =
      (s.data u).betweenessCentrality := by
  refine foldl_centrality Prod.fst (fun p src u => ?_) _ (s, 0) u
  unfold NumShortestPaths.operator
  split
  · exact foldl_centrality Prod.fst (fun p dst u =>
      (NumShortestPaths.edge_spec src dst p).1.field (f := NodeData.betweenessCentrality)
        (fun _ => rfl) u) _ p u
  · rfl

variable {G : Graph} (P : Partition G)

theorem centrality_nspRound (i : Nat) (S : Nat → State) (h u : Nat) :
    (((P.nspRound i S).1 h).data u).betweenessCentrality = ((S h).data u).betweenessCentrality := by
  have hop : ∀ d, (NumShortestPathsChanges.operator d).betweenessCentrality = d.betweenessCentrality ∧
      (NSPAdd.operator d).betweenessCentrality = d.betweenessCentrality ∧
      (NSPTrim.operator d).betweenessCentrality = d.betweenessCentrality := fun d =>
    ⟨by unfold NumShortestPathsChanges.operator; split_ifs <;> rfl,
      by unfold NSPAdd.operator; split <;> rfl, by unfold NSPTrim.operator; split <;> rfl⟩
  simp only [nspRound, onHosts_apply, NumShortestPathsChanges.go, NSPAdd.go, NSPTrim.go]
  rw [doAll_field _ fun _ d => (hop d).1, doAll_field _ fun _ d => (hop d).2.1,
    sync_field NodeData.betweenessCentrality, onHosts_apply, NSPTrim.go,
    doAll_field _ fun _ d => (hop d).2.2, sync_field NodeData.betweenessCentrality]
  · exact centrality_nspSuperstep _ _ u
  all_goals intros; rfl

/-- One source on every host never lowers a centrality: only `BC::operator()` writes
one, adding a positive dependency. -/
theorem iteration_centrality_le {optVersion : Nat} {sched : Nat → Nat → List Nat} {fuel src : Nat}
    {S S' : Nat → State} (hit : P.iteration optVersion sched fuel src S = some S') (h u : Nat) :
    ((S h).data u).betweenessCentrality ≤ ((S' h).data u).betweenessCentrality := by
  simp only [iteration, Option.bind_eq_bind, Option.bind_eq_some, Prod.exists, Option.pure_def,
    Option.some.injEq] at hit
  obtain ⟨S₂, k₂, h₂, S₃, k₃, h₃, S₄, k₄, h₄, rfl⟩ := hit
  -- the reset and the BFS write no centrality
  have hσ₂ : ∀ h u, ((S₂ h).data u).betweenessCentrality = ((S h).data u).betweenessCentrality := by
    have hinit : ∀ h u, ((P.onHosts (fun G => InitializeIteration.go G src) S h).data u).betweenessCentrality =
        ((S h).data u).betweenessCentrality := fun h u =>
      doAll_field _ (fun _ d => by unfold InitializeIteration.operator; split <;> rfl) u
    refine doWhile_inv (fun S' => ∀ h u, ((S' h).data u).betweenessCentrality =
        ((S h).data u).betweenessCentrality) (fun i S' hS' h u => ?_) hinit h₂
    exact (congrArg NodeData.betweenessCentrality ((P.lengthFrame_ssspRound h).2 u)).trans (hS' h u)
  -- nor do `PredAndSucc`, the σ phase and the δ phase
  have hσ₃ : ∀ h u, ((S₃ h).data u).betweenessCentrality = ((S h).data u).betweenessCentrality :=
    doWhile_inv (fun S' => ∀ h u, ((S' h).data u).betweenessCentrality =
        ((S h).data u).betweenessCentrality)
      (fun i S' hS' h u => (P.centrality_nspRound i S' h u).trans (hS' h u))
      (fun h u => by
        rw [predAndSucc, sync_field NodeData.betweenessCentrality,
          sync_field NodeData.betweenessCentrality, onHosts_apply, centrality_predAndSucc_go, hσ₂]
        all_goals intros; rfl) h₃
  have hσ₄ : ∀ h u, ((S₄ h).data u).betweenessCentrality = ((S h).data u).betweenessCentrality :=
    doWhile_inv (fun S' => ∀ h u, ((S' h).data u).betweenessCentrality =
        ((S h).data u).betweenessCentrality)
      (fun i S' hS' h u => (dpRound_field NodeData.betweenessCentrality (fun _ => rfl) (fun _ => rfl)
        (fun _ => rfl) h u).trans (hS' h u)) hσ₃ h₄
  -- `BC::operator()` adds a positive dependency
  rw [onHosts_apply, ← hσ₄ h u]
  by_cases hu : u < (P.localGraph h).size
  · rw [doAll_data_of_lt hu, BC.operator]
    split
    · exact le_add_of_nonneg_right (le_of_lt ‹_›)
    · exact le_refl _
  · rw [doAll_data_of_le (Nat.le_of_not_lt hu)]

/-- **Centralities never decrease.** `BC::go`'s loop over any sources on every host of
any partition, under every version and whatever the processing orders, leaves every
host's record of every vertex with at least the centrality it started with. -/
theorem loop_centrality_mono {optVersion : Nat} {sched : Nat → Nat → Nat → List Nat} {fuel : Nat}
    {srcs : List Nat} {i : Nat} {S S' : Nat → State}
    (hloop : P.loop optVersion sched fuel i srcs S = some S') (h u : Nat) :
    ((S h).data u).betweenessCentrality ≤ ((S' h).data u).betweenessCentrality := by
  induction srcs generalizing i S with
  | nil => cases hloop; exact le_refl _
  | cons src rest ih =>
    simp only [loop, Option.bind_eq_some] at hloop
    obtain ⟨S₁, hit, hrest⟩ := hloop
    exact (P.iteration_centrality_le hit h u).trans (ih hrest)

/-- The uneven fork split over two hosts, every vertex a source in turn, under version 4:
host `0`'s centrality of `1` ends no lower than it started. -/
theorem loop_centrality_mono_unevenForkSplit :
    ∃ S, unevenForkSplit.loop 4 (fun _ h _ => (unevenForkSplit.localGraph h).nodesWithEdges) 8 0
        [0, 1, 2, 3, 4, 5, 6] unevenForkSplit.start = some S ∧
      ((unevenForkSplit.start 0).data 1).betweenessCentrality ≤ ((S 0).data 1).betweenessCentrality :=
  let ⟨S, hS, _⟩ := unevenForkSplit.loop_hostsClean (by decide) (by decide) 4
    (fun _ _ _ => List.Perm.refl _) (by decide) (by decide) _ 0 unevenForkSplit.hostsClean_start
  ⟨S, hS, unevenForkSplit.loop_centrality_mono hS 0 1⟩

end Centrality

end Partition

end DistGalois.BcPull
