import DistGalois.BcPull.Driver

/-!
# What `BC::go` is meant to compute

The betweenness of `v` over the sources `S`, as Brandes defines it:

  `BC(v) = Σ_{s ∈ S, s ≠ v} Σ_{t ∉ {s, v}} σ_{t s}(v) / σ_{t s}`,

where `σ_{t s}` counts the shortest walks of stored out-edges from `t` to `s`
(the direction the pull-style phases measure) and `σ_{t s}(v)` those through
`v`.  Everything here is computed from `walkCount` alone, independently of the
phases.
-/

namespace DistGalois.BcPull

namespace Graph

variable (G : Graph)

/-- The hop distance from `v` to `t`, when `t` is reachable from `v`. -/
def hopDist (t v : Nat) : Option Nat :=
  (List.range G.size).find? fun k => 0 < walkCount G t v k

/-- `σ_{v t}`: the number of shortest walks from `v` to `t`. -/
def sigma (t v : Nat) : Nat :=
  match G.hopDist t v with
  | some d => walkCount G t v d
  | none => 0

/-- `σ_{v t}(u)`: the shortest walks from `v` to `t` that pass through `u`. -/
def sigmaThrough (t v u : Nat) : Nat :=
  match G.hopDist t v, G.hopDist u v, G.hopDist t u with
  | some d, some d₁, some d₂ => if d₁ + d₂ = d then G.sigma u v * G.sigma t u else 0
  | _, _, _ => 0

/-- The betweenness centrality of `v` accumulated over the sources `S`. -/
def betweenness (S : List Nat) (v : Nat) : ℚ :=
  (S.map fun s => if s = v then 0 else
    ((List.range G.size).map fun t =>
      if t = s ∨ t = v ∨ G.sigma s t = 0 then 0
      else (G.sigmaThrough s t v : ℚ) / G.sigma s t).sum).sum

end Graph

section Evaluation

/- `Rat.add`, `Rat.mul` and `Rat.inv` are sealed in `Batteries`; unsealing them lets
`decide` run the phases, exact `float` arithmetic included, on concrete graphs. -/
attribute [local semireducible] Rat.add Rat.mul Rat.inv

/-- The path `0 → 1 → 2 → 3`. -/
def path4 : Graph := ⟨[[1], [2], [3], []], by decide⟩

/-- With every vertex as a source, `BC::go` leaves `0` at vertex `2`, whose
betweenness is `2`: the `trim2` that `DPTrim` never clears makes vertex `1` miss
its turn for source `3`. -/
theorem bc_path4_all_sources :
    (BC.go path4 ⟨false, 0, 0⟩ [] (fun _ _ => path4.nodesWithEdges) 6
        (InitializeGraph.go path4 State.zero)).map (fun s => (s.data 2).betweenessCentrality) =
      some 0 ∧
    path4.betweenness (List.range 4) 2 = 2 := by
  decide

end Evaluation

end DistGalois.BcPull
