import DistGalois.BcPull.Graph
import Mathlib.Algebra.Ring.Rat

/-!
# Vertex records, operator plumbing and the per-source reset

`NodeData` is the record every vertex carries.  The `uint32_t` fields are
naturals kept below `2 ^ 32` by `u32`; the `float` fields are exact rationals.
A `State` is the graph's vertex data together with a ghost bit recording
whether every `assert` executed so far held: the state evolves as in a release
build and the bit says whether a debug build would have stopped.

`doAll` is a `do_all` over `allNodesRange()` whose operator writes only its own
vertex; `doWhile` is the phases' `do { … } while (accum_result)` loop around a
`DGAccumulator<uint32_t>`, with `fuel` bounding the number of rounds.
-/

namespace DistGalois.BcPull

/-- `struct NodeData`. -/
structure NodeData where
  currentLength : Nat
  numShortestPaths : Nat
  numSuccessors : Nat
  numPredecessors : Nat
  dependency : ℚ
  betweenessCentrality : ℚ
  propogationFlag : Bool
  trim : Nat
  toAdd : Nat
  trim2 : Nat
  toAddFloat : ℚ
  numShortPathsFlag : Bool
  depPropFlag : Bool
deriving DecidableEq

/-- A zero-initialised record. -/
def NodeData.zero : NodeData := ⟨0, 0, 0, 0, 0, 0, false, 0, 0, 0, 0, false, false⟩

instance : Inhabited NodeData := ⟨NodeData.zero⟩

/-- Vertex data of the graph, and whether every assertion executed so far held. -/
@[ext] structure State where
  data : Nat → NodeData
  asserts : Bool

/-- Zero-initialised records for every vertex. -/
def State.zero : State := ⟨fun _ => NodeData.zero, true⟩

namespace State

/-- Apply `f` to the record of vertex `v`. -/
def modify (s : State) (v : Nat) (f : NodeData → NodeData) : State :=
  { s with data := Function.update s.data v (f (s.data v)) }

variable {s : State} {v w : Nat} {f : NodeData → NodeData}

@[simp] theorem modify_data_self : (s.modify v f).data v = f (s.data v) := by
  simp [modify]

@[simp] theorem modify_data_ne (h : w ≠ v) : (s.modify v f).data w = s.data w := by
  simp [modify, h]

theorem modify_data (w : Nat) :
    (s.modify v f).data w = if w = v then f (s.data v) else s.data w := by
  by_cases h : w = v <;> simp [h]

@[simp] theorem modify_asserts : (s.modify v f).asserts = s.asserts := rfl

end State

/-- The record's `uint32_t` and `bool` fields: its `float` fields `dependency`,
`betweeness_centrality` and `to_add_float` cleared. -/
def NodeData.ints (d : NodeData) : NodeData :=
  { d with dependency := 0, betweenessCentrality := 0, toAddFloat := 0 }

/-- Every record's `uint32_t` and `bool` fields, and the assertions. -/
def State.ints (s : State) : State := ⟨fun v => (s.data v).ints, s.asserts⟩

@[simp] theorem State.ints_data (s : State) (v : Nat) : s.ints.data v = (s.data v).ints := rfl

@[simp] theorem State.ints_asserts (s : State) : s.ints.asserts = s.asserts := rfl

/-- `Galois::do_all` over `allNodesRange()` of an operator writing only its own vertex. -/
def doAll (G : Graph) (f : Nat → NodeData → NodeData) (s : State) : State :=
  { s with data := fun v => if v < G.size then f v (s.data v) else s.data v }

section doAll

variable {G : Graph} {f : Nat → NodeData → NodeData} {s : State} {v : Nat}

@[simp] theorem doAll_data_of_lt (h : v < G.size) : (doAll G f s).data v = f v (s.data v) := by
  simp [doAll, h]

@[simp] theorem doAll_data_of_le (h : G.size ≤ v) : (doAll G f s).data v = s.data v := by
  simp [doAll, Nat.not_lt.mpr h]

@[simp] theorem doAll_asserts : (doAll G f s).asserts = s.asserts := rfl

/-- A field every operator keeps is kept by the loop. -/
theorem doAll_field {α : Type} (g : NodeData → α) (hf : ∀ v d, g (f v d) = g d) (v : Nat) :
    g ((doAll G f s).data v) = g (s.data v) := by
  by_cases h : v < G.size
  · rw [doAll_data_of_lt h, hf]
  · rw [doAll_data_of_le (Nat.le_of_not_lt h)]

end doAll

/-! ## Bulk-synchronous loops -/

section Loop

variable {σ : Type} (body : Nat → σ → σ × Nat)

/-- `do { … } while (accum_result)`: round `i` maps the state to the next one and
the work it added to the `DGAccumulator<uint32_t>`.  The result is the final state
and the number of rounds run; `none` when `fuel` rounds did not suffice. -/
def doWhile : Nat → Nat → σ → Option (σ × Nat)
  | 0, _, _ => none
  | fuel + 1, i, s =>
    if u32 (body i s).2 = 0 then some ((body i s).1, i + 1) else doWhile fuel (i + 1) (body i s).1

/-- The state after the first `k` rounds. -/
def runRounds (s : σ) : Nat → σ
  | 0 => s
  | k + 1 => (body k (runRounds s k)).1

variable {body}

@[simp] theorem runRounds_zero (s : σ) : runRounds body s 0 = s := rfl

theorem runRounds_succ (s : σ) (k : Nat) :
    runRounds body s (k + 1) = (body k (runRounds body s k)).1 := rfl

/-- The loop stops at the first round whose accumulated work is `0` modulo `2 ^ 32`. -/
theorem doWhile_of_stop (s : σ) (k : Nat)
    (hwork : ∀ j < k, u32 (body j (runRounds body s j)).2 ≠ 0)
    (hstop : u32 (body k (runRounds body s k)).2 = 0) :
    ∀ fuel, k < fuel → doWhile body fuel 0 s = some (runRounds body s (k + 1), k + 1) := by
  suffices h : ∀ m i, i + m = k → ∀ fuel, m < fuel →
      doWhile body fuel i (runRounds body s i) = some (runRounds body s (k + 1), k + 1) from
    fun fuel hf => h k 0 (by omega) fuel hf
  intro m
  induction m with
  | zero =>
    intro i hi fuel hf
    obtain ⟨fuel, rfl⟩ : ∃ f, fuel = f + 1 := ⟨fuel - 1, by omega⟩
    subst hi
    rw [Nat.add_zero] at hstop
    simp [doWhile, hstop, runRounds_succ]
  | succ m ih =>
    intro i hi fuel hf
    obtain ⟨fuel, rfl⟩ : ∃ f, fuel = f + 1 := ⟨fuel - 1, by omega⟩
    simp only [doWhile, hwork i (by omega), if_false]
    exact ih (i + 1) (by omega) fuel (by omega)

/-- A loop that returned stopped at a round without work, after running every round
before it. -/
theorem doWhile_eq_some {s : σ} {fuel i : Nat} {r : σ × Nat}
    (h : doWhile body fuel i (runRounds body s i) = some r) :
    ∃ k, i ≤ k ∧ r = (runRounds body s (k + 1), k + 1) ∧
      u32 (body k (runRounds body s k)).2 = 0 := by
  induction fuel generalizing i with
  | zero => simp [doWhile] at h
  | succ fuel ih =>
    rw [doWhile] at h
    split at h
    · exact ⟨i, Nat.le_refl _, (Option.some.inj h).symm, by assumption⟩
    · obtain ⟨k, hik, hr, hk⟩ := ih h
      exact ⟨k, by omega, hr, hk⟩

/-- Some round below `fuel` without work: the loop ends at the first such round. -/
theorem doWhile_of_exists_stop (s : σ) {fuel : Nat}
    (h : ∃ k < fuel, u32 (body k (runRounds body s k)).2 = 0) :
    ∃ k < fuel, doWhile body fuel 0 s = some (runRounds body s (k + 1), k + 1) ∧
      u32 (body k (runRounds body s k)).2 = 0 ∧
      ∀ j < k, u32 (body j (runRounds body s j)).2 ≠ 0 := by
  classical
  have hex : ∃ k, k < fuel ∧ u32 (body k (runRounds body s k)).2 = 0 := by
    obtain ⟨k, hk, hs⟩ := h; exact ⟨k, hk, hs⟩
  have hmin : ∀ j < Nat.find hex, u32 (body j (runRounds body s j)).2 ≠ 0 := fun j hj hs =>
    Nat.find_min hex hj ⟨by have := (Nat.find_spec hex).1; omega, hs⟩
  exact ⟨Nat.find hex, (Nat.find_spec hex).1,
    doWhile_of_stop s _ hmin (Nat.find_spec hex).2 fuel (Nat.find_spec hex).1,
    (Nat.find_spec hex).2, hmin⟩

/-- A loop whose rounds act on `f s` as `body`'s act on `s` returns `f` of what `body`'s
loop returns. -/
theorem doWhile_map {τ : Type} {body' : Nat → τ → τ × Nat} (f : σ → τ)
    (h : ∀ i s, body' i (f s) = (f (body i s).1, (body i s).2)) (fuel i : Nat) (s : σ) :
    doWhile body' fuel i (f s) = (doWhile body fuel i s).map (Prod.map f id) := by
  induction fuel generalizing i s with
  | zero => rfl
  | succ fuel ih =>
    simp only [doWhile, h]
    split <;> simp [ih]

/-- Two loops whose rounds keep a relation between their states and add the same work
return together, after as many rounds, in related states. -/
theorem doWhile_rel {τ : Type} {body' : Nat → τ → τ × Nat} (R : σ → τ → Prop)
    (h : ∀ i s t, R s t → R (body i s).1 (body' i t).1 ∧ (body i s).2 = (body' i t).2)
    (fuel i : Nat) {s : σ} {t : τ} (hst : R s t) :
    Option.Rel (fun a b => R a.1 b.1 ∧ a.2 = b.2) (doWhile body fuel i s) (doWhile body' fuel i t) := by
  induction fuel generalizing i s t with
  | zero => exact .none
  | succ fuel ih =>
    obtain ⟨hR, hw⟩ := h i s t hst
    simp only [doWhile, hw]
    split
    · exact .some ⟨hR, rfl⟩
    · exact ih (i + 1) hR

/-- Two loops whose rounds agree on the states satisfying an invariant of one of them
agree from every such state. -/
theorem doWhile_congr {body' : Nat → σ → σ × Nat} (I : σ → Prop) (hI : ∀ i s, I s → I (body i s).1)
    (heq : ∀ i s, I s → body' i s = body i s) (fuel i : Nat) {s : σ} (hs : I s) :
    doWhile body' fuel i s = doWhile body fuel i s := by
  induction fuel generalizing i s with
  | zero => rfl
  | succ fuel ih => rw [doWhile, doWhile, heq i s hs, ih (i + 1) (hI i s hs)]

/-- A loop whose rounds keep `I` returns a state satisfying `I`. -/
theorem doWhile_inv (I : σ → Prop) (hI : ∀ i s, I s → I (body i s).1) {fuel i : Nat} {s : σ}
    {r : σ × Nat} (hs : I s) (h : doWhile body fuel i s = some r) : I r.1 := by
  induction fuel generalizing i s with
  | zero => simp [doWhile] at h
  | succ fuel ih =>
    rw [doWhile] at h
    split at h
    · rw [← Option.some.inj h]; exact hI i s hs
    · exact ih (hI i s hs) h

/-- A loop whose rounds keep `I` and, whenever they work, lower the measure `μ` returns
within `μ s + 1` rounds once `fuel` exceeds `μ s`. -/
theorem doWhile_of_measure (I : σ → Prop) (μ : σ → Nat) (hI : ∀ i s, I s → I (body i s).1)
    (hμ : ∀ i s, I s → (body i s).2 ≠ 0 → μ (body i s).1 < μ s) {s : σ} (hs : I s)
    {fuel : Nat} (hfuel : μ s < fuel) (i : Nat) :
    ∃ r, doWhile body fuel i s = some r ∧ r.2 ≤ i + μ s + 1 ∧ I r.1 := by
  induction fuel generalizing i s with
  | zero => omega
  | succ fuel ih =>
    rw [doWhile]
    split
    · exact ⟨_, rfl, by omega, hI i s hs⟩
    · rename_i hw
      have hlt := hμ i s hs fun h => hw (by rw [h]; rfl)
      obtain ⟨r, hr, hk, hr'⟩ := ih (hI i s hs) (by omega) (i + 1)
      exact ⟨r, hr, by omega, hr'⟩

end Loop

/-! ## Per-source reset -/

namespace InitializeGraph

/-- `InitializeGraph::operator()`: reset everything. -/
def operator (d : NodeData) : NodeData :=
  { d with betweenessCentrality := 0, numShortestPaths := 0, numSuccessors := 0,
           numPredecessors := 0, dependency := 0, propogationFlag := false }

/-- `InitializeGraph::go`. -/
def go (G : Graph) (s : State) : State := doAll G (fun _ => operator) s

end InitializeGraph

namespace InitializeIteration

/-- `InitializeIteration::operator()` on the vertex with global id `gid`, when the
current source is `src`. -/
def operator (src gid : Nat) (d : NodeData) : NodeData :=
  let d := if gid ≠ src then
      { d with currentLength := infinity, numShortestPaths := 0, propogationFlag := false }
    else { d with currentLength := 0, numShortestPaths := 1, propogationFlag := true }
  { d with numSuccessors := 0, numShortPathsFlag := false, depPropFlag := false }

/-- The assertions of lines 216 and 217, `num_predecessors == 0` and
`num_successors == 0`, read just after line 214 zeroed `num_successors`. -/
def asserts (src gid : Nat) (d : NodeData) : Bool :=
  (operator src gid d).numPredecessors == 0 && (operator src gid d).numSuccessors == 0

/-- `InitializeIteration::go` for source `src`. -/
def go (G : Graph) (src : Nat) (s : State) : State :=
  { doAll G (operator src) s with
    asserts := s.asserts && (List.range G.size).all fun v => asserts src v (s.data v) }

@[simp] theorem operator_currentLength (src gid : Nat) (d : NodeData) :
    (operator src gid d).currentLength = if gid = src then 0 else infinity := by
  unfold operator; by_cases h : gid = src <;> simp [h]

theorem go_data_of_lt {G : Graph} {src v : Nat} {s : State} (h : v < G.size) :
    (go G src s).data v = operator src v (s.data v) := doAll_data_of_lt h

@[simp] theorem operator_numPredecessors (src gid : Nat) (d : NodeData) :
    (operator src gid d).numPredecessors = d.numPredecessors := by
  unfold operator; split <;> rfl

@[simp] theorem operator_numSuccessors (src gid : Nat) (d : NodeData) :
    (operator src gid d).numSuccessors = 0 := rfl

@[simp] theorem operator_numShortestPaths (src gid : Nat) (d : NodeData) :
    (operator src gid d).numShortestPaths = if gid = src then 1 else 0 := by
  unfold operator; by_cases h : gid = src <;> simp [h]

@[simp] theorem operator_propogationFlag (src gid : Nat) (d : NodeData) :
    (operator src gid d).propogationFlag = decide (gid = src) := by
  unfold operator; by_cases h : gid = src <;> simp [h]

@[simp] theorem operator_numShortPathsFlag (src gid : Nat) (d : NodeData) :
    (operator src gid d).numShortPathsFlag = false := rfl

@[simp] theorem operator_trim (src gid : Nat) (d : NodeData) :
    (operator src gid d).trim = d.trim := by
  unfold operator; split <;> rfl

@[simp] theorem operator_toAdd (src gid : Nat) (d : NodeData) :
    (operator src gid d).toAdd = d.toAdd := by
  unfold operator; split <;> rfl

/-- Line 217 cannot fail: it reads the field line 214 has just zeroed. -/
theorem asserts_iff (src gid : Nat) (d : NodeData) :
    asserts src gid d = true ↔ d.numPredecessors = 0 := by
  simp [asserts]

theorem go_asserts (G : Graph) (src : Nat) (s : State) :
    (go G src s).asserts = true ↔
      s.asserts = true ∧ ∀ v < G.size, (s.data v).numPredecessors = 0 := by
  simp [go, asserts_iff]

end InitializeIteration

end DistGalois.BcPull
