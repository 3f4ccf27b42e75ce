import DistGalois.BcPull.NumShortestPaths

/-!
# Dependency back-propagation: `DependencyPropogation::go`

Each round is the propagate superstep, the apply loops `DPTrim` and `DPAdd`,
and the flag update `DependencyPropChanges`.  A reached vertex holding the
`propogation_flag` token pushes, along every DAG edge towards a vertex other
than the current source, one unit into the destination's `trim2` and
`σ(dst) / σ(src) · (1 + dep)` into its `to_add_float`, where `dep` is the
vertex's dependency converted to `uint32_t` (line 862).  `DPTrim` subtracts
`trim2` from `num_successors` but then zeroes `trim`, not `trim2`.

Main results:

* `superstep_pushed` — in any order, the push superstep adds to each vertex's `trim2`
  the pushes along the stored edges into it from the token holders, read off the records
  it found, and hands every token on, reading no `float` field;
* `go_kept` — from a state whose token holders have no successors left the loop stops
  within one round more than there are pending vertices, and the line-845 check holds;
* `pushes_schedule_independent` — every order `Galois::do_all` may run the push
  operators in, round after round, and any values of the `float` fields give the phase's
  `uint32_t` and `bool` fields what the model's fixed order gives.

The `float` fields are exact rationals here: `binary32` rounding, and the `inf` or `NaN`
of a push weight whose `σ(src)` has wrapped to `0` (here `0`), are left out.  Only the
results about `dependency` and `to_add_float` depend on that choice; the two results
above are about the other fields, which no `float` value reaches.
-/

namespace DistGalois.BcPull

/-- The `float` to `uint32_t` conversion of line 862: truncation toward zero (the
dependencies it converts are never negative), kept modulo `2 ^ 32` as x86-64 code does it
(`cvttss2si` into a 64-bit register, of which the low half is kept).  C++ leaves the
conversion of a value of `2 ^ 32` or more undefined. -/
def floatToU32 (q : ℚ) : Nat := u32 q.floor.toNat

/-- `Galois::do_all` over `allNodesWithEdgesRange()` of an operator writing only its
own vertex. -/
def doAllWithEdges (G : Graph) (f : NodeData → NodeData) (s : State) : State :=
  { s with data := fun v => if G.edges v ≠ [] then f (s.data v) else s.data v }

namespace DependencyPropogation

/-- One iteration of the edge loop of `DependencyPropogation::operator()` on
`(src, dst)` while `cur` is the current source. -/
def edge (cur src : Nat) (p : State × Nat) (dst : Nat) : State × Nat :=
  if dst = cur then p
  else if u32 ((p.1.data dst).currentLength + 1) = (p.1.data src).currentLength then
    let w : ℚ := (p.1.data dst).numShortestPaths / (p.1.data src).numShortestPaths *
      (1 + floatToU32 (p.1.data src).dependency)
    (p.1.modify dst fun d => { d with trim2 := u32 (d.trim2 + 1), toAddFloat := d.toAddFloat + w },
      p.2 + 1)
  else p

/-- `DependencyPropogation::operator()` on `src`: the assertion of line 845, the edge
loop, then the flags. -/
def operator (G : Graph) (cur : Nat) (p : State × Nat) (src : Nat) : State × Nat :=
  if (p.1.data src).currentLength ≠ infinity ∧ (p.1.data src).propogationFlag then
    let checked : State :=
      { p.1 with asserts := p.1.asserts && (p.1.data src).numSuccessors == 0 }
    let q := (G.edges src).foldl (edge cur src) (checked, p.2)
    (q.1.modify src fun d => { d with propogationFlag := false, depPropFlag := true }, q.2)
  else p

/-- The propagate superstep over the vertices in processing order `order`. -/
def superstep (G : Graph) (cur : Nat) (order : List Nat) (s : State) : State × Nat :=
  order.foldl (operator G cur) (s, 0)

end DependencyPropogation

namespace DPTrim

/-- `DPTrim::operator()`, which zeroes `trim` where `trim2` was decremented. -/
def operator (d : NodeData) : NodeData :=
  if 0 < d.trim2 then { d with numSuccessors := u32sub d.numSuccessors d.trim2, trim := 0 }
  else d

/-- `DPTrim::go`. -/
def go (G : Graph) (s : State) : State := doAll G (fun _ => operator) s

end DPTrim

namespace DPAdd

/-- `DPAdd::operator()`. -/
def operator (d : NodeData) : NodeData :=
  if 0 < d.toAddFloat then { d with dependency := d.dependency + d.toAddFloat, toAddFloat := 0 }
  else d

/-- `DPAdd::go`. -/
def go (G : Graph) (s : State) : State := doAll G (fun _ => operator) s

end DPAdd

namespace DependencyPropChanges

/-- `DependencyPropChanges::operator()`. -/
def operator (d : NodeData) : NodeData :=
  if d.currentLength ≠ infinity ∧ d.numSuccessors = 0 ∧ ¬ d.depPropFlag then
    { d with propogationFlag := true, depPropFlag := true }
  else d

/-- `DependencyPropChanges::go`, over `allNodesWithEdgesRange()`. -/
def go (G : Graph) (s : State) : State := doAllWithEdges G operator s

end DependencyPropChanges

namespace DependencyPropogation

/-- One round of `DependencyPropogation::go`'s loop while `cur` is the current source. -/
def body (G : Graph) (cur : Nat) (_ : Nat) (s : State) : State × Nat :=
  let r := superstep G cur G.nodesWithEdges s
  (DependencyPropChanges.go G (DPAdd.go G (DPTrim.go G r.1)), r.2)

/-- `DependencyPropogation::go` while `cur` is the current source. -/
def go (G : Graph) (cur fuel : Nat) (s : State) : Option (State × Nat) :=
  doWhile (body G cur) fuel 0 s

end DependencyPropogation

/-! ## The push superstep

A push writes only the destination's `trim2` and `to_add_float`, and an operator
clears only its own token, so each operator sees its own vertex as the superstep
found it: the line-845 check reads the record from before the superstep. -/

namespace DependencyPropogation

/-- What a push leaves alone: every field but the two push buffers. -/
def core (d : NodeData) : NodeData := { d with trim2 := 0, toAddFloat := 0 }

/-- `DependencyPropogation::operator()` runs its edge loop on `src`: reached and holding
the token. -/
def Holds (S : State) (src : Nat) : Prop :=
  (S.data src).currentLength ≠ infinity ∧ (S.data src).propogationFlag = true

instance (S : State) : DecidablePred (Holds S) := fun _ => inferInstanceAs (Decidable (_ ∧ _))

/-- A record whose operator has run: token handed on, `dep_prop_flag` set. -/
def spent (d : NodeData) : NodeData := { d with propogationFlag := false, depPropFlag := true }

theorem core_spent (d : NodeData) : core (spent d) = spent (core d) := rfl

theorem holds_congr {S S' : State} {u : Nat} (h : core (S'.data u) = core (S.data u)) :
    Holds S' u ↔ Holds S u := by
  have hl := congrArg NodeData.currentLength h
  have hf := congrArg NodeData.propogationFlag h
  simp only [core] at hl hf
  rw [Holds, Holds, hl, hf]

/-- One push, or none. -/
theorem edge_core (cur src dst : Nat) (p : State × Nat) :
    (edge cur src p dst).1.asserts = p.1.asserts ∧
      ∀ u, core ((edge cur src p dst).1.data u) = core (p.1.data u) := by
  unfold edge
  split
  · exact ⟨rfl, fun _ => rfl⟩
  · split
    · refine ⟨rfl, fun u => ?_⟩
      by_cases hu : u = dst
      · subst hu; simp [core]
      · simp [hu]
    · exact ⟨rfl, fun _ => rfl⟩

theorem edges_core (cur src : Nat) (l : List Nat) (p : State × Nat) :
    (l.foldl (edge cur src) p).1.asserts = p.1.asserts ∧
      ∀ u, core ((l.foldl (edge cur src) p).1.data u) = core (p.1.data u) :=
  List.foldlRecOn (motive := fun q => q.1.asserts = p.1.asserts ∧
      ∀ u, core (q.1.data u) = core (p.1.data u)) l _ p ⟨rfl, fun _ => rfl⟩
    fun q hq dst _ => ⟨(edge_core cur src dst q).1.trans hq.1,
      fun u => ((edge_core cur src dst q).2 u).trans (hq.2 u)⟩

/-- Edges into the current source push nothing, however many. -/
theorem foldl_replicate_cur (cur src n : Nat) (p : State × Nat) :
    (List.replicate n cur).foldl (edge cur src) p = p := by
  induction n with
  | zero => rfl
  | succ n ih => rw [List.replicate_succ, List.foldl_cons, edge, if_pos rfl, ih]

/-- `DependencyPropogation::operator()` on `src`. -/
theorem operator_spec (G : Graph) (cur : Nat) (p : State × Nat) (src : Nat) :
    (∀ u, core ((operator G cur p src).1.data u) = if u = src ∧ Holds p.1 src then
      core (spent (p.1.data u)) else core (p.1.data u)) ∧
    ((operator G cur p src).1.asserts = true ↔
      p.1.asserts = true ∧ (Holds p.1 src → (p.1.data src).numSuccessors = 0)) ∧
    ((operator G cur p src).2 ≠ p.2 → Holds p.1 src) := by
  by_cases h : Holds p.1 src
  · obtain ⟨ha, hc⟩ := edges_core cur src (G.edges src)
      ({ p.1 with asserts := p.1.asserts && (p.1.data src).numSuccessors == 0 }, p.2)
    have hop : operator G cur p src = (((G.edges src).foldl (edge cur src)
        ({ p.1 with asserts := p.1.asserts && (p.1.data src).numSuccessors == 0 }, p.2)).1.modify
          src spent, ((G.edges src).foldl (edge cur src)
        ({ p.1 with asserts := p.1.asserts && (p.1.data src).numSuccessors == 0 }, p.2)).2) :=
      if_pos h
    refine ⟨fun u => ?_, ?_, fun _ => h⟩
    · rw [hop]
      by_cases hu : u = src
      · subst hu
        rw [State.modify_data_self, if_pos ⟨rfl, h⟩, core_spent, core_spent, hc]
      · simp only [State.modify_data_ne hu, hc, hu, false_and, if_false]
    · rw [hop, State.modify_asserts, ha]
      simp [h]
  · have hop : operator G cur p src = p := if_neg h
    simp [hop, h]

/-- The push superstep over a duplicate-free order: every operator sees its vertex as
the superstep found it. -/
theorem steps_core (G : Graph) (cur : Nat) (order : List Nat) (hnd : order.Nodup)
    (p : State × Nat) :
    (∀ u, core ((order.foldl (operator G cur) p).1.data u) = if u ∈ order ∧ Holds p.1 u then
      core (spent (p.1.data u)) else core (p.1.data u)) ∧
    ((order.foldl (operator G cur) p).1.asserts = true ↔
      p.1.asserts = true ∧ ∀ u ∈ order, Holds p.1 u → (p.1.data u).numSuccessors = 0) ∧
    ((order.foldl (operator G cur) p).2 ≠ p.2 → ∃ u ∈ order, Holds p.1 u) := by
  induction order generalizing p with
  | nil => exact ⟨fun u => by simp, by simp, fun h => absurd rfl h⟩
  | cons x order ih =>
    obtain ⟨hx, hnd⟩ := List.nodup_cons.mp hnd
    obtain ⟨hc, ha, hw⟩ := operator_spec G cur p x
    obtain ⟨hc', ha', hw'⟩ := ih hnd (operator G cur p x)
    have hsame : ∀ u ∈ order, core ((operator G cur p x).1.data u) = core (p.1.data u) :=
      fun u hu => by rw [hc]; simp [show u ≠ x from fun h => hx (h ▸ hu)]
    have hnsucc : ∀ u ∈ order, ((operator G cur p x).1.data u).numSuccessors =
        (p.1.data u).numSuccessors := fun u hu => by
      simpa [core] using congrArg NodeData.numSuccessors (hsame u hu)
    simp only [List.foldl_cons]
    refine ⟨fun u => ?_, ?_, fun h => ?_⟩
    · rw [hc']
      by_cases hu : u ∈ order
      · have hh := holds_congr (hsame u hu)
        by_cases hhu : Holds p.1 u
        · simp [hu, hhu, hh.mpr hhu, core_spent, hsame u hu]
        · simp [hu, hhu, mt hh.mp hhu, hsame u hu]
      · rw [if_neg fun h => hu h.1, hc u]
        by_cases hux : u = x
        · subst hux; simp
        · simp [hux, hu]
    · rw [ha', ha]
      constructor
      · rintro ⟨⟨hp, hxs⟩, hrest⟩
        refine ⟨hp, fun u hu hh => ?_⟩
        rcases List.mem_cons.mp hu with rfl | hu
        · exact hxs hh
        · rw [← hnsucc u hu]; exact hrest u hu ((holds_congr (hsame u hu)).mpr hh)
      · rintro ⟨hp, hall⟩
        refine ⟨⟨hp, hall x (List.mem_cons_self _ _)⟩, fun u hu hh => ?_⟩
        rw [hnsucc u hu]
        exact hall u (List.mem_cons_of_mem _ hu) ((holds_congr (hsame u hu)).mp hh)
    · by_cases h₀ : (operator G cur p x).2 = p.2
      · obtain ⟨u, hu, hh⟩ := hw' (h₀ ▸ h)
        exact ⟨u, List.mem_cons_of_mem _ hu, (holds_congr (hsame u hu)).mp hh⟩
      · exact ⟨x, List.mem_cons_self _ _, hw h₀⟩

end DependencyPropogation

/-! ## What the push superstep adds

A push reads lengths, path counts and its tail's dependency and token, and writes only
the head's buffers; a token is cleared only by its own vertex's operator.  So, in any
order, the superstep adds to each vertex's buffers exactly the pushes along the stored
edges into it from the token holders, each computed from the records the superstep
found. -/

namespace DependencyPropogation

/-- The edge `(src, dst)` leads one hop closer to the source `cur`, and not into it. -/
def Down (S : State) (cur src dst : Nat) : Prop :=
  dst ≠ cur ∧ u32 ((S.data dst).currentLength + 1) = (S.data src).currentLength

instance (S : State) (cur src : Nat) : DecidablePred (Down S cur src) := fun _ =>
  inferInstanceAs (Decidable (_ ∧ _))

/-- The edge `(src, dst)` carries a push from `S`: `src` holds the token and the edge
leads down. -/
def Pushes (S : State) (cur src dst : Nat) : Prop := Holds S src ∧ Down S cur src dst

instance (S : State) (cur src : Nat) : DecidablePred (Pushes S cur src) := fun _ =>
  inferInstanceAs (Decidable (_ ∧ _))

/-- What a push along `(src, dst)` adds to `dst`'s `to_add_float`. -/
def weight (S : State) (src dst : Nat) : ℚ :=
  (S.data dst).numShortestPaths / (S.data src).numShortestPaths *
    (1 + floatToU32 (S.data src).dependency)

/-- The record `d` after `c` pushes that bring `a`. -/
def pushed (d : NodeData) (c : Nat) (a : ℚ) : NodeData :=
  { d with trim2 := u32 (d.trim2 + c), toAddFloat := d.toAddFloat + a }

/-- The pushes along the stored edges out of the vertices of `order` into `u`. -/
def pushCount (G : Graph) (S : State) (cur : Nat) (order : List Nat) (u : Nat) : Nat :=
  (order.map fun src => if Pushes S cur src u then (G.edges src).count u else 0).sum

/-- What those pushes bring. -/
def pushSum (G : Graph) (S : State) (cur : Nat) (order : List Nat) (u : Nat) : ℚ :=
  (order.map fun src =>
    if Pushes S cur src u then ((G.edges src).count u : ℚ) * weight S src u else 0).sum

/-- All the pushes along the stored edges out of the vertices of `order`. -/
def pushTotal (G : Graph) (S : State) (cur : Nat) (order : List Nat) : Nat :=
  (order.map fun src => if Holds S src then (G.edges src).countP fun w => Down S cur src w
    else 0).sum

theorem pushCount_cons (G : Graph) (S : State) (cur x : Nat) (order : List Nat) (u : Nat) :
    pushCount G S cur (x :: order) u =
      (if Pushes S cur x u then (G.edges x).count u else 0) + pushCount G S cur order u := by
  simp [pushCount]

theorem pushSum_cons (G : Graph) (S : State) (cur x : Nat) (order : List Nat) (u : Nat) :
    pushSum G S cur (x :: order) u =
      (if Pushes S cur x u then ((G.edges x).count u : ℚ) * weight S x u else 0) +
        pushSum G S cur order u := by
  simp [pushSum]

theorem pushTotal_cons (G : Graph) (S : State) (cur x : Nat) (order : List Nat) :
    pushTotal G S cur (x :: order) =
      (if Holds S x then (G.edges x).countP fun w => Down S cur x w else 0) +
        pushTotal G S cur order := by
  simp [pushTotal]

/-- What a push reads of a record besides the token. -/
def pushReads (d : NodeData) : Nat × Nat × ℚ := (d.currentLength, d.numShortestPaths, d.dependency)

@[simp] theorem pushReads_pushed (d : NodeData) (c : Nat) (a : ℚ) :
    pushReads (pushed d c a) = pushReads d := rfl

@[simp] theorem pushReads_spent (d : NodeData) : pushReads (spent d) = pushReads d := rfl

theorem spent_pushed (d : NodeData) (c : Nat) (a : ℚ) :
    spent (pushed d c a) = pushed (spent d) c a := rfl

@[simp] theorem pushed_pushed (d : NodeData) (c a c' a') :
    pushed (pushed d c a) c' a' = pushed d (c + c') (a + a') := by
  simp [pushed, u32_add_u32, Nat.add_assoc, add_assoc]

theorem pushed_zero {d : NodeData} (h : d.trim2 < 2 ^ 32) : pushed d 0 0 = d := by
  simp [pushed, u32_of_lt h]

section Reads

variable {S S' : State} (h : ∀ v, pushReads (S'.data v) = pushReads (S.data v))
include h

theorem down_congr (cur src dst : Nat) : Down S' cur src dst ↔ Down S cur src dst := by
  have hl : ∀ v, (S'.data v).currentLength = (S.data v).currentLength := fun v =>
    congrArg Prod.fst (h v)
  simp only [Down, hl]

theorem weight_congr (src dst : Nat) : weight S' src dst = weight S src dst := by
  have hσ : ∀ v, (S'.data v).numShortestPaths = (S.data v).numShortestPaths := fun v =>
    congrArg (·.2.1) (h v)
  have hδ : ∀ v, (S'.data v).dependency = (S.data v).dependency := fun v =>
    congrArg (·.2.2) (h v)
  simp only [weight, hσ, hδ]

end Reads

theorem edge_eq (cur src : Nat) (p : State × Nat) (dst : Nat) :
    edge cur src p dst = if Down p.1 cur src dst then
      (p.1.modify dst fun d => pushed d 1 (weight p.1 src dst), p.2 + 1) else p := by
  by_cases h : dst = cur
  · simp [edge, Down, h]
  · simp only [edge, Down, h, if_false, ne_eq, not_false_eq_true, true_and]
    rfl

/-- The edge loop of `src` over `l`: every vertex the edges of `l` lead down into gains
one push per edge. -/
theorem edges_pushed (cur src : Nat) (l : List Nat) (p : State × Nat)
    (hfit : ∀ u, (p.1.data u).trim2 < 2 ^ 32) :
    (∀ v, pushReads ((l.foldl (edge cur src) p).1.data v) = pushReads (p.1.data v)) ∧
      (l.foldl (edge cur src) p).2 = p.2 + l.countP (fun w => Down p.1 cur src w) ∧
      ∀ u, (l.foldl (edge cur src) p).1.data u = pushed (p.1.data u)
        (if Down p.1 cur src u then l.count u else 0)
        (if Down p.1 cur src u then (l.count u : ℚ) * weight p.1 src u else 0) := by
  induction l generalizing p with
  | nil => exact ⟨fun _ => rfl, rfl, fun u => by simp [pushed_zero (hfit u)]⟩
  | cons x l ih =>
    have hd : ∀ u, (edge cur src p x).1.data u =
        if u = x ∧ Down p.1 cur src x then pushed (p.1.data u) 1 (weight p.1 src x)
        else p.1.data u := fun u => by
      rw [edge_eq]
      by_cases hx : Down p.1 cur src x
      · by_cases hu : u = x
        · subst hu; simp [hx]
        · simp [hx, hu]
      · simp [hx]
    have hr : ∀ v, pushReads ((edge cur src p x).1.data v) = pushReads (p.1.data v) := fun v => by
      rw [hd]; split <;> rfl
    have hfit' : ∀ u, ((edge cur src p x).1.data u).trim2 < 2 ^ 32 := fun u => by
      rw [hd]; split
      · exact u32_lt _
      · exact hfit u
    obtain ⟨hr', hw', hd'⟩ := ih (edge cur src p x) hfit'
    simp only [List.foldl_cons, down_congr hr, weight_congr hr] at hr' hw' hd' ⊢
    refine ⟨fun v => (hr' v).trans (hr v), ?_, fun u => ?_⟩
    · rw [hw', edge_eq]
      by_cases hx : Down p.1 cur src x <;> simp [hx, List.countP_cons]
      omega
    · rw [hd', hd]
      by_cases hu : u = x
      · subst hu
        by_cases hx : Down p.1 cur src u
        · simp only [hx, and_self, if_true, pushed_pushed, List.count_cons_self]
          congr 1
          · omega
          · push_cast; rw [add_mul, one_mul, add_comm]
        · simp [hx]
      · simp [hu, List.count_cons_of_ne (Ne.symm hu)]

/-- `DependencyPropogation::operator()` on `src`: the token holder pushes along its
edges that lead down, and hands its token on. -/
theorem operator_pushed (G : Graph) (cur : Nat) (p : State × Nat) (src : Nat)
    (hfit : ∀ u, (p.1.data u).trim2 < 2 ^ 32) :
    (operator G cur p src).2 = p.2 +
        (if Holds p.1 src then (G.edges src).countP fun w => Down p.1 cur src w else 0) ∧
      ∀ u, (operator G cur p src).1.data u =
        pushed (if u = src ∧ Holds p.1 src then spent (p.1.data u) else p.1.data u)
          (if Pushes p.1 cur src u then (G.edges src).count u else 0)
          (if Pushes p.1 cur src u then ((G.edges src).count u : ℚ) * weight p.1 src u else 0) := by
  by_cases hh : Holds p.1 src
  · let checked : State := { p.1 with asserts := p.1.asserts && (p.1.data src).numSuccessors == 0 }
    obtain ⟨-, hw, hd⟩ := edges_pushed cur src (G.edges src) (checked, p.2) hfit
    have hop : operator G cur p src = (((G.edges src).foldl (edge cur src) (checked, p.2)).1.modify
        src spent, ((G.edges src).foldl (edge cur src) (checked, p.2)).2) := if_pos hh
    refine ⟨by rw [hop, hw, if_pos hh]; rfl, fun u => ?_⟩
    rw [hop]
    by_cases hu : u = src
    · subst hu
      rw [State.modify_data_self, hd]
      simp only [Pushes, hh, true_and, and_self, if_true, spent_pushed]
      rfl
    · rw [State.modify_data_ne hu, hd]
      simp only [Pushes, hh, true_and, hu, false_and, if_false]
      rfl
  · have hop : operator G cur p src = p := if_neg hh
    simp [hop, hh, Pushes, pushed_zero (hfit _)]

/-- The push superstep over a duplicate-free order, from `p`: each vertex gains the pushes
along the edges into it from the token holders of `order`, read off `p`. -/
theorem steps_pushed (G : Graph) (cur : Nat) (order : List Nat) (hnd : order.Nodup)
    (p : State × Nat) (hfit : ∀ u, (p.1.data u).trim2 < 2 ^ 32) :
    (order.foldl (operator G cur) p).2 = p.2 + pushTotal G p.1 cur order ∧
      ∀ u, (order.foldl (operator G cur) p).1.data u =
        pushed (if u ∈ order ∧ Holds p.1 u then spent (p.1.data u) else p.1.data u)
          (pushCount G p.1 cur order u) (pushSum G p.1 cur order u) := by
  induction order generalizing p with
  | nil => exact ⟨rfl, fun u => by simp [pushCount, pushSum, pushed_zero (hfit u)]⟩
  | cons x order ih =>
    obtain ⟨hx, hnd⟩ := List.nodup_cons.mp hnd
    obtain ⟨hw, hd⟩ := operator_pushed G cur p x hfit
    have hr : ∀ v, pushReads ((operator G cur p x).1.data v) = pushReads (p.1.data v) :=
      fun v => by rw [hd]; split <;> rfl
    have hh : ∀ v ∈ order, Holds (operator G cur p x).1 v ↔ Holds p.1 v := fun v hv =>
      holds_congr (by
        rw [(operator_spec G cur p x).1, if_neg fun (h : v = x ∧ _) => hx (h.1 ▸ hv)])
    have hp : ∀ src ∈ order, ∀ u, Pushes (operator G cur p x).1 cur src u ↔ Pushes p.1 cur src u :=
      fun src hs u => and_congr (hh src hs) (down_congr hr cur src u)
    have hfit' : ∀ u, ((operator G cur p x).1.data u).trim2 < 2 ^ 32 := fun u => by
      rw [hd]; exact u32_lt _
    obtain ⟨hw', hd'⟩ := ih hnd (operator G cur p x) hfit'
    have hc : ∀ u, pushCount G (operator G cur p x).1 cur order u = pushCount G p.1 cur order u :=
      fun u => congrArg List.sum (List.map_congr_left fun src hs => by simp only [hp src hs])
    have hs : ∀ u, pushSum G (operator G cur p x).1 cur order u = pushSum G p.1 cur order u :=
      fun u => congrArg List.sum (List.map_congr_left fun src hs => by
        simp only [hp src hs, weight_congr hr])
    have ht : pushTotal G (operator G cur p x).1 cur order = pushTotal G p.1 cur order :=
      congrArg List.sum (List.map_congr_left fun src hs => by
        simp only [hh src hs, down_congr hr])
    simp only [List.foldl_cons]
    refine ⟨by rw [hw', hw, ht, pushTotal_cons]; omega, fun u => ?_⟩
    rw [hd', hc, hs, pushCount_cons, pushSum_cons]
    by_cases hu : u = x
    · subst hu
      simp [hx, hd, Nat.add_comm, add_comm]
    · by_cases hm : u ∈ order ∧ Holds p.1 u
      · rw [if_pos ⟨hm.1, (hh u hm.1).mpr hm.2⟩, if_pos ⟨List.mem_cons_of_mem _ hm.1, hm.2⟩, hd,
          if_neg fun h => hu h.1, spent_pushed, pushed_pushed]
      · rw [if_neg fun h => hm ⟨h.1, (hh u h.1).mp h.2⟩,
          if_neg fun h => hm ⟨(List.mem_cons.mp h.1).resolve_left hu, h.2⟩, hd,
          if_neg fun h => hu h.1, pushed_pushed]

/-- The `uint32_t` and `bool` fields the push superstep leaves at `u`: those `u` had, its
token handed on if it held one, and one more `trim2` unit for every push into it. -/
theorem superstep_data_ints (G : Graph) (cur : Nat) {order : List Nat} (hnd : order.Nodup)
    (S : State) (hfit : ∀ u, (S.data u).trim2 < 2 ^ 32) (u : Nat) :
    ((superstep G cur order S).1.data u).ints =
      { (if u ∈ order ∧ Holds S u then spent (S.data u) else S.data u).ints with
        trim2 := u32 ((S.data u).trim2 + pushCount G S cur order u) } := by
  rw [superstep, (steps_pushed G cur order hnd (S, 0) hfit).2 u]
  split_ifs <;> rfl

/-- The push superstep over every duplicate-free order, on the `uint32_t` and `bool`
fields: each vertex gains in `trim2` one unit per push along the stored edges into it
from the token holders of `order`, all read off the records the superstep found; each
token holder hands its token on; the accumulator counts the pushes; and the line-845
check holds exactly when every token holder of `order` has no successors left.  None of
it reads a `float` field. -/
theorem superstep_pushed (G : Graph) (cur : Nat) {order : List Nat} (hnd : order.Nodup)
    (S : State) (hfit : ∀ u, (S.data u).trim2 < 2 ^ 32) :
    (∀ u, ((superstep G cur order S).1.data u).ints =
      { (if u ∈ order ∧ Holds S u then spent (S.data u) else S.data u).ints with
        trim2 := u32 ((S.data u).trim2 + pushCount G S cur order u) }) ∧
    (superstep G cur order S).2 = pushTotal G S cur order ∧
    ((superstep G cur order S).1.asserts = true ↔
      S.asserts = true ∧ ∀ u ∈ order, Holds S u → (S.data u).numSuccessors = 0) :=
  ⟨superstep_data_ints G cur hnd S hfit,
    (steps_pushed G cur order hnd (S, 0) hfit).1.trans (Nat.zero_add _),
    (steps_core G cur order hnd (S, 0)).2.1⟩

/-! ### What the `float` fields cannot reach

A push's test reads lengths and the token, and its count goes to `trim2`; only its
weight reads `num_shortest_paths` and the dependency, and it goes to `to_add_float`.  So
two states that agree on their `uint32_t` and `bool` fields leave states that agree on
them, whatever their `float` fields hold and however `float` arithmetic rounds. -/

theorem ints_spent (d : NodeData) : (spent d).ints = spent d.ints := rfl

section Ints

variable {S T : State} (h : S.ints = T.ints)
include h

theorem data_ints (u : Nat) : (S.data u).ints = (T.data u).ints :=
  congrFun (congrArg State.data h) u

theorem length_ints (u : Nat) : (S.data u).currentLength = (T.data u).currentLength :=
  (congrArg NodeData.currentLength (data_ints h u) :)

theorem trim2_ints (u : Nat) : (S.data u).trim2 = (T.data u).trim2 :=
  (congrArg NodeData.trim2 (data_ints h u) :)

theorem holds_ints (u : Nat) : Holds S u ↔ Holds T u := by
  rw [Holds, Holds, length_ints h,
    show (S.data u).propogationFlag = (T.data u).propogationFlag from
      (congrArg NodeData.propogationFlag (data_ints h u) :)]

theorem down_ints (cur src dst : Nat) : Down S cur src dst ↔ Down T cur src dst := by
  simp only [Down, length_ints h]

theorem pushCount_ints (G : Graph) (cur : Nat) (order : List Nat) (u : Nat) :
    pushCount G S cur order u = pushCount G T cur order u := by
  simp only [pushCount, Pushes, holds_ints h, down_ints h]

theorem pushTotal_ints (G : Graph) (cur : Nat) (order : List Nat) :
    pushTotal G S cur order = pushTotal G T cur order := by
  simp only [pushTotal, holds_ints h, down_ints h]

/-- Over two orders of the same vertices, the push superstep from two states that agree
on their `uint32_t` and `bool` fields leaves two states that agree on them, after the
same work. -/
theorem superstep_ints (G : Graph) (cur : Nat) {order order' : List Nat}
    (hp : order.Perm order') (hnd : order.Nodup) (hfit : ∀ u, (S.data u).trim2 < 2 ^ 32) :
    (superstep G cur order S).1.ints = (superstep G cur order' T).1.ints ∧
      (superstep G cur order S).2 = (superstep G cur order' T).2 := by
  have hnd' := hp.nodup_iff.mp hnd
  have hfit' : ∀ u, (T.data u).trim2 < 2 ^ 32 := fun u => trim2_ints h u ▸ hfit u
  have hpush : ∀ u, pushCount G S cur order u = pushCount G T cur order' u := fun u =>
    (pushCount_ints h G cur order u).trans (hp.map _).sum_eq
  refine ⟨State.ext (funext fun u => ?_) (Bool.eq_iff_iff.mpr ?_), ?_⟩
  · show ((superstep G cur order S).1.data u).ints = ((superstep G cur order' T).1.data u).ints
    rw [superstep_data_ints G cur hnd S hfit, superstep_data_ints G cur hnd' T hfit', hpush,
      trim2_ints h]
    simp only [hp.mem_iff, holds_ints h]
    split_ifs
    · rw [ints_spent, ints_spent, data_ints h]
    · rw [data_ints h]
  · rw [State.ints_asserts, State.ints_asserts, superstep, superstep,
      (steps_core G cur order hnd (S, 0)).2.1, (steps_core G cur order' hnd' (T, 0)).2.1,
      show S.asserts = T.asserts from (congrArg State.asserts h :)]
    simp only [hp.mem_iff, holds_ints h,
      show ∀ u, (S.data u).numSuccessors = (T.data u).numSuccessors from fun u =>
        (congrArg NodeData.numSuccessors (data_ints h u) :)]
  · rw [superstep, superstep, (steps_pushed G cur order hnd (S, 0) hfit).1,
      (steps_pushed G cur order' hnd' (T, 0) hfit').1, pushTotal_ints h, pushTotal,
      pushTotal, (hp.map _).sum_eq]

end Ints

end DependencyPropogation

/-! ## One round

The token is only ever held where `DependencyPropChanges` has just seen
`num_successors == 0`, whatever `trim2` holds: the operator that finds the token
clears it in the same superstep.  Each vertex runs its operator with the token at most
once per source, so the rounds that push are at most the vertices with edges. -/

namespace DependencyPropogation

@[simp] theorem dpTrim_fields (d : NodeData) :
    (DPTrim.operator d).currentLength = d.currentLength ∧
      (DPTrim.operator d).propogationFlag = d.propogationFlag ∧
      (DPTrim.operator d).depPropFlag = d.depPropFlag := by
  unfold DPTrim.operator; split <;> exact ⟨rfl, rfl, rfl⟩

@[simp] theorem dpAdd_fields (d : NodeData) :
    (DPAdd.operator d).currentLength = d.currentLength ∧
      (DPAdd.operator d).numSuccessors = d.numSuccessors ∧
      (DPAdd.operator d).propogationFlag = d.propogationFlag ∧
      (DPAdd.operator d).depPropFlag = d.depPropFlag := by
  unfold DPAdd.operator; split <;> exact ⟨rfl, rfl, rfl, rfl⟩

theorem dpChanges_eq (d : NodeData) : DependencyPropChanges.operator d =
    if d.currentLength ≠ infinity ∧ d.numSuccessors = 0 ∧ ¬ d.depPropFlag then
      { d with propogationFlag := true, depPropFlag := true } else d := rfl

/-- The record a round leaves at `u` from the one the superstep left: the two apply
loops run on every vertex, the flag update on those with edges. -/
def afterRound (G : Graph) (u : Nat) (d : NodeData) : NodeData :=
  if G.edges u ≠ [] then DependencyPropChanges.operator (DPAdd.operator (DPTrim.operator d))
  else if u < G.size then DPAdd.operator (DPTrim.operator d) else d

/-- The fields no part of a round after the superstep writes. -/
def roundFrame (d : NodeData) : NodeData :=
  { d with numSuccessors := 0, trim := 0, dependency := 0, toAddFloat := 0,
           propogationFlag := false, depPropFlag := false }

/-- Each of the three loops after the superstep keeps the frame. -/
theorem roundFrame_operators (d : NodeData) :
    roundFrame (DPTrim.operator d) = roundFrame d ∧ roundFrame (DPAdd.operator d) = roundFrame d ∧
      roundFrame (DependencyPropChanges.operator d) = roundFrame d := by
  refine ⟨?_, ?_, ?_⟩
  · unfold DPTrim.operator; split <;> rfl
  · unfold DPAdd.operator; split <;> rfl
  · unfold DependencyPropChanges.operator; split <;> rfl

theorem roundFrame_afterRound (G : Graph) (u : Nat) (d : NodeData) :
    roundFrame (afterRound G u d) = roundFrame d := by
  unfold afterRound
  split_ifs <;> simp only [roundFrame_operators]

theorem afterRound_trim (G : Graph) (u : Nat) {d : NodeData} (h : d.trim = 0) :
    (afterRound G u d).trim = 0 := by
  have h₁ : (DPTrim.operator d).trim = 0 := by unfold DPTrim.operator; split <;> simp [h]
  have h₂ : ∀ e, (DPAdd.operator e).trim = e.trim := fun e => by
    unfold DPAdd.operator; split <;> rfl
  have h₃ : ∀ e, (DependencyPropChanges.operator e).trim = e.trim := fun e => by
    unfold DependencyPropChanges.operator; split <;> rfl
  unfold afterRound
  split_ifs <;> simp only [h₁, h₂, h₃, h]

/-- The three loops after the push superstep, `DPTrim`, `DPAdd` and the flag update. -/
theorem loops_data (G : Graph) (S : State) (u : Nat) :
    (DependencyPropChanges.go G (DPAdd.go G (DPTrim.go G S))).data u = afterRound G u (S.data u) := by
  by_cases he : G.edges u = []
  · by_cases hu : u < G.size
    · simp [afterRound, DependencyPropChanges.go, doAllWithEdges, DPAdd.go, DPTrim.go, he, hu]
    · simp [afterRound, DependencyPropChanges.go, doAllWithEdges, DPAdd.go, DPTrim.go, he,
        hu, Nat.le_of_not_lt hu]
  · simp [afterRound, DependencyPropChanges.go, doAllWithEdges, DPAdd.go, DPTrim.go, he,
      G.lt_size_of_edges_ne_nil he]

theorem body_data (G : Graph) (cur i : Nat) (S : State) (u : Nat) :
    (body G cur i S).1.data u = afterRound G u ((superstep G cur G.nodesWithEdges S).1.data u) :=
  loops_data G _ u

theorem body_asserts (G : Graph) (cur i : Nat) (S : State) :
    (body G cur i S).1.asserts = (superstep G cur G.nodesWithEdges S).1.asserts := by
  simp [body, DependencyPropChanges.go, doAllWithEdges, DPAdd.go, DPTrim.go]

/-- Every vertex with edges that holds the token has no successors left: the line-845
check passes on all of them. -/
def TokensClear (G : Graph) (S : State) : Prop :=
  ∀ u ∈ G.nodesWithEdges, Holds S u → (S.data u).numSuccessors = 0

/-- A record that may still push: reached, and holding the token or not yet past it. -/
def Pending (d : NodeData) : Prop :=
  d.currentLength ≠ infinity ∧ (d.propogationFlag = true ∨ d.depPropFlag = false)

instance : DecidablePred Pending := fun _ => inferInstanceAs (Decidable (_ ∧ _))

/-- The vertices with edges that may still push. -/
def pending (G : Graph) (S : State) : Nat := G.nodesWithEdges.countP fun u => Pending (S.data u)

/-- A strictly smaller filter of the same list counts strictly fewer elements. -/
theorem countP_lt_countP {α : Type} {p q : α → Prop} [DecidablePred p] [DecidablePred q]
    {l : List α} (h : ∀ x ∈ l, p x → q x) (hx : ∃ x ∈ l, q x ∧ ¬ p x) :
    l.countP (fun x => p x) < l.countP fun x => q x := by
  induction l with
  | nil => simp at hx
  | cons a l ih =>
    have hle := List.countP_mono_left (p := fun x => decide (p x)) (q := fun x => decide (q x))
      (l := l) fun y hy hp => by simpa using h y (List.mem_cons_of_mem _ hy) (by simpa using hp)
    obtain ⟨x, hx, hqx, hpx⟩ := hx
    have hpa := h a (List.mem_cons_self _ _)
    rcases List.mem_cons.mp hx with rfl | hx
    · simp [List.countP_cons, hqx, hpx]
      omega
    · have := ih (fun y hy => h y (List.mem_cons_of_mem _ hy)) ⟨x, hx, hqx, hpx⟩
      by_cases hp : p a
      · simp [List.countP_cons, hp, hpa hp]; omega
      · by_cases hq : q a <;> simp [List.countP_cons, hp, hq] <;> omega

theorem superstep_core (G : Graph) (cur : Nat) (S : State) (u : Nat) :
    core ((superstep G cur G.nodesWithEdges S).1.data u) =
      if u ∈ G.nodesWithEdges ∧ Holds S u then core (spent (S.data u)) else core (S.data u) :=
  (steps_core G cur _ G.nodup_nodesWithEdges (S, 0)).1 u

/-- A record's length and both flags: what decides whether it pushes, and what every
step of a round between the superstep and `DependencyPropChanges` keeps. -/
def flags (d : NodeData) : Nat × Bool × Bool := (d.currentLength, d.propogationFlag, d.depPropFlag)

@[simp] theorem flags_dpTrim (d : NodeData) : flags (DPTrim.operator d) = flags d := by
  unfold DPTrim.operator; split <;> rfl

@[simp] theorem flags_dpAdd (d : NodeData) : flags (DPAdd.operator d) = flags d := by
  unfold DPAdd.operator; split <;> rfl

theorem flags_superstep (G : Graph) (cur : Nat) (S : State) (u : Nat) :
    flags ((superstep G cur G.nodesWithEdges S).1.data u) =
      if u ∈ G.nodesWithEdges ∧ Holds S u then flags (spent (S.data u)) else flags (S.data u) := by
  show flags (core _) = _
  rw [superstep_core]
  split <;> rfl

section Changes

variable {G : Graph} {cur : Nat} {S : State} {u : Nat} {m : NodeData}
  (hu : u ∈ G.nodesWithEdges) (hm : flags m = flags ((superstep G cur G.nodesWithEdges S).1.data u))
include hu hm

/-- `DependencyPropChanges` on a record with the superstep's length and flags, whatever
the steps between changed, leaves the token only where no successors are left. -/
theorem holds_changes (hh : (DependencyPropChanges.operator m).currentLength ≠ infinity ∧
      (DependencyPropChanges.operator m).propogationFlag = true) :
    (DependencyPropChanges.operator m).numSuccessors = 0 := by
  by_cases hc : m.currentLength ≠ infinity ∧ m.numSuccessors = 0 ∧ ¬ m.depPropFlag
  · rw [dpChanges_eq, if_pos hc]; exact hc.2.1
  · rw [dpChanges_eq, if_neg hc] at hh
    rw [flags_superstep] at hm
    by_cases hS : Holds S u
    · rw [if_pos ⟨hu, hS⟩] at hm
      simp only [flags, spent, Prod.mk.injEq] at hm
      simp [hm.2.1] at hh
    · rw [if_neg fun h => hS h.2] at hm
      simp only [flags, Prod.mk.injEq] at hm
      exact absurd ⟨hm.1 ▸ hh.1, hm.2.1 ▸ hh.2⟩ hS

/-- A vertex pending after `DependencyPropChanges` was pending before the superstep and
did not push in it. -/
theorem pending_changes (hp : Pending (DependencyPropChanges.operator m)) :
    ¬ Holds S u ∧ Pending (S.data u) := by
  rw [flags_superstep] at hm
  by_cases hS : Holds S u
  · rw [if_pos ⟨hu, hS⟩] at hm
    simp only [flags, spent, Prod.mk.injEq] at hm
    rw [dpChanges_eq, if_neg (by simp [hm.2.2])] at hp
    simp [Pending, hm.2.1, hm.2.2] at hp
  · rw [if_neg fun h => hS h.2] at hm
    simp only [flags, Prod.mk.injEq] at hm
    refine ⟨hS, ?_⟩
    rw [dpChanges_eq] at hp
    split at hp
    · rename_i hc
      exact ⟨hm.1 ▸ hc.1, .inr (by simpa [hm.2.2] using hc.2.2)⟩
    · simpa [Pending, hm.1, hm.2.1, hm.2.2] using hp

end Changes

/-- Vertices pending after a round were pending before it and did not push: their number
never grows, and drops when the superstep pushed. -/
theorem pending_after {G : Graph} {cur : Nat} {S S' : State}
    (h : ∀ u ∈ G.nodesWithEdges, Pending (S'.data u) → ¬ Holds S u ∧ Pending (S.data u)) :
    pending G S' ≤ pending G S ∧
      ((superstep G cur G.nodesWithEdges S).2 ≠ 0 → pending G S' < pending G S) := by
  refine ⟨List.countP_mono_left fun u hu hp => by simpa using (h u hu (by simpa using hp)).2,
    fun hw => countP_lt_countP (fun u hu hp => (h u hu hp).2) ?_⟩
  obtain ⟨u, hu, hh⟩ := (steps_core G cur _ G.nodup_nodesWithEdges (S, 0)).2.2 hw
  exact ⟨u, hu, ⟨hh.1, .inl hh.2⟩, fun hp => (h u hu hp).1 hh⟩

/-- A field that neither a push, nor the token hand-over, nor the apply loops and flag
update write is kept by a round. -/
theorem body_field {α : Type} (G : Graph) (cur i : Nat) (S : State) (f : NodeData → α)
    (hc : ∀ e, f (core e) = f e) (hs : ∀ e, f (spent e) = f e) (hr : ∀ e, f (roundFrame e) = f e)
    (u : Nat) : f ((body G cur i S).1.data u) = f (S.data u) := by
  rw [body_data, ← hr, roundFrame_afterRound, hr, ← hc, superstep_core]
  split <;> simp only [hc, hs]

theorem body_trim (G : Graph) (cur i : Nat) (S : State) {u : Nat} (h : (S.data u).trim = 0) :
    ((body G cur i S).1.data u).trim = 0 := by
  rw [body_data]
  refine afterRound_trim G u ?_
  have := congrArg NodeData.trim (superstep_core G cur S u)
  simp only [core] at this
  rw [this]
  split <;> exact h

theorem body_asserts_iff (G : Graph) (cur i : Nat) (S : State) :
    (body G cur i S).1.asserts = true ↔ S.asserts = true ∧ TokensClear G S := by
  rw [body_asserts]
  exact (steps_core G cur _ G.nodup_nodesWithEdges (S, 0)).2.1

/-- After a round only the vertices `DependencyPropChanges` has just handed the token
hold it, and they have no successors left. -/
theorem tokensClear_body (G : Graph) (cur i : Nat) (S : State) :
    TokensClear G (body G cur i S).1 := by
  intro u hu hh
  rw [Holds, body_data, afterRound, if_pos (Graph.mem_nodesWithEdges.mp hu)] at hh
  rw [body_data, afterRound, if_pos (Graph.mem_nodesWithEdges.mp hu)]
  exact holds_changes hu (by rw [flags_dpAdd, flags_dpTrim]) hh

/-- A vertex with edges pending after a round was pending before, and did not push. -/
theorem pending_of_body (G : Graph) (cur i : Nat) (S : State) {u : Nat}
    (hu : u ∈ G.nodesWithEdges) (hp : Pending ((body G cur i S).1.data u)) :
    ¬ Holds S u ∧ Pending (S.data u) := by
  rw [body_data, afterRound, if_pos (Graph.mem_nodesWithEdges.mp hu)] at hp
  exact pending_changes hu (by rw [flags_dpAdd, flags_dpTrim]) hp

/-- A round never adds to the pending vertices, and one that pushes removes one. -/
theorem pending_body (G : Graph) (cur i : Nat) (S : State) :
    pending G (body G cur i S).1 ≤ pending G S ∧
      ((body G cur i S).2 ≠ 0 → pending G (body G cur i S).1 < pending G S) :=
  pending_after fun _ hu hp => pending_of_body G cur i S hu hp

/-- What the δ rounds keep of a state: the assertion bit, and per vertex its length,
predecessor count, path count and `to_add`; a `trim` of `0` stays `0`. -/
structure Kept (S S' : State) : Prop where
  asserts : S'.asserts = S.asserts
  currentLength : ∀ u, (S'.data u).currentLength = (S.data u).currentLength
  numPredecessors : ∀ u, (S'.data u).numPredecessors = (S.data u).numPredecessors
  numShortestPaths : ∀ u, (S'.data u).numShortestPaths = (S.data u).numShortestPaths
  toAdd : ∀ u, (S'.data u).toAdd = (S.data u).toAdd
  trim : ∀ u, (S.data u).trim = 0 → (S'.data u).trim = 0

theorem Kept.refl (S : State) : Kept S S :=
  ⟨rfl, fun _ => rfl, fun _ => rfl, fun _ => rfl, fun _ => rfl, fun _ h => h⟩

theorem Kept.trans {S S' S'' : State} (h : Kept S S') (h' : Kept S' S'') : Kept S S'' :=
  ⟨h'.asserts.trans h.asserts, fun u => (h'.currentLength u).trans (h.currentLength u),
    fun u => (h'.numPredecessors u).trans (h.numPredecessors u),
    fun u => (h'.numShortestPaths u).trans (h.numShortestPaths u),
    fun u => (h'.toAdd u).trans (h.toAdd u), fun u h₀ => h'.trim u (h.trim u h₀)⟩

/-- A round from a state whose token holders have no successors left keeps it. -/
theorem kept_body (G : Graph) (cur i : Nat) {S : State} (hS : TokensClear G S) :
    Kept S (body G cur i S).1 :=
  ⟨Bool.eq_iff_iff.mpr ((body_asserts_iff G cur i S).trans (and_iff_left hS)),
    body_field G cur i S _ (fun _ => rfl) (fun _ => rfl) (fun _ => rfl),
    body_field G cur i S _ (fun _ => rfl) (fun _ => rfl) (fun _ => rfl),
    body_field G cur i S _ (fun _ => rfl) (fun _ => rfl) (fun _ => rfl),
    body_field G cur i S _ (fun _ => rfl) (fun _ => rfl) (fun _ => rfl),
    fun _ => body_trim G cur i S⟩

/-- `DependencyPropogation::go` from a state whose token holders have no successors left
stops within one round more than there are pending vertices, keeping the state: the
line-845 check never fails on the way. -/
theorem go_kept (G : Graph) (cur : Nat) {S : State} (hS : TokensClear G S) {fuel : Nat}
    (hfuel : pending G S < fuel) :
    ∃ S' k, go G cur fuel S = some (S', k) ∧ k ≤ pending G S + 1 ∧ Kept S S' := by
  obtain ⟨⟨S', k⟩, hgo, hk, -, hkept⟩ := doWhile_of_measure (fun S' => TokensClear G S' ∧ Kept S S')
    (pending G) (fun i _ h => ⟨tokensClear_body G cur i _, h.2.trans (kept_body G cur i h.1)⟩)
    (fun i _ h => (pending_body G cur i _).2) ⟨hS, Kept.refl S⟩ hfuel 0
  exact ⟨S', k, hgo, by omega, hkept⟩

/-- Every `trim2` holds a `uint32_t` value. -/
def Trim2Fits (S : State) : Prop := ∀ u, (S.data u).trim2 < 2 ^ 32

/-- The loops after a push superstep in any duplicate-free order keep every `trim2` a
`uint32_t` value. -/
theorem trim2Fits_loops (G : Graph) (cur : Nat) {order : List Nat} (hnd : order.Nodup) {S : State}
    (hfit : Trim2Fits S) :
    Trim2Fits (DependencyPropChanges.go G (DPAdd.go G (DPTrim.go G (superstep G cur order S).1))) :=
  fun u => by
    have hr : ∀ d, (afterRound G u d).trim2 = d.trim2 := fun d =>
      (congrArg NodeData.trim2 (roundFrame_afterRound G u d) :)
    rw [loops_data, hr, superstep, (steps_pushed G cur order hnd (S, 0) hfit).2]
    exact u32_lt _

/-! ### The loops after the superstep read no `float` field

`DPTrim` reads `trim2`, the flag update lengths, counts and flags, and `DPAdd` writes only
`float` fields. -/

theorem ints_dpTrim (d : NodeData) : (DPTrim.operator d).ints = DPTrim.operator d.ints := by
  by_cases h : 0 < d.trim2 <;> simp [DPTrim.operator, NodeData.ints, h]

theorem ints_dpAdd (d : NodeData) : (DPAdd.operator d).ints = d.ints := by
  unfold DPAdd.operator; split <;> rfl

theorem ints_dpChanges (d : NodeData) :
    (DependencyPropChanges.operator d).ints = DependencyPropChanges.operator d.ints := by
  unfold DependencyPropChanges.operator
  split_ifs with h₁ h₂ h₂
  · rfl
  · exact absurd h₁ h₂
  · exact absurd h₂ h₁
  · rfl

theorem afterRound_ints (G : Graph) (u : Nat) {d d' : NodeData} (hd : d.ints = d'.ints) :
    (afterRound G u d).ints = (afterRound G u d').ints := by
  unfold afterRound
  split_ifs <;> simp only [ints_dpChanges, ints_dpAdd, ints_dpTrim, hd]

theorem loops_ints (G : Graph) {S T : State} (h : S.ints = T.ints) :
    (DependencyPropChanges.go G (DPAdd.go G (DPTrim.go G S))).ints =
      (DependencyPropChanges.go G (DPAdd.go G (DPTrim.go G T))).ints :=
  State.ext (funext fun u => by
      simp only [State.ints_data, loops_data]
      exact afterRound_ints G u (data_ints h u))
    (congrArg State.asserts h :)

/-- `DependencyPropogation::go` with round `i`'s push superstep running the operators in
the order `sched i`, as `Galois::do_all` may. -/
def goScheduled (G : Graph) (sched : Nat → List Nat) (cur fuel : Nat) (s : State) :
    Option (State × Nat) :=
  doWhile (fun i s =>
    let r := superstep G cur (sched i) s
    (DependencyPropChanges.go G (DPAdd.go G (DPTrim.go G r.1)), r.2)) fuel 0 s

/-- **The push order and the `float` fields do not reach the `uint32_t` and `bool`
fields.**  Whatever order `Galois::do_all` runs the push operators in, round after round,
and whatever the `float` fields hold, `DependencyPropogation::go` from two states that
agree on their `uint32_t` and `bool` fields, with every `trim2` a `uint32_t` value, ends
after the same rounds in two states that agree on them, as in the order the model fixes.
So every result about those fields holds whatever `float` arithmetic does. -/
theorem pushes_schedule_independent (G : Graph) (cur : Nat) {sched : Nat → List Nat}
    (hsched : ∀ i, (sched i).Perm G.nodesWithEdges) (fuel : Nat) {s t : State}
    (hfit : Trim2Fits s) (hst : s.ints = t.ints) :
    (goScheduled G sched cur fuel s).map (Prod.map State.ints id) =
      (go G cur fuel t).map (Prod.map State.ints id) := by
  have hrel : Option.Rel (fun a b => (a.1.ints = b.1.ints ∧ Trim2Fits a.1) ∧ a.2 = b.2)
      (goScheduled G sched cur fuel s) (go G cur fuel t) :=
    doWhile_rel (fun (a b : State) => a.ints = b.ints ∧ Trim2Fits a) (fun i a b hab => by
      have hnd := (hsched i).nodup_iff.mpr G.nodup_nodesWithEdges
      obtain ⟨h₁, h₂⟩ := superstep_ints hab.1 G cur (hsched i) hnd hab.2
      exact ⟨⟨loops_ints G h₁, trim2Fits_loops G cur hnd hab.2⟩, h₂⟩) fuel 0 ⟨hst, hfit⟩
  revert hrel
  generalize goScheduled G sched cur fuel s = x
  generalize go G cur fuel t = y
  rintro (⟨h⟩ | _)
  · exact congrArg some (Prod.ext h.1.1 h.2)
  · rfl

end DependencyPropogation

/-- The right side of Brandes' recurrence at `v`, read off `s`: over the stored
edges `(w, v)` with `w` one hop further from the source, `σ(v) / σ(w) · (1 + δ(w))`. -/
def brandesRhs (G : Graph) (s : State) (v : Nat) : ℚ :=
  ((List.range G.size).map fun w =>
    ((G.edges w).count v : ℚ) *
      if (s.data w).currentLength = (s.data v).currentLength + 1 then
        (s.data v).numShortestPaths / (s.data w).numShortestPaths * (1 + (s.data w).dependency)
      else 0).sum

section Evaluation

/- `Rat.add`, `Rat.mul` and `Rat.inv` are sealed in `Batteries`; unsealing them lets
`decide` run the phases, exact `float` arithmetic included, on concrete graphs. -/
attribute [local semireducible] Rat.add Rat.mul Rat.inv

/-- A diamond hanging below a path: `4 → {2, 3} → 1 → 0`. -/
def diamondTail : Graph := ⟨[[], [0], [1], [1], [2, 3]], by decide⟩

/-- The records the σ phase for the source `0` leaves on `diamondTail`: lengths `0, 1, 2,
2, 3`, path counts `1, 1, 1, 1, 2`, successor counts `1, 2, 1, 1, 0`, and the token on
the leaf `4`. -/
def diamondTailSigma : State :=
  ⟨fun v => { NodeData.zero with
      currentLength := [0, 1, 2, 2, 3].getD v 0
      numShortestPaths := [1, 1, 1, 1, 2].getD v 0
      numSuccessors := [1, 2, 1, 1, 0].getD v 0
      propogationFlag := v == 4
      numShortPathsFlag := decide (v < 5) }, true⟩

example : ∀ v < 5, ((SSSP.go diamondTail (fun _ => diamondTail.nodesWithEdges) 6
    (InitializeIteration.go diamondTail 0 State.zero)).bind fun r =>
      (NumShortestPaths.go diamondTail 6 (PredAndSucc.go diamondTail r.1)).map fun r => r.1.data v) =
    some (diamondTailSigma.data v) := by
  decide

open DependencyPropogation in
/-- The first push superstep of the δ phase on `diamondTail`, in the order `4, 2, 3, 1`:
the leaf `4` pushes once into `2` and once into `3`. -/
theorem superstep_pushed_diamondTailSigma :
    (superstep diamondTail 0 [4, 2, 3, 1] diamondTailSigma).2 = 2 ∧
      ∀ u ∈ [2, 3], ((superstep diamondTail 0 [4, 2, 3, 1] diamondTailSigma).1.data u).trim2 = 1 := by
  obtain ⟨hd, hw, -⟩ := superstep_pushed diamondTail 0 (by decide : [4, 2, 3, 1].Nodup)
    diamondTailSigma fun _ => Nat.two_pow_pos 32
  have ht : ∀ u, ((superstep diamondTail 0 [4, 2, 3, 1] diamondTailSigma).1.data u).trim2 =
      u32 ((diamondTailSigma.data u).trim2 + pushCount diamondTail diamondTailSigma 0 [4, 2, 3, 1] u) :=
    fun u => (congrArg NodeData.trim2 (hd u) :)
  refine ⟨hw.trans (by decide), fun u hu => ?_⟩
  simp only [List.mem_cons, List.mem_singleton, List.not_mem_nil, or_false] at hu
  rcases hu with rfl | rfl <;> rw [ht] <;> decide

open DependencyPropogation in
/-- The δ phase on `diamondTail` from the σ phase's records, with every round's pushes in
the order `1, 3, 2, 4`, against the fixed order from the same records with other
dependencies and `float` buffers. -/
theorem pushes_schedule_independent_diamondTailSigma :
    (goScheduled diamondTail (fun _ => [1, 3, 2, 4]) 0 6 diamondTailSigma).map
        (Prod.map State.ints id) =
      (go diamondTail 0 6 { diamondTailSigma with
          data := fun v => { (diamondTailSigma.data v) with
            dependency := 1 / 3, toAddFloat := 5 } }).map (Prod.map State.ints id) :=
  pushes_schedule_independent diamondTail 0 (fun _ => by decide) 6 (fun _ => Nat.two_pow_pos 32) rfl

/-- The phases up to `DependencyPropogation::go` for source `0` of `diamondTail`,
from zero-initialised records. -/
def diamondTailRun : Option (State × Nat) := do
  let (s, _) ← SSSP.go diamondTail (fun _ => diamondTail.nodesWithEdges) 6
    (InitializeIteration.go diamondTail 0 State.zero)
  let (s, _) ← NumShortestPaths.go diamondTail 6 (PredAndSucc.go diamondTail s)
  DependencyPropogation.go diamondTail 0 6 s

/-- Vertex `1` ends with dependency `2` where Brandes' recurrence gives `3`: the
dependencies `1/2` of `2` and `3` are truncated to `0` before being pushed. -/
theorem dependency_diamondTail :
    diamondTailRun.map (fun r => ((r.1.data 1).dependency, brandesRhs diamondTail r.1 1)) =
      some (2, 3) := by
  decide

end Evaluation

end DistGalois.BcPull
