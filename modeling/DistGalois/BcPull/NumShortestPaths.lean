import DistGalois.BcPull.PredAndSucc

/-!
# Shortest-path counts: `NumShortestPaths::go`

Each round is the propagate superstep, the two apply loops `NSPTrim` and
`NSPAdd`, and the flag update `NumShortestPathsChanges`.  A reached vertex with
predecessors left pulls every DAG edge whose destination holds the
`propogation_flag` token into its `trim` and `to_add` buffers; the apply loops
fold the buffers into `num_predecessors` and `num_shortest_paths`; the flag
update hands the token to vertices whose predecessors are all in.
-/

namespace DistGalois.BcPull

namespace NumShortestPaths

/-- One iteration of the edge loop of `NumShortestPaths::operator()` on `(src, dst)`. -/
def edge (src : Nat) (p : State × Nat) (dst : Nat) : State × Nat :=
  if (p.1.data dst).propogationFlag ∧
      u32 ((p.1.data dst).currentLength + 1) = (p.1.data src).currentLength then
    (p.1.modify src fun d =>
        { d with trim := u32 (d.trim + 1), toAdd := u32 (d.toAdd + (p.1.data dst).numShortestPaths) },
      p.2 + 1)
  else p

/-- `NumShortestPaths::operator()` on `src`, continuing the superstep's accumulator. -/
def operator (G : Graph) (p : State × Nat) (src : Nat) : State × Nat :=
  if (p.1.data src).currentLength ≠ infinity ∧ 0 < (p.1.data src).numPredecessors then
    (G.edges src).foldl (edge src) p
  else p

/-- The propagate superstep over the vertices in processing order `order`. -/
def superstep (G : Graph) (order : List Nat) (s : State) : State × Nat :=
  order.foldl (operator G) (s, 0)

end NumShortestPaths

namespace NSPTrim

/-- `NSPTrim::operator()`. -/
def operator (d : NodeData) : NodeData :=
  if 0 < d.trim then { d with numPredecessors := u32sub d.numPredecessors d.trim, trim := 0 }
  else d

/-- `NSPTrim::go`. -/
def go (G : Graph) (s : State) : State := doAll G (fun _ => operator) s

@[simp] theorem operator_trim (d : NodeData) : (operator d).trim = 0 := by
  unfold operator; split
  · rfl
  · omega

@[simp] theorem operator_toAdd (d : NodeData) : (operator d).toAdd = d.toAdd := by
  unfold operator; split <;> rfl

end NSPTrim

namespace NSPAdd

/-- `NSPAdd::operator()`. -/
def operator (d : NodeData) : NodeData :=
  if 0 < d.toAdd then { d with numShortestPaths := u32 (d.numShortestPaths + d.toAdd), toAdd := 0 }
  else d

/-- `NSPAdd::go`. -/
def go (G : Graph) (s : State) : State := doAll G (fun _ => operator) s

@[simp] theorem operator_toAdd (d : NodeData) : (operator d).toAdd = 0 := by
  unfold operator; split
  · rfl
  · omega

@[simp] theorem operator_trim (d : NodeData) : (operator d).trim = d.trim := by
  unfold operator; split <;> rfl

end NSPAdd

namespace NumShortestPathsChanges

/-- `NumShortestPathsChanges::operator()`; `if (!f) f = true` sets `f`. -/
def operator (d : NodeData) : NodeData :=
  if d.currentLength ≠ infinity then
    if d.numPredecessors = 0 ∧ d.propogationFlag then
      if d.numSuccessors ≠ 0 then { d with propogationFlag := false, numShortPathsFlag := true }
      else d
    else if d.numPredecessors = 0 ∧ ¬ d.numShortPathsFlag then
      { d with propogationFlag := true, numShortPathsFlag := true }
    else d
  else d

@[simp] theorem operator_trim (d : NodeData) : (operator d).trim = d.trim := by
  unfold operator; split_ifs <;> rfl

@[simp] theorem operator_toAdd (d : NodeData) : (operator d).toAdd = d.toAdd := by
  unfold operator; split_ifs <;> rfl

@[simp] theorem operator_numPredecessors (d : NodeData) :
    (operator d).numPredecessors = d.numPredecessors := by
  unfold operator; split_ifs <;> rfl

/-- The assertion of line 510, `!propogation_flag`, where it is executed. -/
def asserts (d : NodeData) : Bool :=
  if d.currentLength ≠ infinity ∧ ¬ (d.numPredecessors = 0 ∧ d.propogationFlag) ∧
      d.numPredecessors = 0 ∧ ¬ d.numShortPathsFlag then !d.propogationFlag
  else true

/-- `NumShortestPathsChanges::go`. -/
def go (G : Graph) (s : State) : State :=
  { doAll G (fun _ => operator) s with
    asserts := s.asserts && (List.range G.size).all fun v => asserts (s.data v) }

/-- Line 510 cannot fail: its branch is only reached with the flag clear. -/
theorem asserts_eq_true (d : NodeData) : asserts d = true := by
  unfold asserts
  split
  · rename_i h
    have := h.2.1
    simp_all
  · rfl

@[simp] theorem go_asserts (G : Graph) (s : State) : (go G s).asserts = s.asserts := by
  simp [go, asserts_eq_true]

end NumShortestPathsChanges

namespace NumShortestPaths

/-- One round of `NumShortestPaths::go`'s loop. -/
def body (G : Graph) (_ : Nat) (s : State) : State × Nat :=
  let r := superstep G G.nodesWithEdges s
  (NumShortestPathsChanges.go G (NSPAdd.go G (NSPTrim.go G r.1)), r.2)

/-- `NumShortestPaths::go`. -/
def go (G : Graph) (fuel : Nat) (s : State) : Option (State × Nat) :=
  doWhile (body G) fuel 0 s

/-! ## The propagate superstep

An operator writes only the `trim` and `to_add` buffers of its own vertex and
reads only lengths, tokens, path counts and predecessor counts, so a superstep
is a function of the state it starts from, in any order. -/

/-- The edge `(src, dst)` is pulled from `S`: `dst` holds the token and is one hop
closer to the source. -/
def Pulls (S : State) (src dst : Nat) : Prop :=
  (S.data dst).propogationFlag ∧ u32 ((S.data dst).currentLength + 1) = (S.data src).currentLength

instance (S : State) (src : Nat) : DecidablePred (Pulls S src) := fun _ =>
  inferInstanceAs (Decidable (_ ∧ _))

/-- `NumShortestPaths::operator()` runs its edge loop on `src`. -/
def Active (S : State) (src : Nat) : Prop :=
  (S.data src).currentLength ≠ infinity ∧ 0 < (S.data src).numPredecessors

instance (S : State) : DecidablePred (Active S) := fun _ => inferInstanceAs (Decidable (_ ∧ _))

/-- The edges of `l` that `src` pulls from `S`. -/
def pullCount (S : State) (src : Nat) (l : List Nat) : Nat := l.countP fun w => Pulls S src w

/-- The path counts those edges bring. -/
def pullSum (S : State) (src : Nat) (l : List Nat) : Nat :=
  (l.map fun w => if Pulls S src w then (S.data w).numShortestPaths else 0).sum

/-- The record `d` after pulling `c` edges that bring `a` paths. -/
def pulled (d : NodeData) (c a : Nat) : NodeData :=
  { d with trim := u32 (d.trim + c), toAdd := u32 (d.toAdd + a) }

/-- Both buffers hold `uint32_t` values. -/
def BuffersFit (d : NodeData) : Prop := d.trim < 2 ^ 32 ∧ d.toAdd < 2 ^ 32

/-- What a superstep reads: every field but the two buffers. -/
def SameReads (S S' : State) : Prop := ∀ u, { S'.data u with trim := 0, toAdd := 0 } =
  { S.data u with trim := 0, toAdd := 0 }

theorem pulled_pulled (d : NodeData) (c a c' a' : Nat) :
    pulled (pulled d c a) c' a' = pulled d (c + c') (a + a') := by
  simp [pulled, u32_add_u32, Nat.add_assoc]

theorem pulled_zero {d : NodeData} (h : BuffersFit d) : pulled d 0 0 = d := by
  simp [pulled, u32_of_lt h.1, u32_of_lt h.2]

theorem buffersFit_pulled (d : NodeData) (c a : Nat) : BuffersFit (pulled d c a) :=
  ⟨u32_lt _, u32_lt _⟩

theorem SameReads.refl (S : State) : SameReads S S := fun _ => rfl

theorem SameReads.trans {S S' S'' : State} (h : SameReads S S') (h' : SameReads S' S'') :
    SameReads S S'' := fun u => (h' u).trans (h u)

section Reads

variable {S S' : State} (h : SameReads S S')
include h

theorem SameReads.field {f : NodeData → α} (hf : ∀ d, f { d with trim := 0, toAdd := 0 } = f d)
    (u : Nat) : f (S'.data u) = f (S.data u) := by
  rw [← hf, h u, hf]

theorem SameReads.pulls (src dst : Nat) : Pulls S' src dst ↔ Pulls S src dst := by
  simp only [Pulls, h.field (f := NodeData.propogationFlag) (fun _ => rfl),
    h.field (f := NodeData.currentLength) (fun _ => rfl)]

theorem SameReads.active (src : Nat) : Active S' src ↔ Active S src := by
  simp only [Active, h.field (f := NodeData.numPredecessors) (fun _ => rfl),
    h.field (f := NodeData.currentLength) (fun _ => rfl)]

theorem SameReads.pullCount (src : Nat) (l : List Nat) : pullCount S' src l = pullCount S src l :=
  List.countP_congr fun w _ => by simp [h.pulls]

theorem SameReads.pullSum (src : Nat) (l : List Nat) : pullSum S' src l = pullSum S src l := by
  unfold NumShortestPaths.pullSum
  congr 1
  refine List.map_congr_left fun w _ => ?_
  simp only [h.pulls, h.field (f := NodeData.numShortestPaths) (fun _ => rfl)]

end Reads

theorem sameReads_modify_pulled (S : State) (v c a : Nat) :
    SameReads S (S.modify v fun d => pulled d c a) := fun u => by
  by_cases h : u = v
  · subst h; simp [pulled]
  · simp [h]

/-- One iteration of the edge loop. -/
theorem edge_spec (src dst : Nat) (p : State × Nat) :
    SameReads p.1 (edge src p dst).1 ∧ (edge src p dst).1.asserts = p.1.asserts ∧
      (edge src p dst).2 = p.2 + (if Pulls p.1 src dst then 1 else 0) ∧
      ∀ u, (edge src p dst).1.data u = if u = src ∧ Pulls p.1 src dst then
        pulled (p.1.data src) 1 (p.1.data dst).numShortestPaths else p.1.data u := by
  have heq : edge src p dst = if Pulls p.1 src dst then
      (p.1.modify src fun d => pulled d 1 (p.1.data dst).numShortestPaths, p.2 + 1) else p := rfl
  rw [heq]
  by_cases hp : Pulls p.1 src dst
  · refine ⟨by simpa [hp] using sameReads_modify_pulled p.1 src _ _, by simp [hp], by simp [hp],
      fun u => ?_⟩
    by_cases hu : u = src
    · subst hu; simp [hp]
    · simp [hp, hu]
  · simp [hp, SameReads.refl]

/-- The edge loop of `src` over `l`: its buffers gain the pulled edges and their paths. -/
theorem edges_foldl (src : Nat) (l : List Nat) (p : State × Nat) (hfit : BuffersFit (p.1.data src)) :
    SameReads p.1 (l.foldl (edge src) p).1 ∧ (l.foldl (edge src) p).1.asserts = p.1.asserts ∧
      (l.foldl (edge src) p).2 = p.2 + pullCount p.1 src l ∧
      ∀ u, (l.foldl (edge src) p).1.data u = if u = src then
        pulled (p.1.data src) (pullCount p.1 src l) (pullSum p.1 src l) else p.1.data u := by
  induction l generalizing p with
  | nil =>
    refine ⟨SameReads.refl _, rfl, rfl, fun u => ?_⟩
    by_cases hu : u = src
    · subst hu; simp [pullCount, pullSum, pulled_zero hfit]
    · simp [hu]
  | cons x l ih =>
    obtain ⟨hr, ha, hw, hd⟩ := edge_spec src x p
    have hfit' : BuffersFit ((edge src p x).1.data src) := by
      rw [hd]; split
      · exact buffersFit_pulled _ _ _
      · exact hfit
    obtain ⟨hr', ha', hw', hd'⟩ := ih (edge src p x) hfit'
    simp only [List.foldl_cons]
    refine ⟨hr.trans hr', ha'.trans ha, ?_, fun u => ?_⟩
    · rw [hw', hw, hr.pullCount]
      by_cases hp : Pulls p.1 src x <;> simp [pullCount, List.countP_cons, hp]
      omega
    · rw [hd', hr.pullCount, hr.pullSum, hd, hd]
      by_cases hu : u = src
      · subst hu
        by_cases hp : Pulls p.1 u x
        · simp [hp, pulled_pulled, pullCount, pullSum, List.countP_cons, Nat.add_comm]
        · simp [hp, pullCount, pullSum, List.countP_cons]
      · simp [hu]

/-- `NumShortestPaths::operator()` on `src`. -/
theorem operator_spec (G : Graph) (p : State × Nat) (src : Nat) (hfit : BuffersFit (p.1.data src)) :
    SameReads p.1 (operator G p src).1 ∧ (operator G p src).1.asserts = p.1.asserts ∧
      (operator G p src).2 = p.2 + (if Active p.1 src then pullCount p.1 src (G.edges src) else 0) ∧
      ∀ u, (operator G p src).1.data u = if u = src ∧ Active p.1 src then
        pulled (p.1.data src) (pullCount p.1 src (G.edges src)) (pullSum p.1 src (G.edges src))
        else p.1.data u := by
  by_cases ha : Active p.1 src
  · have hop : operator G p src = (G.edges src).foldl (edge src) p := if_pos ha
    obtain ⟨hr, has, hw, hd⟩ := edges_foldl src (G.edges src) p hfit
    rw [hop]
    exact ⟨hr, has, by simp [hw, ha], fun u => by simp [hd, ha]⟩
  · have hop : operator G p src = p := if_neg ha
    rw [hop]
    exact ⟨SameReads.refl _, rfl, by simp [ha], fun u => by simp [ha]⟩

/-- The propagate superstep over a duplicate-free order, from `p`: a function of `p`
alone. -/
theorem steps_foldl (G : Graph) (order : List Nat) (hnd : order.Nodup) (p : State × Nat)
    (hfit : ∀ u ∈ order, BuffersFit (p.1.data u)) :
    SameReads p.1 (order.foldl (operator G) p).1 ∧ (order.foldl (operator G) p).1.asserts = p.1.asserts ∧
      (order.foldl (operator G) p).2 =
        p.2 + (order.map fun u => if Active p.1 u then pullCount p.1 u (G.edges u) else 0).sum ∧
      ∀ u, (order.foldl (operator G) p).1.data u = if u ∈ order ∧ Active p.1 u then
        pulled (p.1.data u) (pullCount p.1 u (G.edges u)) (pullSum p.1 u (G.edges u))
        else p.1.data u := by
  induction order generalizing p with
  | nil => exact ⟨SameReads.refl _, rfl, rfl, fun u => by simp⟩
  | cons x order ih =>
    obtain ⟨hx, hnd⟩ := List.nodup_cons.mp hnd
    obtain ⟨hr, ha, hw, hd⟩ := operator_spec G p x (hfit x (List.mem_cons_self _ _))
    have hfit' : ∀ u ∈ order, BuffersFit ((operator G p x).1.data u) := fun u hu => by
      rw [hd]; split
      · exact buffersFit_pulled _ _ _
      · exact hfit u (List.mem_cons_of_mem _ hu)
    obtain ⟨hr', ha', hw', hd'⟩ := ih hnd (operator G p x) hfit'
    simp only [List.foldl_cons]
    refine ⟨hr.trans hr', ha'.trans ha, ?_, fun u => ?_⟩
    · rw [hw', hw]
      simp only [hr.active, hr.pullCount, List.map_cons, List.sum_cons]
      omega
    · rw [hd']
      simp only [hr.active, hr.pullCount, hr.pullSum]
      rw [hd]
      by_cases hu : u = x
      · subst hu; simp [hx]
      · by_cases hm : u ∈ order <;> simp [hu, hm]

/-- Two orders of the same vertices give the same propagate superstep. -/
theorem superstep_perm (G : Graph) {order order' : List Nat} (hp : order.Perm order')
    (hnd : order.Nodup) (S : State) (hfit : ∀ u ∈ order, BuffersFit (S.data u)) :
    superstep G order S = superstep G order' S := by
  obtain ⟨-, ha, hw, hd⟩ := steps_foldl G order hnd (S, 0) hfit
  obtain ⟨-, ha', hw', hd'⟩ := steps_foldl G order' (hp.nodup_iff.mp hnd) (S, 0)
    fun u hu => hfit u (hp.mem_iff.mpr hu)
  refine Prod.ext (State.ext (funext fun u => ?_) (ha.trans ha'.symm)) ?_
  · refine (hd u).trans (Eq.trans ?_ (hd' u).symm)
    simp only [hp.mem_iff]
  · refine hw.trans (Eq.trans ?_ hw'.symm)
    rw [(hp.map _).sum_eq]

end NumShortestPaths

end DistGalois.BcPull
