import Mathlib.Data.List.Perm.Subperm
import Mathlib.Data.List.ProdSigma
import Relock.Alias.Oracle
import Relock.Proofs.Program.Nodes

/-!
# The structural answer as a relation

`Program.Aliased` says without fuel and without the pairs on the way when two values are taken for
one: casts aside they are one value, or they are addresses by the same constant path, or loads from
a slot that is written at most once, of pointers that are taken for one.

`verdict_same_iff` says that the structural answer decides this relation. What is behind a pair is
determined by the pair (`Over.unique`), so a finite way never comes back to a pair, and is not
longer than there are pairs of numbers in the program: neither the pairs seen nor the fuel cut it
off.
-/

namespace Relock.Program

variable {p : Program}

/-! ## The relation -/

/-- Two different results of operations of one kind, with the pointers that these start from. -/
structure Peers (p : Program) (kind : OpKind) (v w : ValueId) (o o' : OpId)
    (x y : ValueId) : Prop where
  apart : v ≠ w
  left : p.definingOp? v = some o
  right : p.definingOp? w = some o'
  leftKind : (p.op o).kind = kind
  rightKind : (p.op o').kind = kind
  leftPointer : (p.op o).operands.head? = some x
  rightPointer : (p.op o').operands.head? = some y

/-- Two different values are one if the pointers behind them are. Of two loads, only the slot of the
first is looked at. -/
inductive Over (p : Program) (v w x y : ValueId) : Prop
  | address {o o' : OpId} (peers : p.Peers .gep v w o o' x y) (constant : none ∉ (p.op o).indices)
    (path : (p.op o).indices = (p.op o').indices)
  | load {o o' : OpId} (peers : p.Peers .load v w o o' x y)
      (stable : p.isUnstable (p.stripCasts x) = false)

/-- Two values are taken for one. -/
inductive Aliased (p : Program) : ValueId → ValueId → Prop
  | one {a b : ValueId} (same : p.stripCasts a = p.stripCasts b) : Aliased p a b
  | behind {a b x y : ValueId} (next : p.Over (p.stripCasts a) (p.stripCasts b) x y)
      (rest : Aliased p x y) : Aliased p a b

theorem Over.peers {v w x y : ValueId} (h : p.Over v w x y) :
    ∃ kind o o', p.Peers kind v w o o' x y := by
  cases h with
  | address peers _ _ => exact ⟨_, _, _, peers⟩
  | load peers _ => exact ⟨_, _, _, peers⟩

/-- What is behind a pair is determined by it. -/
theorem Over.unique {v w x y x' y' : ValueId} (h : p.Over v w x y) (h' : p.Over v w x' y') :
    x = x' ∧ y = y' := by
  obtain ⟨_, o, o', first⟩ := h.peers
  obtain ⟨_, n, n', second⟩ := h'.peers
  obtain rfl : o = n := Option.some.inj (first.left.symm.trans second.left)
  obtain rfl : o' = n' := Option.some.inj (first.right.symm.trans second.right)
  exact ⟨Option.some.inj (first.leftPointer.symm.trans second.leftPointer),
    Option.some.inj (first.rightPointer.symm.trans second.rightPointer)⟩

/-! ## One round -/

theorem isConstant_of_definingOp? {v : ValueId} {o : OpId} (h : p.definingOp? v = some o) :
    p.isConstant v = false := by
  unfold definingOp? at h
  unfold isConstant
  cases origin : (p.value v).origin with
  | constant text => rw [origin] at h; cases h
  | _ => rfl

/-- A yes comes from one value, or from what is behind a pair that was not met before. -/
theorem over_of_verdictFrom {fuel : Nat} {seen : List (ValueId × ValueId)} {a b : ValueId}
    (h : p.verdictFrom (fuel + 1) seen a b = .same) (apart : p.stripCasts a ≠ p.stripCasts b) :
    ∃ x y, p.Over (p.stripCasts a) (p.stripCasts b) x y ∧
      p.verdictFrom fuel ((p.stripCasts a, p.stripCasts b) :: seen) x y = .same := by
  simp only [verdictFrom, if_neg apart] at h
  split at h
  next => cases h
  next =>
    split at h
    next o o' left right =>
      split at h
      next => cases h
      next kinds =>
        have kinds : (p.op o).kind = (p.op o').kind := Decidable.not_not.mp kinds
        split at h
        next gep =>
          split at h
          next => cases h
          next path =>
            simp only [Bool.or_eq_true, decide_eq_true_eq, not_or, Decidable.not_not] at path
            split at h
            next x xs y ys first second =>
              refine ⟨x, y, .address ⟨apart, left, right, gep, kinds ▸ gep, ?_,
                ?_⟩ path.1 path.2, h⟩
              · rw [first, List.head?_cons]
              · rw [second, List.head?_cons]
            next => cases h
        next load =>
          split at h
          next x xs y ys first second =>
            split at h
            next same =>
              split at h
              next => cases h
              next stable =>
                refine ⟨x, y, .load ⟨apart, left, right, load, kinds ▸ load, ?_,
                  ?_⟩ (Bool.eq_false_iff.mpr stable), same⟩
                · rw [first, List.head?_cons]
                · rw [second, List.head?_cons]
            next other => exact absurd h other
          next => cases h
        next => cases h
    next => cases h

/-- A pair that was not met before is one if what is behind it is. -/
theorem verdictFrom_of_over {fuel : Nat} {seen : List (ValueId × ValueId)} {a b x y : ValueId}
    (fresh : (p.stripCasts a, p.stripCasts b) ∉ seen)
    (next : p.Over (p.stripCasts a) (p.stripCasts b) x y)
    (h : p.verdictFrom fuel ((p.stripCasts a, p.stripCasts b) :: seen) x y = .same) :
    p.verdictFrom (fuel + 1) seen a b = .same := by
  cases next with
  | address peers constant path =>
    obtain ⟨xs, first⟩ := List.head?_eq_some_iff.mp peers.leftPointer
    obtain ⟨ys, second⟩ := List.head?_eq_some_iff.mp peers.rightPointer
    simp only [path] at constant
    simp only [verdictFrom, peers.apart, isConstant_of_definingOp? peers.left,
      isConstant_of_definingOp? peers.right, fresh, peers.left, peers.right, peers.leftKind,
      peers.rightKind, path, constant, first, second, h, decide_false, Bool.or_self,
      Bool.false_eq_true, ne_eq, not_true_eq_false, if_false]
  | load peers stable =>
    obtain ⟨xs, first⟩ := List.head?_eq_some_iff.mp peers.leftPointer
    obtain ⟨ys, second⟩ := List.head?_eq_some_iff.mp peers.rightPointer
    simp only [verdictFrom, peers.apart, isConstant_of_definingOp? peers.left,
      isConstant_of_definingOp? peers.right, fresh, peers.left, peers.right, peers.leftKind,
      peers.rightKind, first, second, h, stable, decide_false, Bool.or_self,
      Bool.false_eq_true, ne_eq, not_true_eq_false, if_false]

/-! ## All rounds -/

theorem aliased_of_verdictFrom {fuel : Nat} {seen : List (ValueId × ValueId)} {a b : ValueId}
    (h : p.verdictFrom fuel seen a b = .same) : p.Aliased a b := by
  induction fuel generalizing seen a b with
  | zero => cases h
  | succ fuel ih =>
    by_cases one : p.stripCasts a = p.stripCasts b
    · exact .one one
    · obtain ⟨x, y, next, rest⟩ := over_of_verdictFrom h one
      exact .behind next (ih rest)

/-- The pairs on the way from two values to one. -/
inductive Way (p : Program) : List (ValueId × ValueId) → ValueId → ValueId → Prop
  | one {a b : ValueId} (same : p.stripCasts a = p.stripCasts b) : Way p [] a b
  | behind {a b x y : ValueId} {pairs : List (ValueId × ValueId)}
      (next : p.Over (p.stripCasts a) (p.stripCasts b) x y)
    (rest : Way p pairs x y) : Way p ((p.stripCasts a, p.stripCasts b) :: pairs) a b

theorem Aliased.way {a b : ValueId} (h : p.Aliased a b) : ∃ pairs, p.Way pairs a b := by
  induction h with
  | one same => exact ⟨[], .one same⟩
  | behind next _ ih =>
    obtain ⟨pairs, rest⟩ := ih
    exact ⟨_, .behind next rest⟩

theorem Over.apart {v w x y : ValueId} (h : p.Over v w x y) : v ≠ w := by
  obtain ⟨_, _, _, peers⟩ := h.peers
  exact peers.apart

/-- Values that are the same but for casts have one way. -/
theorem Way.unique {pairs pairs' : List (ValueId × ValueId)} {a b a' b' : ValueId}
    (h : p.Way pairs a b) (h' : p.Way pairs' a' b') (left : p.stripCasts a = p.stripCasts a')
    (right : p.stripCasts b = p.stripCasts b') :
    pairs = pairs' := by
  induction h generalizing pairs' a' b' with
  | one same =>
    cases h' with
    | one => rfl
    | behind next _ => exact absurd (left.symm.trans (same.trans right)) next.apart
  | behind next _ ih =>
    cases h' with
    | one same => exact absurd (left.trans (same.trans right.symm)) next.apart
    | behind next' rest' =>
      rw [left, right] at next ⊢
      obtain ⟨rfl, rfl⟩ := next.unique next'
      rw [ih rest' rfl rfl]

/-- From each pair on a way the rest of it is a way, of which the pair is not the end. -/
theorem Way.from_mem {pairs : List (ValueId × ValueId)} {a b : ValueId} (h : p.Way pairs a b)
    {v w : ValueId} (mem : (v, w) ∈ pairs) : ∃ a' b' rest, p.stripCasts a' = v ∧
      p.stripCasts b' = w ∧ p.Way ((v, w) :: rest) a' b' ∧ rest.length < pairs.length := by
  induction h with
  | one => exact absurd mem List.not_mem_nil
  | @behind a b x y pairs next rest ih =>
    rcases List.mem_cons.mp mem with here | later
    · cases here
      exact ⟨a, b, pairs, rfl, rfl, .behind next rest, Nat.lt_succ_self _⟩
    · obtain ⟨a', b', tail, left, right, way, short⟩ := ih later
      exact ⟨a', b', tail, left, right, way, Nat.lt_succ_of_lt short⟩

/-- A way never comes back to a pair: it would have to be as long as a part of it. -/
theorem Way.nodup {pairs : List (ValueId × ValueId)} {a b : ValueId} (h : p.Way pairs a b) :
    pairs.Nodup := by
  induction h with
  | one => exact List.nodup_nil
  | @behind a b x y pairs next rest ih =>
    refine List.nodup_cons.mpr ⟨fun again => ?_, ih⟩
    obtain ⟨a', b', tail, left, right, way, short⟩ := rest.from_mem again
    have same := (Way.behind next rest).unique way left.symm right.symm
    have longer := congrArg List.length same
    simp only [List.length_cons] at longer
    omega

theorem lt_size_of_definingOp? {v : ValueId} {o : OpId} (h : p.definingOp? v = some o) :
    v < p.nodes.size := by
  refine Nat.lt_of_not_le fun past => ?_
  rw [definingOp?, value, value?, node_of_size_le p past] at h
  cases h

theorem Way.inside {pairs : List (ValueId × ValueId)} {a b : ValueId} (h : p.Way pairs a b) :
    pairs ⊆ List.range p.nodes.size ×ˢ List.range p.nodes.size := by
  induction h with
  | one => exact List.nil_subset _
  | behind next _ ih =>
    obtain ⟨_, _, _, peers⟩ := next.peers
    refine List.cons_subset.mpr ⟨List.pair_mem_product.mpr ⟨?_, ?_⟩, ih⟩
    · exact List.mem_range.mpr (lt_size_of_definingOp? peers.left)
    · exact List.mem_range.mpr (lt_size_of_definingOp? peers.right)

/-- A way is not longer than there are pairs of numbers. -/
theorem Way.length_le {pairs : List (ValueId × ValueId)} {a b : ValueId} (h : p.Way pairs a b) :
    pairs.length ≤ p.nodes.size * p.nodes.size := by
  have bound := (h.nodup.subperm h.inside).length_le
  rwa [List.length_product, List.length_range] at bound

/-- With fuel for a way, and none of its pairs met before, the answer is yes. -/
theorem verdictFrom_of_way {pairs seen : List (ValueId × ValueId)} {a b : ValueId}
    (h : p.Way pairs a b) (nodup : pairs.Nodup) (fresh : ∀ pair ∈ pairs, pair ∉ seen) {fuel : Nat}
    (enough : pairs.length < fuel) :
    p.verdictFrom fuel seen a b = .same := by
  induction h generalizing seen fuel with
  | one same =>
    obtain ⟨fuel, rfl⟩ := Nat.exists_eq_succ_of_ne_zero (Nat.ne_of_gt enough)
    simp only [verdictFrom, same, if_true]
  | behind next _ ih =>
    obtain ⟨once, nodup⟩ := List.nodup_cons.mp nodup
    obtain ⟨here, later⟩ := List.forall_mem_cons.mp fresh
    obtain ⟨fuel, rfl⟩ := Nat.exists_eq_succ_of_ne_zero (Nat.ne_of_gt (Nat.zero_lt_of_lt enough))
    refine verdictFrom_of_over here next (ih nodup ?_ (Nat.lt_of_succ_lt_succ enough))
    intro pair mem met
    rcases List.mem_cons.mp met with same | met
    · exact once (same ▸ mem)
    · exact later pair mem met

/-- The structural answer is yes exactly for values that are taken for one. -/
theorem verdict_same_iff {a b : ValueId} : p.verdict a b = .same ↔ p.Aliased a b := by
  refine ⟨aliased_of_verdictFrom, fun h => ?_⟩
  obtain ⟨pairs, way⟩ := h.way
  exact verdictFrom_of_way way way.nodup (fun _ _ => List.not_mem_nil)
    (Nat.lt_succ_of_le way.length_le)

end Relock.Program
