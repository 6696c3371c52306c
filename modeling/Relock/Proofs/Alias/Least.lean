import Mathlib.Data.List.Nodup
import Relock.Proofs.Alias.Slot
import Relock.Proofs.Program.Faithful

/-!
# What the structural oracle decides

`Program.Rule` lists the reasons for which two values are taken for one, given which pointers are.
`Program.Forced` is the least relation that is closed under them. It is reflexive and transitive,
and the answers of a structural oracle that was not asked before are exactly its pairs.

A value may depend on itself, so that a question can come back. `Program.Settles` is the recursion
of the oracle with the pairs on the way and without a bound: every question has an end in it, since
each pair on the way is new and there are finitely many. That a pair that comes back counts as
different loses nothing, since what is forced is forced in finitely many steps.

The relation is not symmetric: of two loads only the slot of the first is looked at.
-/

namespace Relock
namespace Program

variable {p : Program} {slot a b c : ValueId}

/-! ## Writes -/

/-- A place at which a slot is written: the pointer of a store or the destination of a copy or a
fill, if it is the slot or comes from it by casts. -/
def WritesTo (p : Program) (slot : ValueId) (place : Use) : Prop :=
  ((p.op place.op).kind = .store ∧ place.index = 1 ∨
    ((p.op place.op).kind = .memcpy ∨ (p.op place.op).kind = .memset) ∧ place.index = 0) ∧
  ∃ v, p.CastFrom slot v ∧ (p.op place.op).operands[place.index]? = some v

/-- A slot is written at one place at most. -/
def WrittenAtMostOnce (p : Program) (slot : ValueId) : Prop :=
  ∀ place place', p.WritesTo slot place → p.WritesTo slot place' → place = place'

theorem isWrite_iff {place : Use} : p.isWrite place = true ↔ (p.op place.op).kind = .store ∧
    place.index = 1 ∨
    ((p.op place.op).kind = .memcpy ∨ (p.op place.op).kind = .memset) ∧ place.index = 0 := by
  unfold isWrite
  cases (p.op place.op).kind <;> simp

/-- The places that the count of writes goes over. -/
def writePlaces (p : Program) (slot : ValueId) : List Use :=
  (p.castClosure (p.useCount + 2) [slot] []).flatMap fun v => (p.value v).uses.filter p.isWrite

theorem length_writePlaces (p : Program) (slot : ValueId) :
    (p.writePlaces slot).length = p.writes slot :=
  length_flatMap_eq_total _ _

theorem mem_writePlaces (wired : p.Wired) {place : Use} : place ∈ p.writePlaces slot ↔
    p.WritesTo slot place := by
  simp only [writePlaces, List.mem_flatMap, List.mem_filter, mem_castClosure, WritesTo, isWrite_iff,
    wired.uses]
  constructor
  · rintro ⟨v, cast, operand, writes⟩
    exact ⟨writes, v, cast, operand⟩
  · rintro ⟨writes, v, cast, operand⟩
    exact ⟨v, cast, operand, writes⟩

/-- An operand place is a use of one value. -/
theorem nodup_writePlaces (wired : p.Wired) (slot : ValueId) : (p.writePlaces slot).Nodup := by
  apply List.nodup_flatMap.mpr
  constructor
  · intro v _
    exact (wired.uses_nodup v).filter _
  · apply (casting_closure p slot).nodup.imp
    intro v w apart place first second
    have left := wired.uses.mp (List.mem_filter.mp first).1
    have right := wired.uses.mp (List.mem_filter.mp second).1
    exact apart (Option.some.inj (left.symm.trans right))

theorem writes_le_one_iff (wired : p.Wired) : p.writes slot ≤ 1 ↔ p.WrittenAtMostOnce slot := by
  have nodup := nodup_writePlaces wired slot
  rw [← length_writePlaces]
  constructor
  · intro few place place' first second
    rw [← mem_writePlaces wired] at first second
    cases row : p.writePlaces slot with
    | nil =>
      rw [row] at first
      exact absurd first List.not_mem_nil
    | cons place'' rest =>
      rw [row, List.length_cons] at few
      have none : rest = [] := List.eq_nil_of_length_eq_zero (by omega)
      rw [row, none, List.mem_singleton] at first second
      exact first.trans second.symm
  · intro once
    cases row : p.writePlaces slot with
    | nil => exact Nat.zero_le _
    | cons place rest =>
      cases rest with
      | nil => exact Nat.le_refl _
      | cons place' rest =>
        have first : place ∈ p.writePlaces slot := by
          rw [row]
          exact List.mem_cons_self
        have second : place' ∈ p.writePlaces slot := by
          rw [row]
          exact List.mem_cons_of_mem _ List.mem_cons_self
        have same := once place place' ((mem_writePlaces wired).mp first)
          ((mem_writePlaces wired).mp second)
        rw [row, same] at nodup
        exact absurd List.mem_cons_self (List.nodup_cons.mp nodup).1

/-! ## The rules -/

/-- The path by which a value is an address, with `none` for a step that is computed. -/
def path (p : Program) (v : ValueId) : List (Option Int) :=
  match p.definingOp? v with
  | some o => (p.op o).indices
  | none => []

/-- The reasons for which two values are taken for one, given which pointers are related. Only
results of operations have a source, so casts are all that relates a constant to anything. -/
inductive Rule (p : Program) (related : ValueId → ValueId → Prop) (a b : ValueId) : Prop
  | casts (same : p.stripCasts a = p.stripCasts b)
  | addresses {x y : ValueId} (left : p.sourceBy? [.gep] (p.stripCasts a) = some x)
      (right : p.sourceBy? [.gep] (p.stripCasts b) = some y)
      (constant : none ∉ p.path (p.stripCasts a))
      (path : p.path (p.stripCasts a) = p.path (p.stripCasts b)) (bases : related x y)
  | loads {x y : ValueId} (left : p.sourceBy? [.load] (p.stripCasts a) = some x)
      (right : p.sourceBy? [.load] (p.stripCasts b) = some y)
      (pointers : related x y) (once : p.WrittenAtMostOnce (p.stripCasts x))

/-- The least relation that is closed under the rules. -/
def Forced (p : Program) (a b : ValueId) : Prop :=
  ∀ related : ValueId → ValueId → Prop, (∀ {a b}, p.Rule related a b → related a b) → related a b

theorem sourceBy?_eq_some {kind : OpKind} {v x : ValueId} : p.sourceBy? [kind] v = some x ↔
    ∃ o, p.definingOp? v = some o ∧ (p.op o).kind = kind ∧ (p.op o).operands.head? = some x := by
  unfold sourceBy?
  cases p.definingOp? v with
  | none => simp
  | some o => simp

theorem path_eq {v : ValueId} {o : OpId} (defined : p.definingOp? v = some o) :
    p.path v = (p.op o).indices := by
  simp only [path, defined]

/-- What is taken for one is closed under the rules. -/
theorem aliased_of_rule (wired : p.Wired) (rule : p.Rule p.Aliased a b) : p.Aliased a b := by
  by_cases apart : p.stripCasts a = p.stripCasts b
  · exact .one apart
  cases rule with
  | casts same => exact .one same
  | addresses left right constant path bases =>
    obtain ⟨o, defined, kind, pointer⟩ := sourceBy?_eq_some.mp left
    obtain ⟨o', defined', kind', pointer'⟩ := sourceBy?_eq_some.mp right
    rw [path_eq defined] at constant path
    rw [path_eq defined'] at path
    exact .behind (.address ⟨apart, defined, defined', kind, kind', pointer,
      pointer'⟩ constant path) bases
  | loads left right pointers once =>
    apply (aliased_loads_iff left right apart).mpr
    exact ⟨pointers, isUnstable_eq_false.mpr ((writes_le_one_iff wired).mpr once)⟩

/-- The relation that answers are read off is the least one. -/
theorem forced_iff_aliased (wired : p.Wired) : p.Forced a b ↔ p.Aliased a b := by
  constructor
  · intro forced
    exact forced p.Aliased (aliased_of_rule wired)
  · intro one related closed
    induction one with
    | one same => exact closed (.casts same)
    | behind next _ ih =>
      cases next with
      | address peers constant path =>
        have left := sourceBy?_eq_some.mpr ⟨_, peers.left, peers.leftKind, peers.leftPointer⟩
        have right := sourceBy?_eq_some.mpr ⟨_, peers.right, peers.rightKind, peers.rightPointer⟩
        apply closed
        apply Rule.addresses left right _ _ ih
        · rw [path_eq peers.left]
          exact constant
        · rw [path_eq peers.left, path_eq peers.right]
          exact path
      | load peers stable =>
        have left := sourceBy?_eq_some.mpr ⟨_, peers.left, peers.leftKind, peers.leftPointer⟩
        have right := sourceBy?_eq_some.mpr ⟨_, peers.right, peers.rightKind, peers.rightPointer⟩
        exact closed (.loads left right ih
          ((writes_le_one_iff wired).mp (isUnstable_eq_false.mp stable)))

/-! ## Order -/

/-- Two steps from one value to a third, if the ends differ. -/
theorem Over.comp {u v w x y y' z : ValueId} (h : p.Over u v x y) (h' : p.Over v w y' z)
    (apart : u ≠ w) :
    y = y' ∧ p.Over u w x z := by
  cases h with
  | address peers constant path =>
    cases h' with
    | address peers' _ path' =>
      obtain rfl := Option.some.inj (peers.right.symm.trans peers'.left)
      refine ⟨Option.some.inj (peers.rightPointer.symm.trans peers'.leftPointer), ?_⟩
      exact .address ⟨apart, peers.left, peers'.right, peers.leftKind, peers'.rightKind,
        peers.leftPointer, peers'.rightPointer⟩ constant (path.trans path')
    | load peers' _ =>
      obtain rfl := Option.some.inj (peers.right.symm.trans peers'.left)
      exact OpKind.noConfusion (peers.rightKind.symm.trans peers'.leftKind)
  | load peers stable =>
    cases h' with
    | address peers' _ _ =>
      obtain rfl := Option.some.inj (peers.right.symm.trans peers'.left)
      exact OpKind.noConfusion (peers.rightKind.symm.trans peers'.leftKind)
    | load peers' _ =>
      obtain rfl := Option.some.inj (peers.right.symm.trans peers'.left)
      refine ⟨Option.some.inj (peers.rightPointer.symm.trans peers'.leftPointer), ?_⟩
      exact .load ⟨apart, peers.left, peers'.right, peers.leftKind, peers'.rightKind,
        peers.leftPointer, peers'.rightPointer⟩ stable

theorem Aliased.trans (h : p.Aliased a b) (h' : p.Aliased b c) : p.Aliased a c := by
  induction h generalizing c with
  | one same =>
    cases h' with
    | one same' => exact .one (same.trans same')
    | behind next rest => exact .behind (same ▸ next) rest
  | @behind a b x y next rest ih =>
    by_cases ends : p.stripCasts a = p.stripCasts c
    · exact .one ends
    cases h' with
    | one same => exact .behind (same ▸ next) rest
    | behind next' rest' =>
      obtain ⟨rfl, joined⟩ := next.comp next' ends
      exact .behind joined (ih rest')

/-! ## The recursion -/

/-- Two values are compared by the pointers behind them: addresses by one constant path by their
bases, loads by their slots. -/
inductive Compared (p : Program) (v w : ValueId) : (loads : Bool) → (x y : ValueId) → Prop
  | addresses {x y : ValueId} (left : p.sourceBy? [.gep] v = some x)
      (right : p.sourceBy? [.gep] w = some y) (constant : none ∉ p.path v)
      (path : p.path v = p.path w) : Compared p v w false x y
  | loads {x y : ValueId} (left : p.sourceBy? [.load] v = some x)
      (right : p.sourceBy? [.load] w = some y) :
      Compared p v w true x y

/-- What the answer for two pointers says of what is behind them: loads through one pointer are one
if its slot is stable. -/
def judged (p : Program) (loads : Bool) (x : ValueId) (verdict : Verdict) : Verdict :=
  if loads = true ∧ verdict = .same ∧ p.isUnstable (p.stripCasts x) = true then
    .unstable (p.stripCasts x) else verdict

/-- A question about two values comes to an end with a verdict. `seen` has the pairs on the way to
it. -/
inductive Settles (p : Program) : (seen : List (ValueId × ValueId)) → (a b : ValueId) →
    Verdict → Prop
  | one {seen a b} (same : p.stripCasts a = p.stripCasts b) : Settles p seen a b .same
  | again {seen a b} (apart : p.stripCasts a ≠ p.stripCasts b)
      (met : (p.stripCasts a, p.stripCasts b) ∈ seen) :
      Settles p seen a b .different
  | unlike {seen a b} (apart : p.stripCasts a ≠ p.stripCasts b)
      (none : ∀ loads x y, ¬ p.Compared (p.stripCasts a) (p.stripCasts b) loads x y) :
      Settles p seen a b .different
  | behind {seen a b loads x y verdict} (apart : p.stripCasts a ≠ p.stripCasts b)
      (fresh : (p.stripCasts a, p.stripCasts b) ∉ seen)
      (next : p.Compared (p.stripCasts a) (p.stripCasts b) loads x y)
      (rest : Settles p ((p.stripCasts a, p.stripCasts b) :: seen) x y verdict) :
      Settles p seen a b (p.judged loads x verdict)

section Round

variable {fuel : Nat} {seen : List (ValueId × ValueId)} {loads : Bool} {v w x y : ValueId}

theorem Compared.defined (next : p.Compared v w loads x y) : ∃ o o', p.definingOp? v = some o ∧
    p.definingOp? w = some o' := by
  cases next with
  | addresses left right _ _ =>
    obtain ⟨o, defined, _⟩ := sourceBy?_eq_some.mp left
    obtain ⟨o', defined', _⟩ := sourceBy?_eq_some.mp right
    exact ⟨o, o', defined, defined'⟩
  | loads left right =>
    obtain ⟨o, defined, _⟩ := sourceBy?_eq_some.mp left
    obtain ⟨o', defined', _⟩ := sourceBy?_eq_some.mp right
    exact ⟨o, o', defined, defined'⟩

theorem verdictFrom_of_met (apart : p.stripCasts a ≠ p.stripCasts b)
    (met : (p.stripCasts a, p.stripCasts b) ∈ seen) :
    p.verdictFrom (fuel + 1) seen a b = .different := by
  simp only [verdictFrom, if_neg apart, met, decide_true, Bool.or_true, if_true]

/-- A new pair of values that are compared has the answer for what is behind them. -/
theorem verdictFrom_of_compared (apart : p.stripCasts a ≠ p.stripCasts b)
    (fresh : (p.stripCasts a, p.stripCasts b) ∉ seen)
    (next : p.Compared (p.stripCasts a) (p.stripCasts b) loads x y) :
    p.verdictFrom (fuel + 1) seen a b =
      p.judged loads x (p.verdictFrom fuel ((p.stripCasts a, p.stripCasts b) :: seen) x y) := by
  cases next with
  | addresses left right constant path =>
    obtain ⟨o, defined, kind, pointer⟩ := sourceBy?_eq_some.mp left
    obtain ⟨o', defined', kind', pointer'⟩ := sourceBy?_eq_some.mp right
    obtain ⟨xs, first⟩ := List.head?_eq_some_iff.mp pointer
    obtain ⟨ys, second⟩ := List.head?_eq_some_iff.mp pointer'
    rw [path_eq defined, path_eq defined'] at path
    rw [path_eq defined, path] at constant
    simp only [verdictFrom, apart, isConstant_of_definingOp? defined,
      isConstant_of_definingOp? defined', fresh, defined, defined', kind, kind', path, constant,
      first, second, judged, decide_false, Bool.or_self, Bool.false_eq_true, ne_eq,
      not_true_eq_false, false_and, if_false]
  | loads left right =>
    obtain ⟨o, defined, kind, pointer⟩ := sourceBy?_eq_some.mp left
    obtain ⟨o', defined', kind', pointer'⟩ := sourceBy?_eq_some.mp right
    obtain ⟨xs, first⟩ := List.head?_eq_some_iff.mp pointer
    obtain ⟨ys, second⟩ := List.head?_eq_some_iff.mp pointer'
    simp only [verdictFrom, apart, isConstant_of_definingOp? defined,
      isConstant_of_definingOp? defined', fresh, defined, defined', kind, kind', first, second,
      decide_false, Bool.or_self, Bool.false_eq_true, ne_eq, not_true_eq_false,
      if_false]
    cases p.verdictFrom fuel ((p.stripCasts a, p.stripCasts b) :: seen) x y with
    | same => simp only [judged, true_and]
    | _ => rfl

/-- Values that are not compared are different. -/
theorem compared_of_ne_different (finished : p.Finished) (apart : p.stripCasts a ≠ p.stripCasts b)
    (h : p.verdictFrom (fuel + 1) seen a b ≠ .different) :
    ∃ loads x y, p.Compared (p.stripCasts a) (p.stripCasts b) loads x y := by
  simp only [verdictFrom, if_neg apart] at h
  split at h
  next => exact absurd rfl h
  next =>
    split at h
    next o o' left right =>
      split at h
      next => exact absurd rfl h
      next kinds =>
        have kinds : (p.op o).kind = (p.op o').kind := Decidable.not_not.mp kinds
        have source {kind : OpKind} (is : (p.op o).kind = kind) (needs : 0 < kind.leastOperands) :
            ∃ x y, p.sourceBy? [kind] (p.stripCasts a) = some x ∧
              p.sourceBy? [kind] (p.stripCasts b) = some y := by
          obtain ⟨x, xs, first⟩ := operands_cons finished (is ▸ needs)
          obtain ⟨y, ys, second⟩ := operands_cons finished (kinds ▸ is ▸ needs)
          refine ⟨x, y, sourceBy?_eq_some.mpr ⟨o, left, is, ?_⟩,
            sourceBy?_eq_some.mpr ⟨o', right, kinds ▸ is, ?_⟩⟩
          · rw [first, List.head?_cons]
          · rw [second, List.head?_cons]
        split at h
        next gep =>
          obtain ⟨x, y, first, second⟩ := source gep Nat.zero_lt_one
          split at h
          next => exact absurd rfl h
          next path =>
            simp only [Bool.or_eq_true, decide_eq_true_eq, not_or, Decidable.not_not] at path
            refine ⟨false, x, y, .addresses first second ?_ ?_⟩
            · rw [path_eq left]
              exact path.1
            · rw [path_eq left, path_eq right]
              exact path.2
        next load =>
          obtain ⟨x, y, first, second⟩ := source load Nat.zero_lt_one
          exact ⟨true, x, y, .loads first second⟩
        next => exact absurd rfl h
    next => exact absurd rfl h

end Round

/-- With fuel for the pairs that were not seen a question comes to its end. -/
theorem settles_of_fuel (finished : p.Finished) {fuel : Nat} {seen : List (ValueId × ValueId)}
    (nodup : seen.Nodup) (inside : seen ⊆ List.range p.nodes.size ×ˢ List.range p.nodes.size)
    (enough : p.nodes.size * p.nodes.size < fuel + seen.length) :
    p.Settles seen a b (p.verdictFrom fuel seen a b) := by
  induction fuel generalizing seen a b with
  | zero =>
    have bound := (nodup.subperm inside).length_le
    rw [List.length_product, List.length_range] at bound
    omega
  | succ fuel ih =>
    by_cases same : p.stripCasts a = p.stripCasts b
    · simp only [verdictFrom, same, if_true]
      exact .one same
    by_cases met : (p.stripCasts a, p.stripCasts b) ∈ seen
    · rw [verdictFrom_of_met same met]
      exact .again same met
    by_cases next : ∃ loads x y, p.Compared (p.stripCasts a) (p.stripCasts b) loads x y
    · obtain ⟨loads, x, y, next⟩ := next
      rw [verdictFrom_of_compared same met next]
      apply Settles.behind same met next
      apply ih
      · exact List.nodup_cons.mpr ⟨met, nodup⟩
      · obtain ⟨o, o', defined, defined'⟩ := next.defined
        refine List.cons_subset.mpr ⟨List.pair_mem_product.mpr ⟨?_, ?_⟩, inside⟩
        · exact List.mem_range.mpr (lt_size_of_definingOp? defined)
        · exact List.mem_range.mpr (lt_size_of_definingOp? defined')
      · rw [List.length_cons]
        omega
    · have none : p.verdictFrom (fuel + 1) seen a b = .different :=
        Decidable.not_not.mp fun other => next (compared_of_ne_different finished same other)
      rw [none]
      exact .unlike same fun loads x y compared => next ⟨loads, x, y, compared⟩

/-- Every question comes to an end, with the verdict of the program. -/
theorem settles_verdict (finished : p.Finished) (a b : ValueId) :
    p.Settles [] a b (p.verdict a b) :=
  settles_of_fuel finished List.nodup_nil (List.nil_subset _) (Nat.lt_succ_self _)

end Program

/-- A structural oracle that was not asked before comes to an end with each question. It takes two
values for one exactly if the rules force it to, and what they force is reflexive and transitive. -/
theorem structural_decides {read : Sexp.Reader} {file text : String} {p : Program}
    (loaded : Program.loadWith read file text = .ok p) :
    (∀ a b, ∃ verdict memo, p.Settles [] a b verdict ∧
      Oracle.structural.ask p {} a b = .ok (decide (verdict = .same), memo) ∧
      (verdict = .same ↔ p.Forced a b)) ∧
    (∀ a, p.Forced a a) ∧ ∀ a b c, p.Forced a b → p.Forced b c → p.Forced a c := by
  have finished := Program.finished_of_load loaded
  have wired := (Program.faithful_of_load loaded).sane.wired
  refine ⟨fun a b => ?_, fun a => ?_, fun a b c first second => ?_⟩
  · obtain ⟨memo, answered⟩ := Oracle.ask_fresh finished a b
    refine ⟨p.verdict a b, memo, Program.settles_verdict finished a b, answered, ?_⟩
    rw [Program.verdict_same_iff, Program.forced_iff_aliased wired]
  · exact (Program.forced_iff_aliased wired).mpr (.one rfl)
  · rw [Program.forced_iff_aliased wired] at first second ⊢
    exact first.trans second

/-- Two addresses that are computed from each other, and loads through the first of them. -/
def knottedText : String := "(module knotted (struct Box (ptr i64) i64)
(function \"f\" (params (o (ptr Box)))
  (block e (gep p (ptr Box) q 0) (gep q (ptr Box) p 0)
    (load a (ptr i64) p) (load b (ptr i64) p) (ret))))"

set_option maxRecDepth 4000 in
/-- The loads are one, and the addresses, whose comparison comes back to itself, are not. -/
theorem structural_decides_knotted : ∃ p, Program.load "knotted" knottedText = .ok p ∧
    p.Forced 9 11 ∧ ¬ p.Forced 5 7 ∧
    p.Forced 5 5 := by
  obtain ⟨p, loaded, checked⟩ : ∃ p, Program.load "knotted" knottedText = .ok p ∧
      decide ((Oracle.structural.ask p {} 9 11).toOption.map (·.1) = some true ∧
        (Oracle.structural.ask p {} 5 7).toOption.map (·.1) = some false) = true :=
    Program.exists_of_load rfl (by decide +kernel)
  obtain ⟨loads, addresses⟩ := of_decide_eq_true checked
  obtain ⟨decides, same, _⟩ := structural_decides loaded
  obtain ⟨verdict, _, _, asked, forced⟩ := decides 9 11
  obtain ⟨verdict', _, _, asked', forced'⟩ := decides 5 7
  rw [asked] at loads
  rw [asked'] at addresses
  refine ⟨p, loaded, forced.mp (of_decide_eq_true (Option.some.inj loads)), fun h => ?_, same 5⟩
  exact of_decide_eq_false (Option.some.inj addresses) (forced'.mpr h)

end Relock
