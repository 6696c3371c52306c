import Mathlib.Logic.Relation
import Relock.Proofs.Alias.Oracle
import Relock.Proofs.Lifetime.Walk

/-!
# Writes to a slot

Two loads are taken for one if their pointers are and the slot is written at most once. The writes
that count are those through the first pointer, casts aside, and through what is cast from it:
`castClosure` finds just these values (`mem_castClosure`), so that the loads are decided by
`aliased_loads_iff`. The count stops at the second write, with values still waiting; whether there
is a second is the same as over the whole closure (`one_lt_writesFrom`). Other pointers to the slot,
as a second address of one field, are not looked at. Writes through them go unnoticed, unless they
happen to be casts of the first.
-/

namespace Relock

open Relation (ReflTransGen)

namespace Program

variable {p : Program} {slot : ValueId}

/-! ## The casts of a value -/

/-- A value is another one, or comes from it by casts. -/
def CastFrom (p : Program) : ValueId → ValueId → Prop := ReflTransGen fun v w => w ∈ p.castsOf v

/-- The values in `work` and all casts of them, without repetition, as the count of writes would
visit them if it did not stop. -/
def castClosure (p : Program) : (fuel : Nat) → (work seen : List ValueId) → List ValueId
  | 0, _, seen => seen
  | _ + 1, [], seen => seen
  | fuel + 1, v :: work, seen =>
    if v ∈ seen then castClosure p fuel work seen
    else castClosure p fuel ((p.castsOf v).reverse ++ work) (v :: seen)

/-- What the walk over the casts of a value keeps. -/
structure Casting (p : Program) (slot : ValueId) (work seen : List ValueId) : Prop where
  nodup : seen.Nodup
  made : ∀ {v}, v ∈ seen ∨ v ∈ work → p.CastFrom slot v
  begun : slot ∈ seen ∨ slot ∈ work
  closed : ∀ v ∈ seen, ∀ w ∈ p.castsOf v, w ∈ seen ∨ w ∈ work

theorem Casting.leave {v : ValueId} {work seen : List ValueId}
    (casting : p.Casting slot (v :: work) seen) (known : v ∈ seen) :
    p.Casting slot work seen := by
  have still {w : ValueId} (h : w ∈ seen ∨ w ∈ v :: work) : w ∈ seen ∨ w ∈ work := by
    rcases h with seen | waits
    · exact .inl seen
    · rcases List.mem_cons.mp waits with rfl | waits
      · exact .inl known
      · exact .inr waits
  exact ⟨casting.nodup, fun h => casting.made (h.imp_right (List.mem_cons_of_mem _)),
    still casting.begun, fun u hu w hw => still (casting.closed u hu w hw)⟩

theorem Casting.visit {v : ValueId} {work seen : List ValueId}
    (casting : p.Casting slot (v :: work) seen) (fresh : v ∉ seen) :
    p.Casting slot ((p.castsOf v).reverse ++ work) (v :: seen) := by
  have here : p.CastFrom slot v := casting.made (.inr List.mem_cons_self)
  have still {w : ValueId} (h : w ∈ seen ∨ w ∈ v :: work) : w ∈ v :: seen ∨
      w ∈ (p.castsOf v).reverse ++ work := by
    rcases h with seen | waits
    · exact .inl (List.mem_cons_of_mem _ seen)
    · rcases List.mem_cons.mp waits with rfl | waits
      · exact .inl List.mem_cons_self
      · exact .inr (List.mem_append_right _ waits)
  refine ⟨List.nodup_cons.mpr ⟨fresh, casting.nodup⟩, fun {w} h => ?_, still casting.begun,
    fun u hu w hw => ?_⟩
  · rcases h with seen | waits
    · rcases List.mem_cons.mp seen with rfl | seen
      · exact here
      · exact casting.made (.inl seen)
    · rcases List.mem_append.mp waits with cast | waits
      · exact here.tail (List.mem_reverse.mp cast)
      · exact casting.made (.inr (List.mem_cons_of_mem _ waits))
  · rcases List.mem_cons.mp hu with rfl | seen
    · exact .inr (List.mem_append_left _ (List.mem_reverse.mpr hw))
    · exact still (casting.closed u seen w hw)

/-- Fuel for each value that waits and each use of one not seen is enough. -/
theorem Casting.closure {fuel : Nat} {work seen : List ValueId} (casting : p.Casting slot work seen)
    (enough : work.length + unseen (fun v => (p.value v).uses.length) (List.range p.nodes.size)
      seen ≤ fuel) :
    p.Casting slot [] (p.castClosure fuel work seen) := by
  induction fuel generalizing work seen with
  | zero =>
    have empty : work = [] := List.eq_nil_of_length_eq_zero (by omega)
    exact empty ▸ casting
  | succ fuel ih =>
    cases work with
    | nil => exact casting
    | cons v work =>
      rw [List.length_cons] at enough
      rw [castClosure]
      split
      next known => exact ih (casting.leave known) (by omega)
      next fresh =>
        refine ih (casting.visit fresh) ?_
        have few : (p.castsOf v).length ≤ (p.value v).uses.length := List.length_filterMap_le _ _
        rw [List.length_append, List.length_reverse]
        by_cases inside : v < p.nodes.size
        · have taken :
              unseen (fun v => (p.value v).uses.length) (List.range p.nodes.size) (v :: seen) +
              (p.value v).uses.length = unseen (fun v => (p.value v).uses.length)
                (List.range p.nodes.size) seen :=
            unseen_cons List.nodup_range (List.mem_range.mpr inside) fresh
          omega
        · have none : (p.value v).uses.length = 0 := by
            rw [uses_length, p.node_of_size_le (Nat.le_of_not_lt inside)]
          rw [unseen_cons_of_notMem _ _ (fun h => inside (List.mem_range.mp h))]
          omega

theorem casting_closure (p : Program) (slot : ValueId) :
    p.Casting slot [] (p.castClosure (p.useCount + 2) [slot] []) := by
  have start : p.Casting slot [slot] [] := by
    refine ⟨List.nodup_nil, fun h => ?_, .inr List.mem_cons_self, List.forall_mem_nil _⟩
    rw [List.mem_singleton.mp (h.resolve_left List.not_mem_nil)]
    exact .refl
  refine start.closure ?_
  have uses := unseen_le (fun v => (p.value v).uses.length) (List.range p.nodes.size) []
  rw [← useCount_eq] at uses
  simp only [List.length_singleton]
  omega

/-- The closure under casts holds the values that come from the slot by casts, each once. -/
theorem mem_castClosure {v : ValueId} :
    v ∈ p.castClosure (p.useCount + 2) [slot] [] ↔ p.CastFrom slot v := by
  have casting := casting_closure p slot
  have ended {v : ValueId}
      (h : v ∈ p.castClosure (p.useCount + 2) [slot] [] ∨ v ∈ ([] : List ValueId)) :
      v ∈ p.castClosure (p.useCount + 2) [slot] [] :=
    h.resolve_right List.not_mem_nil
  refine ⟨fun h => casting.made (.inl h), fun h => ?_⟩
  induction h with
  | refl => exact ended casting.begun
  | tail _ cast ih => exact ended (casting.closed _ ih _ cast)

/-! ## Writes -/

/-- How often a slot is written, through its pointer or a cast of it. -/
def writes (p : Program) (slot : ValueId) : Nat :=
  total ((p.castClosure (p.useCount + 2) [slot] []).map p.writeCount)

/-- What was visited stays in the closure. -/
theorem suffix_castClosure (fuel : Nat) (work seen : List ValueId) :
    seen <:+ p.castClosure fuel work seen := by
  induction fuel generalizing work seen with
  | zero => exact List.suffix_rfl
  | succ fuel ih =>
    cases work with
    | nil => exact List.suffix_rfl
    | cons v work =>
      rw [castClosure]
      split
      next => exact ih _ _
      next => exact (List.suffix_cons v seen).trans (ih _ _)

/-- Stopping at the second write leaves the verdict as it is: the writes so far are those through
the values seen, and these are a part of the closure. -/
theorem one_lt_writesFrom {writes : Nat} {seen : List ValueId}
    (counted : writes = total (seen.map p.writeCount)) (fuel : Nat) (work : List ValueId) :
    1 < p.writesFrom fuel work seen writes ↔
      1 < total ((p.castClosure fuel work seen).map p.writeCount) := by
  induction fuel generalizing work seen writes with
  | zero => rw [writesFrom, castClosure, counted]
  | succ fuel ih =>
    cases work with
    | nil => rw [writesFrom, castClosure, counted]
    | cons v work =>
      rw [writesFrom]
      split
      next stopped =>
        -- the closure goes on, and can only add to the two writes
        have more : writes ≤ total ((p.castClosure (fuel + 1) (v :: work) seen).map p.writeCount) :=
          counted ▸ total_le_of_sublist
            ((suffix_castClosure (fuel + 1) (v :: work) seen).sublist.map _)
        exact iff_of_true stopped (Nat.lt_of_lt_of_le stopped more)
      next =>
        rw [castClosure]
        split
        next => exact ih counted work
        next => exact ih (by rw [List.map_cons, total, counted, Nat.add_comm]) _

theorem isUnstable_eq (p : Program) (slot : ValueId) :
    p.isUnstable slot = decide (1 < p.writes slot) :=
  decide_eq_decide.mpr (one_lt_writesFrom rfl _ _)

/-- The writes to a slot are those through all values that come from it by casts. -/
theorem writes_le_iff {n : Nat} : p.writes slot ≤ n ↔
    ∀ row : List ValueId, row.Nodup → (∀ q ∈ row, p.CastFrom slot q) →
    total (row.map p.writeCount) ≤ n := by
  constructor
  · intro few row nodup casts
    exact Nat.le_trans (total_le_of_subset _ nodup fun q hq _ =>
      mem_castClosure.mpr (casts q hq)) few
  · intro few
    exact few _ (casting_closure p slot).nodup fun q hq => mem_castClosure.mp hq

theorem isUnstable_eq_false : p.isUnstable slot = false ↔ p.writes slot ≤ 1 := by
  rw [isUnstable_eq, decide_eq_false_iff_not, Nat.not_lt]

/-- Different loads are taken for one if their pointers are and the slot of the first is stable, and
only then. -/
theorem aliased_loads_iff {a b x y : ValueId} (left : p.sourceBy? [.load] (p.stripCasts a) = some x)
    (right : p.sourceBy? [.load] (p.stripCasts b) = some y)
    (apart : p.stripCasts a ≠ p.stripCasts b) :
    p.Aliased a b ↔ p.Aliased x y ∧ p.isUnstable (p.stripCasts x) = false := by
  obtain ⟨o, defined, kind, pointer⟩ := sourceBy?_load.mp left
  obtain ⟨o', defined', kind', pointer'⟩ := sourceBy?_load.mp right
  constructor
  · intro h
    cases h with
    | one same => exact absurd same apart
    | behind next rest =>
      cases next with
      | address other =>
        obtain rfl := Option.some.inj (defined.symm.trans other.left)
        exact OpKind.noConfusion (kind.symm.trans other.leftKind)
      | load other stable =>
        obtain rfl := Option.some.inj (defined.symm.trans other.left)
        obtain rfl := Option.some.inj (defined'.symm.trans other.right)
        obtain rfl := Option.some.inj (pointer.symm.trans other.leftPointer)
        obtain rfl := Option.some.inj (pointer'.symm.trans other.rightPointer)
        exact ⟨rest, stable⟩
  · rintro ⟨rest, stable⟩
    exact .behind (.load ⟨apart, defined, defined', kind, kind', pointer, pointer'⟩ stable) rest

/-- A value is taken for one of two pointers, in one order or the other. -/
def denotes (p : Program) (x y q : ValueId) : Bool :=
  p.freshAnswer q x || p.freshAnswer x q || p.freshAnswer q y || p.freshAnswer y q

/-- The writes through all values that are taken for one of two pointers. -/
def slotWrites (p : Program) (x y : ValueId) : Nat :=
  total (((List.range p.nodes.size).filter (p.denotes x y)).map p.writeCount)

theorem lt_size_of_writeCount {q : ValueId} (h : 0 < p.writeCount q) : q < p.nodes.size := by
  refine Nat.lt_of_not_le fun past =>
    Nat.not_lt_of_le (List.length_filter_le _ _) (Nat.lt_of_le_of_lt ?_ h)
  have none : (p.value q).uses.length = 0 := by
    rw [uses_length, p.node_of_size_le past]
  exact Nat.le_of_eq none

end Program

/-- A structural oracle that was not asked before takes two different loads for one if it takes
their pointers for one and at most one write goes through the first pointer, casts aside, and all
that is cast from it, and only then. If all pointers to the slot that are written through are among
these, at most one write goes through any of them. -/
theorem structural_loads_iff {read : Sexp.Reader} {file text : String} {p : Program}
    (loaded : Program.loadWith read file text = .ok p) {a b x y : ValueId}
    (left : p.sourceBy? [.load] (p.stripCasts a) = some x)
    (right : p.sourceBy? [.load] (p.stripCasts b) = some y)
    (apart : p.stripCasts a ≠ p.stripCasts b) :
    ∃ memo answer, Oracle.structural.ask p {} a b = .ok (answer, memo) ∧
      (answer = true ↔ p.freshAnswer x y = true ∧ ∀ row : List ValueId, row.Nodup →
        (∀ q ∈ row, p.CastFrom (p.stripCasts x) q) → total (row.map p.writeCount) ≤ 1) ∧
      (answer = true → (∀ q, p.denotes x y q = true → 0 < p.writeCount q →
        p.CastFrom (p.stripCasts x) q) →
        p.slotWrites x y ≤ 1) := by
  obtain ⟨memo, answered⟩ := Oracle.ask_fresh (Program.finished_of_load loaded) a b
  have decided : p.freshAnswer a b = true ↔ p.freshAnswer x y = true ∧
      ∀ row : List ValueId, row.Nodup →
        (∀ q ∈ row, p.CastFrom (p.stripCasts x) q) → total (row.map p.writeCount) ≤ 1 := by
    rw [Program.freshAnswer_iff, Program.freshAnswer_iff,
      Program.aliased_loads_iff left right apart, Program.isUnstable_eq_false,
      Program.writes_le_iff]
  refine ⟨memo, _, answered, decided, fun yes all => ?_⟩
  have few : p.writes (p.stripCasts x) ≤ 1 := Program.writes_le_iff.mpr (decided.mp yes).2
  refine Nat.le_trans (total_le_of_subset _ (List.nodup_range.filter _) fun q hq counts => ?_) few
  exact Program.mem_castClosure.mpr (all q (List.mem_filter.mp hq).2 counts)

set_option maxRecDepth 4000 in
theorem structural_loads_even : ∃ p, Program.load "even" evenText = .ok p ∧
    p.valueNamed? "f" "a" = some 11 ∧ p.valueNamed? "f" "b" = some 13 ∧
    (Oracle.structural.ask p {} 11 13).toOption.map (·.1) = some true ∧ p.slotWrites 6 8 ≤ 1 := by
  obtain ⟨p, loaded, checked⟩ : ∃ p, Program.load "even" evenText = .ok p ∧
      decide (p.valueNamed? "f" "a" = some 11 ∧ p.valueNamed? "f" "b" = some 13 ∧
        p.sourceBy? [.load] (p.stripCasts 11) = some 6 ∧
        p.sourceBy? [.load] (p.stripCasts 13) = some 8 ∧
        p.stripCasts 11 ≠ p.stripCasts 13 ∧ p.stripCasts 6 = 6 ∧
        (Oracle.structural.ask p {} 11 13).toOption.map (·.1) = some true ∧
        ∀ q ∈ List.range p.nodes.size, 0 < p.writeCount q → q = 6) = true :=
    Program.exists_of_load rfl (by decide +kernel)
  obtain ⟨first, second, left, right, apart, here, yes, only⟩ := of_decide_eq_true checked
  obtain ⟨memo, answer, answered, _, once⟩ := structural_loads_iff loaded left right apart
  refine ⟨p, loaded, first, second, yes, once ?_ fun q _ writes => ?_⟩
  · rw [answered] at yes
    exact Option.some.inj yes
  · rw [here, only q (List.mem_range.mpr (Program.lt_size_of_writeCount writes)) writes]
    exact .refl

/-- A slot with two addresses, written once through each. Between the writes and after them it is
read. -/
def rewrittenText : String := "(module rewritten (struct Box (ptr i64) i64)
(function \"f\" (params (o (ptr Box)) (v (ptr i64)) (w (ptr i64)))
  (block e (gep p (ptr (ptr i64)) o 0 0) (gep q (ptr (ptr i64)) o 0 0)
    (store v p) (load a (ptr i64) p) (store w q) (load b (ptr i64) q) (ret))))"

set_option maxRecDepth 4000 in
/-- The two loads are taken for one although two writes go through pointers to the slot. -/
theorem structural_loads_rewritten : ∃ p, Program.load "rewritten" rewrittenText = .ok p ∧
    p.sourceBy? [.load] (p.stripCasts 12) = some 7 ∧
    p.sourceBy? [.load] (p.stripCasts 15) = some 9 ∧
    p.stripCasts 12 ≠ p.stripCasts 15 ∧
    (Oracle.structural.ask p {} 12 15).toOption.map (·.1) = some true ∧
    p.slotWrites 7 9 = 2 := by
  obtain ⟨p, loaded, checked⟩ : ∃ p, Program.load "rewritten" rewrittenText = .ok p ∧
      decide (p.sourceBy? [.load] (p.stripCasts 12) = some 7 ∧
        p.sourceBy? [.load] (p.stripCasts 15) = some 9 ∧
        p.stripCasts 12 ≠ p.stripCasts 15 ∧
        (Oracle.structural.ask p {} 12 15).toOption.map (·.1) = some true ∧
        p.slotWrites 7 9 = 2) = true :=
    Program.exists_of_load rfl (by decide +kernel)
  exact ⟨p, loaded, of_decide_eq_true checked⟩

end Relock
