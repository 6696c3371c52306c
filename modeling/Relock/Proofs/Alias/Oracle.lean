import Relock.Proofs.Alias.Verdict
import Relock.Proofs.Detection.Groups
import Relock.Proofs.Keyed

/-!
# What the structural oracle remembers

After any questions the structural oracle answers a pair as it answered the first question about it,
in whichever order that was asked (`Memo.Holds`). The answer depends on the order: of two loads only
the slot of the first is looked at. So the answers are those to unordered pairs exactly if loads of
pointers that are taken for one agree on whether their slots are written more than once
(`Program.WrittenAlike`), which can be checked on the program.
-/

namespace Relock

variable {p : Program}

/-! ## Orders of a pair -/

namespace Program

/-- What a structural oracle that was not asked before answers. -/
def freshAnswer (p : Program) (a b : ValueId) : Bool := decide (p.verdict a b = .same)

theorem freshAnswer_iff {a b : ValueId} : p.freshAnswer a b = true ↔ p.Aliased a b :=
  decide_eq_true_iff.trans verdict_same_iff

/-- Loads of pointers that are taken for one agree on whether the slot is written more than once. -/
def WrittenAlike (p : Program) : Prop := ∀ v w x y, p.sourceBy? [.load] v = some x →
    p.sourceBy? [.load] w = some y →
  p.Aliased x y → p.isUnstable (p.stripCasts x) = p.isUnstable (p.stripCasts y)

theorem sourceBy?_load {v x : ValueId} : p.sourceBy? [.load] v = some x ↔
    ∃ o, p.definingOp? v = some o ∧ (p.op o).kind = .load ∧ (p.op o).operands.head? = some x := by
  unfold sourceBy?
  cases p.definingOp? v with
  | none => simp
  | some o => simp

theorem Peers.symm {kind : OpKind} {v w : ValueId} {o o' : OpId} {x y : ValueId}
    (h : p.Peers kind v w o o' x y) :
    p.Peers kind w v o' o y x :=
  ⟨h.apart.symm, h.right, h.left, h.rightKind, h.leftKind, h.rightPointer, h.leftPointer⟩

theorem Aliased.symm (alike : p.WrittenAlike) {a b : ValueId} (h : p.Aliased a b) :
    p.Aliased b a := by
  induction h with
  | one same => exact .one same.symm
  | behind next rest ih =>
    cases next with
    | address peers constant path =>
      exact .behind (.address peers.symm (path ▸ constant) path.symm) ih
    | load peers stable =>
      have left := sourceBy?_load.mpr ⟨_, peers.left, peers.leftKind, peers.leftPointer⟩
      have right := sourceBy?_load.mpr ⟨_, peers.right, peers.rightKind, peers.rightPointer⟩
      exact .behind (.load peers.symm (alike _ _ _ _ left right rest ▸ stable)) ih

theorem stripCasts_of_load {v x : ValueId} (h : p.sourceBy? [.load] v = some x) :
    p.stripCasts v = v := by
  obtain ⟨o, defined, load, _⟩ := sourceBy?_load.mp h
  have noCast : p.sourceBy? [.cast] v = none := by simp only [sourceBy?, defined, load]; rfl
  simp only [stripCasts, chainLimit, followBack, noCast]

/-- Different loads are taken for one only if the slot of the first is stable. -/
theorem Aliased.stable {v w x y : ValueId} (left : p.sourceBy? [.load] v = some x)
    (right : p.sourceBy? [.load] w = some y) (apart : v ≠ w) (h : p.Aliased v w) :
    p.isUnstable (p.stripCasts x) = false := by
  obtain ⟨o, defined, kind, pointer⟩ := sourceBy?_load.mp left
  cases h with
  | one same =>
    rw [stripCasts_of_load left, stripCasts_of_load right] at same
    exact absurd same apart
  | behind next _ =>
    rw [stripCasts_of_load left] at next
    cases next with
    | address peers _ _ =>
      obtain rfl := Option.some.inj (defined.symm.trans peers.left)
      exact OpKind.noConfusion (kind.symm.trans peers.leftKind)
    | load peers stable =>
      obtain rfl := Option.some.inj (defined.symm.trans peers.left)
      obtain rfl := Option.some.inj (pointer.symm.trans peers.leftPointer)
      exact stable

/-- If the order of no pair matters, slots are written alike. -/
theorem writtenAlike_of_symm (symm : ∀ {a b}, p.Aliased a b → p.Aliased b a) : p.WrittenAlike := by
  have stable {v w x y : ValueId} (left : p.sourceBy? [.load] v = some x)
      (right : p.sourceBy? [.load] w = some y)
      (apart : v ≠ w) (one : p.Aliased x y) (h : p.isUnstable (p.stripCasts x) = false) :
      p.isUnstable (p.stripCasts y) = false := by
    obtain ⟨o, defined, kind, pointer⟩ := sourceBy?_load.mp left
    obtain ⟨o', defined', kind', pointer'⟩ := sourceBy?_load.mp right
    have peers : p.Peers .load v w o o' x y :=
      ⟨apart, defined, defined', kind, kind', pointer, pointer'⟩
    have next : p.Over (p.stripCasts v) (p.stripCasts w) x y := by
      rw [stripCasts_of_load left, stripCasts_of_load right]
      exact .load peers h
    exact (symm (.behind next one)).stable right left apart.symm
  intro v w x y left right one
  by_cases same : v = w
  · obtain rfl : x = y := Option.some.inj (left.symm.trans (same ▸ right))
    rfl
  · cases first : p.isUnstable (p.stripCasts x) with
    | false => exact (stable left right same one first).symm
    | true =>
      cases second : p.isUnstable (p.stripCasts y) with
      | false => exact first.symm.trans (stable right left (Ne.symm same) (symm one) second)
      | true => rfl

theorem lt_size_of_sourceBy? {kinds : List OpKind} {v x : ValueId}
    (h : p.sourceBy? kinds v = some x) : v < p.nodes.size := by
  unfold sourceBy? at h
  split at h
  next => cases h
  next defined => exact lt_size_of_definingOp? defined

instance (p : Program) : Decidable p.WrittenAlike :=
  decidable_of_iff (∀ v ∈ List.range p.nodes.size, ∀ w ∈ List.range p.nodes.size,
    ∀ x ∈ p.sourceBy? [.load] v, ∀ y ∈ p.sourceBy? [.load] w,
      p.verdict x y = .same → p.isUnstable (p.stripCasts x) = p.isUnstable (p.stripCasts y)) <| by
    constructor
    · intro h v w x y left right one
      exact h v (List.mem_range.mpr (lt_size_of_sourceBy? left)) w
        (List.mem_range.mpr (lt_size_of_sourceBy? right))
        x left y right (verdict_same_iff.mpr one)
    · intro h v _ w _ x left y right one
      exact h v w x y left right (verdict_same_iff.mp one)

end Program

/-! ## Questions in a row -/

namespace Oracle

/-- Values with the same unordered pair are the same, in one order or the other. -/
theorem eq_or_swap_of_pair {a b c d : ValueId} (h : pair a b = pair c d) : (a, b) = (c, d) ∨
    (a, b) = (d, c) := by
  unfold pair at h
  split at h
  next =>
    split at h
    next => exact .inl h
    next => exact .inr h
  next =>
    obtain ⟨rfl, rfl⟩ | ⟨rfl, rfl⟩ : (b = c ∧ a = d) ∨ (b = d ∧ a = c) := by
      split at h
      next => exact .inl (Prod.mk.inj h)
      next => exact .inr (Prod.mk.inj h)
    · exact .inr rfl
    · exact .inl rfl

/-- What an oracle remembers after some questions. -/
def after (p : Program) (oracle : Oracle) (asked : List (ValueId × ValueId)) :
    Except Failure Memo :=
  asked.foldlM (fun memo question => (oracle.ask p memo question.1 question.2).map (·.2)) {}

/-- The first question about an unordered pair. -/
def first? (asked : List (ValueId × ValueId)) (key : ValueId × ValueId) :
    Option (ValueId × ValueId) :=
  asked.find? fun question => decide (pair question.1 question.2 = key)

/-- The question whose fresh answer is given for a pair: the first about it, or else the pair
itself. -/
def deciding (asked : List (ValueId × ValueId)) (a b : ValueId) : ValueId × ValueId :=
  (first? asked (pair a b)).getD (a, b)

/-- What is remembered after some questions: of each pair the fresh answer to the first. -/
def Memo.Holds (p : Program) (asked : List (ValueId × ValueId)) (memo : Memo) : Prop :=
  ∀ key, memo.answers.get? key = (first? asked key).map fun question =>
    p.freshAnswer question.1 question.2

theorem Memo.answers_record (memo : Memo) (a b : ValueId) (verdict : Verdict) :
    (memo.record a b verdict).answers = (pair a b, decide (verdict = .same)) :: memo.answers := rfl

/-- One question: it is answered as the first about its pair was, and remembered. -/
theorem Memo.Holds.ask (finished : p.Finished) {asked : List (ValueId × ValueId)} {memo : Memo}
    (holds : memo.Holds p asked) (a b : ValueId) : ∃ memo', structural.ask p memo a b =
      .ok (p.freshAnswer (deciding asked a b).1 (deciding asked a b).2, memo') ∧
      memo'.Holds p (asked ++ [(a, b)]) := by
  have known := holds (pair a b)
  have later (key : ValueId × ValueId) : first? (asked ++ [(a, b)]) key =
      (first? asked key).or (if pair a b = key then some (a, b) else none) := by
    simp only [first?, List.find?_append, List.find?_singleton, decide_eq_true_eq]
  unfold Oracle.ask deciding
  cases earlier : first? asked (pair a b) with
  | some question =>
    rw [earlier] at known
    refine ⟨memo, by simp only [known, Option.map_some, Option.getD_some], fun key => ?_⟩
    rw [holds key, later]
    by_cases here : pair a b = key
    · rw [← here, earlier]
      rfl
    · rw [if_neg here, Option.or_none]
  | none =>
    rw [earlier] at known
    have sound := Program.verdictFrom_ne_malformed finished (p.nodes.size * p.nodes.size + 1) [] a b
    refine ⟨memo.record a b (p.verdict a b), ?_, fun key => ?_⟩
    · simp only [known, Option.map_none, Option.getD_none]
      split
      next malformed => exact absurd malformed sound
      next => rfl
    · rw [later, answers_record, Keyed.get?_cons, holds key]
      by_cases here : pair a b = key
      · rw [if_pos here, if_pos here, ← here, earlier]
        rfl
      · rw [if_neg here, if_neg here, Option.or_none]

theorem Memo.holds_nil : Memo.Holds p [] {} := fun _ => rfl

/-- Any questions in a row are answered, and what they leave is remembered. -/
theorem holds_after (finished : p.Finished) (asked : List (ValueId × ValueId)) :
    ∃ memo, structural.after p asked = .ok memo ∧ memo.Holds p asked := by
  have run (rest earlier : List (ValueId × ValueId)) (memo : Memo) (holds : memo.Holds p earlier) :
      ∃ memo', rest.foldlM
          (fun memo question => (structural.ask p memo question.1 question.2).map (·.2)) memo =
        .ok memo' ∧ memo'.Holds p (earlier ++ rest) := by
    induction rest generalizing earlier memo with
    | nil => exact ⟨memo, rfl, (List.append_nil earlier).symm ▸ holds⟩
    | cons question rest ih =>
      obtain ⟨next, answered, holds⟩ := holds.ask finished question.1 question.2
      obtain ⟨last, ran, holds⟩ := ih _ next holds
      refine ⟨last, ?_, List.append_cons earlier question rest ▸ holds⟩
      rw [List.foldlM_cons, answered]
      exact ran
  exact run asked [] {} Memo.holds_nil

/-- After any questions, both orders of a pair are answered as by an oracle that was not asked
before. -/
def Unordered (p : Program) : Prop :=
  ∀ asked a b, ∃ memo answer, structural.after p asked = .ok memo ∧
  (∃ memo', structural.ask p memo a b = .ok (answer, memo')) ∧
  (∃ memo', structural.ask p memo b a = .ok (answer, memo')) ∧
  ∃ memo', structural.ask p {} a b = .ok (answer, memo')

theorem ask_fresh (finished : p.Finished) (a b : ValueId) :
    ∃ memo, structural.ask p {} a b = .ok (p.freshAnswer a b, memo) := by
  obtain ⟨memo, answered, _⟩ := Memo.holds_nil.ask finished a b
  exact ⟨memo, answered⟩

theorem deciding_eq (asked : List (ValueId × ValueId)) (a b : ValueId) :
    deciding asked a b = (a, b) ∨ deciding asked a b = (b, a) := by
  unfold deciding
  cases earlier : first? asked (pair a b) with
  | none => exact .inl rfl
  | some question =>
    have about := List.find?_some earlier
    exact eq_or_swap_of_pair (of_decide_eq_true about)

theorem unordered_of_writtenAlike (finished : p.Finished) (alike : p.WrittenAlike) :
    Unordered p := by
  have swap (a b : ValueId) : p.freshAnswer b a = p.freshAnswer a b := by
    rw [Bool.eq_iff_iff, Program.freshAnswer_iff, Program.freshAnswer_iff]
    exact ⟨Program.Aliased.symm alike, Program.Aliased.symm alike⟩
  have decided (asked : List (ValueId × ValueId)) (a b : ValueId) :
      p.freshAnswer (deciding asked a b).1 (deciding asked a b).2 = p.freshAnswer a b := by
    rcases deciding_eq asked a b with same | swapped
    · rw [same]
    · rw [swapped, swap]
  intro asked a b
  obtain ⟨memo, ran, holds⟩ := holds_after finished asked
  obtain ⟨next, answered, _⟩ := holds.ask finished a b
  obtain ⟨next', answered', _⟩ := holds.ask finished b a
  rw [decided] at answered answered'
  exact ⟨memo, p.freshAnswer a b, ran, ⟨next, answered⟩, ⟨next', swap a b ▸ answered'⟩,
    ask_fresh finished a b⟩

theorem writtenAlike_of_unordered (finished : p.Finished) (unordered : Unordered p) :
    p.WrittenAlike := by
  refine Program.writtenAlike_of_symm fun {a b} one => ?_
  obtain ⟨memo, answer, ran, ⟨_, forth⟩, ⟨_, back⟩, _⟩ := unordered [] a b
  cases ran
  obtain ⟨_, forth'⟩ := ask_fresh finished a b
  obtain ⟨_, back'⟩ := ask_fresh finished b a
  have same : p.freshAnswer a b = answer :=
    (Prod.mk.inj (Except.ok.inj (forth'.symm.trans forth))).1
  have same' : p.freshAnswer b a = answer := (Prod.mk.inj (Except.ok.inj (back'.symm.trans back))).1
  rw [← Program.freshAnswer_iff, same', ← same]
  exact Program.freshAnswer_iff.mpr one

end Oracle

/-- A structural oracle answers as it answered the first question about a pair, and it answers
unordered pairs exactly if slots are written alike. -/
theorem structural_unordered_iff {read : Sexp.Reader} {file text : String}
    (loaded : Program.loadWith read file text = .ok p) :
    (∀ asked, ∃ memo, Oracle.structural.after p asked = .ok memo ∧ ∀ a b, ∃ memo',
      Oracle.structural.ask p memo a b =
        .ok (p.freshAnswer (Oracle.deciding asked a b).1 (Oracle.deciding asked a b).2, memo')) ∧
    (∀ a b, (∃ memo, Oracle.structural.ask p {} a b = .ok (p.freshAnswer a b, memo)) ∧
      (p.freshAnswer a b = true ↔ p.Aliased a b)) ∧
    (Oracle.Unordered p ↔ p.WrittenAlike) := by
  have finished := Program.finished_of_load loaded
  refine ⟨fun asked => ?_, fun a b => ⟨Oracle.ask_fresh finished a b, Program.freshAnswer_iff⟩, ?_⟩
  · obtain ⟨memo, ran, holds⟩ := Oracle.holds_after finished asked
    refine ⟨memo, ran, fun a b => ?_⟩
    obtain ⟨memo', answered, _⟩ := holds.ask finished a b
    exact ⟨memo', answered⟩
  · exact ⟨Oracle.writtenAlike_of_unordered finished, Oracle.unordered_of_writtenAlike finished⟩

/-- Loads through two addresses of one slot, which is written once. -/
def evenText : String := "(module even (struct Box (ptr i64) i64)
(function \"f\" (params (o (ptr Box)) (v (ptr i64)))
  (block e (gep p (ptr (ptr i64)) o 0 0) (gep q (ptr (ptr i64)) o 0 0) (store v p)
    (load a (ptr i64) p) (load b (ptr i64) q) (ret))))"

set_option maxRecDepth 4000 in
theorem structural_unordered_even : ∃ p, Program.load "even" evenText = .ok p ∧ p.WrittenAlike ∧
    p.Aliased 11 13 ∧
    Oracle.Unordered p := by
  obtain ⟨p, loaded, checked⟩ : ∃ p, Program.load "even" evenText = .ok p ∧
      decide (p.WrittenAlike ∧ p.verdict 11 13 = .same) = true :=
    Program.exists_of_load rfl (by decide +kernel)
  obtain ⟨alike, same⟩ := of_decide_eq_true checked
  exact ⟨p, loaded, alike, Program.verdict_same_iff.mp same,
    (structural_unordered_iff loaded).2.2.mpr alike⟩

/-- The same with the slot written twice through the first address. -/
def unevenText : String := "(module uneven (struct Box (ptr i64) i64)
(function \"f\" (params (o (ptr Box)) (v (ptr i64)))
  (block e (gep p (ptr (ptr i64)) o 0 0) (gep q (ptr (ptr i64)) o 0 0) (store v p) (store v p)
    (load a (ptr i64) p) (load b (ptr i64) q) (ret))))"

set_option maxRecDepth 4000 in
/-- The first order asked decides: a no alone, a yes after the other order. -/
theorem structural_not_unordered : ∃ p, Program.load "uneven" unevenText = .ok p ∧
    ¬ Oracle.Unordered p ∧
    (Oracle.structural.ask p {} 12 14).toOption.map (·.1) = some false ∧
    (Oracle.structural.ask p {} 14 12).toOption.map (·.1) = some true ∧
    ((Oracle.structural.after p [(14, 12)]).bind fun memo =>
      Oracle.structural.ask p memo 12 14).toOption.map (·.1) = some true := by
  obtain ⟨p, loaded, checked⟩ : ∃ p, Program.load "uneven" unevenText = .ok p ∧
      decide ((Oracle.structural.ask p {} 12 14).toOption.map (·.1) = some false ∧
        (Oracle.structural.ask p {} 14 12).toOption.map (·.1) = some true ∧
        ((Oracle.structural.after p [(14, 12)]).bind fun memo =>
          Oracle.structural.ask p memo 12 14).toOption.map (·.1) = some true) = true :=
    Program.exists_of_load rfl (by decide +kernel)
  obtain ⟨forth, back, again⟩ := of_decide_eq_true checked
  refine ⟨p, loaded, fun unordered => ?_, forth, back, again⟩
  obtain ⟨memo, answer, ran, ⟨_, first⟩, _, ⟨_, fresh⟩⟩ := unordered [(14, 12)] 12 14
  rw [ran] at again
  simp only [Except.bind, first] at again
  rw [fresh] at forth
  exact Bool.false_ne_true (Option.some.inj (forth.symm.trans again))

end Relock
