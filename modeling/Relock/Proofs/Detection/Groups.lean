import Relock.Alias.Groups
import Relock.Proofs.Keyed
import Relock.Proofs.Order
import Relock.Proofs.Source.Decoder

/-!
# Alias groups

What the members of a site's group have in common with it: they stand at other operations, their
locks have the same known type, and one of the two acquires exclusively. Whatever the oracle
answers, no other pair is ever put together. An oracle that answers, answers all the questions of a
program whose operations have their operands.
-/

namespace Relock

variable {p : Program} {oracle : Oracle}

/-- Two sites may stand in each other's way: at different operations, and not both shared. -/
structure LockSite.Clash (a b : LockSite) : Prop where
  ops : a.op ≠ b.op
  exclusive : ¬ (a.isShared = true ∧ b.isShared = true)

theorem LockSite.Clash.symm {a b : LockSite} (h : a.Clash b) : b.Clash a :=
  ⟨h.ops.symm, fun both => h.exclusive both.symm⟩

/-- Two sites clash over locks of one known type. -/
structure Program.Conflict (p : Program) (a b : LockSite) : Prop extends a.Clash b where
  type : (p.value a.resource).type = (p.value b.resource).type
  known : (p.value a.resource).type.isKnown = true

namespace Program

/-! ## Pairs that are put together -/

theorem clash_of_mayAlias {memo memo' : Oracle.Memo} {a b : LockSite}
    (h : p.mayAlias oracle memo a b = .ok (true, memo')) : a.Clash b := by
  unfold mayAlias at h
  split at h
  next => cases h
  next apart =>
    simp only [Bool.or_eq_true, decide_eq_true_eq, Bool.and_eq_true, not_or] at apart
    exact ⟨apart.1, apart.2⟩

theorem mem_linkedTo {site : LockSite} {others linked : List LockSite} {memo memo' : Oracle.Memo}
    (h : p.linkedTo oracle site memo others = .ok (linked, memo')) {m : LockSite}
    (hm : m ∈ linked) :
    m ∈ others ∧ site.Clash m := by
  induction others generalizing memo linked memo' with
  | nil => cases h; exact absurd hm List.not_mem_nil
  | cons other others ih =>
    obtain ⟨⟨answer, memo₁⟩, asked, h⟩ := bind_eq_ok h
    obtain ⟨⟨rest, memo₂⟩, later, h⟩ := bind_eq_ok h
    cases h
    have old (hm : m ∈ rest) : m ∈ other :: others ∧ site.Clash m :=
      ⟨List.mem_cons_of_mem _ (ih later hm).1, (ih later hm).2⟩
    cases answer with
    | false => exact old hm
    | true =>
      rcases List.mem_cons.mp hm with rfl | hm
      · exact ⟨List.mem_cons_self, clash_of_mayAlias asked⟩
      · exact old hm

theorem mem_linkedRows {sites : List LockSite} {rows : List (LockSite × List LockSite)}
    {memo memo' : Oracle.Memo} (h : p.linkedRows oracle memo sites = .ok (rows, memo'))
    {member : LockSite} {later : List LockSite} (hr : (member, later) ∈ rows) :
    member ∈ sites ∧ ∀ m ∈ later, m ∈ sites ∧ member.Clash m := by
  induction sites generalizing memo rows memo' with
  | nil => cases h; exact absurd hr List.not_mem_nil
  | cons site sites ih =>
    obtain ⟨⟨linked, memo₁⟩, first, h⟩ := bind_eq_ok h
    obtain ⟨⟨rest, memo₂⟩, others, h⟩ := bind_eq_ok h
    cases h
    rcases List.mem_cons.mp hr with same | hr
    · cases same
      refine ⟨List.mem_cons_self, fun m hm => ?_⟩
      exact ⟨List.mem_cons_of_mem _ (mem_linkedTo first hm).1, (mem_linkedTo first hm).2⟩
    · obtain ⟨mem, all⟩ := ih others hr
      exact ⟨List.mem_cons_of_mem _ mem,
        fun m hm => ⟨List.mem_cons_of_mem _ (all m hm).1, (all m hm).2⟩⟩

theorem mem_bucketsOf {row : Keyed Ty (List LockSite)} {buckets : List Bucket}
    {memo memo' : Oracle.Memo} (h : p.bucketsOf oracle memo row = .ok (buckets, memo'))
    {bucket : Bucket} (hb : bucket ∈ buckets) :
    ∃ type members, (type, members) ∈ row ∧ ∀ {member later}, (member, later) ∈ bucket.rows →
      member ∈ members ∧ ∀ m ∈ later, m ∈ members ∧ member.Clash m := by
  induction row generalizing memo buckets memo' with
  | nil => cases h; exact absurd hb List.not_mem_nil
  | cons entry row ih =>
    obtain ⟨type, members⟩ := entry
    obtain ⟨⟨rows, memo₁⟩, decided, h⟩ := bind_eq_ok h
    obtain ⟨⟨rest, memo₂⟩, others, h⟩ := bind_eq_ok h
    cases h
    rcases List.mem_cons.mp hb with rfl | hb
    · exact ⟨type, members, List.mem_cons_self, fun hr => mem_linkedRows decided hr⟩
    · obtain ⟨type', members', mem, all⟩ := ih others hb
      exact ⟨type', members', List.mem_cons_of_mem _ mem, all⟩

/-! ## Buckets by type -/

/-- A row by type holds sites, each under its type. -/
def Sorted (p : Program) (sites : List LockSite) (row : Keyed Ty (List LockSite)) : Prop :=
  ∀ type members, (type, members) ∈ row → ∀ m ∈ members, m ∈ sites ∧
    (p.value m.resource).type = type

theorem Sorted.put {sites : List LockSite} {row : Keyed Ty (List LockSite)}
    (sorted : p.Sorted sites row) {site : LockSite} (mem : site ∈ sites) :
    p.Sorted sites (Keyed.update row (p.value site.resource).type [] (· ++ [site])) := by
  intro type members entry m hm
  rcases Keyed.mem_set entry with old | ⟨rfl, rfl⟩
  · exact sorted _ _ old m hm
  · rcases List.mem_append.mp hm with old | new
    · cases kept : Keyed.get? row (p.value site.resource).type with
      | none =>
        rw [kept] at old
        exact absurd old List.not_mem_nil
      | some members =>
        rw [kept] at old
        exact sorted _ _ (Keyed.mem_of_get? kept) m old
    · rw [List.mem_singleton.mp new]
      exact ⟨mem, rfl⟩

/-- A bucket holds sites of its type. -/
theorem sorted_byType (sites : List LockSite) : p.Sorted sites (p.byType sites) := by
  have puts (rest : List LockSite) (row : Keyed Ty (List LockSite)) (sub : rest ⊆ sites)
      (sorted : p.Sorted sites row) :
      p.Sorted sites (rest.foldl (fun row site =>
        Keyed.update row (p.value site.resource).type [] (· ++ [site])) row) := by
    induction rest generalizing row with
    | nil => exact sorted
    | cons site rest ih =>
      obtain ⟨mem, sub⟩ := List.cons_subset.mp sub
      exact ih _ sub (sorted.put mem)
  exact puts sites [] (List.Subset.refl _) fun _ _ h => absurd h List.not_mem_nil

theorem nodup_byType (sites : List LockSite) : (p.byType sites).keys.Nodup := by
  have puts (row : Keyed Ty (List LockSite)) (nodup : row.keys.Nodup) :
      (sites.foldl (fun row site =>
      Keyed.update row (p.value site.resource).type [] (· ++ [site])) row).keys.Nodup := by
    induction sites generalizing row with
    | nil => exact nodup
    | cons site sites ih => exact ih _ (Keyed.nodup_keys_set nodup _ _)
  exact puts [] List.nodup_nil

/-- The bucket of a type has the sites of that type, in order. -/
theorem get?_byType (sites : List LockSite) (type : Ty) :
    (Keyed.get? (p.byType sites) type).getD [] =
      sites.filter fun s => (p.value s.resource).type = type := by
  have puts (row : Keyed Ty (List LockSite)) : (Keyed.get? (sites.foldl (fun row site =>
      Keyed.update row (p.value site.resource).type [] (· ++ [site])) row) type).getD [] =
      (Keyed.get? row type).getD [] ++ sites.filter fun s => (p.value s.resource).type = type := by
    induction sites generalizing row with
    | nil => exact (List.append_nil _).symm
    | cons site sites ih =>
      rw [List.foldl_cons, ih, Keyed.update, Keyed.get?_set, List.filter_cons]
      by_cases here : (p.value site.resource).type = type
      · simp only [here, if_true, Option.getD_some, decide_true, List.append_assoc,
          List.singleton_append]
      · simp only [here, if_false, decide_false, Bool.false_eq_true]
  exact puts []

/-! ## Groups -/

theorem aliasGroups_ok {memo memo' : Oracle.Memo} {sites : List LockSite} {groups : Groups}
    (h : p.aliasGroups oracle memo sites = .ok (groups, memo')) :
    p.bucketsOf oracle memo (p.byType ((sortBy LockSite.less sites).filter p.isTyped)) =
      .ok (groups.buckets, memo') := by
  obtain ⟨⟨buckets, memo₁⟩, decided, h⟩ := bind_eq_ok h
  cases h
  exact decided

/-- The members of a site's group are sites that conflict with it; the site is known by its key. -/
theorem mem_group {memo memo' : Oracle.Memo} {sites : List LockSite} {groups : Groups}
    (h : p.aliasGroups oracle memo sites = .ok (groups, memo')) {site m : LockSite}
    (hm : m ∈ groups.group site) :
    m ∈ sites ∧ ∃ twin ∈ sites, twin.key = site.key ∧ p.Conflict twin m := by
  obtain ⟨bucket, hb, hm⟩ := List.mem_flatMap.mp hm
  obtain ⟨⟨member, later⟩, hr, hm⟩ := List.mem_flatMap.mp hm
  obtain ⟨type, members, entry, rows⟩ := mem_bucketsOf (aliasGroups_ok h) hb
  obtain ⟨memberIn, clash⟩ := rows hr
  have typed {x : LockSite} (hx : x ∈ members) :
      x ∈ sites ∧ (p.value x.resource).type = type ∧ (p.value x.resource).type.isKnown = true := by
    obtain ⟨mem, is⟩ := sorted_byType _ _ _ entry x hx
    obtain ⟨mem, known⟩ := List.mem_filter.mp mem
    exact ⟨mem_sortBy.mp mem, is, known⟩
  have conflict {x : LockSite} (hx : x ∈ later) : p.Conflict member x ∧ p.Conflict x member := by
    have first := typed memberIn
    have second := typed (clash x hx).1
    have apart := (clash x hx).2
    exact ⟨⟨apart, first.2.1.trans second.2.1.symm, first.2.2⟩,
      ⟨apart.symm, second.2.1.trans first.2.1.symm, second.2.2⟩⟩
  simp only at hm
  split at hm
  next same =>
    exact ⟨(typed (clash m hm).1).1, member, (typed memberIn).1, of_decide_eq_true same,
      (conflict hm).1⟩
  next =>
    split at hm
    next other =>
      obtain ⟨twin, ht, same⟩ := List.any_eq_true.mp other
      rw [List.mem_singleton.mp hm]
      exact ⟨(typed memberIn).1, twin, (typed (clash twin ht).1).1, of_decide_eq_true same,
        (conflict ht).2⟩
    next => exact absurd hm List.not_mem_nil

/-! ## Every question is answered -/

theorem operands_cons (finished : p.Finished) {o : OpId} (needs : 0 < (p.op o).kind.leastOperands) :
    ∃ v vs, (p.op o).operands = v :: vs := by
  refine List.exists_cons_of_ne_nil fun none => ?_
  have filled := finished.filled o
  rw [Bare, none] at filled
  exact filled needs

/-- The structural answer meets no operation without its operands. -/
theorem verdictFrom_ne_malformed (finished : p.Finished) (fuel : Nat)
    (seen : List (ValueId × ValueId)) (a b : ValueId) :
    p.verdictFrom fuel seen a b ≠ .malformed := by
  induction fuel generalizing seen a b with
  | zero => exact Verdict.noConfusion
  | succ fuel ih =>
    simp only [verdictFrom]
    split
    next => exact Verdict.noConfusion
    next =>
      split
      next => exact Verdict.noConfusion
      next =>
        split
        next da db _ _ =>
          split
          next => exact Verdict.noConfusion
          next same =>
            have kinds : (p.op da).kind = (p.op db).kind := Decidable.not_not.mp same
            -- only address computations and loads look at their operands
            split
            next gep =>
              obtain ⟨x, xs, first⟩ :=
                operands_cons finished (o := da) (by rw [gep]; exact Nat.zero_lt_one)
              obtain ⟨y, ys, second⟩ :=
                operands_cons finished (o := db) (by rw [← kinds, gep]; exact Nat.zero_lt_one)
              split
              next => exact Verdict.noConfusion
              next =>
                simp only [first, second]
                exact ih _ _ _
            next load =>
              obtain ⟨x, xs, first⟩ :=
                operands_cons finished (o := da) (by rw [load]; exact Nat.zero_lt_one)
              obtain ⟨y, ys, second⟩ :=
                operands_cons finished (o := db) (by rw [← kinds, load]; exact Nat.zero_lt_one)
              simp only [first, second]
              split
              next => split <;> exact Verdict.noConfusion
              next => exact ih _ _ _
            next => exact Verdict.noConfusion
        next => exact Verdict.noConfusion

/-- An oracle that does not always fail answers every question. -/
theorem ask_answers (finished : p.Finished) (answers : ∀ reason, oracle ≠ .failing reason)
    (memo : Oracle.Memo) (a b : ValueId) : ∃ answer, oracle.ask p memo a b = .ok answer := by
  cases oracle with
  | failing reason => exact absurd rfl (answers reason)
  | function ask => exact ⟨_, rfl⟩
  | structural =>
    simp only [Oracle.ask]
    split
    next answer _ => exact ⟨_, rfl⟩
    next =>
      split
      next malformed => exact absurd malformed (verdictFrom_ne_malformed finished _ _ _ _)
      next => exact ⟨_, rfl⟩

theorem mayAlias_answers (finished : p.Finished) (answers : ∀ reason, oracle ≠ .failing reason)
    (memo : Oracle.Memo) (a b : LockSite) : ∃ answer, p.mayAlias oracle memo a b = .ok answer := by
  unfold mayAlias
  split
  next => exact ⟨_, rfl⟩
  next =>
    split
    next => exact ask_answers finished answers memo _ _
    next => exact ⟨_, rfl⟩

theorem linkedTo_answers (finished : p.Finished) (answers : ∀ reason, oracle ≠ .failing reason)
    (site : LockSite) (others : List LockSite) (memo : Oracle.Memo) :
    ∃ answer, p.linkedTo oracle site memo others = .ok answer := by
  induction others generalizing memo with
  | nil => exact ⟨_, rfl⟩
  | cons other others ih =>
    obtain ⟨⟨linked, memo₁⟩, asked⟩ := mayAlias_answers finished answers memo site other
    obtain ⟨⟨rest, memo₂⟩, later⟩ := ih memo₁
    exact ⟨_, by rw [linkedTo, asked]; simp only [bind, Except.bind, later]; rfl⟩

theorem linkedRows_answers (finished : p.Finished) (answers : ∀ reason, oracle ≠ .failing reason)
    (sites : List LockSite) (memo : Oracle.Memo) :
    ∃ answer, p.linkedRows oracle memo sites = .ok answer := by
  induction sites generalizing memo with
  | nil => exact ⟨_, rfl⟩
  | cons site sites ih =>
    obtain ⟨⟨linked, memo₁⟩, first⟩ := linkedTo_answers finished answers site sites memo
    obtain ⟨⟨rest, memo₂⟩, later⟩ := ih memo₁
    exact ⟨_, by rw [linkedRows, first]; simp only [bind, Except.bind, later]; rfl⟩

theorem bucketsOf_answers (finished : p.Finished) (answers : ∀ reason, oracle ≠ .failing reason)
    (row : Keyed Ty (List LockSite)) (memo : Oracle.Memo) :
    ∃ answer, p.bucketsOf oracle memo row = .ok answer := by
  induction row generalizing memo with
  | nil => exact ⟨_, rfl⟩
  | cons entry row ih =>
    obtain ⟨⟨rows, memo₁⟩, first⟩ := linkedRows_answers finished answers entry.2 memo
    obtain ⟨⟨rest, memo₂⟩, later⟩ := ih memo₁
    exact ⟨_, by rw [bucketsOf, first]; simp only [bind, Except.bind, later]; rfl⟩

/-- With an oracle that answers, the sites of a finished program are grouped. -/
theorem aliasGroups_answers (finished : p.Finished) (answers : ∀ reason, oracle ≠ .failing reason)
    (memo : Oracle.Memo) (sites : List LockSite) :
    ∃ answer, p.aliasGroups oracle memo sites = .ok answer := by
  obtain ⟨⟨buckets, memo₁⟩, decided⟩ := bucketsOf_answers finished answers
    (p.byType ((sortBy LockSite.less sites).filter p.isTyped)) memo
  exact ⟨_, by rw [aliasGroups]; exact congrArg (· >>= _) decided⟩

end Program
end Relock
