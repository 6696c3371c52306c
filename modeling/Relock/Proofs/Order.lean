import Relock.Order

/-!
# What sorting and thinning rows keeps, and sums of rows

`sortBy` gives the same elements in order of their keys, `distinctBy` keeps one element of each
kind. Sorting is by a strict order of keys: `less` says that the key of its first argument is
smaller.
-/

namespace Relock

variable {α : Type}

/-! ## Sets of numbers -/

theorem mem_insertId {n m : Nat} {row : List Nat} : m ∈ insertId n row ↔ m = n ∨ m ∈ row := by
  induction row with
  | nil => exact List.mem_cons
  | cons k row ih =>
    unfold insertId
    split
    next => exact List.mem_cons
    next =>
      split
      next same => simp only [same, List.mem_cons, or_self_left]
      next => simp only [List.mem_cons, ih, or_left_comm]

/-- The set of a row has the numbers of the row. -/
@[simp] theorem mem_idSet {m : Nat} {row : List Nat} : m ∈ idSet row ↔ m ∈ row := by
  induction row with
  | nil => exact Iff.rfl
  | cons n row ih =>
    change m ∈ insertId n (idSet row) ↔ _
    rw [mem_insertId, ih, List.mem_cons]

theorem insertId_increasing {n : Nat} {row : List Nat} (increasing : row.Pairwise (· < ·)) :
    (insertId n row).Pairwise (· < ·) := by
  induction row with
  | nil => exact List.pairwise_singleton _ _
  | cons m row ih =>
    obtain ⟨first, rest⟩ := List.pairwise_cons.mp increasing
    unfold insertId
    split
    next less =>
      refine List.pairwise_cons.mpr ⟨fun k hk => ?_, increasing⟩
      rcases List.mem_cons.mp hk with rfl | later
      · exact less
      · exact Nat.lt_trans less (first k later)
    next notLess =>
      split
      next => exact increasing
      next other =>
        refine List.pairwise_cons.mpr ⟨fun k hk => ?_, ih rest⟩
        rcases mem_insertId.mp hk with rfl | later
        · exact Nat.lt_of_le_of_ne (Nat.le_of_not_lt notLess) (Ne.symm other)
        · exact first k later

/-- The set of a row is in order. -/
theorem idSet_increasing (row : List Nat) : (idSet row).Pairwise (· < ·) := by
  induction row with
  | nil => exact List.Pairwise.nil
  | cons n row ih => exact insertId_increasing ih

/-- The first number of a set that is accepted is the smallest. -/
theorem find?_idSet {row : List Nat} {accept : Nat → Bool} {n : Nat} :
    (idSet row).find? accept = some n ↔
      n ∈ row ∧ accept n = true ∧ ∀ m ∈ row, accept m = true → n ≤ m := by
  rw [List.find?_eq_some_iff_append]
  constructor
  · rintro ⟨accepted, before, after, split, refused⟩
    have increasing := split ▸ idSet_increasing row
    refine ⟨mem_idSet.mp (split ▸ List.mem_append_right _ List.mem_cons_self), accepted,
      fun m hm yes => ?_⟩
    rcases List.mem_append.mp (split ▸ mem_idSet.mpr hm) with earlier | later
    · have no := refused m earlier
      rw [yes] at no
      cases no
    · rcases List.mem_cons.mp later with rfl | later
      · exact Nat.le_refl _
      · exact Nat.le_of_lt
          ((List.pairwise_cons.mp (List.pairwise_append.mp increasing).2.1).1 m later)
  · rintro ⟨mem, accepted, least⟩
    obtain ⟨before, after, split⟩ := List.append_of_mem (mem_idSet.mpr mem)
    have increasing := split ▸ idSet_increasing row
    refine ⟨accepted, before, after, split, fun m earlier => ?_⟩
    have less := (List.pairwise_append.mp increasing).2.2 m earlier n List.mem_cons_self
    have inside : m ∈ row := mem_idSet.mp (split ▸ List.mem_append_left _ earlier)
    rw [Bool.not_eq_true']
    exact Bool.eq_false_iff.mpr fun yes => Nat.not_le_of_lt less (least m inside yes)

/-! ## Sorting -/

theorem insertBy_perm (less : α → α → Bool) (a : α) (row : List α) :
    (insertBy less a row).Perm (a :: row) := by
  induction row with
  | nil => exact List.Perm.refl _
  | cons b row ih =>
    unfold insertBy
    split
    · exact (List.Perm.cons b ih).trans (List.Perm.swap a b row)
    · exact List.Perm.refl _

/-- Sorting changes the order only. -/
theorem sortBy_perm (less : α → α → Bool) (row : List α) : (sortBy less row).Perm row := by
  induction row with
  | nil => exact List.Perm.refl _
  | cons a row ih => exact (insertBy_perm less a (sortBy less row)).trans (List.Perm.cons a ih)

@[simp] theorem mem_sortBy {less : α → α → Bool} {row : List α} {a : α} : a ∈ sortBy less row ↔
    a ∈ row :=
  (sortBy_perm less row).mem_iff

theorem insertBy_map {β : Type} {less : α → α → Bool} {less' : β → β → Bool} {f : α → β}
    (keeps : ∀ a b, less' (f a) (f b) = less a b) (a : α) (row : List α) :
    insertBy less' (f a) (row.map f) = (insertBy less a row).map f := by
  induction row with
  | nil => rfl
  | cons b row ih =>
    rw [List.map_cons, insertBy, insertBy, keeps, ih]
    split <;> rfl

/-- Sorting commutes with what keeps the order. -/
theorem sortBy_map {β : Type} {less : α → α → Bool} {less' : β → β → Bool} {f : α → β}
    (keeps : ∀ a b, less' (f a) (f b) = less a b) (row : List α) :
    sortBy less' (row.map f) = (sortBy less row).map f := by
  induction row with
  | nil => rfl
  | cons a row ih =>
    show insertBy less' (f a) (sortBy less' (row.map f)) = _
    rw [ih, insertBy_map keeps]
    rfl

/-- In a sorted row no element has a smaller key than one before it. -/
theorem sortBy_pairwise {less : α → α → Bool} (asymm : ∀ a b, less a b = true → less b a = false)
    (trans : ∀ a b c, less b a = false → less c b = false → less c a = false) (row : List α) :
    (sortBy less row).Pairwise fun a b => less b a = false := by
  induction row with
  | nil => exact .nil
  | cons a row ih =>
    change (insertBy less a (sortBy less row)).Pairwise _
    generalize sortBy less row = sorted at ih
    induction sorted with
    | nil => exact List.pairwise_singleton _ _
    | cons b sorted inner =>
      obtain ⟨first, rest⟩ := List.pairwise_cons.mp ih
      unfold insertBy
      split
      next smaller =>
        refine List.pairwise_cons.mpr ⟨fun c hc => ?_, inner rest⟩
        rcases List.mem_cons.mp ((insertBy_perm less a sorted).mem_iff.mp hc) with rfl | old
        · exact asymm b c smaller
        · exact first c old
      next notSmaller =>
        have after : less b a = false := Bool.eq_false_iff.mpr notSmaller
        refine List.pairwise_cons.mpr ⟨fun c hc => ?_, ih⟩
        rcases List.mem_cons.mp hc with rfl | old
        · exact after
        · exact trans a b c after (first c old)

section Keys

variable {β : Type} [LT β] [LE β] [Std.IsLinearOrder β] [Std.LawfulOrderLT β] {key : α → β}

/-- Sorted by keys, a row has increasing keys. -/
theorem sortBy_sorted {less : α → α → Bool} (byKey : ∀ a b, less a b = true ↔ key a < key b)
    (row : List α) :
    (sortBy less row).Pairwise fun a b => key a ≤ key b := by
  have notLess (a b : α) : less a b = false ↔ key b ≤ key a := by
    rw [← Bool.not_eq_true, byKey, Std.not_lt]
  have sorted : (sortBy less row).Pairwise fun a b => less b a = false := by
    refine sortBy_pairwise (fun a b h => ?_) (fun a b c ba cb => ?_) row
    · exact (notLess b a).mpr (Std.le_of_lt ((byKey a b).mp h))
    · exact (notLess c a).mpr (Std.le_trans ((notLess b a).mp ba) ((notLess c b).mp cb))
  exact sorted.imp fun {a b} h => (notLess b a).mp h

/-- Sorted by keys that are all different, a row has strictly increasing keys. -/
theorem sortBy_increasing {less : α → α → Bool} (byKey : ∀ a b, less a b = true ↔ key a < key b)
    {row : List α} (distinct : row.Pairwise fun a b => key a ≠ key b) :
    (sortBy less row).Pairwise fun a b => key a < key b := by
  have still := (sortBy_perm less row).symm.pairwise distinct Ne.symm
  exact ((sortBy_sorted byKey row).and still).imp fun {a b} h => Std.lt_of_le_of_ne h.1 h.2

/-- Rows that differ in order only, with keys that are all different, are sorted to one row. -/
theorem sortBy_eq_of_perm {less : α → α → Bool} (byKey : ∀ a b, less a b = true ↔ key a < key b)
    {row row' : List α} (perm : row.Perm row') (distinct : row.Pairwise fun a b => key a ≠ key b) :
    sortBy less row = sortBy less row' := by
  have sorted := sortBy_increasing byKey distinct
  have sorted' := sortBy_increasing byKey (perm.pairwise distinct Ne.symm)
  refine List.Perm.eq_of_pairwise ?_ sorted sorted' ?_
  · intro a b _ _ ab ba
    exact absurd ba (Std.not_gt_of_lt ab)
  · exact (sortBy_perm less row).trans (perm.trans (sortBy_perm less row').symm)

/-- A row with strictly increasing keys is sorted already. -/
theorem sortBy_eq_self {less : α → α → Bool} (byKey : ∀ a b, less a b = true ↔ key a < key b)
    {row : List α} (increasing : row.Pairwise fun a b => key a < key b) :
    sortBy less row = row := by
  have sorted := sortBy_increasing byKey (increasing.imp fun h => Std.ne_of_lt h)
  refine List.Perm.eq_of_pairwise ?_ sorted increasing (sortBy_perm less row)
  intro a b _ _ ab ba
  exact absurd ba (Std.not_gt_of_lt ab)

omit [Std.IsLinearOrder β] in
/-- In a row with strictly increasing keys an element is known by its key. -/
theorem eq_of_increasing {row : List α} (increasing : row.Pairwise fun a b => key a < key b)
    {a b : α} (ha : a ∈ row) (hb : b ∈ row) (same : key a = key b) : a = b := by
  induction row with
  | nil => exact absurd ha List.not_mem_nil
  | cons c row ih =>
    obtain ⟨first, rest⟩ := List.pairwise_cons.mp increasing
    rcases List.mem_cons.mp ha with rfl | laterA <;> rcases List.mem_cons.mp hb with rfl | laterB
    · rfl
    · exact absurd (same ▸ first b laterB) Std.lt_irrefl
    · exact absurd (same ▸ first a laterA) Std.lt_irrefl
    · exact ih rest laterA laterB

end Keys

/-! ## Thinning -/

theorem distinctBy_sublist (same : α → α → Bool) (row : List α) :
    (distinctBy same row).Sublist row := by
  induction row with
  | nil => exact .slnil
  | cons a row ih => exact (List.filter_sublist.trans ih).cons_cons a

/-- Of a thinned row no element is of the kind of one before it. -/
theorem distinctBy_pairwise (same : α → α → Bool) (row : List α) :
    (distinctBy same row).Pairwise fun a b => same a b = false := by
  induction row with
  | nil => exact .nil
  | cons a row ih =>
    refine List.pairwise_cons.mpr ⟨fun b hb => ?_, ih.sublist List.filter_sublist⟩
    simpa only [Bool.not_eq_true'] using (List.mem_filter.mp hb).2

/-- Of each kind in a row, a thinned row has one. -/
theorem exists_mem_distinctBy {β : Type} {key : α → β} {same : α → α → Bool}
    (byKey : ∀ a b, same a b = true ↔ key a = key b) {row : List α} {a : α} (h : a ∈ row) :
    ∃ b ∈ distinctBy same row, key b = key a := by
  induction row with
  | nil => exact absurd h List.not_mem_nil
  | cons c row ih =>
    rcases List.mem_cons.mp h with rfl | h
    · exact ⟨a, List.mem_cons_self, rfl⟩
    · obtain ⟨b, kept, is⟩ := ih h
      by_cases dropped : same c b = true
      · exact ⟨c, List.mem_cons_self, ((byKey c b).mp dropped).trans is⟩
      · refine ⟨b, List.mem_cons_of_mem _ (List.mem_filter.mpr ⟨kept, ?_⟩), is⟩
        simpa only [Bool.not_eq_true', Bool.not_eq_true] using dropped

/-- What is made of different elements, each showing what it was made of, is different. -/
theorem filterMap_pairwise_ne {β : Type} {make : α → Option β} (source : β → α)
    (shows : ∀ a b, make a = some b → source b = a) {row : List α} (nodup : row.Nodup) :
    (row.filterMap make).Pairwise fun b b' => source b ≠ source b' := by
  refine List.pairwise_filterMap.mpr (nodup.imp fun {a a'} other b hb b' hb' same => other ?_)
  rw [← shows a b hb, ← shows a' b' hb', same]

/-! ## Sums -/

/-- Adding up from the left gives the sum. -/
theorem foldl_add_total (weight : α → Nat) (row : List α) (n : Nat) :
    row.foldl (fun sum a => sum + weight a) n = n + total (row.map weight) := by
  induction row generalizing n with
  | nil => rfl
  | cons a row ih => simp only [List.foldl_cons, ih, List.map_cons, total, Nat.add_assoc]

theorem total_map_add (f g : α → Nat) (row : List α) :
    total (row.map fun a => f a + g a) = total (row.map f) + total (row.map g) := by
  induction row with
  | nil => rfl
  | cons a row ih =>
    simp only [List.map_cons, total, ih]
    omega

theorem total_map_one (row : List α) : total (row.map fun _ => 1) = row.length := by
  induction row with
  | nil => rfl
  | cons a row ih =>
    simp only [List.map_cons, total, ih, List.length_cons]
    omega

theorem total_le_of_sublist {row more : List Nat} (sub : row.Sublist more) :
    total row ≤ total more := by
  induction sub with
  | slnil => exact Nat.le_refl _
  | cons n _ ih => exact Nat.le_trans ih (Nat.le_add_left _ _)
  | cons_cons n _ ih => exact Nat.add_le_add_left ih n

theorem total_perm {row more : List Nat} (perm : row.Perm more) : total row = total more := by
  induction perm with
  | nil => rfl
  | cons n _ ih => rw [total, total, ih]
  | swap n m row =>
    simp only [total]
    omega
  | trans _ _ ih ih' => exact ih.trans ih'

/-- A sum over different elements is at most one over all of those that count. -/
theorem total_le_of_subset [DecidableEq α] (weight : α → Nat) {row more : List α}
    (nodup : row.Nodup) (sub : ∀ a ∈ row, 0 < weight a → a ∈ more) :
    total (row.map weight) ≤ total (more.map weight) := by
  induction row generalizing more with
  | nil => exact Nat.zero_le _
  | cons a row ih =>
    obtain ⟨once, nodup⟩ := List.nodup_cons.mp nodup
    obtain ⟨here, later⟩ := List.forall_mem_cons.mp sub
    rw [List.map_cons, total]
    by_cases counts : 0 < weight a
    · have rest := ih nodup fun b hb counts =>
        (List.mem_erase_of_ne fun same : b = a => once (same ▸ hb)).mpr (later b hb counts)
      have split := total_perm ((List.perm_cons_erase (here counts)).map weight)
      rw [List.map_cons, total] at split
      omega
    · have rest := ih nodup later
      omega

theorem length_flatMap_eq_total {β : Type} (part : α → List β) (row : List α) :
    (row.flatMap part).length = total (row.map fun a => (part a).length) := by
  induction row with
  | nil => rfl
  | cons a row ih => simp only [List.flatMap_cons, List.length_append, ih, List.map_cons, total]

theorem le_total (weight : α → Nat) {row : List α} {a : α} (h : a ∈ row) :
    weight a ≤ total (row.map weight) := by
  induction row with
  | nil => exact absurd h List.not_mem_nil
  | cons b row ih =>
    simp only [List.map_cons, total]
    rcases List.mem_cons.mp h with rfl | later
    · omega
    · have := ih later
      omega

/-! ## What is left of a row -/

/-- The weight of the numbers of a row that were not seen. -/
def unseen (weight : Nat → Nat) (row seen : List Nat) : Nat :=
  total ((row.filter (· ∉ seen)).map weight)

theorem unseen_le (weight : Nat → Nat) (row seen : List Nat) :
    unseen weight row seen ≤ total (row.map weight) := by
  unfold unseen
  induction row with
  | nil => exact Nat.le_refl _
  | cons n row ih =>
    rw [List.filter_cons]
    split <;> simp only [List.map_cons, total] <;> omega

/-- The more was seen, the less is left. -/
theorem unseen_le_of_subset (weight : Nat → Nat) (row : List Nat) {seen more : List Nat}
    (sub : seen ⊆ more) :
    unseen weight row more ≤ unseen weight row seen := by
  have again : row.filter (· ∉ more) = (row.filter (· ∉ seen)).filter (· ∉ more) := by
    rw [List.filter_filter]
    refine List.filter_congr fun n _ => ?_
    rw [← Bool.decide_and]
    exact decide_eq_decide.mpr (iff_self_and.mpr fun left old => left (sub old))
  rw [unseen, again]
  exact total_le_of_sublist (List.filter_sublist.map weight)

theorem filter_notMem_cons {row : List Nat} (seen : List Nat) {n : Nat} (absent : n ∉ row) :
    row.filter (· ∉ n :: seen) = row.filter (· ∉ seen) :=
  List.filter_congr fun k hk => by
    have other : k ≠ n := fun h => absent (h ▸ hk)
    simp only [List.mem_cons, other, false_or]

/-- A number that is not in the row takes nothing away. -/
theorem unseen_cons_of_notMem (weight : Nat → Nat) {row : List Nat} (seen : List Nat) {n : Nat}
    (absent : n ∉ row) :
    unseen weight row (n :: seen) = unseen weight row seen := by
  rw [unseen, filter_notMem_cons seen absent, unseen]

/-- A number that was not seen takes its weight away when it is. -/
theorem unseen_cons {weight : Nat → Nat} {row seen : List Nat} {n : Nat} (nodup : row.Nodup)
    (mem : n ∈ row) (fresh : n ∉ seen) :
    unseen weight row (n :: seen) + weight n = unseen weight row seen := by
  unfold unseen
  induction row with
  | nil => exact absurd mem List.not_mem_nil
  | cons m row ih =>
    obtain ⟨once, nodup⟩ := List.nodup_cons.mp nodup
    by_cases same : m = n
    · subst same
      rw [List.filter_cons_of_neg (by simp), List.filter_cons_of_pos (by simpa using fresh),
        filter_notMem_cons seen once]
      simp only [List.map_cons, total]
      omega
    · have later := ih nodup ((List.mem_cons.mp mem).resolve_left (Ne.symm same))
      by_cases known : m ∈ seen
      · rw [List.filter_cons_of_neg (by simp [known]), List.filter_cons_of_neg (by simp [known])]
        exact later
      · rw [List.filter_cons_of_pos (by simp [same, known]),
          List.filter_cons_of_pos (by simp [known])]
        simp only [List.map_cons, total]
        omega

theorem unseen_append {weight : Nat → Nat} {row seen fresh : List Nat} (nodup : row.Nodup)
    (distinct : fresh.Nodup) (new : ∀ n ∈ fresh, n ∈ row ∧ n ∉ seen) :
    unseen weight row (fresh ++ seen) + total (fresh.map weight) = unseen weight row seen := by
  induction fresh with
  | nil => rfl
  | cons n fresh ih =>
    obtain ⟨once, distinct⟩ := List.nodup_cons.mp distinct
    obtain ⟨⟨mem, notSeen⟩, new⟩ := List.forall_mem_cons.mp new
    have rest := ih distinct new
    have first : unseen weight row (n :: (fresh ++ seen)) + weight n =
        unseen weight row (fresh ++ seen) :=
      unseen_cons nodup mem (by simp [once, notSeen])
    simp only [List.cons_append, List.map_cons, total]
    omega

end Relock
