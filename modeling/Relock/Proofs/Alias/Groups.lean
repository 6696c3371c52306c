import Relock.Proofs.Alias.Linked

/-!
# Which sites an oracle puts together

With an oracle that is a function of an ordered pair of values, the groups are decided pair by pair:
`Program.Paired` says which pairs. Two sites are paired if they conflict and, when their locks
belong to one function, the oracle says yes to the pair asked in order of the keys, else their locks
have one identity. The members of a group are those paired with its site, in order of the keys.

Such an oracle remembers nothing, so that each step of the grouping is an equation: a row of a
bucket is a filter (`linkedTo_function`), a bucket is its rows (`linkedRows_function`), the group of
a site in a bucket is again a filter (`group_decided`), and only the bucket of the site's type has a
part in it.
-/

namespace Relock

variable {p : Program} {ask : ValueId → ValueId → Bool}

/-! ## Pairs -/

/-- Two values belong to one function. -/
def Program.SameFunction (p : Program) (v w : ValueId) : Prop :=
  ∃ f, (p.value v).origin.owner? = some f ∧ (p.value w).origin.owner? = some f

/-- The oracle's answer about the locks of two sites, the one with the smaller key first. -/
def LockSite.askedInOrder (ask : ValueId → ValueId → Bool) (a b : LockSite) : Bool :=
  if a.key < b.key then ask a.resource b.resource else ask b.resource a.resource

/-- Two sites that the oracle, or the identity of their locks, puts together. -/
structure Program.Paired (p : Program) (ask : ValueId → ValueId → Bool) (a b : LockSite) : Prop
    extends p.Conflict a b where
  decided : p.SameFunction a.resource b.resource ∧ a.askedInOrder ask b = true ∨
    ¬ p.SameFunction a.resource b.resource ∧
    (p.identity a.resource).same (p.identity b.resource) = true

theorem Program.SameFunction.symm {v w : ValueId} (h : p.SameFunction v w) :
    p.SameFunction w v := by
  obtain ⟨f, first, second⟩ := h
  exact ⟨f, second, first⟩

theorem Identity.same_comm (i j : Identity) : i.same j = j.same i := by
  cases i with
  | direct v =>
    cases j with
    | direct w => exact decide_eq_decide.mpr eq_comm
    | field base type path => rfl
  | field base type path =>
    cases j with
    | direct w => rfl
    | field base' type' path' =>
      have types : decide (type = type') = decide (type' = type) := decide_eq_decide.mpr eq_comm
      have paths : decide (path = path') = decide (path' = path) := decide_eq_decide.mpr eq_comm
      simp only [Identity.same, types, paths]

theorem LockSite.askedInOrder_comm {a b : LockSite} (apart : a.key ≠ b.key) :
    a.askedInOrder ask b = b.askedInOrder ask a := by
  unfold askedInOrder
  rcases Std.lt_trichotomy a.key b.key with less | same | more
  · rw [if_pos less, if_neg (Std.not_gt_of_lt less)]
  · exact absurd same apart
  · rw [if_neg (Std.not_gt_of_lt more), if_pos more]

/-- The members of a site's group at each of its operations are parts of the group: none is empty,
and each member is in one of them. -/
structure Groups.Parted (groups : Groups) (a : LockSite) : Prop where
  nonempty : ∀ o ∈ groups.groupOps a, groups.membersAt a o ≠ []
  cover : ∀ b, b ∈ groups.group a ↔ ∃ o ∈ groups.groupOps a, b ∈ groups.membersAt a o
  apart : ∀ b o o', b ∈ groups.membersAt a o → b ∈ groups.membersAt a o' → o = o'

theorem Groups.mem_membersAt {groups : Groups} {a b : LockSite} {o : OpId} :
    b ∈ groups.membersAt a o ↔ b ∈ groups.group a ∧ b.op = o := by
  simp only [membersAt, List.mem_filter, decide_eq_true_eq]

theorem Groups.parted (groups : Groups) (a : LockSite) : groups.Parted a := by
  have mem_groupOps {b : LockSite} (hb : b ∈ groups.group a) : b.op ∈ groups.groupOps a :=
    mem_idSet.mpr (List.mem_map.mpr ⟨b, hb, rfl⟩)
  refine ⟨?_, ?_, ?_⟩
  · intro o ho
    obtain ⟨b, hb, is⟩ := List.mem_map.mp (mem_idSet.mp ho)
    exact List.ne_nil_of_mem (mem_membersAt.mpr ⟨hb, is⟩)
  · intro b
    constructor
    · intro hb
      exact ⟨b.op, mem_groupOps hb, mem_membersAt.mpr ⟨hb, rfl⟩⟩
    · rintro ⟨o, _, hb⟩
      exact (mem_membersAt.mp hb).1
  · intro b o o' first second
    exact (mem_membersAt.mp first).2.symm.trans (mem_membersAt.mp second).2

namespace Program

/-- Pairs go both ways, whatever the oracle answers. -/
theorem Paired.symm {a b : LockSite} (h : p.Paired ask a b) : p.Paired ask b a := by
  have apart : a.key ≠ b.key := fun same => h.ops (List.cons.inj same).1
  refine ⟨⟨h.toConflict.toClash.symm, h.type.symm, h.type ▸ h.known⟩, ?_⟩
  rcases h.decided with ⟨same, yes⟩ | ⟨other, identical⟩
  · exact .inl ⟨same.symm, LockSite.askedInOrder_comm apart ▸ yes⟩
  · exact .inr ⟨fun same => other same.symm, Identity.same_comm _ _ ▸ identical⟩

theorem sameOwner?_iff {v w : ValueId} : p.sameOwner? v w = some true ↔ p.SameFunction v w := by
  unfold sameOwner? SameFunction
  cases (p.value v).origin.owner? with
  | none => simp
  | some f =>
    cases (p.value w).origin.owner? with
    | none => simp
    | some g => simp [eq_comm]

/-- The answer for a pair asked in this order. -/
def pairAnswer (p : Program) (ask : ValueId → ValueId → Bool) (a b : LockSite) : Bool :=
  if a.op = b.op || (a.isShared && b.isShared) then false
  else if p.sameOwner? a.resource b.resource = some true then ask a.resource b.resource
  else (p.identity a.resource).same (p.identity b.resource)

theorem mayAlias_function (memo : Oracle.Memo) (a b : LockSite) :
    p.mayAlias (.function ask) memo a b = .ok (p.pairAnswer ask a b, memo) := by
  unfold mayAlias pairAnswer
  split
  next => rfl
  next =>
    split
    next => rfl
    next => rfl

theorem pairAnswer_iff {a b : LockSite} : p.pairAnswer ask a b = true ↔ a.Clash b ∧
    (p.SameFunction a.resource b.resource ∧ ask a.resource b.resource = true ∨
      ¬ p.SameFunction a.resource b.resource ∧
      (p.identity a.resource).same (p.identity b.resource) = true) := by
  have clash : ¬ (a.op = b.op || (a.isShared && b.isShared)) = true ↔ a.Clash b := by
    simp only [Bool.or_eq_true, decide_eq_true_eq, Bool.and_eq_true, not_or]
    exact ⟨fun h => ⟨h.1, h.2⟩, fun h => ⟨h.ops, h.exclusive⟩⟩
  unfold pairAnswer
  split
  next together => exact iff_of_false Bool.false_ne_true fun h => clash.mpr h.1 together
  next apart =>
    rw [and_iff_right (clash.mp apart), ← sameOwner?_iff]
    split
    next same => simp only [same, true_and, not_true, false_and, or_false]
    next other => simp only [other, false_and, not_false_iff, true_and, false_or]

/-- The answer for a pair asked in order of the keys. -/
def answerInOrder (p : Program) (ask : ValueId → ValueId → Bool) (a b : LockSite) : Bool :=
  if a.key < b.key then p.pairAnswer ask a b else p.pairAnswer ask b a

theorem paired_iff {a b : LockSite} : p.Paired ask a b ↔
    p.answerInOrder ask a b = true ∧ (p.value a.resource).type = (p.value b.resource).type ∧
      (p.value a.resource).type.isKnown = true := by
  have inOrder : p.answerInOrder ask a b = true ↔ a.Clash b ∧
      (p.SameFunction a.resource b.resource ∧ a.askedInOrder ask b = true ∨
        ¬ p.SameFunction a.resource b.resource ∧
        (p.identity a.resource).same (p.identity b.resource) = true) := by
    unfold answerInOrder LockSite.askedInOrder
    split
    next => exact pairAnswer_iff
    next =>
      have clash : b.Clash a ↔ a.Clash b := ⟨LockSite.Clash.symm, LockSite.Clash.symm⟩
      have owner : p.SameFunction b.resource a.resource ↔ p.SameFunction a.resource b.resource :=
        ⟨SameFunction.symm, SameFunction.symm⟩
      rw [pairAnswer_iff, clash, owner, Identity.same_comm]
  rw [inOrder]
  constructor
  · intro h
    exact ⟨⟨h.toConflict.toClash, h.decided⟩, h.type, h.known⟩
  · rintro ⟨⟨clash, decided⟩, type, known⟩
    exact ⟨⟨clash, type, known⟩, decided⟩

theorem answerInOrder_self (a : LockSite) : p.answerInOrder ask a a = false := by
  refine Bool.eq_false_iff.mpr fun yes => ?_
  have self : p.pairAnswer ask a a = true := by simpa only [answerInOrder, ite_self] using yes
  exact (pairAnswer_iff.mp self).1.ops rfl

/-! ## Buckets -/

theorem linkedTo_function (site : LockSite) (memo : Oracle.Memo) (others : List LockSite) :
    p.linkedTo (.function ask) site memo others =
      .ok (others.filter (p.pairAnswer ask site), memo) := by
  induction others with
  | nil => rfl
  | cons other others ih =>
    simp only [linkedTo, mayAlias_function, ih, bind, Except.bind, List.filter_cons]
    rfl

/-- Each site of a row with the later ones that it is answered yes with. -/
def laterLinked (p : Program) (ask : ValueId → ValueId → Bool) : List LockSite →
    List (LockSite × List LockSite)
  | [] => []
  | site :: later => (site, later.filter (p.pairAnswer ask site)) :: laterLinked p ask later

theorem linkedRows_function (memo : Oracle.Memo) (sites : List LockSite) :
    p.linkedRows (.function ask) memo sites = .ok (p.laterLinked ask sites, memo) := by
  induction sites with
  | nil => rfl
  | cons site sites ih =>
    simp only [linkedRows, linkedTo_function, ih, bind, Except.bind]
    rfl

/-- The bucket of a type, decided by a function. -/
def decidedBucket (p : Program) (ask : ValueId → ValueId → Bool) (entry : Ty × List LockSite) :
    Bucket :=
  { type := entry.1, members := entry.2, rows := p.laterLinked ask entry.2, slots := [] }

theorem bucketsOf_function (memo : Oracle.Memo) (row : Keyed Ty (List LockSite)) :
    p.bucketsOf (.function ask) memo row = .ok (row.map (p.decidedBucket ask), memo) := by
  induction row with
  | nil => rfl
  | cons entry row ih =>
    simp only [bucketsOf, linkedRows_function, ih, bind, Except.bind, List.drop_length]
    rfl

theorem group_cons (type : Ty) (m : LockSite) (rest : List LockSite) (a : LockSite) :
    (p.decidedBucket ask (type, m :: rest)).group a =
      (if m.same a then rest.filter (p.pairAnswer ask m)
        else if (rest.filter (p.pairAnswer ask m)).any (·.same a) then [m] else []) ++
      (p.decidedBucket ask (type, rest)).group a := rfl

/-- A site has no group in a bucket without its key. -/
theorem group_absent (type : Ty) {members : List LockSite} {a : LockSite}
    (absent : ∀ m ∈ members, m.key ≠ a.key) :
    (p.decidedBucket ask (type, members)).group a = [] := by
  induction members with
  | nil => rfl
  | cons m rest ih =>
    obtain ⟨here, later⟩ := List.forall_mem_cons.mp absent
    have other : m.same a = false := decide_eq_false here
    have others : (rest.filter (p.pairAnswer ask m)).any (·.same a) = false := by
      refine List.any_eq_false.mpr fun x hx => ?_
      simpa only [LockSite.same, decide_eq_true_eq] using later x (List.mem_filter.mp hx).1
    rw [group_cons, ih later, other, others]
    rfl

/-- The group of a site in its bucket: those with which it is answered yes, in order. -/
theorem group_decided (type : Ty) {members : List LockSite}
    (increasing : members.Pairwise fun a b => a.key < b.key) {a : LockSite} (mem : a ∈ members) :
    (p.decidedBucket ask (type, members)).group a = members.filter (p.answerInOrder ask a) := by
  induction members with
  | nil => exact absurd mem List.not_mem_nil
  | cons m rest ih =>
    obtain ⟨first, increasing⟩ := List.pairwise_cons.mp increasing
    rw [group_cons]
    rcases List.mem_cons.mp mem with rfl | later
    · -- the site's own row has the later ones, and no later row has the site
      have same : a.same a = true := decide_eq_true rfl
      have absent : ∀ m ∈ rest, m.key ≠ a.key :=
        fun m hm again => absurd (again ▸ first m hm) Std.lt_irrefl
      have asked : rest.filter (p.pairAnswer ask a) = rest.filter (p.answerInOrder ask a) :=
        List.filter_congr fun x hx => by rw [answerInOrder, if_pos (first x hx)]
      rw [if_pos same, group_absent type absent, List.append_nil, asked,
        List.filter_cons_of_neg (Bool.eq_false_iff.mp (answerInOrder_self a))]
    · -- an earlier row has the site if the earlier site, asked first, is answered yes
      have before := first a later
      have other : m.same a = false :=
        decide_eq_false fun same => absurd (same ▸ before) Std.lt_irrefl
      have asked : p.answerInOrder ask a m = p.pairAnswer ask m a :=
        if_neg (Std.not_gt_of_lt before)
      have found : (rest.filter (p.pairAnswer ask m)).any (·.same a) = p.pairAnswer ask m a := by
        refine Bool.eq_iff_iff.mpr ⟨fun h => ?_, fun h => ?_⟩
        · obtain ⟨x, hx, same⟩ := List.any_eq_true.mp h
          obtain ⟨hx, yes⟩ := List.mem_filter.mp hx
          exact eq_of_increasing increasing hx later (of_decide_eq_true same) ▸ yes
        · exact List.any_eq_true.mpr ⟨a, List.mem_filter.mpr ⟨later, h⟩, decide_eq_true rfl⟩
      rw [ih increasing later, other, found, List.filter_cons, asked]
      cases p.pairAnswer ask m a <;> rfl

/-! ## Groups -/

/-- The groups of sites in order, decided by a function. -/
def decidedGroups (p : Program) (ask : ValueId → ValueId → Bool) (sites : List LockSite) : Groups :=
  { sites := sites, buckets := (p.byType (sites.filter p.isTyped)).map (p.decidedBucket ask) }

theorem aliasGroups_function (memo : Oracle.Memo) (sites : List LockSite) :
    p.aliasGroups (.function ask) memo sites =
      .ok (p.decidedGroups ask (sortBy LockSite.less sites), memo) := by
  simp only [aliasGroups, bucketsOf_function, bind, Except.bind]
  rfl

theorem group_eq_filter {sites : List LockSite}
    (increasing : sites.Pairwise fun a b => a.key < b.key) {a : LockSite} (mem : a ∈ sites) :
    (p.decidedGroups ask sites).group a =
      ((sites.filter p.isTyped).filter fun s =>
        (p.value s.resource).type = (p.value a.resource).type).filter
        (p.answerInOrder ask a) := by
  have others : ∀ entry ∈ p.byType (sites.filter p.isTyped), entry.1 ≠ (p.value a.resource).type →
      (p.decidedBucket ask entry).group a = [] := by
    rintro ⟨type, members⟩ hentry other
    refine group_absent type fun m hm same => other ?_
    obtain ⟨typed, is⟩ := sorted_byType _ _ _ hentry m hm
    exact is ▸ eq_of_increasing increasing (List.mem_filter.mp typed).1 mem same ▸ rfl
  have own := Keyed.flatMap_eq_get? (nodup_byType _) others rfl
  rw [get?_byType] at own
  rw [Groups.group, decidedGroups, List.flatMap_map, own]
  by_cases known : p.isTyped a = true
  · refine group_decided _ ?_ (List.mem_filter.mpr ⟨List.mem_filter.mpr ⟨mem, known⟩,
      decide_eq_true rfl⟩)
    exact (increasing.sublist List.filter_sublist).sublist List.filter_sublist
  · -- no site of a known type has the type of this one
    have none : ((sites.filter p.isTyped).filter fun s =>
        (p.value s.resource).type = (p.value a.resource).type) = [] := by
      refine List.filter_eq_nil_iff.mpr fun s hs same => known ?_
      have typed := (List.mem_filter.mp hs).2
      rwa [isTyped, of_decide_eq_true same] at typed
    rw [none]
    rfl

theorem mem_decidedGroups {sites : List LockSite}
    (increasing : sites.Pairwise fun a b => a.key < b.key) {a b : LockSite} (mem : a ∈ sites) :
    b ∈ (p.decidedGroups ask sites).group a ↔ b ∈ sites ∧ p.Paired ask a b := by
  rw [group_eq_filter increasing mem, paired_iff]
  simp only [List.mem_filter, decide_eq_true_eq, isTyped]
  constructor
  · rintro ⟨⟨⟨hb, known⟩, type⟩, yes⟩
    exact ⟨hb, yes, type.symm, type ▸ known⟩
  · rintro ⟨hb, yes, type, known⟩
    exact ⟨⟨⟨hb, type ▸ known⟩, type.symm⟩, yes⟩

/-- The groups of some sites are the pairs among them, and the notes are about the sites of unknown
type. -/
structure GroupsExact (p : Program) (ask : ValueId → ValueId → Bool) (sites : List LockSite)
    (groups : Groups) (notes : List Note) : Prop where
  members : ∀ a ∈ sites, ∀ b, b ∈ groups.group a ↔ b ∈ sites ∧ p.Paired ask a b
  symmetric : ∀ a ∈ sites, ∀ b ∈ groups.group a, a ∈ groups.group b
  irreflexive : ∀ a ∈ sites, a ∉ groups.group a
  increasing : ∀ a ∈ sites, (groups.group a).Pairwise fun b c => b.key < c.key
  parted : ∀ a ∈ sites, groups.Parted a
  untyped : ∀ a ∈ sites, (p.value a.resource).type.isKnown = false →
    groups.group a = [] ∧ ∀ b ∈ sites, a ∉ groups.group b
  /-- One note for each site of unknown type. -/
  noted : ∃ left : List LockSite, notes = left.map p.missingTypeNote ∧
    (∀ note ∈ notes, note.kind = .missingType) ∧
    left.Pairwise (fun a b => a.key < b.key) ∧
    ∀ s, s ∈ left ↔ s ∈ sites ∧ (p.value s.resource).type.isKnown = false

theorem exact_of_decided {sites : List LockSite}
    (distinct : sites.Pairwise fun a b => a.key ≠ b.key) :
    p.GroupsExact ask sites (p.decidedGroups ask (sortBy LockSite.less sites))
    (p.groupNotes sites) := by
  have increasing : (sortBy LockSite.less sites).Pairwise fun a b => a.key < b.key :=
    sortBy_increasing (fun _ _ => decide_eq_true_iff) distinct
  have members : ∀ a ∈ sites, ∀ b, b ∈ (p.decidedGroups ask (sortBy LockSite.less sites)).group a ↔
      b ∈ sites ∧ p.Paired ask a b := by
    intro a ha b
    rw [mem_decidedGroups increasing (mem_sortBy.mpr ha), mem_sortBy]
  refine ⟨members, ?_, ?_, ?_, fun a _ => Groups.parted _ a, ?_, ?_⟩
  · intro a ha b hb
    obtain ⟨hb, paired⟩ := (members a ha b).mp hb
    exact (members b hb a).mpr ⟨ha, paired.symm⟩
  · intro a ha self
    exact ((members a ha a).mp self).2.ops rfl
  · intro a ha
    rw [group_eq_filter increasing (mem_sortBy.mpr ha)]
    exact ((increasing.sublist List.filter_sublist).sublist List.filter_sublist).sublist
      List.filter_sublist
  · intro a ha unknown
    have notPaired {b : LockSite} (paired : p.Paired ask a b) : False :=
      Bool.false_ne_true (unknown.symm.trans paired.known)
    refine ⟨List.eq_nil_iff_forall_not_mem.mpr fun b hb => notPaired ((members a ha b).mp hb).2, ?_⟩
    intro b hb mem
    exact notPaired ((members b hb a).mp mem).2.symm
  · refine ⟨_, rfl, ?_, increasing.sublist List.filter_sublist, fun s => ?_⟩
    · intro note hnote
      obtain ⟨s, _, rfl⟩ := List.mem_map.mp hnote
      rfl
    · simp only [List.mem_filter, mem_sortBy, isTyped, Bool.not_eq_true']

end Program

/-- Grouping by a function of ordered pairs gives the pairs among the sites, whatever their order;
so does the mapping in which each pair is linked from both sides. -/
theorem aliasGroups_exact (p : Program) (ask : ValueId → ValueId → Bool) (memo : Oracle.Memo)
    {sites : List LockSite} (distinct : sites.Pairwise fun a b => a.key ≠ b.key) :
    ∃ groups, p.aliasGroups (.function ask) memo sites = .ok (groups, memo) ∧
      p.GroupsExact ask sites groups (p.groupNotes sites) ∧
      (∃ map, p.linkMap (.function ask) memo sites = .ok (map, memo) ∧ map.Agrees groups) ∧
      ∀ sites', sites.Perm sites' → p.aliasGroups (.function ask) memo sites' = .ok (groups, memo) ∧
        p.groupNotes sites' = p.groupNotes sites := by
  have grouped := @Program.aliasGroups_function p ask memo sites
  refine ⟨_, grouped, Program.exact_of_decided distinct, Program.linkMap_agrees grouped distinct,
    fun sites' perm => ?_⟩
  have sorted : sortBy LockSite.less sites = sortBy LockSite.less sites' :=
    sortBy_eq_of_perm (fun _ _ => decide_eq_true_iff) perm distinct
  refine ⟨?_, ?_⟩
  · rw [Program.aliasGroups_function, sorted]
  · rw [Program.groupNotes, Program.groupNotes, sorted]

/-- Two functions that reach the same field, and a lock of unknown type. -/
def meetText : String := "(module meet (struct Mutex i64 i64)
(function \"f\" (params (a (ptr Mutex)) (u ?))
  (block e (gep x (ptr i64) a 0 1) (gep y (ptr i64) a 0 1)
    (call g (ptr i8) \"take\" x) (call h (ptr i8) \"take\" y) (call i (ptr i8) \"take\" u) (ret)))
(function \"g\" (params (c (ptr Mutex)))
  (block e (gep z (ptr i64) c 0 1) (call g (ptr i8) \"take\" z) (ret))))"

/-- The four calls and a site that stands for the last of them at the second. -/
def meetSites : List LockSite :=
  [(22, [], 21), (15, [], 3), (13, [22], 21), (13, [], 10), (11, [], 8)].map fun (op, via,
    resource) =>
    { op := op, via := via, guard := op + 1, resource := resource, mode := .exclusive,
      wrapped := false, pattern := "take" }

/-- An oracle to which the order of a question matters. -/
def meetAsk (v w : ValueId) : Bool := decide (v < w)

set_option maxRecDepth 4000 in
theorem aliasGroups_exact_meet : ∃ p groups map, Program.load "meet" meetText = .ok p ∧
    meetSites.Pairwise (fun a b => a.key ≠ b.key) ∧
    p.aliasGroups (.function meetAsk) {} meetSites = .ok (groups, {}) ∧
    meetSites.map (fun a => (groups.group a).map (·.key)) =
      [[[11], [13]], [], [[11]], [[11], [22]], [[13], [13, 22], [22]]] ∧
    p.GroupsExact meetAsk meetSites groups (p.groupNotes meetSites) ∧
    p.linkMap (.function meetAsk) {} meetSites = .ok (map, {}) ∧ map.Agrees groups ∧
    p.aliasGroups (.function meetAsk) {} meetSites.reverse = .ok (groups, {}) ∧
    p.groupNotes meetSites.reverse = p.groupNotes meetSites := by
  obtain ⟨p, loaded, checked⟩ : ∃ p, Program.load "meet" meetText = .ok p ∧
      decide ((p.aliasGroups (.function meetAsk) {} meetSites).toOption.map (fun answer =>
        meetSites.map fun a => (answer.1.group a).map (·.key)) =
          some [[[11], [13]], [], [[11]], [[11], [22]], [[13], [13, 22], [22]]]) = true :=
    Program.exists_of_load rfl (by decide +kernel)
  have distinct : meetSites.Pairwise fun a b => a.key ≠ b.key := by decide
  obtain ⟨groups, decided, found, ⟨map, mapped, agrees⟩, anyOrder⟩ :=
    aliasGroups_exact p meetAsk {} distinct
  have keys := of_decide_eq_true checked
  rw [decided] at keys
  exact ⟨p, groups, map, loaded, distinct, decided, Option.some.inj keys, found, mapped, agrees,
    anyOrder _ (List.reverse_perm _).symm⟩

end Relock
