import Relock.Proofs.Detection.Groups

/-!
# Groups recorded pair by pair

The groups of sites may be put down as a mapping that is written from both sides: each site has a
row under its key, and a link puts either site into the row of the other, once. `linkMap` goes over
the pairs of each bucket and links those that are answered yes. It asks what `aliasGroups` asks, in
the same order, so that it fails where that fails, and else links the pairs of its rows
(`linkMap_eq`).

A row holds the other ends of the links made so far (`rowOf_linkAll`). The pairs are taken in order
of the keys, so that the other ends of all links of a site stand in key order, and are its group
(`Groups.links_others`): the mapping agrees with the groups (`LinkMap.Agrees`).
-/

namespace Relock

/-! ## Mappings -/

/-- The sites that are linked to a site, under its key. -/
structure LinkMap where
  rows : Keyed (List OpId) (List LockSite) := []

namespace LinkMap

/-- Adds a site to a row that does not have it. -/
def add (row : List LockSite) (site : LockSite) : List LockSite :=
  if row.any fun other => other.same site then row else row ++ [site]

/-- The mapping of some sites without a link. -/
def ofSites (sites : List LockSite) : LinkMap :=
  { rows := sites.foldl (fun rows site => rows.set site.key []) [] }

/-- Links two sites: each goes into the row of the other. -/
def link (map : LinkMap) (a b : LockSite) : LinkMap :=
  { rows := (map.rows.update a.key [] (add · b)).update b.key [] (add · a) }

def linkAll (map : LinkMap) (pairs : List (LockSite × LockSite)) : LinkMap :=
  pairs.foldl (fun map pair => map.link pair.1 pair.2) map

/-- The row under a key. -/
def rowOf (map : LinkMap) (key : List OpId) : List LockSite := (map.rows.get? key).getD []

/-- The sites linked to a site, in key order. -/
def group (map : LinkMap) (site : LockSite) : List LockSite :=
  sortBy LockSite.less (map.rowOf site.key)

/-- The operations of the sites linked to a site. -/
def groupOps (map : LinkMap) (site : LockSite) : List OpId :=
  idSet ((map.rowOf site.key).map (·.op))

/-- The sites linked to a site that stand at an operation, in key order. -/
def membersAt (map : LinkMap) (site : LockSite) (o : OpId) : List LockSite :=
  sortBy LockSite.less ((map.rowOf site.key).filter fun member => member.op = o)

/-- The number of rows that are not empty. -/
def size (map : LinkMap) : Nat := (map.rows.filter fun entry => !entry.2.isEmpty).length

/-- Whether each site of a row has the key of the row in its own. -/
def isSymmetric (map : LinkMap) : Bool :=
  map.rows.all fun entry => entry.2.all fun b => (map.rows.get? b.key).any fun row =>
    row.any fun a => a.key = entry.1

/-- A mapping gives what the groups give. -/
structure Agrees (map : LinkMap) (groups : Groups) : Prop where
  sites : map.rows.keys = groups.sites.map (·.key)
  group : ∀ site, map.group site = groups.group site
  groupOps : ∀ site, map.groupOps site = groups.groupOps site
  membersAt : ∀ site o, map.membersAt site o = groups.membersAt site o
  size : map.size = groups.size
  isSymmetric : map.isSymmetric = groups.isSymmetric

end LinkMap

namespace Program

/-- Decides a pair, and links it if the answer is yes. -/
def linkIf (p : Program) (oracle : Oracle) (state : LinkMap × Oracle.Memo)
    (pair : LockSite × LockSite) : Except Failure (LinkMap × Oracle.Memo) := do
  let (linked, memo) ← p.mayAlias oracle state.2 pair.1 pair.2
  return (if linked then state.1.link pair.1 pair.2 else state.1, memo)

end Program

/-- The pairs of a row: the first site with each of the later ones, then those of the later ones. -/
def pairsOf : List LockSite → List (LockSite × LockSite)
  | [] => []
  | site :: later => later.map (site, ·) ++ pairsOf later

/-- The mapping of sites to those that may acquire the same lock, decided in the order of the
buckets, and what the oracle remembers afterwards. -/
def Program.linkMap (p : Program) (oracle : Oracle) (memo : Oracle.Memo) (sites : List LockSite) :
    Except Failure (LinkMap × Oracle.Memo) :=
  let sites := sortBy LockSite.less sites
  ((p.byType (sites.filter p.isTyped)).flatMap fun entry => pairsOf entry.2).foldlM
    (p.linkIf oracle) (LinkMap.ofSites sites, memo)

/-! ## The links -/

/-- The pairs that stand in rows of sites with later ones. -/
def rowLinks (rows : List (LockSite × List LockSite)) : List (LockSite × LockSite) :=
  rows.flatMap fun row => row.2.map (row.1, ·)

/-- The pairs that are put together. -/
def Groups.links (groups : Groups) : List (LockSite × LockSite) :=
  groups.buckets.flatMap fun bucket => rowLinks bucket.rows

theorem LinkMap.linkAll_append (map : LinkMap) (pairs more : List (LockSite × LockSite)) :
    map.linkAll (pairs ++ more) = (map.linkAll pairs).linkAll more :=
  List.foldl_append

namespace Program

variable {p : Program} {oracle : Oracle}

/-- Deciding the pairs of a site links it to those that are answered yes. -/
theorem foldlM_linkedTo (site : LockSite) (others : List LockSite) (map : LinkMap)
    (memo : Oracle.Memo) :
    (others.map (site, ·)).foldlM (p.linkIf oracle) (map, memo) =
      (p.linkedTo oracle site memo others).map fun answer =>
        (map.linkAll (answer.1.map (site, ·)), answer.2) := by
  induction others generalizing map memo with
  | nil => rfl
  | cons other others ih =>
    rw [List.map_cons, List.foldlM_cons, linkIf, linkedTo]
    cases p.mayAlias oracle memo site other with
    | error failure => rfl
    | ok answer =>
      obtain ⟨linked, memo⟩ := answer
      change List.foldlM _ (if linked then map.link site other else map, memo) _ = _
      rw [ih]
      cases later : p.linkedTo oracle site memo others with
      | error failure =>
        simp only [bind, Except.bind, later]
        rfl
      | ok answer =>
        simp only [bind, Except.bind, later]
        cases linked <;> rfl

theorem foldlM_linkedRows (sites : List LockSite) (map : LinkMap) (memo : Oracle.Memo) :
    (pairsOf sites).foldlM (p.linkIf oracle) (map, memo) =
      (p.linkedRows oracle memo sites).map fun answer =>
        (map.linkAll (rowLinks answer.1), answer.2) := by
  induction sites generalizing map memo with
  | nil => rfl
  | cons site later ih =>
    rw [pairsOf, List.foldlM_append, foldlM_linkedTo, linkedRows]
    cases p.linkedTo oracle site memo later with
    | error failure => rfl
    | ok answer =>
      obtain ⟨linked, memo⟩ := answer
      change List.foldlM _ (map.linkAll (linked.map (site, ·)), memo) _ = _
      rw [ih]
      cases others : p.linkedRows oracle memo later with
      | error failure =>
        simp only [bind, Except.bind, others]
        rfl
      | ok answer =>
        simp only [bind, Except.bind, others, Except.map, ← LinkMap.linkAll_append]
        rfl

theorem foldlM_bucketsOf (row : Keyed Ty (List LockSite)) (map : LinkMap) (memo : Oracle.Memo) :
    (row.flatMap fun entry => pairsOf entry.2).foldlM (p.linkIf oracle) (map, memo) =
      (p.bucketsOf oracle memo row).map fun answer =>
        (map.linkAll (answer.1.flatMap fun bucket => rowLinks bucket.rows), answer.2) := by
  induction row generalizing map memo with
  | nil => rfl
  | cons entry row ih =>
    obtain ⟨type, members⟩ := entry
    rw [List.flatMap_cons, List.foldlM_append, foldlM_linkedRows, bucketsOf]
    cases p.linkedRows oracle memo members with
    | error failure => rfl
    | ok answer =>
      obtain ⟨rows, memo⟩ := answer
      change List.foldlM _ (map.linkAll (rowLinks rows), memo) _ = _
      rw [ih]
      cases others : p.bucketsOf oracle memo row with
      | error failure =>
        simp only [bind, Except.bind, others]
        rfl
      | ok answer =>
        simp only [bind, Except.bind, others, Except.map, ← LinkMap.linkAll_append]
        rfl

/-- The mapping is that of the sites with the pairs of their groups linked; without groups, it fails
as they do. -/
theorem linkMap_eq (p : Program) (oracle : Oracle) (memo : Oracle.Memo) (sites : List LockSite) :
    p.linkMap oracle memo sites = (p.aliasGroups oracle memo sites).map fun answer =>
      ((LinkMap.ofSites answer.1.sites).linkAll answer.1.links, answer.2) := by
  rw [linkMap, foldlM_bucketsOf, aliasGroups]
  cases p.bucketsOf oracle memo (p.byType ((sortBy LockSite.less sites).filter p.isTyped)) with
  | error failure => rfl
  | ok answer => rfl

end Program

/-! ## Rows -/

namespace LinkMap

variable {map : LinkMap} {key : List OpId} {a b : LockSite}

/-- The other end of a pair, seen from a key. -/
def others (key : List OpId) (pair : LockSite × LockSite) : List LockSite :=
  if pair.1.key = key then [pair.2] else if pair.2.key = key then [pair.1] else []

theorem add_of_new {row : List LockSite} {site : LockSite}
    (new : ∀ other ∈ row, other.key ≠ site.key) : add row site = row ++ [site] := by
  refine if_neg fun h => ?_
  obtain ⟨other, mem, same⟩ := List.any_eq_true.mp h
  exact new other mem (of_decide_eq_true same)

theorem add_of_mem {row : List LockSite} {site other : LockSite} (mem : other ∈ row)
    (same : other.key = site.key) : add row site = row :=
  if_pos (List.any_eq_true.mpr ⟨other, mem, decide_eq_true same⟩)

theorem rowOf_link (map : LinkMap) (a b : LockSite) (key : List OpId) :
    (map.link a b).rowOf key =
      if b.key = key then add (if a.key = key then add (map.rowOf key) b else map.rowOf key) a
      else if a.key = key then add (map.rowOf key) b else map.rowOf key := by
  have first (k : List OpId) : ((map.rows.update a.key [] (add · b)).get? k).getD [] =
      if a.key = k then add (map.rowOf k) b else map.rowOf k := by
    rw [Keyed.update, Keyed.get?_set]
    split
    next same => rw [← same]; rfl
    next => rfl
  rw [link, rowOf, Keyed.update, Keyed.get?_set]
  split
  next same => rw [Option.getD_some, first, same]
  next => exact first key

/-- A link puts the other end into a row that does not have it. -/
theorem rowOf_link_of_new (new : ∀ y ∈ map.rowOf key, ∀ x ∈ others key (a, b), y.key ≠ x.key) :
    (map.link a b).rowOf key = map.rowOf key ++ others key (a, b) := by
  rw [rowOf_link]
  unfold others at new ⊢
  by_cases left : a.key = key
  · simp only [left, if_true, List.mem_singleton, forall_eq] at new ⊢
    rw [add_of_new new]
    split
    next right =>
      exact add_of_mem (List.mem_append_right _ List.mem_cons_self) (right.trans left.symm)
    next => rfl
  · simp only [left, if_false] at new ⊢
    split
    next right =>
      simp only [right, if_true, List.mem_singleton, forall_eq] at new
      exact add_of_new new
    next => exact (List.append_nil _).symm

/-- Links whose other ends are all different put these into a row, in order. -/
theorem rowOf_linkAll {pairs : List (LockSite × LockSite)}
    (distinct : (map.rowOf key ++ pairs.flatMap (others key)).Pairwise fun x y => x.key ≠ y.key) :
    (map.linkAll pairs).rowOf key = map.rowOf key ++ pairs.flatMap (others key) := by
  induction pairs generalizing map with
  | nil => exact (List.append_nil _).symm
  | cons pair pairs ih =>
    rw [List.flatMap_cons, ← List.append_assoc] at distinct ⊢
    have here := rowOf_link_of_new
      (List.pairwise_append.mp (List.pairwise_append.mp distinct).1).2.2
    rw [← here] at distinct ⊢
    exact ih distinct

theorem keys_link (first : a.key ∈ map.rows.keys) (second : b.key ∈ map.rows.keys) :
    (map.link a b).rows.keys = map.rows.keys := by
  have kept : (map.rows.update a.key [] (add · b)).keys = map.rows.keys :=
    Keyed.keys_set_of_mem first _
  exact (Keyed.keys_set_of_mem (kept.symm ▸ second) _).trans kept

theorem keys_linkAll {pairs : List (LockSite × LockSite)}
    (known : ∀ pair ∈ pairs, pair.1.key ∈ map.rows.keys ∧ pair.2.key ∈ map.rows.keys) :
    (map.linkAll pairs).rows.keys = map.rows.keys := by
  induction pairs generalizing map with
  | nil => rfl
  | cons pair pairs ih =>
    obtain ⟨⟨first, second⟩, later⟩ := List.forall_mem_cons.mp known
    have kept := keys_link first second
    exact (ih (kept.symm ▸ later)).trans kept

/-- The mapping of sites with different keys has an empty row for each. -/
theorem rows_ofSites {sites : List LockSite} (distinct : sites.Pairwise fun a b => a.key ≠ b.key) :
    (ofSites sites).rows = sites.map fun site => (site.key, []) := by
  have puts (rows : Keyed (List OpId) (List LockSite))
      (new : ∀ site ∈ sites, site.key ∉ rows.keys) :
      sites.foldl (fun rows site => rows.set site.key []) rows =
        rows ++ sites.map fun site => (site.key, []) := by
    induction sites generalizing rows with
    | nil => exact (List.append_nil _).symm
    | cons site sites ih =>
      obtain ⟨apart, distinct⟩ := List.pairwise_cons.mp distinct
      obtain ⟨here, later⟩ := List.forall_mem_cons.mp new
      rw [List.foldl_cons, Keyed.set_of_notMem_keys here, ih distinct, List.append_assoc]
      · rfl
      · intro other mem known
        rw [Keyed.keys, List.map_append, List.mem_append, List.map_singleton,
          List.mem_singleton] at known
        rcases known with old | same
        · exact later other mem old
        · exact apart other mem same.symm
  exact puts [] fun _ _ => List.not_mem_nil

theorem rowOf_ofSites {sites : List LockSite} (distinct : sites.Pairwise fun a b => a.key ≠ b.key)
    (key : List OpId) : (ofSites sites).rowOf key = [] := by
  rw [rowOf, rows_ofSites distinct]
  cases found : Keyed.get? (sites.map fun site => (site.key, ([] : List LockSite))) key with
  | none => rfl
  | some row =>
    obtain ⟨_, _, same⟩ := List.mem_map.mp (Keyed.mem_of_get? found)
    exact (Prod.mk.inj same).2.symm

end LinkMap

/-! ## Groups are in key order -/

/-- The rows of a bucket are its members, each with some of those that come later. -/
structure Bucket.Built (bucket : Bucket) : Prop where
  firsts : bucket.rows.map (·.1) = bucket.members
  later : ∀ row ∈ bucket.rows, (row.1 :: row.2).Sublist bucket.members

namespace Program

variable {p : Program} {oracle : Oracle}

theorem linkedTo_sublist {site : LockSite} {others linked : List LockSite}
    {memo memo' : Oracle.Memo} (h : p.linkedTo oracle site memo others = .ok (linked, memo')) :
    linked.Sublist others := by
  induction others generalizing memo linked memo' with
  | nil =>
    cases h
    exact List.Sublist.refl _
  | cons other others ih =>
    obtain ⟨⟨answer, memo₁⟩, _, h⟩ := bind_eq_ok h
    obtain ⟨⟨rest, memo₂⟩, later, h⟩ := bind_eq_ok h
    cases h
    cases answer with
    | false => exact (ih later).cons other
    | true => exact (ih later).cons_cons other

theorem linkedRows_built {sites : List LockSite} {rows : List (LockSite × List LockSite)}
    {memo memo' : Oracle.Memo} (h : p.linkedRows oracle memo sites = .ok (rows, memo')) :
    rows.map (·.1) = sites ∧ ∀ row ∈ rows, (row.1 :: row.2).Sublist sites := by
  induction sites generalizing memo rows memo' with
  | nil =>
    cases h
    exact ⟨rfl, List.forall_mem_nil _⟩
  | cons site sites ih =>
    obtain ⟨⟨linked, memo₁⟩, first, h⟩ := bind_eq_ok h
    obtain ⟨⟨rest, memo₂⟩, others, h⟩ := bind_eq_ok h
    cases h
    obtain ⟨firsts, later⟩ := ih others
    refine ⟨congrArg (site :: ·) firsts,
      List.forall_mem_cons.mpr ⟨(linkedTo_sublist first).cons_cons site, ?_⟩⟩
    exact fun row mem => (later row mem).cons site

/-- Each entry of a row by type becomes a bucket. -/
theorem bucketsOf_built {row : Keyed Ty (List LockSite)} {buckets : List Bucket}
    {memo memo' : Oracle.Memo} (h : p.bucketsOf oracle memo row = .ok (buckets, memo')) :
    buckets.map (fun bucket => (bucket.type, bucket.members)) = row ∧
    ∀ bucket ∈ buckets, bucket.Built := by
  induction row generalizing memo buckets memo' with
  | nil =>
    cases h
    exact ⟨rfl, List.forall_mem_nil _⟩
  | cons entry row ih =>
    obtain ⟨⟨rows, memo₁⟩, decided, h⟩ := bind_eq_ok h
    obtain ⟨⟨rest, memo₂⟩, others, h⟩ := bind_eq_ok h
    cases h
    obtain ⟨entries, built⟩ := ih others
    obtain ⟨firsts, later⟩ := linkedRows_built decided
    exact ⟨congrArg (entry :: ·) entries, List.forall_mem_cons.mpr ⟨⟨firsts, later⟩, built⟩⟩

end Program

/-- What a row of a bucket has for the group of a site. -/
def partOf (site : LockSite) (row : LockSite × List LockSite) : List LockSite :=
  if row.1.same site then row.2 else if row.2.any fun other => other.same site then [row.1] else []

theorem mem_partOf {site x : LockSite} {row : LockSite × List LockSite}
    (mem : x ∈ partOf site row) :
    row.1.key = site.key ∧ x ∈ row.2 ∨ x = row.1 ∧ ∃ twin ∈ row.2, twin.key = site.key := by
  unfold partOf at mem
  split at mem
  next same => exact .inl ⟨of_decide_eq_true same, mem⟩
  next =>
    split at mem
    next found =>
      obtain ⟨twin, later, same⟩ := List.any_eq_true.mp found
      exact .inr ⟨List.mem_singleton.mp mem, twin, later, of_decide_eq_true same⟩
    next => exact absurd mem List.not_mem_nil

namespace Bucket

variable {bucket : Bucket}

theorem group_eq (bucket : Bucket) (site : LockSite) :
    bucket.group site = bucket.rows.flatMap (partOf site) := rfl

/-- A site has a group in a bucket only if it is a member. -/
theorem Built.twin (built : bucket.Built) {site x : LockSite} (mem : x ∈ bucket.group site) :
    ∃ twin ∈ bucket.members, twin.key = site.key := by
  obtain ⟨row, inside, mem⟩ := List.mem_flatMap.mp mem
  have members := (built.later row inside).subset
  rcases mem_partOf mem with ⟨same, _⟩ | ⟨_, twin, later, same⟩
  · exact ⟨row.1, members List.mem_cons_self, same⟩
  · exact ⟨twin, members (List.mem_cons_of_mem _ later), same⟩

/-- Rows before that of the site have it among the later sites, its own row has those after it, and
no row after that has it: the members come in key order. -/
theorem Built.increasing (built : bucket.Built)
    (increasing : bucket.members.Pairwise fun a b => a.key < b.key)
    (site : LockSite) : (bucket.group site).Pairwise fun a b => a.key < b.key := by
  have own {row : LockSite × List LockSite} (mem : row ∈ bucket.rows) :
      (∀ x ∈ row.2, row.1.key < x.key) ∧ row.2.Pairwise fun a b => a.key < b.key :=
    List.pairwise_cons.mp (increasing.sublist (built.later row mem))
  have firsts : bucket.rows.Pairwise fun row row' => row.1.key < row'.1.key := by
    rw [← built.firsts, List.pairwise_map] at increasing
    exact increasing
  rw [group_eq]
  refine List.pairwise_flatMap.mpr ⟨fun row mem => ?_,
    firsts.imp_of_mem fun {row row'} mem mem' before x hx y hy => ?_⟩
  · unfold partOf
    split
    next => exact (own mem).2
    next => split <;> simp
  · rcases mem_partOf hx with ⟨here, hx⟩ | ⟨rfl, twin, later, same⟩
    · rcases mem_partOf hy with ⟨again, _⟩ | ⟨_, twin, later, same⟩
      · rw [here, again] at before
        exact absurd before Std.lt_irrefl
      · have after := (own mem').1 twin later
        rw [same, ← here] at after
        exact absurd after (Std.not_gt_of_lt before)
    · rcases mem_partOf hy with ⟨here, hy⟩ | ⟨rfl, _⟩
      · have upTo := (own mem).1 twin later
        rw [same, ← here] at upTo
        exact Std.lt_trans upTo ((own mem').1 y hy)
      · exact before

end Bucket

namespace Program

variable {p : Program} {oracle : Oracle}

section Grouped

variable {memo memo' : Oracle.Memo} {sites : List LockSite} {groups : Groups}
  (grouped : p.aliasGroups oracle memo sites = .ok (groups, memo'))

include grouped

theorem sites_of_aliasGroups : groups.sites = sortBy LockSite.less sites := by
  obtain ⟨⟨buckets, memo₁⟩, _, h⟩ := bind_eq_ok grouped
  cases h
  rfl

/-- The members of a bucket are the sites of its type, in key order. -/
theorem members_of_aliasGroups {bucket : Bucket} (mem : bucket ∈ groups.buckets) : bucket.members =
    (groups.sites.filter p.isTyped).filter fun s => (p.value s.resource).type = bucket.type := by
  have entry := List.mem_map_of_mem (f := fun bucket : Bucket => (bucket.type, bucket.members)) mem
  rw [(bucketsOf_built (aliasGroups_ok grouped)).1] at entry
  rw [sites_of_aliasGroups grouped, ← get?_byType, Keyed.get?_of_mem (nodup_byType _) entry,
    Option.getD_some]

theorem members_sublist {bucket : Bucket} (mem : bucket ∈ groups.buckets) :
    bucket.members.Sublist groups.sites := by
  rw [members_of_aliasGroups grouped mem]
  exact List.filter_sublist.trans List.filter_sublist

variable (distinct : sites.Pairwise fun a b => a.key ≠ b.key)

include distinct

theorem sites_increasing : groups.sites.Pairwise fun a b => a.key < b.key := by
  rw [sites_of_aliasGroups grouped]
  exact sortBy_increasing (fun _ _ => decide_eq_true_iff) distinct

/-- Groups are in key order, whatever the oracle: only the bucket of the site's type has a part in
them. -/
theorem group_increasing (site : LockSite) :
    (groups.group site).Pairwise fun a b => a.key < b.key := by
  have increasing := sites_increasing grouped distinct
  obtain ⟨entries, built⟩ := bucketsOf_built (aliasGroups_ok grouped)
  have types : groups.buckets.Pairwise fun bucket bucket' => bucket.type ≠ bucket'.type := by
    have nodup := nodup_byType (p := p) ((sortBy LockSite.less sites).filter p.isTyped)
    rw [← entries, Keyed.keys, List.map_map] at nodup
    exact List.pairwise_map.mp nodup
  refine List.pairwise_flatMap.mpr ⟨fun bucket mem => ?_,
    types.imp_of_mem fun mem mem' apart x hx y hy => absurd ?_ apart⟩
  · exact (built bucket mem).increasing (increasing.sublist (members_sublist grouped mem)) site
  · obtain ⟨twin, inside, same⟩ := (built _ mem).twin hx
    obtain ⟨twin', inside', same'⟩ := (built _ mem').twin hy
    have one : twin = twin' :=
      eq_of_increasing increasing ((members_sublist grouped mem).subset inside)
        ((members_sublist grouped mem').subset inside') (same.trans same'.symm)
    rw [members_of_aliasGroups grouped mem] at inside
    rw [members_of_aliasGroups grouped mem'] at inside'
    have type := of_decide_eq_true (List.mem_filter.mp inside).2
    have type' := of_decide_eq_true (List.mem_filter.mp inside').2
    exact type.symm.trans (one ▸ type')

end Grouped
end Program

/-! ## Agreement -/

/-- The other ends of the links of a row are its part in a group. -/
theorem flatMap_others (site first : LockSite) {later : List LockSite}
    (distinct : later.Pairwise fun a b => a.key ≠ b.key) :
    (later.map (first, ·)).flatMap (LinkMap.others site.key) = partOf site (first, later) := by
  induction later with
  | nil => exact (ite_self []).symm
  | cons x later ih =>
    obtain ⟨apart, distinct⟩ := List.pairwise_cons.mp distinct
    rw [List.map_cons, List.flatMap_cons, ih distinct]
    by_cases own : first.key = site.key
    · have part (row : List LockSite) : partOf site (first, row) = row :=
        if_pos (decide_eq_true own)
      have other : LinkMap.others site.key (first, x) = [x] := if_pos own
      rw [part, part, other, List.singleton_append]
    · have part (row : List LockSite) :
          partOf site (first, row) = if row.any fun other => other.same site then [first] else [] :=
        if_neg fun same => own (of_decide_eq_true same)
      rw [part, part, List.any_cons]
      by_cases here : x.key = site.key
      · have other : LinkMap.others site.key (first, x) = [first] :=
          (if_neg own).trans (if_pos here)
        have none : (later.any fun other => other.same site) = false :=
          List.any_eq_false.mpr fun other mem same =>
            apart other mem (here.trans (of_decide_eq_true same).symm)
        have found : x.same site = true := decide_eq_true here
        rw [other, none, found]
        rfl
      · have other : LinkMap.others site.key (first, x) = [] := (if_neg own).trans (if_neg here)
        have unfound : x.same site = false := decide_eq_false here
        rw [other, unfound, Bool.false_or, List.nil_append]

namespace Program

variable {p : Program} {oracle : Oracle} {memo memo' : Oracle.Memo} {sites : List LockSite}
    {groups : Groups}

section Grouped

variable (grouped : p.aliasGroups oracle memo sites = .ok (groups, memo'))
  (distinct : sites.Pairwise fun a b => a.key ≠ b.key)

include grouped

/-- Linked sites are sites. -/
theorem mem_links {pair : LockSite × LockSite} (mem : pair ∈ groups.links) :
    pair.1 ∈ groups.sites ∧ pair.2 ∈ groups.sites := by
  obtain ⟨bucket, inside, mem⟩ := List.mem_flatMap.mp mem
  obtain ⟨row, hr, mem⟩ := List.mem_flatMap.mp mem
  obtain ⟨x, hx, rfl⟩ := List.mem_map.mp mem
  have known : row.1 :: row.2 ⊆ groups.sites := fun y hy => (members_sublist grouped inside).subset
    ((((bucketsOf_built (aliasGroups_ok grouped)).2 bucket inside).later row hr).subset hy)
  exact ⟨known List.mem_cons_self, known (List.mem_cons_of_mem _ hx)⟩

include distinct

/-- The other ends of all links of a site, in the order in which they are made, are its group. -/
theorem links_others (site : LockSite) :
    groups.links.flatMap (LinkMap.others site.key) = groups.group site := by
  rw [Groups.links, List.flatMap_assoc]
  refine List.flatMap_congr fun bucket mem => ?_
  rw [rowLinks, List.flatMap_assoc, Bucket.group_eq]
  refine List.flatMap_congr fun row inside => flatMap_others site row.1 ?_
  have later := ((bucketsOf_built (aliasGroups_ok grouped)).2 bucket mem).later row inside
  have increasing :=
    (sites_increasing grouped distinct).sublist (later.trans (members_sublist grouped mem))
  exact (List.pairwise_cons.mp increasing).2.imp fun h => Std.ne_of_lt h

/-- In the end, the row of a site is its group. -/
theorem rowOf_links (site : LockSite) :
    ((LinkMap.ofSites groups.sites).linkAll groups.links).rowOf site.key = groups.group site := by
  have start : (LinkMap.ofSites groups.sites).rowOf site.key = [] :=
    LinkMap.rowOf_ofSites ((sites_increasing grouped distinct).imp fun h => Std.ne_of_lt h) site.key
  have ends := links_others grouped distinct site
  have row := @LinkMap.rowOf_linkAll (LinkMap.ofSites groups.sites) site.key groups.links
  rw [start, ends, List.nil_append] at row
  exact row ((group_increasing grouped distinct site).imp fun h => Std.ne_of_lt h)

theorem rows_links : ((LinkMap.ofSites groups.sites).linkAll groups.links).rows =
    groups.sites.map fun site => (site.key, groups.group site) := by
  have apart := (sites_increasing grouped distinct).imp fun h => Std.ne_of_lt h
  have start : (LinkMap.ofSites groups.sites).rows.keys = groups.sites.map (·.key) := by
    rw [LinkMap.rows_ofSites apart, Keyed.keys, List.map_map]
    rfl
  have known {site : LockSite} (mem : site ∈ groups.sites) :
      site.key ∈ (LinkMap.ofSites groups.sites).rows.keys :=
    start.symm ▸ List.mem_map_of_mem mem
  have keys : ((LinkMap.ofSites groups.sites).linkAll groups.links).rows.keys =
      groups.sites.map (·.key) :=
    (LinkMap.keys_linkAll fun pair mem =>
      ⟨known (mem_links grouped mem).1, known (mem_links grouped mem).2⟩).trans start
  have nodup : (groups.sites.map (·.key)).Nodup := List.pairwise_map.mpr apart
  have rows := Keyed.eq_map_keys (keys.symm ▸ nodup) []
  rw [keys, List.map_map] at rows
  exact rows.trans (List.map_congr_left fun site _ =>
    congrArg (Prod.mk site.key) (rowOf_links grouped distinct site))

/-- Where sites with different keys are grouped, the mapping is made as well, and agrees with the
groups. -/
theorem linkMap_agrees : ∃ map, p.linkMap oracle memo sites = .ok (map, memo') ∧
    map.Agrees groups := by
  have made : p.linkMap oracle memo sites =
      .ok ((LinkMap.ofSites groups.sites).linkAll groups.links, memo') := by
    rw [linkMap_eq, grouped]
    rfl
  have rows := rows_links grouped distinct
  have rowOf := rowOf_links grouped distinct
  have increasing := group_increasing grouped distinct
  refine ⟨_, made, ?_, fun site => ?_, fun site => ?_, fun site o => ?_, ?_, ?_⟩
  · rw [rows, Keyed.keys, List.map_map]
    rfl
  · rw [LinkMap.group, rowOf]
    exact sortBy_eq_self (fun _ _ => decide_eq_true_iff) (increasing site)
  · rw [LinkMap.groupOps, rowOf]
    rfl
  · rw [LinkMap.membersAt, rowOf]
    exact sortBy_eq_self (fun _ _ => decide_eq_true_iff)
      ((increasing site).sublist List.filter_sublist)
  · rw [LinkMap.size, rows, List.filter_map, List.length_map]
    rfl
  · rw [LinkMap.isSymmetric, Groups.isSymmetric, rows]
    simp only [List.all_map, Keyed.get?, List.find?_map, Option.any_map]
    rfl

end Grouped
end Program
end Relock
