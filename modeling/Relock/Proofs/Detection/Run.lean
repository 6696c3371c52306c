import Mathlib.Data.List.Lex
import Mathlib.Data.Nat.Basic
import Relock.Detection
import Relock.Proofs.Detection.Groups
import Relock.Proofs.Detection.Sites
import Relock.Proofs.Search.Sound

/-!
# What a run tells

A run of the double-lock check comes to its end whenever the oracle answers. Its sites and its
reports stand in strictly increasing order of their keys, its reports are those of its queries, each
of them about two sites that conflict, and its diagnostics are those of the reports that are not
silenced.
-/

namespace Relock

/-! ## The second site of a report -/

/-- A member of a group with the least key at its operation. -/
structure LockSite.Least (group : List LockSite) (site : LockSite) : Prop where
  mem : site ∈ group
  le : ∀ m ∈ group, m.op = site.op → site.key ≤ m.key

theorem least_of_find? {group : List LockSite} {o : OpId} {second : LockSite}
    (h : ((Program.queryMembers group).find? fun member => member.op = o) = some second) :
    second.Least group := by
  obtain ⟨here, before, after, row, absent⟩ := List.find?_eq_some_iff_append.mp h
  have here : second.op = o := of_decide_eq_true here
  have sorted : (Program.queryMembers group).Pairwise fun a b => a.key ≤ b.key :=
    sortBy_sorted (fun a b => decide_eq_true_iff) group
  refine ⟨mem_sortBy.mp (List.mem_of_find?_eq_some h), fun m hm same => ?_⟩
  have hm : m ∈ before ++ second :: after := row ▸ mem_sortBy.mpr hm
  rcases List.mem_append.mp hm with earlier | later
  · -- nothing before the one found stands at its operation
    have other := absent m earlier
    rw [same, here] at other
    simp at other
  · rcases List.mem_cons.mp later with rfl | later
    · exact Std.le_refl _
    · rw [row] at sorted
      exact (List.pairwise_cons.mp (List.pairwise_append.mp sorted).2.1).1 m later

/-- A report is about two sites that conflict, the second the least of the first one's group where
it acquires. -/
structure Report.Sited (p : Program) (sites : List LockSite) (groups : Groups)
    (r : Report) : Prop where
  first : r.first ∈ sites
  second : r.second ∈ sites
  least : r.second.Least (groups.group r.first)
  conflict : p.Conflict r.first r.second

/-- Reports about sites in strictly increasing order are told apart by their keys. -/
theorem Report.Sited.eq_of_key {p : Program} {sites : List LockSite} {groups : Groups}
    {a b : Report} (increasing : sites.Pairwise fun a b => a.key < b.key)
    (ha : a.Sited p sites groups) (hb : b.Sited p sites groups) (same : a.key = b.key) : a = b := by
  obtain ⟨first, second, chain, calls⟩ := a
  obtain ⟨first', second', chain', calls'⟩ := b
  simp only [Report.key, List.cons.injEq, and_true] at same
  obtain ⟨firsts, seconds, rfl, rfl⟩ := same
  obtain rfl : first = first' := eq_of_increasing increasing ha.first hb.first firsts
  obtain rfl : second = second' := eq_of_increasing increasing ha.second hb.second seconds
  rfl

namespace Search

variable {p : Program} {config : Config} {q : Query}

/-- Each report is about the site of the query and the member found at the operation it came to. -/
def Named (q : Query) (s : Search) : Prop :=
  ∀ r ∈ s.reports, r.first = q.site ∧ (q.members.find? fun member => member.op = r.second.op) =
    some r.second

theorem Named.step {s t : Search} (named : Named q s) (move : Move p config q s t) : Named q t := by
  cases move with
  | report _ _ _ found =>
    intro r hr
    rcases List.mem_append.mp hr with old | new
    · exact named r old
    · rw [List.mem_singleton.mp new]
      have here := List.find?_some found
      exact ⟨rfl, (of_decide_eq_true here : _ = _) ▸ found⟩
  | _ => exact named

end Search

namespace Program

variable {p : Program} {config : Config} {oracle : Oracle}

/-- The reports of a query are about its site and least members of its group. -/
theorem query_least {site : LockSite} {group : List LockSite} {releases : List OpId}
    {result : QueryResult} (h : p.query config site group releases = .ok result) {r : Report}
    (hr : r ∈ result.reports) :
    r.first = site ∧ r.second.Least group := by
  unfold query at h
  split at h
  next =>
    cases h
    exact absurd hr List.not_mem_nil
  next =>
    split at h
    next => cases h
    next b _ =>
      cases h
      obtain ⟨first, second⟩ :=
        Search.run_invariant (Search.Named (p.queryAt site group releases b))
        (fun named _ move => named.step move) p.moveBound (fun r h =>
          absurd h List.not_mem_nil) r hr
      exact ⟨first, least_of_find? second⟩

/-! ## The round of queries -/

theorem mem_queryRound {groups : Groups} {holdings : List Holding} {r : Report}
    (h : r ∈ (p.queryRound config groups holdings).reports) :
    ∃ held ∈ holdings, ∃ result,
      p.query config held.site (groups.group held.site) held.lifetime.releaseSet = .ok result ∧
      r ∈ result.reports := by
  have told := (distinctBy_sublist _ _).subset (mem_sortBy.mp h)
  obtain ⟨round, asked, told⟩ := List.mem_flatMap.mp told
  obtain ⟨held, mem, rfl⟩ := List.mem_map.mp asked
  unfold siteQuery at told
  split at told
  next => exact absurd told List.not_mem_nil
  next result answered => exact ⟨held, mem, result, answered, told⟩

/-- What a query tells is told by the round, if not by the same report then by one with its key. -/
theorem exists_mem_queryRound {groups : Groups} {holdings : List Holding} {held : Holding}
    (mem : held ∈ holdings) {result : QueryResult}
    (answered : p.query config held.site (groups.group held.site) held.lifetime.releaseSet =
      .ok result)
    {r : Report} (hr : r ∈ result.reports) :
    ∃ r' ∈ (p.queryRound config groups holdings).reports, r'.key = r.key := by
  have told : r ∈ (holdings.map (p.siteQuery config groups)).flatMap (·.reports) := by
    refine List.mem_flatMap.mpr ⟨_, List.mem_map_of_mem mem, ?_⟩
    rw [siteQuery, answered]
    exact hr
  have byKey (a b : Report) : a.same b = true ↔ a.key = b.key := decide_eq_true_iff
  obtain ⟨r', kept, same⟩ := exists_mem_distinctBy byKey told
  exact ⟨r', mem_sortBy.mpr kept, same⟩

theorem queryRound_increasing (groups : Groups) (holdings : List Holding) :
    (p.queryRound config groups holdings).reports.Pairwise fun a b => a.key < b.key := by
  refine sortBy_increasing (fun a b => decide_eq_true_iff) ?_
  exact (distinctBy_pairwise _ _).imp fun apart => of_decide_eq_false apart

section Grouped

variable {groups : Groups} {holdings : List Holding} {memo memo' : Oracle.Memo}
  (increasing : (holdings.map (·.site)).Pairwise fun a b => a.key < b.key)
  (grouped : p.aliasGroups oracle memo (holdings.map (·.site)) = .ok (groups, memo'))
include increasing grouped

theorem sited_of_query {held : Holding} (mem : held ∈ holdings) {releases : List OpId}
    {result : QueryResult}
    (answered : p.query config held.site (groups.group held.site) releases = .ok result)
    {r : Report} (hr : r ∈ result.reports) : r.Sited p (holdings.map (·.site)) groups := by
  obtain ⟨first, least⟩ := query_least answered hr
  have sited : held.site ∈ holdings.map (·.site) := List.mem_map_of_mem mem
  rw [← first] at sited least
  obtain ⟨second, twin, twinIn, same, conflict⟩ := mem_group grouped least.mem
  have one : twin = r.first := eq_of_increasing increasing twinIn sited same
  exact ⟨sited, second, least, one ▸ conflict⟩

/-- A round tells what its queries tell. -/
theorem mem_queryRound_iff {r : Report} :
    r ∈ (p.queryRound config groups holdings).reports ↔ ∃ held ∈ holdings, ∃ result,
      p.query config held.site (groups.group held.site) held.lifetime.releaseSet = .ok result ∧
      r ∈ result.reports := by
  have sited {held : Holding} (mem : held ∈ holdings) {result : QueryResult}
      (answered : p.query config held.site (groups.group held.site) held.lifetime.releaseSet =
        .ok result)
      {r : Report} (hr : r ∈ result.reports) : r.Sited p (holdings.map (·.site)) groups :=
    sited_of_query increasing grouped mem answered hr
  refine ⟨mem_queryRound, ?_⟩
  rintro ⟨held, mem, result, answered, told⟩
  obtain ⟨r', kept, same⟩ := exists_mem_queryRound mem answered told
  obtain ⟨held', mem', result', answered', told'⟩ := mem_queryRound kept
  rwa [← (sited mem' answered' told').eq_of_key increasing (sited mem answered told) same]

end Grouped

end Program

/-! ## The run -/

/-- A run of the double-lock check came to its end, with these sites and groups. -/
structure Detection.Ended (p : Program) (config : Config) (oracle : Oracle)
    (suppressions : Suppressions) (sites : List Holding) (groups : Groups)
    (d : Detection) : Prop where
  found : p.holdings config = .ok sites
  held : ∀ h ∈ sites, p.Held config h
  increasing : (sites.map (·.site)).Pairwise fun a b => a.key < b.key
  grouped : ∃ memo, p.aliasGroups oracle {} (sites.map (·.site)) = .ok (groups, memo)
  phase : d.phases.groups = some groups
  holdings : d.holdings = sites
  reports : d.reports = (p.queryRound config groups sites).reports
  diagnostics : d.diagnostics = suppressions.keep (d.reports.map p.diagnostic)

/-- With an oracle that answers, a run of the double-lock check comes to its end. -/
theorem Program.detect_ended {p : Program} (finished : p.Finished) (config : Config)
    {oracle : Oracle} (answers : ∀ reason, oracle ≠ .failing reason) (suppressions : Suppressions)
    {d : Detection} (ran : p.detect config oracle suppressions [.doubleLock] = d) :
    ∃ sites groups, d.Ended p config oracle suppressions sites groups := by
  obtain ⟨sites, found, ordered, held⟩ := holdings_found finished config
  obtain ⟨⟨groups, memo⟩, grouped⟩ := aliasGroups_answers finished answers {} (sites.map (·.site))
  subst ran
  refine ⟨sites, groups, found, held, List.pairwise_map.mpr ordered, ⟨memo, grouped⟩, ?_,
    ?_, ?_, ?_⟩
  all_goals simp only [detect, List.foldl, runChecker, evidence, found, grouped]; rfl

/-- What a run with the double-lock check comes to, with its sites and their groups. -/
structure Detection.Accounts (p : Program) (config : Config) (oracle : Oracle)
    (suppressions : Suppressions) (holdings : List Holding) (groups : Groups)
    (d : Detection) : Prop where
  found : p.holdings config = .ok holdings
  sites : d.sites = holdings.map (·.site)
  sites_increasing : d.sites.Pairwise fun a b => a.key < b.key
  grouped : ∃ memo, p.aliasGroups oracle {} d.sites = .ok (groups, memo)
  phase : d.phases.groups = some groups
  /-- The reports are those of the queries. -/
  told : ∀ r, r ∈ d.reports ↔ ∃ held ∈ holdings, ∃ result,
    p.query config held.site (groups.group held.site) held.lifetime.releaseSet = .ok result ∧
    r ∈ result.reports
  reports_increasing : d.reports.Pairwise fun a b => a.key < b.key
  sited : ∀ r ∈ d.reports, r.Sited p d.sites groups
  /-- Each report that is not silenced has its diagnostic. -/
  diagnosed : d.diagnostics =
    (d.reports.filter fun r => !suppressions.silences (p.diagnostic r)).map p.diagnostic

/-- What a diagnostic says about a report. -/
structure Diagnostic.Describes (p : Program) (r : Report) (x : Diagnostic) : Prop where
  chain : x.callChain = r.chainNames p
  related : x.related.length = 1 + r.calls.length
  confidence : x.confidence = .low ↔ r.first.isSynthetic = true ∨ r.second.isSynthetic = true

theorem Program.diagnostic_describes (p : Program) (r : Report) :
    (p.diagnostic r).Describes p r where
  chain := rfl
  related := by simp only [Program.diagnostic, List.length_cons, List.length_map, Nat.add_comm]
  confidence := by
    simp only [Program.diagnostic, Bool.or_eq_true, ite_eq_left_iff, reduceCtorEq, imp_false,
      Decidable.not_not]

/-- A run over a loaded program, whatever the settings and the suppressions are and whatever the
oracle answers. -/
theorem detect_accounts {read : Sexp.Reader} {file text : String} {p : Program}
    (loaded : Program.loadWith read file text = .ok p) (config : Config) {oracle : Oracle}
    (answers : ∀ reason, oracle ≠ .failing reason) (suppressions : Suppressions)
    {d : Detection} (ran : p.detect config oracle suppressions [.doubleLock] = d) :
    (∃ holdings groups, d.Accounts p config oracle suppressions holdings groups) ∧
      ∀ r ∈ d.reports, (p.diagnostic r).Describes p r := by
  obtain ⟨holdings, groups, ended⟩ :=
    Program.detect_ended (Program.finished_of_load loaded) config answers suppressions ran
  obtain ⟨memo, grouped⟩ := ended.grouped
  have sites : d.sites = holdings.map (·.site) := by rw [Detection.sites, ended.holdings]
  refine ⟨⟨holdings, groups, ?_⟩, fun r _ => p.diagnostic_describes r⟩
  exact {
    found := ended.found
    sites := sites
    sites_increasing := sites ▸ ended.increasing
    grouped := ⟨memo, sites ▸ grouped⟩
    phase := ended.phase
    told := fun r => by rw [ended.reports, Program.mem_queryRound_iff ended.increasing grouped]
    reports_increasing := ended.reports ▸ Program.queryRound_increasing groups holdings
    sited := by
      intro r hr
      obtain ⟨held, mem, result, answered, told⟩ := Program.mem_queryRound (ended.reports ▸ hr)
      exact sites ▸ Program.sited_of_query ended.increasing grouped mem answered told
    diagnosed := by rw [ended.diagnostics, Suppressions.keep, List.filter_map]; rfl }

/-- A lock that `main` takes through `grab`, and once more on its own. -/
def wrappedText : String := "(module wrapped (struct Mutex i64) (global lock (ptr Mutex))
(function \"grab\" (params) (returns (ptr i8)) (block a (call g (ptr i8) \"take\" lock) (ret g)))
(function \"main\" (params)
  (block a (call g (ptr i8) \"grab\") (call h (ptr i8) \"take\" lock)
    (call _ void \"drop\" h) (call _ void \"drop\" g) (ret))))"

set_option maxRecDepth 4000 in
theorem detect_accounts_wrapped :
    ∃ p d holdings groups, Program.load "wrapped" wrappedText = .ok p ∧
    p.detect nestedConfig .structural {} [.doubleLock] = d ∧
    d.reports.map (fun r => (r.first.key, r.second.key)) = [([10, 5], [12])] ∧
    d.diagnostics.map (·.confidence) = [.low] ∧
    d.Accounts p nestedConfig .structural {} holdings groups ∧
    ∀ r ∈ d.reports, (p.diagnostic r).Describes p r := by
  obtain ⟨p, loaded, checked⟩ : ∃ p, Program.load "wrapped" wrappedText = .ok p ∧
      decide ((p.detect nestedConfig .structural {} [.doubleLock]).reports.map (fun r =>
        (r.first.key, r.second.key)) = [([10, 5], [12])] ∧
        (p.detect nestedConfig .structural {} [.doubleLock]).diagnostics.map (·.confidence) =
          [.low]) = true :=
    Program.exists_of_load rfl (by decide +kernel)
  obtain ⟨reports, confidence⟩ := of_decide_eq_true checked
  have answers (reason : String) : Oracle.structural ≠ .failing reason := Oracle.noConfusion
  obtain ⟨⟨holdings, groups, accounts⟩, describes⟩ :=
    detect_accounts loaded nestedConfig answers {} rfl
  exact ⟨p, _, holdings, groups, loaded, rfl, reports, confidence, accounts, describes⟩

end Relock
