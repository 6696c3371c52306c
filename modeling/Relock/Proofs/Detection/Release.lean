import Relock.Proofs.Detection.Run
import Relock.Proofs.Search.Complete

/-!
# What a release in a called function comes to

A query walks into a called function and, if it finds nothing there, goes on after the call. The
releases it met inside end the paths inside and nothing else: the caller's path goes on even if the
function called never comes back without a release. So a site is reported exactly if an acquisition
of its group is in reach of a path that meets no release, where a call may be passed over whatever
it does: `Program.Reaches`.

`Report.Carried` asks for more: that each call passed over can come back with the lock still held.
It holds of every report if a site's lock is released in the site's own function only, and fails
where a function is called to release it.
-/

namespace Relock

open Relation (ReflTransGen)
open Search (MayEnter fromStart)

/-! ## Coming back from a call -/

/-- Some way of the control flow leads from a function's entry to a return and meets no release. -/
def Program.Returns (p : Program) (releases : List OpId) (f : FunctionId) : Prop :=
  ∃ entry os b o rest, (p.function f).entryBlock? = some entry ∧
    p.Flow (fromStart p entry) os ⟨b, o :: rest⟩ ∧
    (p.op o).kind = .ret ∧ ∀ x ∈ os ++ [o], x ∉ releases

/-- A clear way up to an operation. The functions entered by what it passes, the calls of a report
apart, can come back without a release. -/
def Program.HeldLeg (p : Program) (config : Config) (root : FunctionId) (group : List LockSite)
    (releases calls : List OpId) (start : Position) (o : OpId) : Prop :=
  ∃ os b rest, p.Flow start os ⟨b, o :: rest⟩ ∧ ∀ x ∈ os, ¬ Halts group releases x ∧
    (x ∉ calls → ∀ g, Enters p config root x g → p.Returns releases g)

/-- The lock can still be held at every call of a report and at its second acquisition. -/
structure Report.Carried (p : Program) (config : Config) (site : LockSite) (root : FunctionId)
    (group : List LockSite) (releases : List OpId) (r : Report) : Prop where
  call : ∀ {i : Nat} {c}, r.calls[i]? = some c → ∃ f start, r.chain[i]? = some f ∧
    p.Opens site f start ∧
    p.HeldLeg config root group releases r.calls start c
  arrival : ∃ f start, r.chain.getLast? = some f ∧ p.Opens site f start ∧
    p.HeldLeg config root group releases r.calls start r.second.op

variable {p : Program} {config : Config} {site : LockSite} {root : FunctionId}
    {group : List LockSite}
  {releases : List OpId} {r : Report}

/-- If only the site's own function releases, a function that comes back at all comes back without a
release. -/
theorem Program.Returns.of_own (shape : p.Shape) (own : ∀ o ∈ releases, p.functionOf? o = some root)
    {g : FunctionId} (other : g ≠ root) (returns : p.Returns [] g) : p.Returns releases g := by
  obtain ⟨entry, os, b, o, rest, first, flow, isRet, _⟩ := returns
  refine ⟨entry, os, b, o, rest, first, flow, isRet, fun x hx released => other ?_⟩
  have inside : p.Inside g (fromStart p entry) :=
    Program.inside_fromStart (List.mem_of_mem_head? first)
  have home := flow.pass.functionOf? shape inside hx
  exact Option.some.inj (home.symm.trans (own x released))

/-- In a function of one block, the way from the entry to a return is the block's own row. -/
theorem Program.Returns.straight {f : FunctionId} {b : BlockId} (returns : p.Returns releases f)
    (only : (p.function f).blocks = [b]) (last : (p.block b).successors = []) :
    ∃ before o rest, (p.block b).ops = before ++ o :: rest ∧ (p.op o).kind = .ret ∧
      ∀ x ∈ before ++ [o], x ∉ releases := by
  obtain ⟨entry, os, b', o, rest, first, flow, isRet, free⟩ := returns
  rw [Function.entryBlock?, only, List.head?_cons, Option.some.injEq] at first
  rw [← first] at flow
  exact ⟨os, o, rest, (flow.straight last).2, isRet, free⟩

theorem Program.Leg.held {start : Position} {o : OpId} (leg : p.Leg group releases start o)
    (calls : List OpId) (returns : ∀ x g, Enters p config root x g → p.Returns releases g) :
    p.HeldLeg config root group releases calls start o := by
  obtain ⟨b, rest, os, flow, clear⟩ := leg
  exact ⟨os, b, rest, flow, fun x hx => ⟨clear x hx, fun _ g => returns x g⟩⟩

/-- A report is carried if every function that may be entered comes back without a release. -/
theorem Report.BornOut.carried (bornOut : r.BornOut p config site group releases)
    (returns : ∀ x g, Enters p config root x g → p.Returns releases g) :
    r.Carried p config site root group releases where
  call hc := by
    obtain ⟨f, _, start, here, _, _, _, _, opens, leg⟩ := bornOut.call hc
    exact ⟨f, start, here, opens, leg.held r.calls returns⟩
  arrival := by
    obtain ⟨f, start, last, opens, leg⟩ := bornOut.arrival
    exact ⟨f, start, last, opens, leg.held r.calls returns⟩

/-! ## Where a report's path leads -/

/-- The walk of a function begins in one place. -/
theorem Program.Opens.unique (shape : p.Shape) {f : FunctionId} {start start' : Position}
    (h : p.Opens site f start) (h' : p.Opens site f start') : start = start' := by
  cases h with
  | @after b before rest home ops =>
    cases h' with
    | @after b' before' rest' _ ops' =>
      have mem : site.op ∈ (p.block b).ops := ops ▸ List.mem_append_right _ List.mem_cons_self
      have mem' : site.op ∈ (p.block b').ops := ops' ▸ List.mem_append_right _ List.mem_cons_self
      obtain rfl := Option.some.inj ((shape.op_of_mem mem).symm.trans (shape.op_of_mem mem'))
      rw [← Program.rest_of_split (shape.ops_nodup b) ops,
        Program.rest_of_split (shape.ops_nodup b) ops']
    | entry away _ => exact absurd home away
  | entry away first =>
    cases h' with
    | after home _ => exact absurd home away
    | entry _ first' => rw [Option.some.inj (first.symm.trans first')]

/-- One step of a path that passes calls over whatever they do. -/
abbrev Walks (p : Program) (config : Config) (root : FunctionId) (group : List LockSite)
    (releases : List OpId) :
    Position → Position → Prop :=
  Connects p config root group releases fun _ => True

theorem Program.Clear.walks {start position : Position}
    (clear : p.Clear group releases start position) :
    ReflTransGen (Walks p config root group releases) start position := by
  obtain ⟨os, flow, free⟩ := clear
  induction flow with
  | refl => exact .refl
  | pass _ ih =>
    refine (ih fun x hx => free x (List.mem_append_left _ hx)).tail (.pass ?_ trivial)
    exact free _ (List.mem_append_right _ List.mem_cons_self)
  | jump _ next ih => exact (ih free).tail (.jump next)

/-- A path leads to where the walk of each function of a report's chain begins. -/
theorem Report.BornOut.walks_opens (shape : p.Shape)
    (bornOut : r.BornOut p config site group releases)
    (home : p.functionOf? site.op = some root) {first : Position} (opens : p.Opens site root first)
    (i : Nat) {f : FunctionId} (here : r.chain[i]? = some f) {start : Position}
    (opened : p.Opens site f start) :
    ReflTransGen (Walks p config root group releases) first start := by
  have top : r.chain[0]? = some root := by rw [← List.head?_eq_getElem?, bornOut.starts, home]
  induction i generalizing f start with
  | zero =>
    obtain rfl := Option.some.inj (here.symm.trans top)
    rw [opened.unique shape opens]
  | succ i ih =>
    -- the call before leads here
    have bound : i < r.calls.length := by
      have := (List.getElem?_eq_some_iff.mp here).1
      have := bornOut.calls_length
      omega
    obtain ⟨f', g, start', before, next, _, enters, running, opened', b, rest, clear⟩ :=
      bornOut.call (List.getElem?_eq_getElem bound)
    obtain rfl := Option.some.inj (here.symm.trans next)
    have other : f ≠ root := by
      rintro rfl
      have := (List.getElem?_inj (List.getElem?_eq_some_iff.mp here).1 bornOut.distinct).mp
        (here.trans top.symm)
      omega
    obtain ⟨entry, begins⟩ := enters.entry
    have away : p.functionOf? site.op ≠ some f :=
      fun same => other (Option.some.inj (same.symm.trans home))
    rw [opened.unique shape (.entry away begins)]
    exact ((ih before opened').trans clear.walks).tail (.enter running ⟨enters, other⟩ begins)

/-- An acquisition of the group is in reach of a site: on a path that meets no release, past calls
whatever they do. -/
def Program.Reaches (p : Program) (config : Config) (site : LockSite) (root : FunctionId)
    (group : List LockSite) (releases : List OpId) : Prop :=
  ∃ first b o rest, p.Opens site root first ∧
    ReflTransGen (Walks p config root group releases) first ⟨b, o :: rest⟩ ∧ Acquires group o

theorem Report.BornOut.reaches (shape : p.Shape) (bornOut : r.BornOut p config site group releases)
    (home : p.functionOf? site.op = some root) : p.Reaches config site root group releases := by
  obtain ⟨b, attached, rfl⟩ := Option.map_eq_some_iff.mp home
  obtain ⟨before, ops⟩ := Program.split_at_first (shape.mem_of_op attached)
  have opens := Program.Opens.after home ops
  obtain ⟨f, start, last, opened, b', rest', clear⟩ := bornOut.arrival
  rw [List.getLast?_eq_getElem?] at last
  have path := bornOut.walks_opens shape home opens _ last opened
  exact ⟨_, b', r.second.op, rest', opens, path.trans clear.walks, r.second, bornOut.second, rfl⟩

/-- A query that is not cut short tells something if an acquisition is in reach. -/
theorem exists_report_of_reaches (shape : p.Shape) {b : BlockId}
    (attached : (p.op site.op).block = some b) {result : QueryResult}
    (answered : p.query config site group releases = .ok result) (whole : result.truncated = false)
    (reaches : p.Reaches config site (p.block b).function group releases) :
    ∃ r, r ∈ result.reports := by
  obtain ⟨first, b', o, rest', opens, path, acquires⟩ := reaches
  have home := Program.functionOf?_of_block attached
  obtain ⟨before, ops⟩ := Program.split_at_first (shape.mem_of_op attached)
  obtain rfl := opens.unique shape (.after home ops)
  cases reports : result.reports with
  | cons r _ => exact ⟨r, List.mem_cons_self⟩
  | nil =>
    -- a query that tells nothing cuts no path off
    obtain ⟨r, told, _⟩ :=
      reported_of_query shape attached answered whole (fun _ _ => .inl reports) ops path acquires
    exact ⟨r, reports ▸ told⟩

/-! ## Reports of a run -/

/-- What a run tells about a site and the operations that release its lock. -/
structure Holding.Followed (p : Program) (config : Config) (d : Detection) (root : FunctionId)
    (group : List LockSite) (result : QueryResult) (held : Holding) : Prop where
  /-- No release stands on the path of a report. -/
  bornOut : ∀ r ∈ d.reports, r.first = held.site →
    r.BornOut p config held.site group held.lifetime.releaseSet
  /-- Nothing is told unless an acquisition is in reach past all calls. -/
  reaches : (∃ r ∈ d.reports, r.first = held.site) →
    p.Reaches config held.site root group held.lifetime.releaseSet
  /-- Something is told then, whatever is released in the functions called. -/
  complete : result.truncated = false →
    p.Reaches config held.site root group held.lifetime.releaseSet →
    ∃ r ∈ d.reports, r.first = held.site
  /-- The calls on the path can come back with the lock still held if only the site's own function
  releases it. -/
  carried : (∀ o ∈ held.lifetime.releaseSet, p.functionOf? o = some root) →
    (∀ x g, Enters p config root x g → p.Returns [] g) →
    ∀ r ∈ d.reports, r.first = held.site →
    r.Carried p config held.site root group held.lifetime.releaseSet

/-- A site of a run is reported only if an acquisition of its group is in reach past all calls, and
if so unless its query is cut short. -/
theorem detect_reaches {read : Sexp.Reader} {file text : String} {p : Program}
    (loaded : Program.loadWith read file text = .ok p) (config : Config) {oracle : Oracle}
    (answers : ∀ reason, oracle ≠ .failing reason) (suppressions : Suppressions)
    {d : Detection} (ran : p.detect config oracle suppressions [.doubleLock] = d) :
    ∃ groups, d.phases.groups = some groups ∧ ∀ held ∈ d.holdings, ∃ root result,
      p.functionOf? held.site.op = some root ∧
      p.query config held.site (groups.group held.site) held.lifetime.releaseSet = .ok result ∧
      held.Followed p config d root (groups.group held.site) result := by
  have finished := Program.finished_of_load loaded
  have shape := finished.shape
  obtain ⟨holdings, groups, ended⟩ := Program.detect_ended finished config answers suppressions ran
  obtain ⟨memo, grouped⟩ := ended.grouped
  refine ⟨groups, ended.phase, fun held mem => ?_⟩
  rw [ended.holdings] at mem
  have ordered : holdings.Pairwise fun a b => a.site.key < b.site.key := by
    simpa only [List.pairwise_map] using ended.increasing
  obtain ⟨b, attached⟩ := Program.block_of_mem_allOps shape (ended.held held mem).mem_ops
  have home := Program.functionOf?_of_block attached
  obtain ⟨result, answered⟩ :=
    Program.query_answers config attached (groups.group held.site) held.lifetime.releaseSet
  -- the reports about a site are those of its query
  have told {r : Report} (hr : r ∈ d.reports) (first : r.first = held.site) :
      r ∈ result.reports := by
    obtain ⟨held', mem', result', answered', told⟩ := Program.mem_queryRound (ended.reports ▸ hr)
    have site : held'.site = held.site := (Program.query_least answered' told).1.symm.trans first
    have same : held' = held := eq_of_increasing ordered mem' mem (congrArg LockSite.key site)
    rw [same, answered] at answered'
    exact Except.ok.inj answered' ▸ told
  have bornOut {r : Report} (hr : r ∈ d.reports) (first : r.first = held.site) :
      r.BornOut p config held.site (groups.group held.site) held.lifetime.releaseSet :=
    bornOut_of_query shape attached answered (told hr first)
  refine ⟨(p.block b).function, result, home, answered, ⟨fun r => bornOut, ?_, ?_, ?_⟩⟩
  · rintro ⟨r, hr, first⟩
    exact (bornOut hr first).reaches shape home
  · intro whole reaches
    obtain ⟨r, hr⟩ := exists_report_of_reaches shape attached answered whole reaches
    refine ⟨r, ?_, (Program.query_least answered hr).1⟩
    rw [ended.reports, Program.mem_queryRound_iff ended.increasing grouped]
    exact ⟨held, mem, result, answered, hr⟩
  · intro own returns r hr first
    exact (bornOut hr first).carried fun x g enters =>
      (returns x g enters).of_own shape own enters.other

set_option maxRecDepth 4000 in
/-- The functions of `wrappedText` and what is told about it. -/
theorem wrappedText_run : ∃ p, Program.load "wrapped" wrappedText = .ok p ∧
    decide ((List.range p.nodes.size).all (fun g => (p.function g).isDeclaration || g =
      2 || g = 3) ∧
      (p.function 2).blocks = [4] ∧ (p.block 4).ops = [5, 7] ∧ (p.op 7).kind = .ret ∧
      (p.op 10).block = some 9 ∧ (p.op 15).block = some 9 ∧ (p.block 9).function = 3 ∧
      (p.detect nestedConfig .structural {} [.doubleLock]).reports.any (fun r =>
        (p.detect nestedConfig .structural {} [.doubleLock]).holdings.any fun held =>
          r.first = held.site ∧ held.site.op = 10 ∧ held.lifetime.releaseSet = [15])) = true :=
  Program.exists_of_load rfl (by decide +kernel)

theorem detect_reaches_wrapped :
    ∃ p d groups held result r, Program.load "wrapped" wrappedText = .ok p ∧
    p.detect nestedConfig .structural {} [.doubleLock] = d ∧ d.phases.groups = some groups ∧
    held ∈ d.holdings ∧
    r ∈ d.reports ∧ r.first = held.site ∧
    held.Followed p nestedConfig d 3 (groups.group held.site) result ∧
    p.Reaches nestedConfig held.site 3 (groups.group held.site) held.lifetime.releaseSet ∧
    r.Carried p nestedConfig held.site 3 (groups.group held.site) held.lifetime.releaseSet := by
  obtain ⟨p, loaded, checked⟩ := wrappedText_run
  obtain ⟨functions, blocks2, ops4, ret7, block10, block15, home9, told⟩ :=
    of_decide_eq_true checked
  obtain ⟨r, hr, told⟩ := List.any_eq_true.mp told
  obtain ⟨held, hheld, told⟩ := List.any_eq_true.mp told
  obtain ⟨first, op, released⟩ := of_decide_eq_true told
  have answers (reason : String) : Oracle.structural ≠ .failing reason := Oracle.noConfusion
  obtain ⟨groups, phase, all⟩ := detect_reaches loaded nestedConfig answers {} rfl
  obtain ⟨root, result, home, _, followed⟩ := all held hheld
  obtain rfl : root = 3 := by
    rw [op, Program.functionOf?_of_block block10, home9] at home
    exact (Option.some.inj home).symm
  have own : ∀ o ∈ held.lifetime.releaseSet, p.functionOf? o = some 3 := by
    intro o ho
    rw [released] at ho
    rw [List.mem_singleton.mp ho, Program.functionOf?_of_block block15, home9]
  have grab : p.Returns [] 2 := by
    refine ⟨4, [5], 4, 7,
      [], by rw [Function.entryBlock?, blocks2]; rfl, ?_, ret7, fun _ _ => List.not_mem_nil⟩
    rw [show fromStart p 4 = ⟨4, [5, 7]⟩ by rw [fromStart, ops4]]
    exact .pass .refl
  have returns : ∀ x g, Enters p nestedConfig 3 x g → p.Returns [] g := by
    intro x g enters
    have bounded : g < p.nodes.size := p.lt_size_of_body enters.body
    have known := List.all_eq_true.mp functions g (List.mem_range.mpr bounded)
    simp only [enters.body, enters.other, decide_false, Bool.or_false, Bool.false_or,
      decide_eq_true_eq] at known
    exact known ▸ grab
  exact ⟨p, _, groups, held, result, r, loaded, rfl, phase, hheld, hr, first, followed,
    followed.reaches ⟨r, hr, first⟩, followed.carried own returns r hr first⟩

/-- A guard that `hold` stores for `free` to drop before the lock is taken again. -/
def handedText : String := "(module handed (struct Mutex i64)
(global lock (ptr Mutex)) (global slot (ptr (ptr i8)))
(function \"hold\" (params)
  (block a (call g (ptr i8) \"take\" lock) (store g slot) (call _ void \"free\")
    (call h (ptr i8) \"take\" lock) (call _ void \"drop\" h) (ret)))
(function \"free\" (params) (block a (load g (ptr i8) slot) (call _ void \"drop\" g) (ret))))"

set_option maxRecDepth 4000 in
/-- What `handedText` is and what is told about it. -/
theorem handedText_run : ∃ p, Program.load "handed" handedText = .ok p ∧
    decide ((p.op 6).block = some 5 ∧ (p.block 5).function = 3 ∧
      (p.block 5).ops = [6, 8, 9, 10, 12, 13] ∧
      (p.block 5).successors = [] ∧ (p.op 9).target? = some 4 ∧ (p.function 4).blocks = [16] ∧
      nestedConfig.patterns.isLibrary (p.function 4).name = false ∧
      (p.block 16).ops = [17, 19, 20] ∧
      (p.block 16).successors = [] ∧ (p.op 17).kind ≠ .ret ∧ (p.op 19).kind ≠ .ret ∧
      (p.detect nestedConfig .structural {} [.doubleLock]).reports.any (fun r =>
        (p.detect nestedConfig .structural {} [.doubleLock]).holdings.any fun held =>
          r.first = held.site ∧ r.second.op = 10 ∧ r.chain = [3] ∧ r.calls = [] ∧ held.site.op = 6 ∧
            held.lifetime.releaseSet = [19])) = true :=
  Program.exists_of_load rfl (by decide +kernel)

/-- The site of `hold` is reported although its only way to the second acquisition is past the call
of `free`, which always drops the guard. -/
theorem detect_not_carried : ∃ p d groups held r, Program.load "handed" handedText = .ok p ∧
    p.detect nestedConfig .structural {} [.doubleLock] = d ∧ d.phases.groups = some groups ∧
    held ∈ d.holdings ∧ r ∈ d.reports ∧ r.first = held.site ∧ p.functionOf? held.site.op = some 3 ∧
    ¬ r.Carried p nestedConfig held.site 3 (groups.group held.site) held.lifetime.releaseSet := by
  obtain ⟨p, loaded, checked⟩ := handedText_run
  obtain ⟨attached, root, ops5, last5, target, blocks4, outside, ops16, last16, load17,
      drop19, told⟩ :=
    of_decide_eq_true checked
  obtain ⟨r, hr, told⟩ := List.any_eq_true.mp told
  obtain ⟨held, hheld, told⟩ := List.any_eq_true.mp told
  obtain ⟨first, second, chain, calls, op, released⟩ := of_decide_eq_true told
  have finished := Program.finished_of_load loaded
  have answers (reason : String) : Oracle.structural ≠ .failing reason := Oracle.noConfusion
  obtain ⟨_, groups, ended⟩ := Program.detect_ended finished nestedConfig answers {} rfl
  have home : p.functionOf? held.site.op = some 3 := by
    rw [op, Program.functionOf?_of_block attached, root]
  refine ⟨p, _, groups, held, r, loaded, rfl, ended.phase, hheld, hr, first, home,
    fun carried => ?_⟩
  -- the way to the second acquisition passes the call
  obtain ⟨f, start, ends, opens, os, b, rest, flow, passed⟩ := carried.arrival
  obtain rfl : f = 3 := by
    rw [chain] at ends
    exact (Option.some.inj ends).symm
  have split : (p.block 5).ops = [] ++ held.site.op :: [8, 9, 10, 12, 13] := by rw [ops5, op]; rfl
  obtain rfl := opens.unique finished.shape (.after home split)
  have way := (flow.straight last5).2
  rw [second] at way
  have call : 9 ∈ os := Program.mem_before_of_split way (by decide)
  -- and the function called drops the guard before it comes back
  have enters : Enters p nestedConfig 3 9 4 :=
    ⟨⟨target, by rw [Function.isDeclaration, blocks4]; rfl, .inr outside⟩, by decide⟩
  have returns := (passed 9 call).2 (calls ▸ List.not_mem_nil) 4 enters
  obtain ⟨before, o, rest', way', isRet, free⟩ := returns.straight blocks4 last16
  rw [ops16] at way'
  have dropped : 19 ∈ before ++ [o] := by
    have mem : o ∈ [17, 19, 20] := way' ▸ List.mem_append_right _ List.mem_cons_self
    simp only [List.mem_cons, List.not_mem_nil, or_false] at mem
    rcases mem with rfl | rfl | rfl
    · exact absurd isRet load17
    · exact absurd isRet drop19
    · exact List.mem_append_left _ (Program.mem_before_of_split way' (by decide))
  exact free 19 dropped (released ▸ List.mem_cons_self)

end Relock
