import Relock.Alias.Groups
import Relock.Lifetime.Wrapper
import Relock.Search
import Relock.Suppression

/-!
# Finding double locks in a program

The double-lock check finds the lock sites with the lifetimes of their guards, adds the sites of
functions that return guards, groups the sites that may acquire the same lock, and asks one query
for each site with a group. Reports that tell the same are kept once, in order.

A run is a row of checkers over one program. They share what the alias oracle remembers, their notes
accumulate, and a later double-lock check replaces the phases of an earlier one as far as it comes.
A checker that fails leaves a note, the notes and phases it got to, and no diagnostics.
-/

namespace Relock

/-! ## The double-lock check -/

/-- The outcome of all queries. -/
structure QueryRound where
  reports : List Report := []
  steps : Nat := 0
  notes : List Note := []
  deriving Inhabited

/-- How far a double-lock check came. A phase stands only if those before it do. -/
structure Phases where
  holdings : Option (List Holding) := none
  groups : Option Groups := none
  queries : Option QueryRound := none
  deriving Inhabited

/-- These phases, and where they lack, earlier ones. -/
def Phases.over (later earlier : Phases) : Phases :=
  { holdings := later.holdings <|> earlier.holdings
    groups := later.groups <|> earlier.groups
    queries := later.queries <|> earlier.queries }

/-- What a double-lock check found out, and the failure that ended it early, if any. -/
structure Evidence where
  phases : Phases := {}
  notes : List Note := []
  memo : Oracle.Memo := {}
  failure : Option Failure := none
  deriving Inhabited

namespace Program

/-- All lock sites with their lifetimes, in key order. A store without a slot on the way of a guard
is a failure. -/
def holdings (p : Program) (config : Config) : Except Failure (List Holding) :=
  let direct := (p.lockSites config).map (p.holding config)
  let all := direct ++
    if config.propagateWrappers then p.wrapperSites config p.callGraph direct else []
  if all.any fun h => h.lifetime.isBroken then .error .missingOperand
  else .ok (sortBy (fun a b => a.site.less b.site) all)

/-- The note on a query that used up its steps. -/
def truncationNote (p : Program) (config : Config) (site : LockSite) : Note :=
  { kind := .truncated
    message := s!"search from {p.describe site} stopped after {config.maxSteps} steps; " ++
      "results may be incomplete"
    location := (p.op site.op).location, function := p.siteFunction site }

/-- The note on a query that could not start. -/
def queryFaultNote (p : Program) (site : LockSite) (fault : QueryFault) : Note :=
  { kind := .internalError
    message := s!"reachability query for {p.describe site} failed: {fault.message}"
    location := (p.op site.op).location, function := p.siteFunction site }

/-- The query of one site with its group. -/
def siteQuery (p : Program) (config : Config) (groups : Groups) (h : Holding) : QueryRound :=
  match p.query config h.site (groups.group h.site) h.lifetime.releaseSet with
  | .error fault => { notes := [p.queryFaultNote h.site fault] }
  | .ok result =>
    { reports := result.reports, steps := result.steps
      notes := if result.truncated then [p.truncationNote config h.site] else [] }

/-- The queries of all sites. -/
def queryRound (p : Program) (config : Config) (groups : Groups) (holdings : List Holding) :
    QueryRound :=
  let rounds := holdings.map (p.siteQuery config groups)
  { reports := sortBy Report.less (distinctBy Report.same (rounds.flatMap (·.reports)))
    steps := total (rounds.map (·.steps))
    notes := rounds.flatMap (·.notes) }

/-- Runs the double-lock check. -/
def evidence (p : Program) (config : Config) (oracle : Oracle) (memo : Oracle.Memo) : Evidence :=
  let found := p.lockNotes config
  match p.holdings config with
  | .error failure => { notes := found, memo := memo, failure := some failure }
  | .ok holdings =>
    let sites := holdings.map (·.site)
    match p.aliasGroups oracle memo sites with
    | .error failure =>
      { phases := { holdings := some holdings }, notes := found, memo := memo,
        failure := some failure }
    | .ok (groups, memo) =>
      let round := p.queryRound config groups holdings
      { phases := { holdings := some holdings, groups := some groups, queries := some round }
        notes := found ++ p.groupNotes sites ++ round.notes, memo := memo }

/-! ## Diagnostics of double locks -/

/-- What tools are told about a site. -/
def siteEvidence (site : LockSite) : Json :=
  .object [("op", .int site.op), ("pattern", .string site.pattern),
    ("mode", .string site.mode.name), ("synthetic", .bool site.isSynthetic)]

/-- The point of an operation. -/
def pointOf (p : Program) (o : OpId) : SourcePoint := .ofLocation (p.op o).location

/-- The diagnostic of a report: at the second site, with the first site and the calls as further
places, and less certain if one of the sites is synthetic. -/
def diagnostic (p : Program) (r : Report) : Diagnostic :=
  { errorId := "doubleLock"
    message := s!"possible double lock: {p.describe r.second} acquires a lock already held by " ++
      p.describe r.first
    severity := .error
    point := p.pointOf r.second.op
    confidence := if r.first.isSynthetic || r.second.isSynthetic then .low else .medium
    cwe := 764
    checker := "double-lock"
    function := p.siteFunction r.second
    callChain := r.chainNames p
    related := ⟨p.pointOf r.first.op, s!"first acquired here: {p.describe r.first}"⟩ ::
      r.calls.map fun call => ⟨p.pointOf call, s!"calls {(p.op call).callee.name}"⟩
    evidence := [("first", siteEvidence r.first), ("second", siteEvidence r.second)] }

end Program

/-! ## Runs -/

/-- A checker. -/
inductive Checker where
  | doubleLock
  /-- A checker of its own that reads the program only. -/
  | standalone (name : String) (diagnose : Program → List Diagnostic)
  /-- A checker that fails, after the notes it has recorded. -/
  | failing (name reason : String) (recorded : List Note := [])

def Checker.name : Checker → String
  | doubleLock => "double-lock"
  | standalone name _ => name
  | failing name _ _ => name

/-- Everything a run produced. -/
structure Detection where
  phases : Phases := {}
  notes : List Note := []
  diagnostics : List Diagnostic := []
  memo : Oracle.Memo := {}
  /-- The names of the checkers that ran. -/
  ran : List String := []
  deriving Inhabited

namespace Detection

def holdings (d : Detection) : List Holding := d.phases.holdings.getD []

def sites (d : Detection) : List LockSite := d.holdings.map (·.site)

def reports (d : Detection) : List Report := (d.phases.queries.map (·.reports)).getD []

/-- The steps of all queries, if they were reached. -/
def querySteps? (d : Detection) : Option Nat := d.phases.queries.map (·.steps)

def errorCount (d : Detection) : Nat := (d.diagnostics.filter fun x => x.severity = .error).length

/-- The records of the diagnostics, one to a line. -/
def recordLines (d : Detection) : String := "\n".intercalate (d.diagnostics.map (·.recordLine))

def summary (d : Detection) : String :=
  s!"{d.sites.length} lock site(s), {d.reports.length} double lock(s), " ++
    s!"{d.diagnostics.length} diagnostic(s) after suppressions, {d.notes.length} note(s)"

/-- The keys under which the time of each checker is kept, in order. -/
def timedKeys (d : Detection) : List String :=
  (sortBy (fun a b => decide (a < b)) (distinctBy (fun a b => decide (a = b)) d.ran)).map
    (· ++ "_elapsed_ms")

/-- The note on a checker that failed. -/
def failureNote (name reason : String) : Note :=
  { kind := .internalError, message := s!"checker '{name}' failed: {reason}" }

end Detection

namespace Program

/-- Runs one checker after those that gave `d`. -/
def runChecker (p : Program) (config : Config) (oracle : Oracle) (suppressions : Suppressions)
    (d : Detection) (checker : Checker) : Detection :=
  let d := { d with ran := d.ran ++ [checker.name] }
  match checker with
  | .standalone _ diagnose =>
    { d with diagnostics := d.diagnostics ++ suppressions.keep (diagnose p) }
  | .failing name reason recorded =>
    { d with notes := d.notes ++ recorded ++ [Detection.failureNote name reason] }
  | .doubleLock =>
    let e := p.evidence config oracle d.memo
    let d := { d with phases := e.phases.over d.phases, notes := d.notes ++ e.notes,
                      memo := e.memo }
    match e.failure with
    | some failure =>
      { d with notes := d.notes ++ [Detection.failureNote checker.name failure.message] }
    | none =>
      { d with diagnostics := d.diagnostics ++ suppressions.keep (d.reports.map p.diagnostic) }

/-- Runs checkers in order. -/
def detect (p : Program) (config : Config) (oracle : Oracle) (suppressions : Suppressions)
    (checkers : List Checker) : Detection :=
  checkers.foldl (p.runChecker config oracle suppressions) {}

end Program
end Relock
