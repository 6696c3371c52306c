import Relock.Detection
import Relock.Source.Mention

/-!
# Log lines

What a run tells about its work, apart from its results. The lines are read off the results of each
phase, in the order in which the phases go: the phases themselves keep no log.
-/

namespace Relock

/-- How important a line is. -/
inductive LogLevel where
  | debug | info | warning | error
  deriving DecidableEq, Repr, Inhabited

/-- The level in five letters. -/
def LogLevel.label : LogLevel → String
  | debug => "DEBUG"
  | info => "INFO "
  | warning => "WARNI"
  | error => "ERROR"

def LogLevel.rank : LogLevel → Nat
  | debug => 0
  | info => 1
  | warning => 2
  | error => 3

/-- Which part of the work a line is about. -/
inductive LogTopic where
  | command | loading | patterns | sites | lifetimes | aliasing | groups | calls | search
      | detection
  deriving DecidableEq, Repr, Inhabited

def LogTopic.name : LogTopic → String
  | command => "irlock"
  | loading => "irlock.loader"
  | patterns => "irlock.patterns"
  | sites => "irlock.classifier"
  | lifetimes => "irlock.lifetime"
  | aliasing => "irlock.alias"
  | groups => "irlock.grouping"
  | calls => "irlock.callgraph"
  | search => "irlock.reachability"
  | detection => "irlock.detector"

/-- A line of the log. -/
structure LogLine where
  level : LogLevel
  topic : LogTopic
  message : String
  deriving DecidableEq, Repr, Inhabited

def LogLine.text (line : LogLine) : String :=
  s!"[{line.level.label}] {line.topic.name}: {line.message}"

/-- The line on a pattern table read from a file. -/
def PatternTable.journal (table : PatternTable) (source : String) : List LogLine :=
  [⟨.info, .patterns,
    s!"loaded {table.locks.length} lock and {table.apis.length} api pattern(s) from {source}"⟩]

/-- The lines on the calls of a program text that declare their callee. -/
def Source.journal (file text : String) : List LogLine :=
  (Source.implicitDeclarations file text).map fun d =>
    ⟨.debug, .loading, s!"{d.place.text}: implicit declaration of {d.name}"⟩

/-- The line on a call graph. -/
def CallGraph.journal (g : CallGraph) : List LogLine :=
  [⟨.debug, .calls, s!"call graph: {g.nodes.length} nodes, {g.edges.length} edges"⟩]

namespace Program

/-- The line on a program that was read. -/
def loadJournal (p : Program) : List LogLine :=
  [⟨.debug, .loading,
    s!"loaded module {p.name}: {p.functions.length} functions " ++
      s!"({p.definedFunctions.length} defined)"⟩]

/-- The lines on recognising lock sites. -/
def siteJournal (p : Program) (config : Config) : List LogLine :=
  (p.classified config).filterMap (fun
    | .other => none
    | .site site => some ⟨.debug, .sites, s!"lock site: {p.siteText site}"⟩
    | .malformed note => some ⟨.warning, .sites, note.text⟩) ++
  [⟨.info, .sites, s!"found {(p.lockSites config).length} lock site(s) in " ++
    s!"{p.definedFunctions.length} function(s)"⟩]

/-- The line on the lifetime of a site. -/
def lifetimeLine (p : Program) (h : Holding) : LogLine :=
  let returned := match h.lifetime.returned? with
    | some walk => walk.name
    | none => "-"
  ⟨.debug, .lifetimes,
    s!"{p.siteText h.site}: kill={h.lifetime.releaseSet.length} returned={returned} " ++
      s!"unknown={(h.lifetime.bucket .unknown).length}"⟩

/-- The line on a call of the function of a site whose guard is returned in `walk`. -/
def wrapperLine? (p : Program) (config : Config) (site : LockSite) (walk : WalkKind) (call : OpId) :
    Option LogLine :=
  match (p.op call).result with
  | none => some ⟨.debug, .lifetimes, s!"{p.siteText site}: result of {p.opText call} discarded"⟩
  | some _ =>
    (p.wrapperAt? config site walk call).map fun made => p.lifetimeLine (p.holding config made)

/-- The lines on handing the guard of a site to its callers. -/
def wrapperLines (p : Program) (config : Config) (g : CallGraph) (h : Holding) : List LogLine :=
  match h.lifetime.returned? with
  | none => []
  | some walk =>
    if config.maxWrapperDepth ≤ h.site.via.length then
      [⟨.info, .lifetimes,
        s!"{p.siteText h.site}: wrapper depth limit {config.maxWrapperDepth} reached"⟩]
    else (p.wrapperCalls g h.site).filterMap (p.wrapperLine? config h.site walk)

/-- The lines on following returned guards into callers, in the order in which the sites wait. -/
def wrapperJournal (p : Program) (config : Config) (direct : List Holding) : List LogLine :=
  if !config.propagateWrappers then []
  else
    let g := p.callGraph
    let found := p.wrapperSites config g direct
    (direct ++ found).flatMap (p.wrapperLines config g) ++
      if found.isEmpty then []
      else [⟨.info, .lifetimes, s!"seeded {found.length} synthetic lock site(s) through wrappers"⟩]

/-- The lines on one bucket of sites. -/
def bucketLines (p : Program) (bucket : Bucket) : List LogLine :=
  bucket.slots.map (fun slot =>
    ⟨.debug, .aliasing,
      s!"slot {p.valueText slot} is rewritten; loads from it are not must-alias"⟩) ++
    [⟨.debug, .groups, s!"bucket {bucket.type.text}: {bucket.members.length} site(s)"⟩]

/-- The lines on grouping sites. -/
def groupJournal (p : Program) (groups : Groups) : List LogLine :=
  (p.groupNotes groups.sites).map (fun note => ⟨.warning, .groups, note.text⟩) ++
    groups.buckets.flatMap p.bucketLines ++
    [⟨.info, .groups, s!"alias grouping: {groups.buckets.length} bucket(s), " ++
      s!"{groups.size} site(s) with a non-empty group"⟩]

/-- The line on a double lock that a query found. -/
def reportLine (p : Program) (r : Report) : LogLine :=
  let via := " -> ".intercalate (r.chainNames p)
  ⟨.debug, .search, s!"double lock: {p.siteText r.first} -> {p.siteText r.second} via {via}"⟩

/-- The lines on the query of one site. -/
def queryLines (p : Program) (config : Config) (groups : Groups) (h : Holding) : List LogLine :=
  let round := p.siteQuery config groups h
  let stopped := (round.notes.filter fun note => note.kind = .truncated).map fun _ =>
    ⟨.warning, .search, s!"{p.siteText h.site}: query stopped after {config.maxSteps} steps"⟩
  round.reports.map p.reportLine ++ stopped ++ round.notes.map fun note =>
    ⟨.warning, .detection, note.text⟩

/-- The lines on the queries. -/
def queryJournal (p : Program) (config : Config) (groups : Groups) (holdings : List Holding)
    (round : QueryRound) : List LogLine :=
  holdings.flatMap (p.queryLines config groups) ++
    [⟨.info, .detection,
      s!"{round.reports.length} double lock(s) in {holdings.length} queried site(s)"⟩]

/-- The lines on a double-lock check that came as far as `phases`. -/
def checkJournal (p : Program) (config : Config) (phases : Phases) : List LogLine :=
  let direct := (p.lockSites config).map (p.holding config)
  p.siteJournal config ++ direct.map p.lifetimeLine ++ p.callGraph.journal ++
    p.wrapperJournal config direct ++
    match phases.groups with
    | none => []
    | some groups => p.groupJournal groups ++
      match phases.holdings, phases.queries with
      | some holdings, some round => p.queryJournal config groups holdings round
      | _, _ => []

/-- The lines on a run of the double-lock check. -/
def detectJournal (p : Program) (config : Config) (d : Detection) : List LogLine :=
  p.checkJournal config d.phases ++ [⟨.info, .detection, s!"{p.name}: {d.summary}"⟩]

end Program
end Relock
