import Relock.Alias.Identity
import Relock.Alias.Oracle
import Relock.LockSite

/-!
# Alias groups

Which lock sites may acquire the same lock. Sites are put into buckets by the static type of their
lock object, and each pair of a bucket is decided once, the site with the smaller key first: by the
oracle if both objects belong to one function, else by their identities. Two shared acquisitions
never conflict, and neither do two sites at one operation. A site whose lock object has no known
type is left out with a note.
-/

namespace Relock

/-- The sites of one type in key order. `rows` gives each of them with the later ones that may
acquire the same lock, and `slots` the slots that deciding the pairs found written more than
once. -/
structure Bucket where
  type : Ty
  members : List LockSite
  rows : List (LockSite × List LockSite)
  slots : List ValueId
  deriving Inhabited

/-- The members of a bucket that may acquire the same lock as a site, in key order: those that have
it in their row, then its own row. -/
def Bucket.group (bucket : Bucket) (site : LockSite) : List LockSite :=
  bucket.rows.flatMap fun (member, later) =>
    if member.same site then later
    else if later.any fun other => other.same site then [member]
    else []

/-- The alias groups of a row of sites, in key order. -/
structure Groups where
  sites : List LockSite
  buckets : List Bucket
  deriving Inhabited

namespace Groups

/-- The sites that may acquire the same lock as a site, in key order. -/
def group (groups : Groups) (site : LockSite) : List LockSite :=
  groups.buckets.flatMap fun bucket => bucket.group site

/-- Whether two sites may acquire the same lock. -/
def linked (groups : Groups) (a b : LockSite) : Bool :=
  (groups.group a).any fun member => member.same b

/-- The operations at which a member of a site's group acquires. -/
def groupOps (groups : Groups) (site : LockSite) : List OpId :=
  idSet ((groups.group site).map (·.op))

/-- The members of a site's group at an operation. -/
def membersAt (groups : Groups) (site : LockSite) (o : OpId) : List LockSite :=
  (groups.group site).filter fun member => member.op = o

/-- The number of sites with a group. -/
def size (groups : Groups) : Nat := (groups.sites.filter fun s => !(groups.group s).isEmpty).length

/-- Whether group membership goes both ways. -/
def isSymmetric (groups : Groups) : Bool :=
  let table := groups.sites.map fun s => (s, groups.group s)
  table.all fun (a, group) => group.all fun b =>
    (table.find? fun row => row.1.same b).any fun row => row.2.any fun member => member.same a

end Groups

namespace Program

/-- The note on a site whose lock object has no known type. -/
def missingTypeNote (p : Program) (site : LockSite) : Note :=
  { kind := .missingType
    message := s!"cannot determine the type of the lock object of {p.describe site}"
    location := (p.op site.op).location, function := p.siteFunction site }

/-- Whether the type of a site's lock object is known. -/
def isTyped (p : Program) (site : LockSite) : Bool := (p.value site.resource).type.isKnown

/-- The sites by the type of their lock object, both in order of first occurrence. -/
def byType (p : Program) (sites : List LockSite) : Keyed Ty (List LockSite) :=
  sites.foldl (fun row site => Keyed.update row (p.value site.resource).type [] (· ++ [site])) []

/-- Whether a pair may acquire the same lock. -/
def mayAlias (p : Program) (oracle : Oracle) (memo : Oracle.Memo) (a b : LockSite) :
    Except Failure (Bool × Oracle.Memo) :=
  if a.op = b.op || (a.isShared && b.isShared) then .ok (false, memo)
  else if p.sameOwner? a.resource b.resource = some true then
    oracle.ask p memo a.resource b.resource
  else .ok ((p.identity a.resource).same (p.identity b.resource), memo)

/-- The sites of a row that may acquire the same lock as a site, decided in order. -/
def linkedTo (p : Program) (oracle : Oracle) (site : LockSite) : Oracle.Memo → List LockSite →
    Except Failure (List LockSite × Oracle.Memo)
  | memo, [] => .ok ([], memo)
  | memo, other :: others => do
    let (linked, memo) ← p.mayAlias oracle memo site other
    let (rest, memo) ← linkedTo p oracle site memo others
    return (if linked then other :: rest else rest, memo)

/-- Each site of a row with the later ones that may acquire the same lock, decided in order. -/
def linkedRows (p : Program) (oracle : Oracle) : Oracle.Memo → List LockSite →
    Except Failure (List (LockSite × List LockSite) × Oracle.Memo)
  | memo, [] => .ok ([], memo)
  | memo, site :: later => do
    let (linked, memo) ← p.linkedTo oracle site memo later
    let (rows, memo) ← linkedRows p oracle memo later
    return ((site, linked) :: rows, memo)

/-- The buckets, decided in order. -/
def bucketsOf (p : Program) (oracle : Oracle) : Oracle.Memo → Keyed Ty (List LockSite) →
    Except Failure (List Bucket × Oracle.Memo)
  | memo, [] => .ok ([], memo)
  | memo, (type, members) :: row => do
    let known := memo.slots.length
    let (rows, memo) ← p.linkedRows oracle memo members
    let (buckets, last) ← bucketsOf p oracle memo row
    return ({ type := type, members := members, rows := rows, slots := memo.slots.drop known } ::
      buckets, last)

/-- The notes on sites that are left out, in key order. -/
def groupNotes (p : Program) (sites : List LockSite) : List Note :=
  ((sortBy LockSite.less sites).filter fun s => !p.isTyped s).map p.missingTypeNote

/-- The alias groups of sites, and what the oracle remembers afterwards. -/
def aliasGroups (p : Program) (oracle : Oracle) (memo : Oracle.Memo) (sites : List LockSite) :
    Except Failure (Groups × Oracle.Memo) := do
  let sites := sortBy LockSite.less sites
  let (buckets, memo) ← p.bucketsOf oracle memo (p.byType (sites.filter p.isTyped))
  return ({ sites := sites, buckets := buckets }, memo)

end Program
end Relock
