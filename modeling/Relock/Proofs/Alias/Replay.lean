import Relock.Proofs.Keyed
import Relock.Alias.Groups
import Relock.Proofs.Source.Decoder

/-!
# Asking again

What an oracle remembers grows and never changes: an answer once given to a pair is the answer to
that pair from then on. Whoever asks a row of questions once more, with what was remembered after
them or anything that extends it, gets the answers of the first time and adds nothing (`Replays`).
Grouping lock sites is such a row of questions; grouped again, the sites have the groups they had.
-/

namespace Relock

namespace Oracle

/-- Every answer that is remembered is remembered later too. -/
def Memo.Extends (later memo : Memo) : Prop :=
  ∀ key answer, memo.answers.get? key = some answer → later.answers.get? key = some answer

theorem Memo.Extends.refl (memo : Memo) : memo.Extends memo := fun _ _ => id

theorem Memo.Extends.trans {last later memo : Memo} (second : last.Extends later)
    (first : later.Extends memo) :
    last.Extends memo := fun key answer known => second key answer (first key answer known)

/-- Questions that are answered the same way, and add nothing, once they have been asked. -/
def Replays {α : Type} (ask : Memo → Except Failure (α × Memo)) : Prop :=
  ∀ memo answer after, ask memo = .ok (answer, after) →
    after.Extends memo ∧ ∀ later : Memo, later.Extends after → ask later = .ok (answer, later)

theorem replays_pure {α : Type} (answer : α) : Replays fun memo => .ok (answer, memo) := by
  rintro memo _ _ ⟨⟩
  exact ⟨.refl memo, fun _ _ => rfl⟩

/-- Questions that follow from the answers to others. -/
theorem Replays.bind {α β : Type} {ask : Memo → Except Failure (α × Memo)}
    {next : α → Memo → Except Failure (β × Memo)} (first : Replays ask)
    (rest : ∀ answer, Replays (next answer)) :
    Replays fun memo => ask memo >>= fun asked => next asked.1 asked.2 := by
  intro memo answer after h
  obtain ⟨⟨answer', between⟩, asked, h⟩ := bind_eq_ok h
  obtain ⟨grown, again⟩ := first _ _ _ asked
  obtain ⟨grown', again'⟩ := rest answer' _ _ _ h
  refine ⟨grown'.trans grown, fun later more => ?_⟩
  show (ask later >>= _) = _
  rw [again later (more.trans grown')]
  exact again' later more

theorem replays_ask (p : Program) (oracle : Oracle) (a b : ValueId) :
    Replays fun memo => oracle.ask p memo a b := by
  intro memo answer after h
  cases oracle with
  | function answers =>
    cases h
    exact ⟨.refl memo, fun _ _ => rfl⟩
  | failing reason => cases h
  | structural =>
    simp only [ask] at h
    cases known : memo.answers.get? (pair a b) with
    | some old =>
      rw [known] at h
      cases h
      refine ⟨.refl memo, fun later more => ?_⟩
      simp only [ask, more _ _ known]
    | none =>
      rw [known] at h
      have recorded : ∃ verdict : Verdict, answer = decide (verdict = .same) ∧
          after = memo.record a b verdict := by
        simp only at h
        split at h
        next => cases h
        next =>
          cases h
          exact ⟨_, rfl, rfl⟩
      obtain ⟨verdict, rfl, rfl⟩ := recorded
      refine ⟨fun key old remembered => ?_, fun later more => ?_⟩
      · show Keyed.get? ((pair a b, decide (verdict = .same)) :: memo.answers) key = some old
        rw [Keyed.get?_cons, if_neg fun same => ?_, remembered]
        rw [same, remembered] at known
        cases known
      · have answered : (memo.record a b verdict).answers.get? (pair a b) =
            some (decide (verdict = .same)) := by
          show Keyed.get? ((pair a b, decide (verdict = .same)) :: memo.answers) (pair a b) = _
          rw [Keyed.get?_cons, if_pos rfl]
        simp only [ask, more _ _ answered]

end Oracle

/-- A bucket apart from the slots that deciding it found. -/
def Bucket.decided (bucket : Bucket) : Bucket := { bucket with slots := [] }

theorem Groups.group_congr {groups others : Groups}
    (same : others.buckets.map Bucket.decided = groups.buckets.map Bucket.decided)
    (site : LockSite) :
    others.group site = groups.group site := by
  have decided (groups : Groups) :
      groups.group site = (groups.buckets.map Bucket.decided).flatMap (·.group site) := by
    rw [List.flatMap_map]
    rfl
  rw [decided, decided, same]

namespace Program

variable (p : Program) (oracle : Oracle)

theorem replays_mayAlias (a b : LockSite) :
    Oracle.Replays fun memo => p.mayAlias oracle memo a b := by
  unfold mayAlias
  split
  next => exact Oracle.replays_pure false
  next =>
    split
    next => exact Oracle.replays_ask p oracle _ _
    next => exact Oracle.replays_pure _

theorem replays_linkedTo (site : LockSite) (others : List LockSite) :
    Oracle.Replays fun memo => p.linkedTo oracle site memo others := by
  induction others with
  | nil => exact Oracle.replays_pure []
  | cons other others ih =>
    exact (replays_mayAlias p oracle site other).bind fun linked => ih.bind fun rest =>
      Oracle.replays_pure (if linked then other :: rest else rest)

theorem replays_linkedRows (sites : List LockSite) :
    Oracle.Replays fun memo => p.linkedRows oracle memo sites := by
  induction sites with
  | nil => exact Oracle.replays_pure []
  | cons site sites ih =>
    exact (replays_linkedTo p oracle site sites).bind fun linked => ih.bind fun rows =>
      Oracle.replays_pure ((site, linked) :: rows)

variable {p oracle}

/-- Buckets that are decided again find no new slots, and are else the same. -/
theorem bucketsOf_again (row : Keyed Ty (List LockSite)) {memo after : Oracle.Memo}
    {buckets : List Bucket} (h : p.bucketsOf oracle memo row = .ok (buckets, after)) :
    after.Extends memo ∧ ∀ later : Oracle.Memo, later.Extends after →
      ∃ again, p.bucketsOf oracle later row = .ok (again, later) ∧
      again.map Bucket.decided = buckets.map Bucket.decided := by
  induction row generalizing memo buckets with
  | nil =>
    cases h
    exact ⟨.refl _, fun _ _ => ⟨[], rfl, rfl⟩⟩
  | cons entry row ih =>
    obtain ⟨type, members⟩ := entry
    obtain ⟨⟨rows, between⟩, first, h⟩ := bind_eq_ok h
    obtain ⟨⟨rest, last⟩, others, h⟩ := bind_eq_ok h
    cases h
    obtain ⟨grown, replay⟩ := replays_linkedRows p oracle members _ _ _ first
    obtain ⟨grown', replay'⟩ := ih others
    refine ⟨grown'.trans grown, fun later more => ?_⟩
    obtain ⟨again, decided, same⟩ := replay' later more
    refine ⟨⟨type, members, rows, later.slots.drop later.slots.length⟩ :: again, ?_, ?_⟩
    · have here := replay later (more.trans grown')
      simp only [bucketsOf, here, decided, bind, Except.bind, pure, Except.pure]
    · rw [List.map_cons, List.map_cons, same]
      rfl

/-- Sites that are grouped again have the groups they had. -/
theorem aliasGroups_again {sites : List LockSite} {memo after : Oracle.Memo} {groups : Groups}
    (h : p.aliasGroups oracle memo sites = .ok (groups, after)) {later : Oracle.Memo}
    (more : later.Extends after) :
    ∃ again, p.aliasGroups oracle later sites = .ok (again, later) ∧
    ∀ site, again.group site = groups.group site := by
  obtain ⟨⟨buckets, last⟩, decided, h⟩ := bind_eq_ok h
  cases h
  obtain ⟨again, decided', same⟩ := (bucketsOf_again _ decided).2 later more
  refine ⟨⟨sortBy LockSite.less sites, again⟩, ?_, Groups.group_congr same⟩
  simp only [aliasGroups, decided', bind, Except.bind, pure, Except.pure]

end Program
end Relock
