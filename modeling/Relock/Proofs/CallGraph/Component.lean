import Relock.CallGraph.Component
import Relock.Proofs.CallGraph.Basic
import Relock.Proofs.Keyed

/-!
# Components are what reaches itself

The search keeps the nodes it has met in two places: closed components, and the stack. `Standing`
says how they stand to each other while the nodes of `path` are being searched, the innermost first:
older nodes of the stack lead to newer ones, every node of the stack leads back to one of the path,
and the calls of all nodes but those of the path have been followed.

`Found` says what a search from one node comes to, and `Looped` what it has come to after some of
the node's callees. The number that a search gives is that of a node on the stack to which it leads,
and no call that it followed goes to an older one. If it is the node's own number, no call leaves
what the search has put on the stack except into closed components (`Looped.enclosed`), so that this
is a component.
-/

namespace Relock.CallGraph

variable {g : CallGraph}

/-! ## Rows of components -/

/-- Components of which each leads to all of itself and calls into itself and earlier ones only. -/
structure Layered (g : CallGraph) (row : List (List Nat)) : Prop where
  nonempty : ∀ c ∈ row, c ≠ []
  strong : ∀ c ∈ row, ∀ u ∈ c, ∀ w ∈ c, g.Leads u w
  before : ∀ {i : Nat} {c u w}, row[i]? = some c → u ∈ c → g.Calls u w →
    ∃ (j : Nat) (d : List Nat), j ≤ i ∧ row[j]? = some d ∧ w ∈ d

theorem layered_nil : Layered g [] :=
  ⟨List.forall_mem_nil _, List.forall_mem_nil _, fun h => by rw [List.getElem?_nil] at h; cases h⟩

/-- A further component. -/
theorem Layered.concat {row : List (List Nat)} (layered : Layered g row) {c : List Nat}
    (nonempty : c ≠ []) (strong : ∀ u ∈ c, ∀ w ∈ c, g.Leads u w)
    (enclosed : ∀ u ∈ c, ∀ w, g.Calls u w → w ∈ c ∨ w ∈ row.flatten) :
    Layered g (row ++ [c]) := by
  have one {P : List Nat → Prop} (old : ∀ d ∈ row, P d) (new : P c) : ∀ d ∈ row ++ [c], P d := by
    intro d hd
    rcases List.mem_append.mp hd with mem | mem
    · exact old d mem
    · exact List.mem_singleton.mp mem ▸ new
  have kept {j : Nat} {d : List Nat} (h : row[j]? = some d) : (row ++ [c])[j]? = some d := by
    rw [List.getElem?_append_left (List.getElem?_eq_some_iff.mp h).1, h]
  refine ⟨one layered.nonempty nonempty, one layered.strong strong,
    fun {i d u w} here mem calls => ?_⟩
  rcases Nat.lt_trichotomy i row.length with less | rfl | more
  · rw [List.getElem?_append_left less] at here
    obtain ⟨j, d', le, there, mem⟩ := layered.before here mem calls
    exact ⟨j, d', le, kept there, mem⟩
  · rw [List.getElem?_concat_length] at here
    obtain rfl := Option.some.inj here
    rcases enclosed u mem w calls with inside | older
    · exact ⟨row.length, c, Nat.le_refl _, List.getElem?_concat_length, inside⟩
    · obtain ⟨d, hd, inside⟩ := List.mem_flatten.mp older
      obtain ⟨j, there⟩ := List.mem_iff_getElem?.mp hd
      exact ⟨j, d, Nat.le_of_lt (List.getElem?_eq_some_iff.mp there).1, kept there, inside⟩
  · rw [List.getElem?_eq_none
      (by rw [List.length_append, List.length_singleton]; exact more)] at here
    cases here

/-- Calls lead from a component to itself and to earlier ones. -/
theorem Layered.leads {row : List (List Nat)} (layered : Layered g row) {i : Nat} {c : List Nat}
    {u w : Nat} (here : row[i]? = some c) (mem : u ∈ c) (leads : g.Leads u w) : ∃ j d, j ≤ i ∧
    row[j]? = some d ∧ w ∈ d := by
  induction leads with
  | refl => exact ⟨i, c, Nat.le_refl _, here, mem⟩
  | tail _ calls ih =>
    obtain ⟨j, d, le, there, inside⟩ := ih
    obtain ⟨k, e, le', there, inside⟩ := layered.before there inside calls
    exact ⟨k, e, Nat.le_trans le' le, there, inside⟩

theorem Layered.closed {row : List (List Nat)} (layered : Layered g row) {u w : Nat}
    (mem : u ∈ row.flatten) (leads : g.Leads u w) : w ∈ row.flatten := by
  obtain ⟨c, hc, inside⟩ := List.mem_flatten.mp mem
  obtain ⟨i, here⟩ := List.mem_iff_getElem?.mp hc
  obtain ⟨j, d, _, there, inside⟩ := layered.leads here inside leads
  exact List.mem_flatten.mpr ⟨d, List.mem_of_getElem? there, inside⟩

section Unique

variable {row : List (List Nat)} {i j : Nat} {c d : List Nat} {u w : Nat}

/-- If no node is in a row twice, its place tells its component. -/
theorem eq_of_mem_of_mem (nodup : row.flatten.Nodup) (here : row[i]? = some c)
    (there : row[j]? = some d) (mem : u ∈ c) (mem' : u ∈ d) : i = j := by
  have apart := List.pairwise_iff_getElem.mp (List.pairwise_flatten.mp nodup).2
  obtain ⟨hi, rfl⟩ := List.getElem?_eq_some_iff.mp here
  obtain ⟨hj, rfl⟩ := List.getElem?_eq_some_iff.mp there
  rcases Nat.lt_trichotomy i j with less | same | more
  · exact absurd rfl (apart i j hi hj less u mem u mem')
  · exact same
  · exact absurd rfl (apart j i hj hi more u mem' u mem)

/-- A call to another component goes to an earlier one. -/
theorem Layered.lt_of_calls (layered : Layered g row) (nodup : row.flatten.Nodup)
    (here : row[i]? = some c) (there : row[j]? = some d) (mem : u ∈ c) (mem' : w ∈ d)
    (calls : g.Calls u w) (other : i ≠ j) : j < i := by
  obtain ⟨k, e, le, at_k, inside⟩ := layered.before here mem calls
  obtain rfl := eq_of_mem_of_mem nodup at_k there inside mem'
  exact Nat.lt_of_le_of_ne le other.symm

/-- Nodes that lead to each other are in one component: it is both the first's and no later than the
second's, and the other way round. -/
theorem Layered.together_iff (layered : Layered g row) (nodup : row.flatten.Nodup)
    (mem : u ∈ row.flatten) :
    (∃ c ∈ row, u ∈ c ∧ w ∈ c) ↔ g.Leads u w ∧ g.Leads w u := by
  constructor
  · rintro ⟨c, hc, hu, hw⟩
    exact ⟨layered.strong c hc u hu w hw, layered.strong c hc w hw u hu⟩
  · rintro ⟨out, back⟩
    obtain ⟨c, hc, inside⟩ := List.mem_flatten.mp mem
    obtain ⟨i, here⟩ := List.mem_iff_getElem?.mp hc
    obtain ⟨j, d, le, there, hw⟩ := layered.leads here inside out
    obtain ⟨k, e, le', again, hu⟩ := layered.leads there hw back
    obtain rfl := eq_of_mem_of_mem nodup again here hu inside
    obtain rfl := Nat.le_antisymm le le'
    obtain rfl := Option.some.inj (here.symm.trans there)
    exact ⟨c, hc, inside, hw⟩

end Unique

/-! ## States of the search -/

namespace Components

/-- The nodes met, the newest first. -/
def met (s : Components) : List Nat := s.numbers.map (·.1)

/-- What a later state has of an earlier one. -/
structure Onto (s t : Components) : Prop where
  numbers : ∃ more, t.numbers = more ++ s.numbers ∧ ∀ e ∈ more, s.numbers.length ≤ e.2
  closed : s.closed <+: t.closed

variable {s t u : Components} {n k : Nat}

theorem number?_eq_none : s.number? n = none ↔ n ∉ s.met := by
  rw [number?, Option.map_eq_none_iff, List.find?_eq_none]
  simp only [met, List.mem_map, decide_eq_true_eq, not_exists, not_and]

theorem mem_met_of_number? (h : s.number? n = some k) : n ∈ s.met :=
  List.mem_map.mpr ⟨(n, k), Keyed.mem_of_get? h, rfl⟩

theorem Onto.refl (s : Components) : s.Onto s :=
  ⟨⟨[], rfl, List.forall_mem_nil _⟩, List.prefix_refl _⟩

theorem Onto.trans (st : s.Onto t) (tu : t.Onto u) : s.Onto u := by
  obtain ⟨more, numbers, late⟩ := st.numbers
  obtain ⟨more', numbers', late'⟩ := tu.numbers
  refine ⟨⟨more' ++ more, by rw [numbers', numbers, List.append_assoc], fun e he => ?_⟩,
    st.closed.trans tu.closed⟩
  rcases List.mem_append.mp he with new | old
  · refine Nat.le_trans ?_ (late' e new)
    rw [numbers, List.length_append]
    exact Nat.le_add_left _ _
  · exact late e old

theorem Onto.met_subset (onto : s.Onto t) : s.met ⊆ t.met := by
  obtain ⟨more, numbers, _⟩ := onto.numbers
  rw [met, met, numbers, List.map_append]
  exact List.subset_append_right _ _

theorem Onto.length_le (onto : s.Onto t) : s.numbers.length ≤ t.numbers.length := by
  obtain ⟨more, numbers, _⟩ := onto.numbers
  rw [numbers, List.length_append]
  exact Nat.le_add_left _ _

/-- A number that was given stays. -/
theorem Onto.number? (onto : s.Onto t) (nodup : t.met.Nodup) (h : s.number? n = some k) :
    t.number? n = some k := by
  obtain ⟨more, numbers, _⟩ := onto.numbers
  refine Keyed.get?_of_mem nodup ?_
  rw [numbers]
  exact List.mem_append_right _ (Keyed.mem_of_get? h)

/-- A node with a number from before was met before. -/
theorem Onto.mem_met (onto : s.Onto t) (h : t.number? n = some k) (early : k < s.numbers.length) :
    n ∈ s.met := by
  obtain ⟨more, numbers, late⟩ := onto.numbers
  have mem : (n, k) ∈ t.numbers := Keyed.mem_of_get? h
  rw [numbers] at mem
  rcases List.mem_append.mp mem with new | old
  · exact absurd (late _ new) (Nat.not_le_of_lt early)
  · exact List.mem_map.mpr ⟨_, old, rfl⟩

end Components

/-- How the nodes met stand while the nodes of `path` are being searched. -/
structure Standing (g : CallGraph) (path : List Nat) (s : Components) : Prop where
  nodup : s.met.Nodup
  bound : ∀ e ∈ s.numbers, e.2 < s.numbers.length
  parts : (s.closed.flatten ++ s.stack).Perm s.met
  onStack : path ⊆ s.stack
  known : ∀ n ∈ s.met, n ∈ g.nodes ∨ ∃ u, g.Calls u n
  walked : ∀ n ∈ s.met, n ∉ path → ∀ w, g.Calls n w → w ∈ s.met
  down : s.stack.Pairwise fun newer older => g.Leads older newer
  back : ∀ n ∈ s.stack, ∃ m ∈ path, g.Leads n m
  layered : Layered g s.closed

namespace Standing

variable {path : List Nat} {s : Components} {n : Nat}

theorem mem_met (standing : Standing g path s) : n ∈ s.met ↔ n ∈ s.closed.flatten ∨
    n ∈ s.stack := by
  rw [← standing.parts.mem_iff, List.mem_append]

/-- Nothing is in two places. -/
theorem nodup_parts (standing : Standing g path s) : (s.closed.flatten ++ s.stack).Nodup :=
  standing.parts.nodup_iff.mpr standing.nodup

theorem notMem_closed (standing : Standing g path s) (mem : n ∈ s.stack) : n ∉ s.closed.flatten :=
  fun closed => (List.nodup_append.mp standing.nodup_parts).2.2 n closed n mem rfl

theorem exists_number (standing : Standing g path s) (mem : n ∈ s.met) :
    ∃ k, s.number? n = some k ∧ k < s.numbers.length := by
  obtain ⟨⟨_, k⟩, he, rfl⟩ := List.mem_map.mp mem
  exact ⟨k, Keyed.get?_of_mem standing.nodup he, standing.bound _ he⟩

/-- A node is met. -/
theorem enter (standing : Standing g path s) (new : n ∉ s.met) (leads : ∀ m ∈ path, g.Leads m n)
    (known : n ∈ g.nodes ∨ ∃ u, g.Calls u n) : Standing g (n :: path) (s.enter n) where
  nodup := List.nodup_cons.mpr ⟨new, standing.nodup⟩
  bound := by
    refine List.forall_mem_cons.mpr ⟨Nat.lt_succ_self _, fun e he => ?_⟩
    exact Nat.lt_succ_of_lt (standing.bound e he)
  parts := List.perm_middle.trans (standing.parts.cons n)
  onStack := List.cons_subset_cons n standing.onStack
  known := List.forall_mem_cons.mpr ⟨known, standing.known⟩
  walked := by
    intro m hm off w calls
    obtain ⟨other, off⟩ := not_or.mp (mt List.mem_cons.mpr off)
    exact List.mem_cons_of_mem _
      (standing.walked m ((List.mem_cons.mp hm).resolve_left other) off w calls)
  down := by
    refine List.pairwise_cons.mpr ⟨fun older ho => ?_, standing.down⟩
    obtain ⟨m, hm, back⟩ := standing.back older ho
    exact back.trans (leads m hm)
  back := by
    refine List.forall_mem_cons.mpr ⟨⟨n, List.mem_cons_self, .refl⟩, fun m hm => ?_⟩
    obtain ⟨m', hm', back⟩ := standing.back m hm
    exact ⟨m', List.mem_cons_of_mem _ hm', back⟩
  layered := standing.layered

end Standing

/-! ## What a search comes to -/

/-- A node calls no node of the stack that is older than a number. -/
def Guarded (g : CallGraph) (s : Components) (low u : Nat) : Prop :=
  ∀ w ∈ s.stack, g.Calls u w → ∀ k, s.number? w = some k → low ≤ k

/-- What a search from a node comes to. -/
structure Found (g : CallGraph) (path : List Nat) (n : Nat) (s : Components) (low : Nat)
    (t : Components) : Prop where
  standing : Standing g path t
  onto : s.Onto t
  met : n ∈ t.met
  stack : ∃ added, t.stack = added ++ s.stack ∧ ∀ u ∈ added, Guarded g s low u
  /-- Its own number, or that of a node on the stack to which it leads. -/
  low : low = s.numbers.length ∨ ∃ m ∈ t.stack, t.number? m = some low ∧ g.Leads n m

/-- What a search from a node has come to after some of the node's callees. -/
structure Looped (g : CallGraph) (path : List Nat) (n : Nat) (s : Components) (past : List Nat)
    (low : Nat) (t : Components) : Prop where
  standing : Standing g (n :: path) t
  onto : (s.enter n).Onto t
  met : ∀ w ∈ past, w ∈ t.met
  stack : ∃ added, t.stack = added ++ n :: s.stack ∧ ∀ u ∈ added, Guarded g s low u
  own : ∀ w ∈ past, w ∈ s.stack → ∀ k, s.number? w = some k → low ≤ k
  le : low ≤ s.numbers.length
  low : ∃ m ∈ t.stack, t.number? m = some low ∧ g.Leads n m

section Loop

variable {path past : List Nat} {n w low : Nat} {s t : Components}

theorem onto_enter (s : Components) (n : Nat) : s.Onto (s.enter n) :=
  ⟨⟨[(n, s.numbers.length)], rfl, List.forall_mem_singleton.mpr (Nat.le_refl _)⟩,
    List.prefix_refl _⟩

/-- Before the first callee. -/
theorem looped_enter (standing : Standing g path s) (new : n ∉ s.met)
    (leads : ∀ m ∈ path, g.Leads m n) (known : n ∈ g.nodes ∨ ∃ u, g.Calls u n) :
    Looped g path n s [] s.numbers.length (s.enter n) := by
  have entered := standing.enter new leads known
  refine ⟨entered, .refl _, List.forall_mem_nil _, ⟨[], rfl, List.forall_mem_nil _⟩,
    List.forall_mem_nil _, Nat.le_refl _, n, List.mem_cons_self, ?_, .refl⟩
  exact Keyed.get?_of_mem entered.nodup List.mem_cons_self

theorem Looped.mem_stack (looped : Looped g path n s past low t) {m : Nat} (mem : m ∈ s.stack) :
    m ∈ t.stack := by
  obtain ⟨added, stack, _⟩ := looped.stack
  rw [stack]
  exact List.mem_append_right _ (List.mem_cons_of_mem _ mem)

/-- A further callee, which may have added to the stack and lowered the number. -/
theorem Looped.next (looped : Looped g path n s past low t) {t' : Components} {low' : Nat}
    (standing : Standing g (n :: path) t') (onto : t.Onto t') (met : w ∈ t'.met) (less : low' ≤ low)
    (stack : ∃ added, t'.stack = added ++ t.stack ∧ ∀ u ∈ added, Guarded g s low' u)
    (own : w ∈ s.stack → ∀ k, s.number? w = some k → low' ≤ k)
    (lowest : ∃ m ∈ t'.stack, t'.number? m = some low' ∧ g.Leads n m) :
    Looped g path n s (past ++ [w]) low' t' where
  standing := standing
  onto := looped.onto.trans onto
  met m hm := by
    rcases List.mem_append.mp hm with old | last
    · exact onto.met_subset (looped.met m old)
    · exact List.mem_singleton.mp last ▸ met
  stack := by
    obtain ⟨added, before, guarded⟩ := looped.stack
    obtain ⟨added', after, guarded'⟩ := stack
    refine ⟨added' ++ added, by rw [after, before, List.append_assoc], ?_⟩
    intro u hu m hm calls k number
    rcases List.mem_append.mp hu with new | old
    · exact guarded' u new m hm calls k number
    · exact Nat.le_trans less (guarded u old m hm calls k number)
  own m hm onStack k number := by
    rcases List.mem_append.mp hm with old | last
    · exact Nat.le_trans less (looped.own m old onStack k number)
    · rw [List.mem_singleton.mp last] at onStack number
      exact own onStack k number
  le := Nat.le_trans less looped.le
  low := lowest

theorem Looped.number? (looped : Looped g path n s past low t) {m k : Nat}
    (h : s.number? m = some k) :
    t.number? m = some k :=
  ((onto_enter s n).trans looped.onto).number? looped.standing.nodup h

/-- A callee that was not met before is searched. -/
theorem Looped.search (looped : Looped g path n s past low t) (calls : g.Calls n w)
    (new : w ∉ t.met) {reached : Nat} {t' : Components}
    (found : Found g (n :: path) w t reached t') :
    Looped g path n s (past ++ [w]) (min low reached) t' := by
  obtain ⟨added, stack, guarded⟩ := found.stack
  refine looped.next found.standing found.onto found.met (Nat.min_le_left _ _) ⟨added, stack,
    ?_⟩ ?_ ?_
  · intro u hu m hm calls k number
    exact Nat.le_trans (Nat.min_le_right _ _)
      (guarded u hu m (looped.mem_stack hm) calls k (looped.number? number))
  · exact fun onStack => absurd (looped.standing.mem_met.mpr (.inr (looped.mem_stack onStack))) new
  · rcases Nat.le_total low reached with less | more
    · rw [Nat.min_eq_left less]
      obtain ⟨m, hm, lowest, leads⟩ := looped.low
      exact ⟨m, stack ▸ List.mem_append_right _ hm,
        found.onto.number? found.standing.nodup lowest, leads⟩
    · rw [Nat.min_eq_right more]
      rcases found.low with own | ⟨m, hm, lowest, leads⟩
      · -- the callee closed its own component, with a newer number than any so far
        have late : (s.enter n).numbers.length ≤ t.numbers.length := looped.onto.length_le
        have le := looped.le
        simp only [Components.enter, List.length_cons] at late
        omega
      · exact ⟨m, hm, lowest, .head calls leads⟩

/-- A callee that is on the stack. -/
theorem Looped.meet (looped : Looped g path n s past low t) (calls : g.Calls n w)
    (onStack : w ∈ t.stack) {k : Nat} (number : t.number? w = some k) :
    Looped g path n s (past ++ [w]) (min low k) t := by
  refine looped.next looped.standing (.refl _) (looped.standing.mem_met.mpr (.inr onStack))
    (Nat.min_le_left _ _)
    ⟨[], rfl, List.forall_mem_nil _⟩ ?_ ?_
  · intro _ k' h
    have same := looped.number? h
    rw [number, Option.some.injEq] at same
    exact same ▸ Nat.min_le_right _ _
  · rcases Nat.le_total low k with less | more
    · rw [Nat.min_eq_left less]
      exact looped.low
    · rw [Nat.min_eq_right more]
      exact ⟨w, onStack, number, .single calls⟩

/-- A callee that is in a closed component. -/
theorem Looped.pass (looped : Looped g path n s past low t) (met : w ∈ t.met) (off : w ∉ t.stack) :
    Looped g path n s (past ++ [w]) low t :=
  looped.next looped.standing (.refl _) met (Nat.le_refl _) ⟨[], rfl, List.forall_mem_nil _⟩
    (fun onStack => absurd (looped.mem_stack onStack) off) looped.low

end Loop

section Finish

variable {path added : List Nat} {n low : Nat} {s t : Components}
    (looped : Looped g path n s (g.callees n) low t)
  (stack : t.stack = added ++ n :: s.stack)

include looped

/-- When all callees of a node are done, only those of the path are open. -/
theorem Looped.walked {m w : Nat} (met : m ∈ t.met) (off : m ∉ path) (calls : g.Calls m w) :
    w ∈ t.met := by
  by_cases here : m = n
  · exact looped.met w (mem_callees.mpr (here ▸ calls))
  · exact looped.standing.walked m met (fun mem => (List.mem_cons.mp mem).elim here off) w calls

/-- Then the node is as guarded as what it led to. -/
theorem Looped.guarded (guarded : ∀ u ∈ added, Guarded g s low u) :
    ∀ u ∈ added ++ [n], Guarded g s low u := by
  intro u hu w old calls k number
  rcases List.mem_append.mp hu with deeper | last
  · exact guarded u deeper w old calls k number
  · rw [List.mem_singleton.mp last] at calls
    exact looped.own w (mem_callees.mpr calls) old k number

include stack

/-- What was put on the stack since is not what was on it before. -/
theorem Looped.apart {u : Nat} (mem : u ∈ added ++ [n]) : u ∈ t.stack ∧ u ∉ s.stack := by
  have nodup := (List.nodup_append.mp looped.standing.nodup_parts).2.1
  rw [stack, List.append_cons, List.nodup_append] at nodup
  refine ⟨?_, fun old => nodup.2.2 u mem u old rfl⟩
  rw [stack, List.append_cons]
  exact List.mem_append_left _ mem

/-- If the node is the oldest that it leads to, no call leaves what was put on the stack since,
except into closed components. -/
theorem Looped.enclosed (standing : Standing g path s) (guarded : ∀ u ∈ added, Guarded g s low u)
    (root : low = s.numbers.length) {u w : Nat} (mem : u ∈ added ++ [n]) (calls : g.Calls u w) :
    w ∈ added ++ [n] ∨ w ∈ t.closed.flatten := by
  obtain ⟨onStack, new⟩ := looped.apart stack mem
  have met := looped.walked (looped.standing.mem_met.mpr (.inr onStack)) (fun h =>
    new (standing.onStack h)) calls
  rcases looped.standing.mem_met.mp met with closed | there
  · exact .inr closed
  · rw [stack, List.append_cons] at there
    rcases List.mem_append.mp there with inside | old
    · exact .inl inside
    · -- the call would go to an older node than the one that the search leads to
      obtain ⟨k, number, early⟩ := standing.exists_number (standing.mem_met.mpr (.inr old))
      have late : low ≤ k := looped.guarded guarded u mem w old calls k number
      omega

/-- What was put on the stack since the node then is a component. -/
theorem Looped.component (standing : Standing g path s) (guarded : ∀ u ∈ added, Guarded g s low u)
    (root : low = s.numbers.length) : Layered g (t.closed ++ [added ++ [n]]) := by
  have enclosed {u w : Nat} (mem : u ∈ added ++ [n]) (leads : g.Leads u w) :
      w ∈ added ++ [n] ∨ w ∈ t.closed.flatten := by
    induction leads with
    | refl => exact .inl mem
    | tail _ calls ih =>
      rcases ih with inside | closed
      · exact looped.enclosed stack standing guarded root inside calls
      · exact .inr (looped.standing.layered.closed closed (.single calls))
  have down {w : Nat} (mem : w ∈ added ++ [n]) : g.Leads n w := by
    rcases List.mem_append.mp mem with newer | here
    · have order := looped.standing.down
      rw [stack, List.pairwise_append] at order
      exact order.2.2 w newer n List.mem_cons_self
    · exact List.mem_singleton.mp here ▸ .refl
  have back {u : Nat} (mem : u ∈ added ++ [n]) : g.Leads u n := by
    obtain ⟨m, hm, leads⟩ := looped.standing.back u (looped.apart stack mem).1
    rcases List.mem_cons.mp hm with rfl | older
    · exact leads
    · have old := standing.onStack older
      rcases enclosed mem leads with inside | closed
      · exact absurd old (looped.apart stack inside).2
      · exact absurd closed (looped.standing.notMem_closed (looped.mem_stack old))
  refine looped.standing.layered.concat
    (List.append_ne_nil_of_right_ne_nil _ (List.cons_ne_nil _ _))
    (fun u hu w hw => (back hu).trans (down hw)) fun u hu w calls => ?_
  exact looped.enclosed stack standing guarded root hu calls

omit looped in
/-- Closing takes off the stack what was put on it since the node. -/
theorem close_eq (nodup : t.stack.Nodup) :
    t.close n = { t with stack := s.stack, closed := t.closed ++ [added ++ [n]] } := by
  rw [stack, List.nodup_append] at nodup
  have other : ∀ m ∈ added, decide (m ≠ n) = true :=
    fun m hm => decide_eq_true fun same => nodup.2.2 m hm n List.mem_cons_self same
  have drop : (n :: s.stack).dropWhile (· ≠ n) = n :: s.stack :=
    List.dropWhile_cons_of_neg (by simp)
  have take : (n :: s.stack).takeWhile (· ≠ n) = [] := List.takeWhile_cons_of_neg (by simp)
  rw [Components.close, stack, List.dropWhile_append_of_pos other,
    List.takeWhile_append_of_pos other, drop, take, List.append_nil, List.drop_one, List.tail_cons]

omit stack

/-- A search that leads to an older node leaves its nodes on the stack. -/
theorem Looped.leave (standing : Standing g path s) (older : low < s.numbers.length) :
    Found g path n s low t := by
  obtain ⟨added, stack, guarded⟩ := looped.stack
  have here : n ∈ t.stack := looped.standing.onStack List.mem_cons_self
  refine ⟨{ looped.standing with onStack := ?_, walked := ?_, back := ?_ },
    (onto_enter s n).trans looped.onto, looped.standing.mem_met.mpr (.inr here),
    ⟨added ++ [n], by rw [stack, List.append_cons], looped.guarded guarded⟩,
    .inr looped.low⟩
  · exact fun m hm => looped.standing.onStack (List.mem_cons_of_mem _ hm)
  · exact fun m met off w calls => looped.walked met off calls
  · intro u hu
    obtain ⟨m, hm, leads⟩ := looped.standing.back u hu
    rcases List.mem_cons.mp hm with rfl | onPath
    · -- the older node was met before, and is not closed since it is on the stack now
      obtain ⟨m', onStack, number, down⟩ := looped.low
      have met := ((onto_enter s m).trans looped.onto).mem_met number older
      have still : m' ∉ s.closed.flatten := fun closed => by
        obtain ⟨more, eq⟩ := looped.onto.closed
        refine looped.standing.notMem_closed onStack ?_
        rw [← eq, List.flatten_append]
        exact List.mem_append_left _ closed
      obtain ⟨m'', onPath, back⟩ := standing.back m' ((standing.mem_met.mp met).resolve_left still)
      exact ⟨m'', onPath, leads.trans (down.trans back)⟩
    · exact ⟨m, onPath, leads⟩

/-- A search that leads to no older node closes a component. -/
theorem Looped.close (standing : Standing g path s) (root : low = s.numbers.length) :
    Found g path n s low (t.close n) := by
  obtain ⟨added, stack, guarded⟩ := looped.stack
  have here : n ∈ t.stack := looped.standing.onStack List.mem_cons_self
  rw [close_eq stack (List.nodup_append.mp looped.standing.nodup_parts).2.1]
  have parts := looped.standing.parts
  rw [stack, List.append_cons, ← List.append_assoc, ← List.flatten_concat] at parts
  have after : Standing g path { t with stack := s.stack, closed := t.closed ++ [added ++ [n]] } :=
    { looped.standing with
      parts := parts
      onStack := standing.onStack
      walked := fun m met off w calls => looped.walked met off calls
      down := standing.down
      back := standing.back
      layered := looped.component stack standing guarded root }
  refine ⟨after, ⟨((onto_enter s n).trans looped.onto).numbers,
    looped.onto.closed.trans (List.prefix_append _ _)⟩, looped.standing.mem_met.mpr (.inr here),
    ⟨[], rfl, List.forall_mem_nil _⟩, .inl root⟩

end Finish

/-! ## Whole searches -/

/-- What one callee adds to a search. -/
def follow (g : CallGraph) (depth : Nat) (r : Nat × Components) (w : Nat) : Nat × Components :=
  match r.2.number? w with
  | none => (min r.1 (g.search depth w r.2).1, (g.search depth w r.2).2)
  | some k => if w ∈ r.2.stack then (min r.1 k, r.2) else r

theorem search_succ (g : CallGraph) (depth n : Nat) (s : Components) {r : Nat × Components}
    (done : (g.callees n).foldl (g.follow depth) (s.numbers.length, s.enter n) = r) :
    g.search (depth + 1) n s = (r.1, if r.1 = s.numbers.length then r.2.close n else r.2) :=
  done ▸ rfl

section Search

variable {path past : List Nat} {n depth : Nat} {s : Components}

theorem Looped.follow {r : Nat × Components} {w : Nat} (looped : Looped g path n s past r.1 r.2)
    (calls : g.Calls n w)
    (found : w ∉ r.2.met →
      Found g (n :: path) w r.2 (g.search depth w r.2).1 (g.search depth w r.2).2) :
    Looped g path n s (past ++ [w]) (g.follow depth r w).1 (g.follow depth r w).2 := by
  unfold CallGraph.follow
  split
  next unknown =>
    have new := Components.number?_eq_none.mp unknown
    exact looped.search calls new (found new)
  next k number =>
    split
    next onStack => exact looped.meet calls onStack number
    next off => exact looped.pass (Components.mem_met_of_number? number) off

/-- If searches from callees come to what they should, so does one callee after the other. -/
theorem Looped.foldl
    (found : ∀ {t w}, Standing g (n :: path) t → (s.enter n).Onto t → g.Calls n w → w ∉ t.met →
      Found g (n :: path) w t (g.search depth w t).1 (g.search depth w t).2) (rest : List Nat)
    (calls : ∀ w ∈ rest, g.Calls n w) {r : Nat × Components}
    (looped : Looped g path n s past r.1 r.2) :
    Looped g path n s (past ++ rest)
    (rest.foldl (g.follow depth) r).1 (rest.foldl (g.follow depth) r).2 := by
  induction rest generalizing past r with
  | nil => rwa [List.append_nil]
  | cons w rest ih =>
    obtain ⟨first, calls⟩ := List.forall_mem_cons.mp calls
    rw [List.append_cons]
    exact ih calls (looped.follow first (found looped.standing looped.onto first))

/-- How many nodes were not met. -/
def unmet (g : CallGraph) (s : Components) : Nat := unseen (fun _ => 1) (sink :: g.nodes) s.met

theorem unmet_enter (closed : g.Closed) (new : n ∉ s.met) (known : n ∈ g.nodes ∨ ∃ u, g.Calls u n) :
    g.unmet (s.enter n) + 1 = g.unmet s := by
  refine unseen_cons (List.nodup_cons.mpr ⟨closed.sink, closed.nodup⟩) ?_ new
  rcases known with node | ⟨_, e, he, _, rfl⟩
  · exact List.mem_cons_of_mem _ node
  · exact List.mem_cons.mpr (closed.callee e he).symm

/-- A search that may go as deep as there are nodes left. -/
theorem search_found (closed : g.Closed) (standing : Standing g path s) (new : n ∉ s.met)
    (leads : ∀ m ∈ path, g.Leads m n) (known : n ∈ g.nodes ∨ ∃ u, g.Calls u n)
    (enough : g.unmet s ≤ depth) :
    Found g path n s (g.search depth n s).1 (g.search depth n s).2 := by
  induction depth generalizing path n s with
  | zero =>
    have left := unmet_enter closed new known
    omega
  | succ depth ih =>
    have left := unmet_enter closed new known
    have deeper {t : Components} {w : Nat} (standing : Standing g (n :: path) t)
        (onto : (s.enter n).Onto t)
        (calls : g.Calls n w) (new : w ∉ t.met) :
        Found g (n :: path) w t (g.search depth w t).1 (g.search depth w t).2 := by
      have less : g.unmet t ≤ g.unmet (s.enter n) := unseen_le_of_subset _ _ onto.met_subset
      refine ih standing new (List.forall_mem_cons.mpr ⟨.single calls, fun m hm => ?_⟩)
        (.inr ⟨n, calls⟩) (by omega)
      exact (leads m hm).tail calls
    have looped := Looped.foldl (r := (s.numbers.length, s.enter n)) deeper (g.callees n)
      (fun w hw => mem_callees.mp hw) (looped_enter standing new leads known)
    rw [search_succ g depth n s rfl]
    by_cases root : ((g.callees n).foldl (g.follow depth) (s.numbers.length, s.enter n)).1 =
      s.numbers.length
    · rw [if_pos root]
      exact looped.close standing root
    · rw [if_neg root]
      exact looped.leave standing (Nat.lt_of_le_of_ne looped.le root)

end Search

theorem standing_nil : Standing g [] {} where
  nodup := List.nodup_nil
  bound := List.forall_mem_nil _
  parts := .refl _
  onStack := List.nil_subset _
  known := List.forall_mem_nil _
  walked := List.forall_mem_nil _
  down := .nil
  back := List.forall_mem_nil _
  layered := layered_nil

/-- At the end of the last search all nodes were met and none is on the stack. -/
theorem exists_standing (closed : g.Closed) :
    ∃ s, Standing g [] s ∧ g.nodes ⊆ s.met ∧ s.stack = [] ∧ s.closed = g.components := by
  have searches (rest : List Nat) (s : Components) (nodes : rest ⊆ g.nodes)
      (standing : Standing g [] s) :
      ∃ t, rest.foldl (fun (s : Components) n =>
          if (s.number? n).isSome then s else (g.search (g.nodes.length + 2) n s).2) s = t ∧
        Standing g [] t ∧ s.met ⊆ t.met ∧ rest ⊆ t.met := by
    induction rest generalizing s with
    | nil => exact ⟨s, rfl, standing, List.Subset.refl _, List.nil_subset _⟩
    | cons n rest ih =>
      obtain ⟨node, nodes⟩ := List.cons_subset.mp nodes
      rw [List.foldl_cons]
      split
      next known =>
        obtain ⟨k, number⟩ := Option.isSome_iff_exists.mp known
        obtain ⟨t, eq, standing, more, met⟩ := ih s nodes standing
        exact ⟨t, eq, standing, more,
          List.cons_subset.mpr ⟨more (Components.mem_met_of_number? number), met⟩⟩
      next unknown =>
        have new := Components.number?_eq_none.mp (Option.not_isSome_iff_eq_none.mp unknown)
        have enough : g.unmet s ≤ g.nodes.length + 2 := by
          have all := unseen_le (fun _ => 1) (sink :: g.nodes) s.met
          rw [total_map_one, List.length_cons] at all
          exact Nat.le_succ_of_le all
        have found := search_found closed standing new (List.forall_mem_nil _) (.inl node) enough
        obtain ⟨t, eq, standing, more, met⟩ := ih _ nodes found.standing
        exact ⟨t, eq, standing, List.Subset.trans found.onto.met_subset more,
          List.cons_subset.mpr ⟨more found.met, met⟩⟩
  obtain ⟨t, eq, standing, _, met⟩ := searches g.nodes {} (List.Subset.refl _) standing_nil
  refine ⟨t, standing, met, List.eq_nil_iff_forall_not_mem.mpr fun n onStack => ?_, ?_⟩
  · obtain ⟨m, onPath, _⟩ := standing.back n onStack
    exact List.not_mem_nil onPath
  · rw [components, eq]

section Components

variable (closed : g.Closed)

include closed

theorem layered_components : Layered g g.components := by
  obtain ⟨s, standing, _, _, eq⟩ := exists_standing closed
  exact eq ▸ standing.layered

theorem nodup_components : g.components.flatten.Nodup := by
  obtain ⟨s, standing, _, _, eq⟩ := exists_standing closed
  exact eq ▸ (List.nodup_append.mp standing.nodup_parts).1

/-- The components are made of the functions and of what is called. -/
theorem mem_components {n : Nat} : n ∈ g.components.flatten ↔ n ∈ g.nodes ∨ ∃ u, g.Calls u n := by
  obtain ⟨s, standing, met, empty, eq⟩ := exists_standing closed
  have all (m : Nat) : m ∈ g.components.flatten ↔ m ∈ s.met := by
    rw [standing.mem_met, empty, eq]
    exact (or_iff_left List.not_mem_nil).symm
  rw [all]
  refine ⟨standing.known n, ?_⟩
  rintro (node | ⟨u, e, he, rfl, rfl⟩)
  · exact met node
  · exact standing.walked e.caller (met (closed.caller e he)) List.not_mem_nil _ ⟨e, he, rfl, rfl⟩

end Components

end Relock.CallGraph

namespace Relock

/-- The components of a call graph are disjoint rows without repetition, of the functions, and of
the sink if a function makes a call whose callee is not known. Two nodes are in one component just
if each leads to the other, and a call to another component goes to an earlier one. -/
theorem callGraph_components {read : Sexp.Reader} {file text : String} {p : Program}
    (loaded : Program.loadWith read file text = .ok p) :
    (∀ c ∈ p.callGraph.components, c ≠ []) ∧ p.callGraph.components.flatten.Nodup ∧
    (∀ f ∈ p.functionIds, f ≠ CallGraph.sink) ∧
    (∀ n, n ∈ p.callGraph.components.flatten ↔ n ∈ p.functionIds ∨
      (n = CallGraph.sink ∧ ∃ f ∈ p.definedFunctions, ∃ o ∈ p.callsOf f,
        (p.op o).callee.function? = none)) ∧
    (∀ u ∈ p.callGraph.components.flatten, ∀ w ∈ p.callGraph.components.flatten,
      (∃ c ∈ p.callGraph.components, u ∈ c ∧ w ∈ c) ↔ p.callGraph.Leads u w ∧
      p.callGraph.Leads w u) ∧
    ∀ (i j : Nat) (c d : List Nat) (u w : Nat), p.callGraph.components[i]? = some c →
      p.callGraph.components[j]? = some d → u ∈ c → w ∈ d → p.callGraph.Calls u w → i ≠ j →
      j < i := by
  have closed := Program.callGraph_closed loaded
  have layered := CallGraph.layered_components closed
  have nodup := CallGraph.nodup_components closed
  have functions : ∀ f ∈ p.functionIds, f ≠ CallGraph.sink :=
    fun f mem same => closed.sink (same ▸ mem)
  refine ⟨layered.nonempty, nodup, functions, fun n => ?_,
    fun u hu w _ => layered.together_iff nodup hu, ?_⟩
  · rw [CallGraph.mem_components closed]
    constructor
    · rintro (node | ⟨u, e, he, caller, rfl⟩)
      · exact .inl node
      · rcases closed.callee e he with node | unknown
        · exact .inl node
        · exact .inr ⟨unknown, (Program.calls_sink_iff loaded).mp ⟨u, e, he, caller, unknown⟩⟩
    · rintro (node | ⟨rfl, unresolved⟩)
      · exact .inl node
      · exact .inr ((Program.calls_sink_iff loaded).mpr unresolved)
  · intro i j c d u w here there hu hw calls other
    exact layered.lt_of_calls nodup here there hu hw calls other

/-- Two functions that call each other, one of which calls what it is given, and a function that
calls them. -/
def tangledText : String := "(module tangled
(function \"main\" (params (k (ptr i8)))
  (block a (call _ void \"ping\" k) (call _ void \"log\") (ret)))
(function \"ping\" (params (k (ptr i8))) (block a (call _ void \"pong\" k) (ret)))
(function \"pong\" (params (k (ptr i8))) (block a (call _ void k) (call _ void \"ping\" k) (ret)))
(declare \"log\" (params)))"

set_option maxRecDepth 4000 in
theorem callGraph_components_tangled : ∃ p, Program.load "tangled" tangledText = .ok p ∧
    p.callGraph.components = [[CallGraph.sink], [5, 3], [7], [1]] ∧ p.callGraph.Leads 3 5 ∧
    p.callGraph.Leads 5 3 ∧
    ¬ (p.callGraph.Leads 1 3 ∧ p.callGraph.Leads 3 1) := by
  obtain ⟨p, loaded, checked⟩ : ∃ p, Program.load "tangled" tangledText = .ok p ∧
      decide (p.callGraph.components = [[CallGraph.sink], [5, 3], [7], [1]]) = true :=
    Program.exists_of_load rfl (by decide +kernel)
  have rows := of_decide_eq_true checked
  obtain ⟨_, _, _, _, together, _⟩ := callGraph_components loaded
  rw [rows] at together
  obtain ⟨out, back⟩ := (together 3 (by decide) 5 (by decide)).mp (by decide)
  exact ⟨p, loaded, rows, out, back,
    fun leads => absurd ((together 1 (by decide) 3 (by decide)).mpr leads) (by decide)⟩

end Relock
