import Relock.Search

/-!
# Call chains

Every function that a query enters is entered from the function of the site or from one entered
before. `Grown` says so of the list of entries, the newest first. It makes the climb from a function
to the root well behaved: the entries of callers lie further back in the list, so that the climb
needs no more fuel than there are entries, meets no function twice, and ends at the root.

`Descends` gives a chain as the calls that it goes through, from the root down. A function is
entered once, so that one chain leads to it, and that is the one which the climb finds. `ComesBack`
holds where the climb would meet a function for the second time and give up; it never does.
-/

namespace Relock.Search

/-- The functions that a query knows: the root and those that it entered. -/
def known (root : FunctionId) (entries : List Entry) : List FunctionId :=
  entries.map (·.callee) ++ [root]

/-- Each function was entered once, from one known before. -/
def Grown (root : FunctionId) : List Entry → Prop
  | [] => True
  | e :: entries =>
    e.callee ∉ known root entries ∧ e.caller ∈ known root entries ∧ Grown root entries

/-- A chain of functions from the root down to a function, and the calls between them. -/
inductive Descends (root : FunctionId) (entries : List Entry) : List FunctionId → List OpId →
    FunctionId → Prop where
  | root : Descends root entries [root] [] root
  | call {chain calls e} : Descends root entries chain calls e.caller → e ∈ entries →
      Descends root entries (chain ++ [e.callee]) (calls ++ [e.call]) e.callee

variable {root : FunctionId} {entries : List Entry}

@[simp] theorem known_cons (root : FunctionId) (e : Entry) (entries : List Entry) :
    known root (e :: entries) = e.callee :: known root entries := rfl

theorem root_mem_known (root : FunctionId) (entries : List Entry) : root ∈ known root entries :=
  List.mem_append_right _ (List.mem_singleton.mpr rfl)

theorem Descends.mono {more : List Entry} (sub : entries ⊆ more) {chain : List FunctionId}
    {calls : List OpId} {f : FunctionId} (h : Descends root entries chain calls f) :
    Descends root more chain calls f := by
  induction h with
  | root => exact .root
  | call _ he ih => exact .call ih (sub he)

/-! ## What a chain is made of -/

theorem Descends.length {chain : List FunctionId} {calls : List OpId} {f : FunctionId}
    (h : Descends root entries chain calls f) : calls.length + 1 = chain.length := by
  induction h with
  | root => rfl
  | call _ _ ih => simp only [List.length_append, List.length_singleton, ih]

theorem Descends.head? {chain : List FunctionId} {calls : List OpId} {f : FunctionId}
    (h : Descends root entries chain calls f) : chain.head? = some root := by
  induction h with
  | root => rfl
  | call _ _ ih => rw [List.head?_append, ih, Option.some_or]

theorem Descends.getLast? {chain : List FunctionId} {calls : List OpId} {f : FunctionId}
    (h : Descends root entries chain calls f) : chain.getLast? = some f := by
  cases h with
  | root => rfl
  | call _ _ => exact List.getLast?_concat

/-- Each call of a chain leads from the function at its place to the next one. -/
theorem Descends.call_at {chain : List FunctionId} {calls : List OpId} {f : FunctionId}
    (h : Descends root entries chain calls f) {i : Nat} {c : OpId} (hc : calls[i]? = some c) :
    ∃ e ∈ entries, e.call = c ∧ chain[i]? = some e.caller ∧ chain[i + 1]? = some e.callee := by
  induction h with
  | root => simp only [List.getElem?_nil, reduceCtorEq] at hc
  | @call chain calls e descends he ih =>
    have length := descends.length
    by_cases older : i < calls.length
    · rw [List.getElem?_append_left older] at hc
      obtain ⟨e', he', call, caller, callee⟩ := ih hc
      refine ⟨e', he', call, ?_, ?_⟩
      · rw [List.getElem?_append_left (by omega), caller]
      · rw [List.getElem?_append_left (by omega), callee]
    · -- the last call, which leads from the end of the shorter chain
      rw [List.getElem?_append_right (Nat.le_of_not_lt older)] at hc
      obtain ⟨last, same⟩ := List.getElem?_eq_some_iff.mp hc
      rw [List.length_singleton] at last
      rw [List.getElem_singleton] at same
      have bottom := descends.getLast?
      rw [List.getLast?_eq_getElem?] at bottom
      refine ⟨e, he, same, ?_, ?_⟩
      · rw [List.getElem?_append_left (by omega), ← bottom]
        congr 1
        omega
      · rw [List.getElem?_append_right (by omega)]
        have place : i + 1 - chain.length = 0 := by omega
        rw [place]
        rfl

/-! ## The climb -/

/-- The caller of a known entry is known. -/
theorem Grown.caller_mem {e : Entry} (grown : Grown root entries) (he : e ∈ entries) :
    e.caller ∈ known root entries := by
  induction entries with
  | nil => exact absurd he List.not_mem_nil
  | cons first entries ih =>
    rw [known_cons]
    rcases List.mem_cons.mp he with rfl | later
    · exact List.mem_cons_of_mem _ grown.2.1
    · exact List.mem_cons_of_mem _ (ih grown.2.2 later)

/-- A climb from an older function does not look at a newer entry. -/
theorem climb_cons {e : Entry} (grown : Grown root (e :: entries)) (fuel : Nat)
    (seen : List FunctionId) {f : FunctionId} (hf : f ∈ known root entries) :
    climb root (e :: entries) fuel seen f = climb root entries fuel seen f := by
  induction fuel generalizing seen f with
  | zero => rfl
  | succ fuel ih =>
    have newer : ¬ e.callee = f := fun same => grown.1 (same ▸ hf)
    have found : ((e :: entries).find? fun x => x.callee = f) =
        entries.find? fun x => x.callee = f := by
      rw [List.find?_cons_of_neg (by simpa using newer)]
    unfold climb
    split
    next => rfl
    next =>
      rw [found]
      cases caller : entries.find? fun x => x.callee = f with
      | none => rfl
      | some x =>
        have older := grown.2.2.caller_mem (List.mem_of_find?_eq_some caller)
        simp only [ih (x.caller :: seen) older]

/-- The climb from a known function reaches the root. `seen` holds the function itself and newer
ones, so that the check for a function that comes back never fires. -/
theorem climb_descends (grown : Grown root entries) {fuel : Nat} (enough : entries.length < fuel)
    {seen : List FunctionId} {f : FunctionId} (hf : f ∈ known root entries)
    (newer : ∀ g ∈ seen, g = f ∨ g ∉ known root entries) :
    Descends root entries (f :: (climb root entries fuel seen f).1).reverse
    (climb root entries fuel seen f).2.reverse f ∧
    (f :: (climb root entries fuel seen f).1).Nodup ∧
    ∀ g ∈ f :: (climb root entries fuel seen f).1, g ∈ known root entries := by
  induction entries generalizing fuel seen f with
  | nil =>
    obtain rfl : f = root := List.mem_singleton.mp hf
    obtain ⟨fuel, rfl⟩ := Nat.exists_eq_succ_of_ne_zero (Nat.ne_of_gt enough)
    simp only [climb, if_true]
    exact ⟨.root, by simp, fun g hg => hg⟩
  | cons e entries ih =>
    by_cases older : f ∈ known root entries
    · rw [climb_cons grown fuel seen older]
      have newer' : ∀ g ∈ seen, g = f ∨ g ∉ known root entries := by
        intro g hg
        rcases newer g hg with same | unknown
        · exact .inl same
        · exact .inr fun h => unknown (List.mem_cons_of_mem _ h)
      obtain ⟨descends, nodup, inside⟩ := ih grown.2.2 (Nat.lt_of_succ_lt enough) older newer'
      exact ⟨descends.mono (List.subset_cons_self e entries), nodup,
        fun g hg => List.mem_cons_of_mem _ (inside g hg)⟩
    · obtain rfl : f = e.callee := by
        rcases List.mem_cons.mp hf with same | h
        · exact same
        · exact absurd h older
      obtain ⟨fuel, rfl⟩ :=
        Nat.exists_eq_succ_of_ne_zero (Nat.ne_of_gt (Nat.lt_of_le_of_lt (Nat.zero_le _) enough))
      have notRoot : ¬ e.callee = root := fun same => older (same ▸ root_mem_known root entries)
      have callerOther : e.caller ≠ e.callee := fun same => older (same ▸ grown.2.1)
      have notSeen : e.caller ∉ seen := by
        intro h
        rcases newer e.caller h with same | unknown
        · exact callerOther same
        · exact unknown (List.mem_cons_of_mem _ grown.2.1)
      have newer' : ∀ g ∈ e.caller :: seen, g = e.caller ∨ g ∉ known root entries := by
        intro g hg
        rcases List.mem_cons.mp hg with same | h
        · exact .inl same
        · rcases newer g h with same | unknown
          · exact .inr (same ▸ older)
          · exact .inr fun h => unknown (List.mem_cons_of_mem _ h)
      have step : climb root (e :: entries) (fuel + 1) seen e.callee =
          (e.caller :: (climb root entries fuel (e.caller :: seen) e.caller).1,
            e.call :: (climb root entries fuel (e.caller :: seen) e.caller).2) := by
        rw [climb, if_neg notRoot, List.find?_cons_of_pos (by simp)]
        simp only [if_neg notSeen, climb_cons grown fuel _ grown.2.1]
      obtain ⟨descends, nodup, inside⟩ :=
        ih grown.2.2 (Nat.lt_of_succ_lt_succ enough) grown.2.1 newer'
      rw [step]
      refine ⟨?_, ?_, ?_⟩
      · simp only [List.reverse_cons (a := e.callee), List.reverse_cons (a := e.call)]
        exact .call (descends.mono (List.subset_cons_self e entries)) List.mem_cons_self
      · exact List.nodup_cons.mpr ⟨fun h => older (inside _ h), nodup⟩
      · intro g hg
        rcases List.mem_cons.mp hg with rfl | h
        · exact List.mem_cons_self
        · exact List.mem_cons_of_mem _ (inside g h)

/-- The chain to a known function goes from the root down to it by entries, and repeats nothing. -/
theorem chainTo_descends (grown : Grown root entries) {f : FunctionId}
    (hf : f ∈ known root entries) :
    Descends root entries (chainTo root entries f).1 (chainTo root entries f).2 f ∧
    (chainTo root entries f).1.Nodup := by
  have newer : ∀ g ∈ [f], g = f ∨ g ∉ known root entries :=
    fun g hg => .inl (List.mem_singleton.mp hg)
  obtain ⟨descends, nodup, _⟩ := climb_descends grown (Nat.lt_succ_self _) hf newer
  exact ⟨descends, List.pairwise_reverse.mpr (nodup.imp Ne.symm)⟩

/-! ## One chain to a function -/

theorem Grown.callee_ne {e : Entry} (grown : Grown root entries) (he : e ∈ entries) :
    e.callee ≠ root := by
  induction entries with
  | nil => exact absurd he List.not_mem_nil
  | cons first entries ih =>
    rcases List.mem_cons.mp he with rfl | later
    · rintro same
      exact grown.1 (same ▸ root_mem_known root entries)
    · exact ih grown.2.2 later

/-- Two entries of one function are the same. -/
theorem Grown.eq_of_callee {e e' : Entry} (grown : Grown root entries) (he : e ∈ entries)
    (he' : e' ∈ entries) (same : e.callee = e'.callee) : e = e' := by
  have known {x : Entry} {entries : List Entry} (h : x ∈ entries) : x.callee ∈ known root entries :=
    List.mem_append_left _ (List.mem_map_of_mem h)
  induction entries with
  | nil => exact absurd he List.not_mem_nil
  | cons first entries ih =>
    rcases List.mem_cons.mp he with rfl | later
    · rcases List.mem_cons.mp he' with rfl | later'
      · rfl
      · exact absurd (same ▸ known later') grown.1
    · rcases List.mem_cons.mp he' with rfl | later'
      · exact absurd (same ▸ known later) grown.1
      · exact ih grown.2.2 later later'

theorem Descends.unique (grown : Grown root entries) {chain chain' : List FunctionId}
    {calls calls' : List OpId} {f : FunctionId} (h : Descends root entries chain calls f)
    (h' : Descends root entries chain' calls' f) :
    chain = chain' ∧ calls = calls' := by
  induction h generalizing chain' calls' with
  | root =>
    generalize same : root = f at h'
    cases h' with
    | root => exact ⟨rfl, rfl⟩
    | call _ he => exact absurd same.symm (grown.callee_ne he)
  | @call chain calls e _ he ih =>
    generalize same : e.callee = f at h'
    cases h' with
    | root => exact absurd same (grown.callee_ne he)
    | call above he' =>
      obtain rfl := grown.eq_of_callee he he' same
      obtain ⟨rfl, rfl⟩ := ih above
      exact ⟨rfl, rfl⟩

/-- The climb from a function comes back to one that it has seen, and stops short of the root. -/
inductive ComesBack (root : FunctionId) (entries : List Entry) : (seen : List FunctionId) →
    FunctionId → Prop where
  | here {seen f e} : f ≠ root → (entries.find? fun e => e.callee = f) = some e → e.caller ∈ seen →
      ComesBack root entries seen f
  | above {seen f e} : f ≠ root → (entries.find? fun e => e.callee = f) = some e → e.caller ∉ seen →
      ComesBack root entries (e.caller :: seen) e.caller → ComesBack root entries seen f

/-- A climb along a chain that repeats nothing does not come back. -/
theorem Descends.not_comesBack (grown : Grown root entries) {chain : List FunctionId}
    {calls : List OpId} {f : FunctionId} (h : Descends root entries chain calls f)
    (distinct : chain.Nodup) {seen : List FunctionId} (unseen : ∀ g ∈ chain, g ∈ seen → g = f) :
    ¬ ComesBack root entries seen f := by
  induction h generalizing seen with
  | root =>
    intro back
    cases back with
    | here other => exact other rfl
    | above other => exact other rfl
  | @call chain calls e above he ih =>
    have last : e.caller ∈ chain := List.mem_of_getLast? above.getLast?
    obtain ⟨distinct', _, apart⟩ := List.nodup_append.mp distinct
    have older {g : FunctionId} (hg : g ∈ chain) : g ∉ seen := by
      intro met
      exact apart g hg e.callee (List.mem_singleton.mpr rfl)
        (unseen g (List.mem_append_left _ hg) met)
    have only {x : Entry} (found : (entries.find? fun x => x.callee = e.callee) = some x) :
        x = e := by
      have accepted := List.find?_some found
      exact grown.eq_of_callee (List.mem_of_find?_eq_some found) he (of_decide_eq_true accepted)
    intro back
    cases back with
    | here _ found met =>
      obtain rfl := only found
      exact older last met
    | above _ found _ back =>
      obtain rfl := only found
      refine ih distinct' (fun g hg met => ?_) back
      rcases List.mem_cons.mp met with same | met
      · exact same
      · exact absurd met (older hg)

/-- A chain leads to a function that the query knows. -/
theorem Descends.mem_known {chain : List FunctionId} {calls : List OpId} {f : FunctionId}
    (h : Descends root entries chain calls f) : f ∈ known root entries := by
  cases h with
  | root => exact root_mem_known root entries
  | call _ he => exact List.mem_append_left _ (List.mem_map_of_mem he)

/-- The climb finds the chain that leads to a function, and reaches the root. -/
theorem chainTo_of_descends (grown : Grown root entries) {chain : List FunctionId}
    {calls : List OpId} {f : FunctionId} (h : Descends root entries chain calls f) :
    chainTo root entries f = (chain, calls) ∧ ¬ ComesBack root entries [f] f := by
  obtain ⟨descends, distinct⟩ := chainTo_descends grown h.mem_known
  obtain ⟨chains, calls⟩ := descends.unique grown h
  refine ⟨Prod.ext chains calls, descends.not_comesBack grown distinct fun g _ met => ?_⟩
  exact List.mem_singleton.mp met

/-- The chain of a caller is the chain of its callee without the callee. -/
theorem Descends.of_call {chain : List FunctionId} {calls : List OpId} {f g caller : FunctionId}
    (h : Descends root entries (chain ++ [f]) calls g) (last : chain.getLast? = some caller) :
    ∃ calls, Descends root entries chain calls caller := by
  generalize split : chain ++ [f] = long at h
  cases h with
  | root =>
    have length := congrArg List.length split
    have := List.length_pos_of_mem (List.mem_of_getLast? last)
    simp only [List.length_append, List.length_singleton] at length
    omega
  | @call above calls e descends _ =>
    obtain ⟨rfl, _⟩ := List.append_inj' split rfl
    rw [descends.getLast?, Option.some.injEq] at last
    exact ⟨calls, last ▸ descends⟩

end Relock.Search
