import Relock.Keyed

/-!
# Keyed rows

What a row gives for a key, and that a key is set in one place. A row whose keys are all different
is known by what it gives.
-/

namespace Relock.Keyed

variable {α β γ : Type} [DecidableEq α]

/-- What a row gives for a key stands in it under that key. -/
theorem mem_of_get? {row : Keyed α β} {key : α} {entry : β} (h : row.get? key = some entry) :
    (key, entry) ∈ row := by
  obtain ⟨found, is, rfl⟩ := Option.map_eq_some_iff.mp h
  have accepted := List.find?_some is
  have same : found.1 = key := of_decide_eq_true accepted
  exact same ▸ List.mem_of_find?_eq_some is

theorem get?_cons (k : α) (e : β) (row : Keyed α β) (key : α) :
    get? ((k, e) :: row) key = if k = key then some e else row.get? key := by
  simp only [get?, List.find?_cons]
  by_cases same : k = key
  · simp only [same, decide_true, Option.map_some, if_true]
  · simp only [same, decide_false, if_false]

/-- A row whose keys are all different gives for a key what stands in it under that key. -/
theorem get?_of_mem {row : Keyed α β} (nodup : row.keys.Nodup) {key : α} {entry : β}
    (h : (key, entry) ∈ row) :
    row.get? key = some entry := by
  induction row with
  | nil => cases h
  | cons first row ih =>
    obtain ⟨k, e⟩ := first
    obtain ⟨once, nodup⟩ := List.nodup_cons.mp nodup
    rw [get?_cons]
    rcases List.mem_cons.mp h with here | later
    · cases here
      exact if_pos rfl
    · rw [if_neg fun same => once (List.mem_map.mpr ⟨_, later, same.symm⟩), ih nodup later]

theorem mem_set {row : Keyed α β} {key k : α} {entry e : β} (h : (k, e) ∈ row.set key entry) :
    (k, e) ∈ row ∨ (k = key ∧ e = entry) := by
  induction row with
  | nil =>
    cases List.mem_singleton.mp h
    exact .inr ⟨rfl, rfl⟩
  | cons first row ih =>
    unfold Keyed.set at h
    split at h
    next same =>
      rcases List.mem_cons.mp h with here | later
      · cases here
        exact .inr ⟨same, rfl⟩
      · exact .inl (List.mem_cons_of_mem _ later)
    next =>
      rcases List.mem_cons.mp h with here | later
      · exact .inl (here ▸ List.mem_cons_self)
      · rcases ih later with old | new
        · exact .inl (List.mem_cons_of_mem _ old)
        · exact .inr new

/-- A set key gives what it was set to, and the others what they gave. -/
theorem get?_set (row : Keyed α β) (key : α) (entry : β) (k : α) :
    (row.set key entry).get? k = if key = k then some entry else row.get? k := by
  induction row with
  | nil => exact get?_cons key entry [] k
  | cons first row ih =>
    obtain ⟨k', e⟩ := first
    unfold Keyed.set
    split
    next same =>
      rw [get?_cons, get?_cons, same]
      split <;> rfl
    next other =>
      rw [get?_cons, get?_cons, ih]
      by_cases here : k' = k
      · rw [if_pos here, if_pos here, if_neg fun h => other (here.trans h.symm)]
      · rw [if_neg here, if_neg here]

/-- A key that is new is set at the end. -/
theorem set_of_notMem_keys {row : Keyed α β} {key : α} (new : key ∉ row.keys) (entry : β) :
    row.set key entry = row ++ [(key, entry)] := by
  induction row with
  | nil => rfl
  | cons first row ih =>
    obtain ⟨k, e⟩ := first
    obtain ⟨other, new⟩ := not_or.mp (mt List.mem_cons.mpr new)
    rw [Keyed.set, if_neg fun same => other same.symm, ih new, List.cons_append]

/-- A key that a row gives nothing for is set at the end. -/
theorem set_of_get?_eq_none {row : Keyed α β} {key : α} (absent : row.get? key = none) (entry : β) :
    row.set key entry = row ++ [(key, entry)] := by
  apply set_of_notMem_keys
  intro mem
  obtain ⟨e, held, same⟩ := List.mem_map.mp mem
  exact List.find?_eq_none.mp (Option.map_eq_none_iff.mp absent) e held (decide_eq_true same)

/-- A key that is there is set in its place. -/
theorem keys_set_of_mem {row : Keyed α β} {key : α} (mem : key ∈ row.keys) (entry : β) :
    (row.set key entry).keys = row.keys := by
  induction row with
  | nil => exact absurd mem List.not_mem_nil
  | cons first row ih =>
    obtain ⟨k, e⟩ := first
    unfold Keyed.set
    split
    next => rfl
    next other =>
      have later : key ∈ keys row := (List.mem_cons.mp mem).resolve_left fun same => other same.symm
      exact congrArg (k :: ·) (ih later)

/-- Setting a key takes no key twice. -/
theorem nodup_keys_set {row : Keyed α β} (nodup : row.keys.Nodup) (key : α) (entry : β) :
    (row.set key entry).keys.Nodup := by
  induction row with
  | nil => exact List.pairwise_singleton _ _
  | cons first row ih =>
    obtain ⟨k, e⟩ := first
    obtain ⟨once, nodup⟩ := List.nodup_cons.mp nodup
    unfold Keyed.set
    split
    next => exact List.nodup_cons.mpr ⟨once, nodup⟩
    next other =>
      refine List.nodup_cons.mpr ⟨fun h => ?_, ih nodup⟩
      obtain ⟨⟨k', e'⟩, mem, rfl⟩ := List.mem_map.mp h
      rcases mem_set mem with old | ⟨new, _⟩
      · exact once (List.mem_map.mpr ⟨_, old, rfl⟩)
      · exact other new

/-- Setting a key to a new entry takes no entry twice. -/
theorem nodup_entries_set {row : Keyed α β} (nodup : row.entries.Nodup) {key : α} {entry : β}
    (new : entry ∉ row.entries) :
    (row.set key entry).entries.Nodup := by
  induction row with
  | nil => exact List.pairwise_singleton _ _
  | cons first row ih =>
    obtain ⟨k, e⟩ := first
    obtain ⟨once, nodup⟩ := List.nodup_cons.mp nodup
    obtain ⟨other, new⟩ := not_or.mp (mt List.mem_cons.mpr new)
    unfold Keyed.set
    split
    next => exact List.nodup_cons.mpr ⟨new, nodup⟩
    next =>
      refine List.nodup_cons.mpr ⟨fun h => ?_, ih nodup new⟩
      obtain ⟨⟨k', e'⟩, mem, rfl⟩ := List.mem_map.mp h
      rcases mem_set mem with old | ⟨_, same⟩
      · exact once (List.mem_map.mpr ⟨_, old, rfl⟩)
      · exact other same.symm

/-- A row whose keys are all different is its keys with what it gives for them. -/
theorem eq_map_keys {row : Keyed α β} (nodup : row.keys.Nodup) (fresh : β) :
    row = row.keys.map fun key => (key, (row.get? key).getD fresh) := by
  rw [keys, List.map_map]
  refine (List.map_id row).symm.trans (List.map_congr_left fun entry mem => ?_)
  show entry = (entry.1, (row.get? entry.1).getD fresh)
  rw [get?_of_mem nodup (show (entry.1, entry.2) ∈ row from mem), Option.getD_some]

/-- If only one key has a part in what is put together from a row, that is its part. -/
theorem flatMap_eq_get? {row : Keyed α (List β)} (nodup : row.keys.Nodup)
    {part : α × List β → List γ} {key : α} (others : ∀ entry ∈ row, entry.1 ≠ key → part entry = [])
    (absent : part (key, []) = []) :
    row.flatMap part = part (key, (row.get? key).getD []) := by
  induction row with
  | nil => exact absent.symm
  | cons first row ih =>
    obtain ⟨k, members⟩ := first
    obtain ⟨once, nodup⟩ := List.nodup_cons.mp nodup
    obtain ⟨here, others⟩ := List.forall_mem_cons.mp others
    rw [List.flatMap_cons, get?_cons]
    by_cases same : k = key
    · subst same
      have rest : row.flatMap part = [] := by
        refine List.flatMap_eq_nil_iff.mpr fun entry mem => others entry mem fun again => once ?_
        exact List.mem_map.mpr ⟨entry, mem, again⟩
      rw [rest, List.append_nil, if_pos rfl, Option.getD_some]
    · rw [here same, List.nil_append, ih nodup others, if_neg same]

end Relock.Keyed
