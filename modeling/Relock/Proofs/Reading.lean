/-!
# Reading and failing for a reason

A reader is made of smaller readers. It succeeds where all of them do, and fails where one of them
does. `FailsOnly reason x` says that `x` fails for reasons of one kind or not at all; a reader has
it from its parts, one lemma for each way they are put together.
-/

namespace Relock

/-! ## Reading that succeeds -/

theorem ok_bind {ε α β : Type} (a : α) (f : α → Except ε β) : (Except.ok a >>= f) = f a := rfl

/-- A bind that succeeds has two halves that do. -/
theorem bind_eq_ok {ε α β : Type} {x : Except ε α} {f : α → Except ε β} {b : β}
    (h : (x >>= f) = .ok b) :
    ∃ a, x = .ok a ∧ f a = .ok b := by
  cases x with
  | error e => cases h
  | ok a => exact ⟨a, rfl, h⟩

theorem map_eq_ok {ε α β : Type} {x : Except ε α} {f : α → β} {b : β} (h : x.map f = .ok b) :
    ∃ a, x = .ok a ∧ f a = b := by
  cases x with
  | error e => cases h
  | ok a =>
    cases h
    exact ⟨a, rfl, rfl⟩

theorem exists_of_any {ε α : Type} {x : Except ε α} {holds : α → Bool}
    (h : x.toOption.any holds = true) :
    ∃ a, x = .ok a ∧ holds a = true := by
  cases x with
  | error e => cases h
  | ok a => exact ⟨a, rfl, h⟩

/-- A row that is read has one entry for each form. -/
theorem length_of_mapM {ε α β : Type} {f : α → Except ε β} {row : List α} {out : List β}
    (h : row.mapM f = .ok out) : out.length = row.length := by
  induction row generalizing out with
  | nil =>
    cases h
    rfl
  | cons a row ih =>
    rw [List.mapM_cons] at h
    obtain ⟨b, _, rest⟩ := bind_eq_ok h
    obtain ⟨bs, hbs, last⟩ := bind_eq_ok rest
    cases last
    exact congrArg (· + 1) (ih hbs)

/-- What every form gives, every entry of a row that is read has. -/
theorem forall_of_mapM {ε α β : Type} {f : α → Except ε β} {P : β → Prop} {row : List α}
    {out : List β} (one : ∀ a ∈ row, ∀ b, f a = .ok b → P b) (h : row.mapM f = .ok out) :
    ∀ b ∈ out, P b := by
  induction row generalizing out with
  | nil =>
    cases h
    exact fun b hb => absurd hb List.not_mem_nil
  | cons a row ih =>
    rw [List.mapM_cons] at h
    obtain ⟨b, hb, rest⟩ := bind_eq_ok h
    obtain ⟨bs, hbs, last⟩ := bind_eq_ok rest
    cases last
    intro x hx
    rcases List.mem_cons.mp hx with rfl | later
    · exact one a List.mem_cons_self x hb
    · exact ih (fun c hc => one c (List.mem_cons_of_mem _ hc)) hbs x later

/-- What each entry of a row that is read has from its form, the row has from its forms. -/
theorem map_of_mapM {ε α β γ : Type} {f : α → Except ε β} {g : α → γ} {g' : β → γ} {row : List α}
    {out : List β} (one : ∀ {a b}, f a = .ok b → g' b = g a) (h : row.mapM f = .ok out) :
    out.map g' = row.map g := by
  induction row generalizing out with
  | nil =>
    cases h
    rfl
  | cons a row ih =>
    rw [List.mapM_cons] at h
    obtain ⟨b, hb, rest⟩ := bind_eq_ok h
    obtain ⟨bs, hbs, last⟩ := bind_eq_ok rest
    cases last
    rw [List.map_cons, List.map_cons, one hb, ih hbs]

theorem flatMap_of_mapM {ε α β γ : Type} {f : α → Except ε β} {g : α → List γ} {g' : β → List γ}
    {row : List α} {out : List β} (one : ∀ {a b}, f a = .ok b → g' b = g a)
    (h : row.mapM f = .ok out) :
    out.flatMap g' = row.flatMap g := by
  rw [List.flatMap_def, List.flatMap_def, map_of_mapM one h]

theorem forall_of_forM {ε α : Type} {f : α → Except ε Unit} {row : List α}
    (h : row.forM f = .ok ()) :
    ∀ a ∈ row, f a = .ok () := by
  induction row with
  | nil => exact List.forall_mem_nil _
  | cons a row ih =>
    obtain ⟨⟨⟩, first, rest⟩ := bind_eq_ok h
    exact List.forall_mem_cons.mpr ⟨first, ih rest⟩

/-- What comes after a check that does not refuse. -/
theorem guard_eq_ok {ε α : Type} {c : Prop} [Decidable c] {e : ε} {rest : Unit → Except ε α} {a : α}
    (h : (if c then Except.error e >>= rest else rest ()) = .ok a) : ¬ c ∧ rest () = .ok a := by
  split at h
  next => cases h
  next absent => exact ⟨absent, h⟩

theorem mapM_congr {ε α β : Type} {f g : α → Except ε β} {row : List α}
    (each : ∀ a ∈ row, f a = g a) :
    row.mapM f = row.mapM g := by
  induction row with
  | nil => rfl
  | cons a row ih =>
    obtain ⟨first, later⟩ := List.forall_mem_cons.mp each
    rw [List.mapM_cons, List.mapM_cons, first, ih later]

/-- What every step keeps, a row of steps keeps. -/
theorem keeps_of_foldlM {ε α β : Type} {f : β → α → Except ε β} {P : β → Prop} {row : List α}
    {b b' : β} (step : ∀ {b a b'}, P b → f b a = .ok b' → P b') (start : P b)
    (h : row.foldlM f b = .ok b') : P b' := by
  induction row generalizing b with
  | nil =>
    cases h
    exact start
  | cons a row ih =>
    rw [List.foldlM_cons] at h
    obtain ⟨_, first, h⟩ := bind_eq_ok h
    exact ih (step start first) h

/-! ## Reading that fails -/

/-- A bind fails in one of its halves. -/
theorem bind_eq_error_iff {ε α β : Type} {x : Except ε α} {f : α → Except ε β} {e : ε} :
    (x >>= f) = .error e ↔ x = .error e ∨ ∃ a, x = .ok a ∧ f a = .error e := by
  cases x with
  | error e' =>
    constructor
    · intro h
      cases h
      exact .inl rfl
    · rintro (⟨⟨⟩⟩ | ⟨_, ⟨⟩, _⟩)
      rfl
  | ok a =>
    refine ⟨fun h => .inr ⟨a, rfl, h⟩, ?_⟩
    rintro (h | ⟨_, ⟨⟩, h⟩)
    · cases h
    · exact h

/-- A result that is an error for reasons of a kind, if it is one. -/
def FailsOnly {ε α : Type} (reason : ε → Prop) (x : Except ε α) : Prop :=
  ∀ e, x = .error e → reason e

namespace FailsOnly

variable {ε α β : Type} {reason other : ε → Prop}

theorem ok (a : α) : FailsOnly reason (.ok a) := by
  intro e h
  cases h

theorem error {e : ε} (h : reason e) : FailsOnly reason (.error e : Except ε α) := by
  intro e' same
  cases same
  exact h

theorem mono {x : Except ε α} (h : FailsOnly reason x) (weaker : ∀ e, reason e → other e) :
    FailsOnly other x :=
  fun e failed => weaker e (h e failed)

/-- What comes second may rely on what the first part gave. -/
theorem bind {x : Except ε α} {f : α → Except ε β} (first : FailsOnly reason x)
    (second : ∀ a, x = .ok a → FailsOnly reason (f a)) : FailsOnly reason (x >>= f) := by
  cases x with
  | error e => exact .error (first e rfl)
  | ok a => exact second a rfl

theorem guard {c : Prop} [Decidable c] {e : ε} {rest : Unit → Except ε β} (met : c → reason e)
    (unmet : ¬ c → FailsOnly reason (rest ())) :
    FailsOnly reason (if c then Except.error e >>= rest else rest ()) := by
  split
  next h => exact .error (met h)
  next h => exact unmet h

theorem mapM {f : α → Except ε β} {row : List α} (one : ∀ a ∈ row, FailsOnly reason (f a)) :
    FailsOnly reason (row.mapM f) := by
  induction row with
  | nil => exact .ok _
  | cons a row ih =>
    obtain ⟨first, later⟩ := List.forall_mem_cons.mp one
    rw [List.mapM_cons]
    exact first.bind fun _ _ => (ih later).bind fun _ _ => .ok _

theorem forM {f : α → Except ε Unit} {row : List α} (one : ∀ a ∈ row, FailsOnly reason (f a)) :
    FailsOnly reason (row.forM f) := by
  induction row with
  | nil => exact .ok _
  | cons a row ih =>
    obtain ⟨first, later⟩ := List.forall_mem_cons.mp one
    exact first.bind fun _ _ => ih later

theorem foldlM {f : β → α → Except ε β} {row : List α}
    (one : ∀ b, ∀ a ∈ row, FailsOnly reason (f b a)) (b : β) :
    FailsOnly reason (row.foldlM f b) := by
  induction row generalizing b with
  | nil => exact .ok _
  | cons a row ih =>
    rw [List.foldlM_cons]
    exact (one b a List.mem_cons_self).bind fun b' _ =>
      ih (fun b a h => one b a (List.mem_cons_of_mem _ h)) b'

end FailsOnly
end Relock
