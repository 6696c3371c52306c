import Relock.Proofs.Source.Misread

/-!
# Faults in bodies

A body is read in three rounds, and a later round knows what the earlier ones gave. What the drafts
of the first round have from their forms is kept by `Draft.Drawn`, so that the faults of the later
rounds are faults of the forms too: a name that no draft gives is given by no form, and a block that
ends in no terminator is written without one.
-/

namespace Relock.Source

variable {scope : Scope}

/-! ## Rows side by side -/

section Rows

variable {α β γ : Type} {R : α → β → Prop} {S : β → γ → Prop} {T : α → γ → Prop}

theorem exists_of_forall₂ {row : List α} {out : List β} (h : List.Forall₂ R row out) {b : β}
    (mem : b ∈ out) :
    ∃ a ∈ row, R a b := by
  induction h with
  | nil => cases mem
  | cons first _ ih =>
    rcases List.mem_cons.mp mem with rfl | later
    · exact ⟨_, List.mem_cons_self, first⟩
    · obtain ⟨a, inside, h⟩ := ih later
      exact ⟨a, List.mem_cons_of_mem _ inside, h⟩

theorem forall₂_trans {row : List α} {middle : List β} {out : List γ}
    (first : List.Forall₂ R row middle) (second : List.Forall₂ S middle out)
    (both : ∀ a b c, R a b → S b c → T a c) : List.Forall₂ T row out := by
  induction first generalizing out with
  | nil =>
    cases second
    exact .nil
  | cons here _ ih =>
    cases second with
    | cons there more => exact .cons (both _ _ _ here there) (ih more)

theorem getLast?_of_forall₂ {row : List α} {out : List β} (h : List.Forall₂ R row out) :
    Option.Rel R row.getLast? out.getLast? := by
  have turned := List.forall₂_reverse_iff.mpr h
  rw [List.getLast?_eq_head?_reverse, List.getLast?_eq_head?_reverse]
  generalize row.reverse = row at turned
  generalize out.reverse = out at turned
  cases turned with
  | nil => exact .none
  | cons first _ => exact .some first

end Rows

/-! ## Drafts -/

theorem front_unlocated (parts : List Sexp) : Sexp.unlocated parts <+: parts := by
  unfold Sexp.unlocated
  split
  next => exact List.dropLast_prefix parts
  next => exact List.prefix_refl parts

theorem mem_of_mem_arguments {kind : OpKind} {parts : List Sexp} {form : Sexp}
    (h : form ∈ Sexp.arguments kind parts) : form ∈ parts := by
  unfold Sexp.arguments at h
  split at h
  next => exact (front_unlocated parts).subset (List.mem_of_mem_drop h)
  next => exact (front_unlocated parts).subset h

theorem length_lt_two {forms : List Sexp} (other : ∀ a b rest, forms = a :: b :: rest → False) :
    forms.length < 2 := by
  rcases forms with _ | ⟨a, _ | ⟨b, rest⟩⟩
  · exact Nat.zero_lt_two
  · exact Nat.one_lt_two
  · exact (other a b rest rfl).elim

theorem fails_locationOf (place : Place) (parts : List Sexp) :
    FailsOnly (Misreads scope (.list (.symbol "at" :: parts))) (locationOf place parts) := by
  unfold locationOf
  split
  next file line rest =>
    have named (directory : String) :
        FailsOnly (Misreads scope (.list (.symbol "at" :: file :: line :: rest))) (do
        let file ← nameOf place file
        return ({ file := file, line := ← integerOf place line, directory := directory } :
          Location)) := by
      refine ((fails_nameOf place file).mono (Misreads.inside (by simp))).bind fun _ _ => ?_
      exact ((fails_integerOf place line).mono (Misreads.inside (by simp))).bind fun _ _ => .ok _
    cases rest with
    | nil => exact named ""
    | cons directory rest =>
      exact ((fails_nameOf place directory).mono (Misreads.inside (by simp))).bind fun directory
        _ => named directory
  next other => exact .error (.location (length_lt_two other))

theorem fails_splitLocation (place : Place) (parts : List Sexp) :
    FailsOnly (MisreadsAny scope parts) (splitLocation place parts) := by
  unfold splitLocation
  split
  next at_ last =>
    exact ((fails_locationOf place at_).mono (Misreads.any (List.mem_of_getLast? last))).bind fun _
      _ => .ok _
  next => exact .ok _

theorem unlocated_of_at {parts at_ : List Sexp}
    (last : parts.getLast? = some (.list (.symbol "at" :: at_))) :
    Sexp.unlocated parts = parts.dropLast := by
  unfold Sexp.unlocated
  split
  next => rfl
  next other => exact absurd last (other at_)

theorem unlocated_of_none {parts : List Sexp}
    (other : ∀ at_, parts.getLast? = some (.list (.symbol "at" :: at_)) → False) :
    Sexp.unlocated parts = parts := by
  unfold Sexp.unlocated
  split
  next at_ last => exact (other at_ last).elim
  next => rfl

theorem unlocated_of_splitLocation {place : Place} {parts rest : List Sexp}
    {location : Option Location} (h : splitLocation place parts = .ok (rest, location)) :
    rest = Sexp.unlocated parts := by
  unfold splitLocation at h
  split at h
  next at_ last =>
    obtain ⟨_, _, h⟩ := bind_eq_ok h
    cases h
    exact (unlocated_of_at last).symm
  next other =>
    cases h
    exact (unlocated_of_none other).symm

theorem fails_resultOf (place : Place) (kind : OpKind) (parts : List Sexp) :
    FailsOnly (Misreads scope (.list (.symbol kind.name :: parts)))
      (resultOf scope.structs place kind (Sexp.unlocated parts)) := by
  have sub := (front_unlocated parts).subset
  unfold resultOf
  split
  next => exact .ok _
  next has =>
    split
    next name type args whole =>
      rw [whole] at sub
      refine ((fails_symbolName place name).mono (Misreads.inside ?_)).bind fun _ _ => ?_
      · exact List.mem_cons_of_mem _ (sub (by simp))
      refine ((fails_typeOf place type).mono (Misreads.inside ?_)).bind fun _ _ => .ok _
      exact List.mem_cons_of_mem _ (sub (by simp))
    next other =>
      exact .error (.result (by simpa using has) (length_lt_two other))

theorem ofName?_name (kind : OpKind) : OpKind.ofName? kind.name = some kind := by
  cases kind <;> rfl

theorem eq_name_of_ofName? {tag : String} {kind : OpKind} (h : OpKind.ofName? tag = some kind) :
    tag = kind.name := by
  have found := List.find?_some h
  exact (of_decide_eq_true found).symm

/-- What a draft has from its form. -/
structure Draft.Drawn (form : Sexp) (draft : Draft) : Prop where
  parts : ∃ parts, form = .list (.symbol draft.kind.name :: parts) ∧
    draft.args = Sexp.arguments draft.kind parts
  result : draft.resultNames = form.resultName?.toList

theorem result_of_resultOf {structs : List String} {place : Place} {kind : OpKind}
    {parts args : List Sexp} {result : Option (String × Ty)}
    (h : resultOf structs place kind (Sexp.unlocated parts) = .ok (result, args)) :
    args = Sexp.arguments kind parts ∧
      result.toList.map (·.1) = (Sexp.resultName? (.list (.symbol kind.name :: parts))).toList := by
  unfold resultOf at h
  unfold Sexp.arguments
  split at h
  next without =>
    cases h
    have none : kind.hasResult = false := by simpa using without
    rw [none]
    refine ⟨rfl, ?_⟩
    unfold Sexp.resultName?
    split
    next same =>
      cases same
      simp [ofName?_name, none]
    next => rfl
  next has =>
    have has : kind.hasResult = true := by simpa using has
    split at h
    next name type rest whole =>
      obtain ⟨word, named, h⟩ := bind_eq_ok h
      obtain ⟨type, _, h⟩ := bind_eq_ok h
      cases h
      rw [whole, if_pos has]
      refine ⟨rfl, ?_⟩
      obtain ⟨more, split⟩ := front_unlocated parts
      rw [whole] at split
      rw [← split, eq_of_symbolName named]
      by_cases kept : word = "_" <;> simp [Sexp.resultName?, ofName?_name, has, kept]
    next => cases h

theorem fails_draftOf (place : Place) (form : Sexp) :
    FailsOnly (Misreads scope form) (draftOf scope.structs place form) := by
  unfold draftOf
  split
  next tag parts =>
    split
    next unknown => exact .error (.unknownOperation rfl unknown)
    next kind known =>
      cases eq_name_of_ofName? known
      have located : FailsOnly (Misreads scope (.list (.symbol kind.name :: parts)))
          (splitLocation place parts) :=
        (fails_splitLocation place parts).mono (MisreadsAny.inside fun _ => List.mem_cons_of_mem _)
      refine located.bind fun read located => ?_
      obtain ⟨rest, location⟩ := read
      cases unlocated_of_splitLocation located
      exact (fails_resultOf place kind parts).bind fun _ _ => .ok _
  next other =>
    refine .error (.operation ?_)
    exact Option.eq_none_iff_forall_ne_some.mpr fun tag => Sexp.head?_ne (other tag)

theorem drawn_of_draftOf {structs : List String} {place : Place} {form : Sexp} {draft : Draft}
    (h : draftOf structs place form = .ok draft) : draft.Drawn form := by
  unfold draftOf at h
  split at h
  next tag parts =>
    split at h
    next => cases h
    next kind known =>
      cases eq_name_of_ofName? known
      obtain ⟨⟨rest, location⟩, located, h⟩ := bind_eq_ok h
      obtain ⟨⟨result, args⟩, read, h⟩ := bind_eq_ok h
      cases h
      cases unlocated_of_splitLocation located
      obtain ⟨args, result⟩ := result_of_resultOf read
      exact ⟨⟨parts, rfl, args⟩, result⟩
  next => cases h

/-- The names that a row of operation forms gives to results. -/
def formNames (forms : List Sexp) : List String := forms.filterMap Sexp.resultName?

theorem formNames_cons (form : Sexp) (forms : List Sexp) :
    formNames (form :: forms) = form.resultName?.toList ++ formNames forms := by
  unfold formNames
  cases found : form.resultName? <;> simp [found]

/-- The errors of a row of operation forms after some names. -/
def RowRefused (scope : Scope) (bound : List String) (forms : List Sexp) (e : Error) : Prop :=
  MisreadsAny scope forms e ∨ ∃ name, e.fault = .valueTwice name ∧
    2 ≤ (bound ++ formNames forms).count name

theorem refused_of_draftsOf (place : Place) (bound : List String) (forms : List Sexp) :
    FailsOnly (RowRefused scope bound forms) (draftsOf scope.structs place bound forms) := by
  induction forms generalizing bound with
  | nil => exact .ok _
  | cons form forms ih =>
    have first :
        FailsOnly (RowRefused scope bound (form :: forms)) (draftOf scope.structs place form) :=
      (fails_draftOf place form).mono fun e h => .inl (Misreads.any List.mem_cons_self e h)
    refine first.bind fun draft drafted => ?_
    have given := (drawn_of_draftOf drafted).result
    -- the later forms come after the names of this one
    have later (bound' : List String)
        (counts : ∀ name, (bound' ++ formNames forms).count name =
          (bound ++ formNames (form :: forms)).count name) :
        FailsOnly (RowRefused scope bound (form :: forms))
          (draftsOf scope.structs place bound' forms) := by
      refine (ih bound').mono fun e h => ?_
      rcases h with here | ⟨name, fault, twice⟩
      · exact .inl (MisreadsAny.subset (fun _ => List.mem_cons_of_mem _) e here)
      · exact .inr ⟨name, fault, counts name ▸ twice⟩
    rw [Draft.resultNames] at given
    cases result : draft.result with
    | none =>
      simp only [result] at given ⊢
      refine (later bound fun name => ?_).bind fun _ _ => .ok _
      rw [formNames_cons, ← given]
      rfl
    | some typed =>
      have names : formNames (form :: forms) = typed.1 :: formNames forms := by
        rw [formNames_cons, ← given, result]
        rfl
      dsimp only
      split
      next mem =>
        refine .error (.inr ⟨typed.1, rfl, ?_⟩)
        have one := List.count_pos_iff.mpr mem
        rw [names, List.count_append, List.count_cons_self]
        omega
      next =>
        refine (later (typed.1 :: bound) fun name => ?_).bind fun _ _ => .ok _
        rw [names]
        exact List.perm_middle.symm.count_eq name

/-- Drafts that are made are drawn from the forms, one each, and bind the names that the forms
give. -/
theorem drawn_of_draftsOf {structs : List String} {place : Place} {bound bound' : List String}
    {forms : List Sexp} {drafts : List Draft}
    (h : draftsOf structs place bound forms = .ok (drafts, bound')) :
    List.Forall₂ (fun form draft => Draft.Drawn form draft) forms drafts ∧
    bound'.Perm (bound ++ formNames forms) := by
  induction forms generalizing bound drafts with
  | nil =>
    cases h
    exact ⟨.nil, by rw [formNames, List.filterMap_nil, List.append_nil]⟩
  | cons form forms ih =>
    obtain ⟨draft, drafted, h⟩ := bind_eq_ok h
    have drawn := drawn_of_draftOf drafted
    have given := drawn.result
    rw [Draft.resultNames] at given
    rw [formNames_cons, ← given]
    cases result : draft.result with
    | none =>
      simp only [result] at h
      obtain ⟨_, ⟨⟩, h⟩ := bind_eq_ok h
      obtain ⟨⟨rest, last⟩, more, h⟩ := bind_eq_ok h
      cases h
      obtain ⟨rows, perm⟩ := ih more
      exact ⟨.cons drawn rows, perm⟩
    | some typed =>
      simp only [result] at h
      split at h
      next => cases h
      next =>
        obtain ⟨_, ⟨⟩, h⟩ := bind_eq_ok h
        obtain ⟨⟨rest, last⟩, more, h⟩ := bind_eq_ok h
        cases h
        obtain ⟨rows, perm⟩ := ih more
        exact ⟨.cons drawn rows, perm.trans List.perm_middle.symm⟩

theorem label?_of_symbolName {place : Place} {parts : List Sexp} {label : String}
    (h : symbolName place (parts.headD (.list [])) = .ok label) :
    Sexp.label? parts = some label := by
  cases parts with
  | nil => cases h
  | cons form parts =>
    have same : form = .symbol label := eq_of_symbolName h
    rw [same]
    rfl

/-- The errors of a row of blocks after some labels and names. -/
def BlocksRefused (scope : Scope) (labels bound : List String) (blocks : List (List Sexp))
    (e : Error) : Prop :=
  (∃ parts ∈ blocks, MisreadsAny scope parts e) ∨
    (∃ name, e.fault = .valueTwice name ∧
      2 ≤ (bound ++ blocks.flatMap fun parts => formNames (parts.drop 1)).count name) ∨
    ∃ label, e.fault = .blockTwice label ∧ 2 ≤ (labels ++ blocks.filterMap Sexp.label?).count label

/-- What the draft of a block has from its parts. -/
def DraftBlock.Drawn (parts : List Sexp) (draft : DraftBlock) : Prop :=
  Sexp.label? parts = some draft.label ∧
    List.Forall₂ (fun form draft => Draft.Drawn form draft) (parts.drop 1) draft.ops

theorem drawn_of_draftBlocksOf {structs : List String}
    {function : String} {labels bound bound' : List String} {blocks : List (List Sexp)}
    {drafts : List DraftBlock}
    (h : draftBlocksOf structs function labels bound blocks = .ok (drafts, bound')) :
    List.Forall₂ (fun parts draft => DraftBlock.Drawn parts draft) blocks drafts ∧
      bound'.Perm (bound ++ blocks.flatMap fun parts => formNames (parts.drop 1)) := by
  induction blocks generalizing labels bound drafts with
  | nil =>
    cases h
    exact ⟨.nil, by rw [List.flatMap_nil, List.append_nil]⟩
  | cons parts blocks ih =>
    obtain ⟨label, named, h⟩ := bind_eq_ok h
    obtain ⟨_, h⟩ := guard_eq_ok h
    obtain ⟨⟨ops, middle⟩, first, h⟩ := bind_eq_ok h
    obtain ⟨⟨rest, last⟩, more, h⟩ := bind_eq_ok h
    cases h
    obtain ⟨rows, perm⟩ := drawn_of_draftsOf first
    obtain ⟨later, perms⟩ := ih more
    refine ⟨.cons ⟨label?_of_symbolName named, rows⟩ later, perms.trans ?_⟩
    rw [List.flatMap_cons, ← List.append_assoc]
    exact perm.append_right _

theorem refused_of_draftBlocksOf
    (function : String) (labels bound : List String) {blocks : List (List Sexp)}
    (filled : ∀ parts ∈ blocks, parts ≠ []) :
    FailsOnly (BlocksRefused scope labels bound blocks)
    (draftBlocksOf scope.structs function labels bound blocks) := by
  induction blocks generalizing labels bound with
  | nil => exact .ok _
  | cons parts blocks ih =>
    obtain ⟨nonempty, filled⟩ := List.forall_mem_cons.mp filled
    have head : parts.headD (.list []) ∈ parts := by
      cases parts with
      | nil => exact absurd rfl nonempty
      | cons form parts => exact List.mem_cons_self
    have here (e : Error) (h : MisreadsAny scope parts e) :
        BlocksRefused scope labels bound (parts :: blocks) e :=
      .inl ⟨parts, List.mem_cons_self, h⟩
    refine ((fails_symbolName _ _).mono fun e h => here e (Misreads.any head e h)).bind fun label
      named => ?_
    have labelled : (parts :: blocks).filterMap Sexp.label? = label ::
        blocks.filterMap Sexp.label? := by
      rw [List.filterMap_cons, label?_of_symbolName named]
    refine .guard (fun mem => .inr (.inr ⟨label, rfl, ?_⟩)) fun _ => ?_
    · have one := List.count_pos_iff.mpr mem
      rw [labelled, List.count_append, List.count_cons_self]
      omega
    have row : FailsOnly (RowRefused scope bound (parts.drop 1)) _ :=
      refused_of_draftsOf (.block function label) bound (parts.drop 1)
    refine (row.mono fun e h => ?_).bind fun read drafted => ?_
    · rcases h with inside | ⟨name, fault, twice⟩
      · exact here e (MisreadsAny.subset (fun _ => List.mem_of_mem_drop) e inside)
      · refine .inr (.inl ⟨name, fault, ?_⟩)
        rw [List.flatMap_cons, ← List.append_assoc, List.count_append]
        exact Nat.le_add_right_of_le twice
    obtain ⟨ops, middle⟩ := read
    obtain ⟨_, perm⟩ := drawn_of_draftsOf drafted
    refine ((ih (label :: labels) middle filled).mono fun e h => ?_).bind fun _ _ => .ok _
    rcases h with ⟨parts', mem, inside⟩ | ⟨name, fault, twice⟩ | ⟨label', fault, twice⟩
    · exact .inl ⟨parts', List.mem_cons_of_mem _ mem, inside⟩
    · refine .inr (.inl ⟨name, fault, ?_⟩)
      rw [List.flatMap_cons, ← List.append_assoc]
      exact (perm.append_right _).count_eq name ▸ twice
    · refine .inr (.inr ⟨label', fault, ?_⟩)
      rw [labelled]
      exact List.perm_middle.symm.count_eq label' ▸ twice

/-! ## Operands -/

section Operands

variable {names : List String} (known : ∀ name ∈ scope.values, name ∈ names)
include known

theorem fails_operandOf (place : Place) (form : Sexp) :
    FailsOnly (Misreads scope form) (operandOf names place form) := by
  unfold operandOf
  split
  next => exact .ok _
  next name =>
    split
    next => exact .ok _
    next unknown => exact .error (.unknownValue fun mem => unknown (known name mem))
  next => exact .ok _
  next number word text =>
    refine .error (.operand ?_ number)
    cases form with
    | symbol name => exact (word name rfl).elim
    | string name => exact (text name rfl).elim
    | _ => rfl

theorem fails_calleeOf (place : Place) (form : Sexp) :
    FailsOnly (Misreads scope form) (calleeOf names place form) := by
  unfold calleeOf
  split
  next => exact .ok _
  next name =>
    split
    next => exact .ok _
    next unknown => exact .error (.unknownValue fun mem => unknown (known name mem))
  next text word =>
    refine .error (.callee ?_)
    cases form with
    | symbol name => exact (word name rfl).elim
    | string name => exact (text name rfl).elim
    | _ => rfl

theorem fails_indicesOf (place : Place) (forms : List Sexp) :
    FailsOnly (MisreadsAny scope forms) (indicesOf names place forms) := by
  fun_induction indicesOf names place forms with
  | case1 => exact .ok _
  | case2 n forms ih =>
    exact (ih.mono (MisreadsAny.subset fun _ => List.mem_cons_of_mem _)).bind fun _ _ => .ok _
  | case3 form forms _ ih =>
    refine ((fails_operandOf known place form).mono (Misreads.any List.mem_cons_self)).bind
      fun _ _ => ?_
    exact (ih.mono (MisreadsAny.subset fun _ => List.mem_cons_of_mem _)).bind fun _ _ => .ok _

theorem fails_opOf {form : Sexp} {draft : Draft} (drawn : draft.Drawn form) :
    FailsOnly (Misreads scope form) (opOf names draft) := by
  obtain ⟨parts, whole, args⟩ := drawn.parts
  have part {item : Sexp} (mem : item ∈ draft.args) (e : Error) (h : Misreads scope item e) :
      Misreads scope form e := by
    rw [whole]
    rw [args] at mem
    exact Misreads.inside (List.mem_cons_of_mem _ (mem_of_mem_arguments mem)) e h
  have row {β : Type} {f : Sexp → Except Error β}
      (one : ∀ form, FailsOnly (Misreads scope form) (f form))
      {forms : List Sexp} (sub : ∀ item ∈ forms, item ∈ draft.args) :
      FailsOnly (Misreads scope form) (forms.mapM f) :=
    .mapM fun item mem => (one item).mono (part (sub item mem))
  have operands := fails_operandOf known draft.place
  have labels (form : Sexp) : FailsOnly (Misreads scope form) _ := fails_symbolName draft.place form
  have integers (form : Sexp) : FailsOnly (Misreads scope form) _ :=
    fails_integerOf draft.place form
  have short {n : Nat} (less : draft.args.length < n) :
      Misreads scope form ⟨draft.place, .tooFewOperands draft.kind n⟩ := by
    rw [whole]
    exact .tooFew (args ▸ less)
  have need (n : Nat) : FailsOnly (Misreads scope form)
      (if draft.args.length < n then refuse draft.place (.tooFewOperands draft.kind n)
        else pure () :
        Except Error Unit) := by
    split
    next less => exact .error (short less)
    next => exact .ok _
  have all : ∀ item ∈ draft.args, item ∈ draft.args := fun _ mem => mem
  have taken (n : Nat) : ∀ item ∈ draft.args.take n, item ∈ draft.args :=
    fun _ => List.mem_of_mem_take
  have dropped (n : Nat) : ∀ item ∈ draft.args.drop n, item ∈ draft.args :=
    fun _ => List.mem_of_mem_drop
  unfold opOf
  -- one case for each way in which the operands and labels of a kind are written
  cases kind : draft.kind <;> simp only [kind] at need short whole args ⊢
  case alloca | unreachable => exact .ok _
  case load | cast => exact (need 1).bind fun _ _ => (row operands (taken 1)).bind fun _ _ => .ok _
  case store | memcpy | memset | cmp | binop =>
    exact (need 2).bind fun _ _ => (row operands all).bind fun _ _ => .ok _
  case phi => exact (need 1).bind fun _ _ => (row operands all).bind fun _ _ => .ok _
  case gep =>
    refine (need 1).bind fun _ _ => (row operands (taken 1)).bind fun _ _ => ?_
    refine ((fails_indicesOf known draft.place _).mono fun e h => ?_).bind fun _ _ => .ok _
    obtain ⟨item, mem, h⟩ := h
    exact part (dropped 1 item mem) e h
  case extract =>
    exact (need 1).bind fun _ _ => (row integers (dropped 1)).bind fun _ _ =>
      (row operands (taken 1)).bind fun _ _ => .ok _
  case insert =>
    exact (need 2).bind fun _ _ => (row integers (dropped 2)).bind fun _ _ =>
      (row operands (taken 2)).bind fun _ _ => .ok _
  case call =>
    split
    next empty => exact .error (short (by rw [empty]; decide))
    next callee rest split =>
      have others : ∀ item ∈ rest, item ∈ draft.args := by simp +contextual [split]
      refine ((fails_calleeOf known draft.place callee).mono (part (by simp [split]))).bind
        fun _ _ => ?_
      exact (row operands others).bind fun _ _ => .ok _
  case invoke =>
    split
    next callee values normal unwind split =>
      have targets : ∀ item ∈ [normal, unwind], item ∈ draft.args := by simp [split]
      have nested := (fails_mapM operands values).mono (MisreadsAny.inside fun _ mem => mem)
      refine ((fails_calleeOf known draft.place callee).mono (part (by simp [split]))).bind
        fun _ _ => ?_
      refine (nested.mono (part (by simp [split]))).bind fun _ _ => ?_
      exact (row labels targets).bind fun _ _ => .ok _
    next other =>
      refine .error ?_
      rw [whole]
      exact .invoke fun callee operands normal unwind same =>
        other callee operands normal unwind (args.trans same)
  case br => exact (need 1).bind fun _ _ => (row labels (taken 1)).bind fun _ _ => .ok _
  case condbr =>
    refine (need 3).bind fun _ _ => (row operands (taken 1)).bind fun _ _ => ?_
    exact (row labels fun item mem => dropped 1 item (List.mem_of_mem_take mem)).bind fun _ _ =>
      .ok _
  case switch =>
    exact (need 2).bind fun _ _ => (row operands (taken 1)).bind fun _ _ =>
      (row labels (dropped 1)).bind fun _ _ => .ok _
  case ret | resume => exact (row operands (taken 1)).bind fun _ _ => .ok _

theorem fails_blockOf {parts : List Sexp} {draft : DraftBlock} (drawn : draft.Drawn parts) :
    FailsOnly (MisreadsAny scope parts) (blockOf names draft) := by
  refine (FailsOnly.mapM fun op mem => ?_).bind fun _ _ => .ok _
  obtain ⟨form, inside, drawn⟩ := exists_of_forall₂ drawn.2 mem
  exact (fails_opOf known drawn).mono (Misreads.any (List.mem_of_mem_drop inside))

end Operands

/-! ## Ends of blocks -/

theorem symbols_of_labels {place : Place} {forms args : List Sexp} {labels : List String}
    (h : forms.mapM (symbolName place) = .ok labels) (sub : ∀ form ∈ forms, form ∈ args) :
    ∀ label ∈ labels, .symbol label ∈ args :=
  forall_of_mapM (fun form mem _ h => eq_of_symbolName h ▸ sub form mem) h

/-- An operation is of its draft's kind, and goes to labels that its form holds. -/
theorem targets_of_opOf {names : List String} {draft : Draft} {op : Op}
    (h : opOf names draft = .ok op) :
    op.kind = draft.kind ∧ ∀ label ∈ op.targets, .symbol label ∈ draft.args := by
  unfold opOf at h
  cases kind : draft.kind <;> simp only [kind] at h
  case alloca | unreachable =>
    cases h
    exact ⟨rfl, List.forall_mem_nil _⟩
  case load | cast | store | memcpy | memset | cmp | binop | phi =>
    obtain ⟨_, _, h⟩ := bind_eq_ok h
    obtain ⟨_, _, h⟩ := bind_eq_ok h
    cases h
    exact ⟨rfl, List.forall_mem_nil _⟩
  case gep | extract | insert =>
    obtain ⟨_, _, h⟩ := bind_eq_ok h
    obtain ⟨_, _, h⟩ := bind_eq_ok h
    obtain ⟨_, _, h⟩ := bind_eq_ok h
    cases h
    exact ⟨rfl, List.forall_mem_nil _⟩
  case call =>
    split at h
    next => cases h
    next =>
      obtain ⟨_, _, h⟩ := bind_eq_ok h
      obtain ⟨_, _, h⟩ := bind_eq_ok h
      cases h
      exact ⟨rfl, List.forall_mem_nil _⟩
  case invoke =>
    split at h
    next callee operands normal unwind split =>
      obtain ⟨_, _, h⟩ := bind_eq_ok h
      obtain ⟨_, _, h⟩ := bind_eq_ok h
      obtain ⟨_, targets, h⟩ := bind_eq_ok h
      cases h
      exact ⟨rfl, symbols_of_labels targets (by simp [split])⟩
    next => cases h
  case br =>
    obtain ⟨_, _, h⟩ := bind_eq_ok h
    obtain ⟨_, targets, h⟩ := bind_eq_ok h
    cases h
    exact ⟨rfl, symbols_of_labels targets fun _ => List.mem_of_mem_take⟩
  case condbr =>
    obtain ⟨_, _, h⟩ := bind_eq_ok h
    obtain ⟨_, _, h⟩ := bind_eq_ok h
    obtain ⟨_, targets, h⟩ := bind_eq_ok h
    cases h
    exact ⟨rfl, symbols_of_labels targets fun _ mem =>
      List.mem_of_mem_drop (List.mem_of_mem_take mem)⟩
  case switch =>
    obtain ⟨_, _, h⟩ := bind_eq_ok h
    obtain ⟨_, _, h⟩ := bind_eq_ok h
    obtain ⟨_, targets, h⟩ := bind_eq_ok h
    cases h
    exact ⟨rfl, symbols_of_labels targets fun _ => List.mem_of_mem_drop⟩
  case ret | resume =>
    obtain ⟨_, _, h⟩ := bind_eq_ok h
    cases h
    exact ⟨rfl, List.forall_mem_nil _⟩

/-- What an operation has from its form: its kind, and the labels it goes to. -/
def Op.Written (form : Sexp) (op : Op) : Prop :=
  ∃ parts, form = .list (.symbol op.kind.name :: parts) ∧
    ∀ label ∈ op.targets, .symbol label ∈ parts

theorem written_of_opOf {names : List String} {form : Sexp} {draft : Draft} {op : Op}
    (drawn : draft.Drawn form) (h : opOf names draft = .ok op) : op.Written form := by
  obtain ⟨parts, whole, args⟩ := drawn.parts
  obtain ⟨kind, targets⟩ := targets_of_opOf h
  refine ⟨parts, by rw [kind]; exact whole, fun label mem => ?_⟩
  exact mem_of_mem_arguments (args ▸ targets label mem)

/-- What a block has from its parts. -/
def Block.Written (parts : List Sexp) (block : Block) : Prop :=
  Sexp.label? parts = some block.label ∧
    List.Forall₂ (fun form op => Op.Written form op) (parts.drop 1) block.ops

theorem written_of_blockOf {names : List String} {parts : List Sexp} {draft : DraftBlock}
    {block : Block} (drawn : draft.Drawn parts) (h : blockOf names draft = .ok block) :
    block.Written parts := by
  obtain ⟨ops, read, h⟩ := bind_eq_ok h
  cases h
  exact ⟨drawn.1, forall₂_trans drawn.2 (mapM_eq_ok_iff.mp read) fun _ _ _ => written_of_opOf⟩

theorem fails_checkEnd
    {function : String} {labels : List String} {parts : List Sexp} {block : Block}
    (written : block.Written parts) (known : ∀ label ∈ scope.labels, label ∈ labels) :
    FailsOnly (Misreads scope (.list (.symbol "block" :: parts)))
    (checkEnd function labels block) := by
  have ends := getLast?_of_forall₂ written.2
  unfold checkEnd
  split
  next op last =>
    rw [last] at ends
    cases final : (parts.drop 1).getLast? with
    | none =>
      rw [final] at ends
      cases ends
    | some form =>
      rw [final] at ends
      cases ends with
      | some ends =>
        obtain ⟨rest, rfl, targets⟩ := ends
        split
        next =>
          refine .forM fun label mem => ?_
          split
          next => exact .ok _
          next unknown =>
            have whole := List.mem_of_mem_drop (List.mem_of_getLast? final)
            have word : Misread scope (.symbol label) (.unknownBlock label) :=
              .unknownBlock fun mem => unknown (known label mem)
            have operation := Misread.inside
              (List.mem_cons_of_mem (.symbol op.kind.name) (targets label mem)) word
            exact .error (Misread.inside (List.mem_cons_of_mem _ whole) operation)
        next going =>
          refine .error (.noTerminator fun form same kind tagged => ?_)
          rw [final] at same
          cases same
          have kinds : some op.kind = some kind := by
            rw [← ofName?_name op.kind, ← ofName?_name kind, Option.some.inj tagged]
          cases kinds
          simpa using going
  next none =>
    rw [none] at ends
    cases final : (parts.drop 1).getLast? with
    | none => exact .error (.noTerminator fun form same => by rw [final] at same; cases same)
    | some form =>
      rw [final] at ends
      cases ends

/-! ## Bodies -/

theorem labels_of_written {blocks : List (List Sexp)} {read : List Block}
    (h : List.Forall₂ (fun parts block => Block.Written parts block) blocks read) :
    blocks.filterMap Sexp.label? = read.map (·.label) := by
  induction h with
  | nil => rfl
  | cons first _ ih => rw [List.filterMap_cons, first.1, List.map_cons, ih]

/-- What a block of a function has, the function has. -/
theorem Misreads.ofBlock {form : Sexp} {parts : List Sexp} (mem : parts ∈ form.clauses "block")
    (e : Error) (h : Misreads scope (.list (.symbol "block" :: parts)) e) :
    Misreads scope form e := by
  unfold Sexp.clauses at mem
  split at mem
  next name clauses =>
    obtain ⟨clause, inside, tagged⟩ := List.mem_filterMap.mp mem
    unfold Sexp.parts? at tagged
    split at tagged
    next =>
      split at tagged
      next same =>
        cases same
        cases tagged
        exact Misreads.inside (List.mem_cons_of_mem _ (List.mem_cons_of_mem _ inside)) e h
      next => cases tagged
    next => cases tagged
  next => cases mem

theorem fails_bodyOf {form : Sexp} {globals : List String} {signature : Signature}
    (filled : ∀ parts ∈ form.clauses "block", parts ≠ [])
    (params : signature.params.map (·.1) = (form.clauses "params").flatMap
      (List.filterMap Sexp.paramName?))
    (values : scope.values = form.valueNames ++ globals) (labels : scope.labels = form.labels) :
    FailsOnly (Misreads scope form)
    (bodyOf scope.structs globals signature (form.clauses "block")) := by
  have names : form.valueNames = signature.params.map (·.1) ++
      (form.clauses "block").flatMap fun parts => formNames (parts.drop 1) := by
    rw [params]
    rfl
  have block {parts : List Sexp} (mem : parts ∈ form.clauses "block") (e : Error)
      (h : MisreadsAny scope parts e) :
      Misreads scope form e :=
    Misreads.ofBlock mem e (MisreadsAny.inside (fun _ => List.mem_cons_of_mem _) e h)
  refine ((refused_of_draftBlocksOf _ [] _ filled).mono fun e h => ?_).bind fun read drafted => ?_
  · rcases h with ⟨parts, mem, inside⟩ | ⟨name, fault, twice⟩ | ⟨label, fault, twice⟩
    · exact block mem e inside
    · rw [Misreads, fault]
      exact .valueTwice (names ▸ twice)
    · rw [Misreads, fault]
      exact .blockTwice twice
  obtain ⟨drafts, bound⟩ := read
  obtain ⟨drawn, perm⟩ := drawn_of_draftBlocksOf drafted
  have known : ∀ name ∈ scope.values, name ∈ bound ++ globals := by
    intro name mem
    rw [values, names] at mem
    exact (List.mem_append.mp mem).elim (fun own => List.mem_append_left _ (perm.mem_iff.mpr own))
      (List.mem_append_right _)
  refine (FailsOnly.mapM fun draft mem => ?_).bind fun blocks filled => ?_
  · obtain ⟨parts, inside, drawn⟩ := exists_of_forall₂ drawn mem
    exact (fails_blockOf known drawn).mono (block inside)
  have written :
      List.Forall₂ (fun parts block => Block.Written parts block) (form.clauses "block") blocks :=
    forall₂_trans drawn (mapM_eq_ok_iff.mp filled) fun _ _ _ => written_of_blockOf
  refine (FailsOnly.forM fun read mem => ?_).bind fun _ _ => .ok _
  obtain ⟨parts, inside, written'⟩ := exists_of_forall₂ written mem
  refine (fails_checkEnd written' fun label mem => ?_).mono (Misreads.ofBlock inside)
  rw [labels, Sexp.labels, labels_of_written written] at mem
  exact mem

/-- The body of an item is misread only where its form is. -/
theorem fails_withBody {form : Sexp} {globals : List String} {item : Item (List Sexp)}
    (spelled : item.Spelled form) (values : scope.values = form.valueNames ++ globals)
    (labels : scope.labels = form.labels) :
    FailsOnly (Misreads scope form) (item.withBody scope.structs globals) := by
  cases item with
  | struct name fields => exact .ok _
  | global name type => exact .ok _
  | function signature blocks =>
    obtain ⟨rfl, filled, params⟩ := spelled.body signature blocks rfl
    refine FailsOnly.bind ?_ fun _ _ => .ok _
    rcases params with empty | params
    · rw [empty]
      exact .ok _
    · exact fails_bodyOf filled params values labels

end Relock.Source
