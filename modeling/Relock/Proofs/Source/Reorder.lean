import Mathlib.Data.List.Perm.Basic
import Relock.Proofs.Source.Checked

/-!
# Items in another order

The names of a module's structures and globals are collected before anything refers to them, so that
a text may be written in any order. Reading an item looks a name up and does not ask where it was
given: readers that know the same names read the same. A module whose items are put in another order
is therefore read if the module is, into the same items in another order.
-/

namespace Relock

/-- The name that a form gives to an item of a kind. -/
def Sexp.given? (tag : String) : Sexp → Option String
  | .list (.symbol head :: name :: _) => if head = tag then name.name? else none
  | _ => none

namespace Source

/-! ## Rows in another order -/

theorem mapM_eq_ok_iff {ε α β : Type} {f : α → Except ε β} {row : List α} {out : List β} :
    row.mapM f = .ok out ↔ List.Forall₂ (fun a b => f a = .ok b) row out := by
  induction row generalizing out with
  | nil =>
    rw [List.forall₂_nil_left_iff]
    exact ⟨fun h => by cases h; rfl, fun h => by rw [h]; rfl⟩
  | cons a row ih =>
    rw [List.mapM_cons, List.forall₂_cons_left_iff]
    constructor
    · intro h
      obtain ⟨b, first, h⟩ := bind_eq_ok h
      obtain ⟨rest, more, h⟩ := bind_eq_ok h
      cases h
      exact ⟨b, rest, first, ih.mp more, rfl⟩
    · rintro ⟨b, rest, first, more, rfl⟩
      rw [first, ih.mpr more]
      rfl

/-- A row in another order is read into the entries in another order. -/
theorem mapM_perm {ε α β : Type} {f : α → Except ε β} {row other : List α} {out : List β}
    (perm : row.Perm other) (h : row.mapM f = .ok out) : ∃ out', other.mapM f = .ok out' ∧
    out.Perm out' := by
  obtain ⟨out', rows, perm'⟩ := List.perm_comp_forall₂ perm.symm (mapM_eq_ok_iff.mp h)
  exact ⟨out', mapM_eq_ok_iff.mpr rows, perm'.symm⟩

/-! ## Readers that know the same names -/

section Congr

variable {structs others : List String} (same : ∀ {name}, name ∈ structs ↔ name ∈ others)
include same

theorem namedType_congr : namedType structs = namedType others := by
  funext place name
  simp only [namedType, same]

theorem typeOf_congr : typeOf structs = typeOf others := by
  funext place form
  fun_induction typeOf structs place form with
  | case1 name => exact congrFun (congrFun (namedType_congr same) place) name
  | case2 pointee ih => rw [typeOf, ih]
  | case3 length element ih => rw [typeOf, ih]
  | case4 form h1 h2 h3 => simp [typeOf]

theorem typeOr_congr (fallback : Ty) : typeOr fallback structs = typeOr fallback others := by
  funext place form
  simp only [typeOr, typeOf_congr same]

theorem returnsOf_congr : returnsOf structs = returnsOf others := by
  funext place form types
  unfold returnsOf
  rw [typeOr_congr same]

theorem declaredParams_congr : declaredParams structs = declaredParams others := by
  funext place index forms
  induction forms generalizing index with
  | nil => rfl
  | cons form forms ih => simp only [declaredParams, typeOf_congr same, ih]

theorem paramOf_congr : paramOf structs = paramOf others := by
  funext place form
  unfold paramOf
  rw [typeOf_congr same]

theorem declarationClause_congr : declarationClause structs = declarationClause others := by
  funext place read form
  simp only [declarationClause, declaredParams_congr same, returnsOf_congr same]

theorem functionClause_congr : functionClause structs = functionClause others := by
  funext place read form
  simp only [functionClause, paramOf_congr same, returnsOf_congr same]

theorem itemOf_congr : itemOf structs = itemOf others := by
  funext file known form
  simp only [itemOf, typeOr_congr same, typeOf_congr same, declarationClause_congr same,
    functionClause_congr same]

theorem resultOf_congr : resultOf structs = resultOf others := by
  funext place kind parts
  simp only [resultOf, typeOf_congr same]

theorem draftOf_congr : draftOf structs = draftOf others := by
  funext place form
  simp only [draftOf, resultOf_congr same]

theorem draftsOf_congr : draftsOf structs = draftsOf others := by
  funext place bound forms
  induction forms generalizing bound with
  | nil => rfl
  | cons form forms ih => simp only [draftsOf, draftOf_congr same, ih]

theorem draftBlocksOf_congr : draftBlocksOf structs = draftBlocksOf others := by
  funext function labels bound blocks
  induction blocks generalizing labels bound with
  | nil => rfl
  | cons parts blocks ih => simp only [draftBlocksOf, draftsOf_congr same, ih]

end Congr

section Names

variable {names others : List String} (same : ∀ {name}, name ∈ names ↔ name ∈ others)
include same

theorem operandOf_congr : operandOf names = operandOf others := by
  funext place form
  simp only [operandOf, same]

theorem calleeOf_congr : calleeOf names = calleeOf others := by
  funext place form
  simp only [calleeOf, same]

theorem indicesOf_congr : indicesOf names = indicesOf others := by
  funext place forms
  fun_induction indicesOf names place forms with
  | case1 => rfl
  | case2 n forms ih => rw [indicesOf, ih]
  | case3 form forms other ih => rw [indicesOf, operandOf_congr same, ih]; exact other

theorem opOf_congr : opOf names = opOf others := by
  funext draft
  simp only [opOf, operandOf_congr same, calleeOf_congr same, indicesOf_congr same]

theorem blockOf_congr : blockOf names = blockOf others := by
  funext draft
  simp only [blockOf, opOf_congr same]

end Names

section Bodies

variable {structs structs' globals globals' : List String}
    (sameStructs : ∀ {name}, name ∈ structs ↔ name ∈ structs')
  (sameGlobals : ∀ {name}, name ∈ globals ↔ name ∈ globals')
include sameStructs sameGlobals

theorem bodyOf_congr : bodyOf structs globals = bodyOf structs' globals' := by
  funext signature blocks
  have filled (bound : List String) : blockOf (bound ++ globals) = blockOf (bound ++ globals') :=
    blockOf_congr (by simp only [List.mem_append, sameGlobals, implies_true])
  simp only [bodyOf, draftBlocksOf_congr sameStructs, filled]

theorem withBody_congr : Item.withBody structs globals = Item.withBody structs' globals' := by
  funext item
  cases item with
  | struct name fields => rfl
  | global name type => rfl
  | function signature blocks => simp only [Item.withBody, bodyOf_congr sameStructs sameGlobals]

end Bodies

/-! ## Items -/

/-- An item is read after others if it is read alone and is no function of theirs. -/
theorem itemOf_eq_ok_iff {structs known : List String} {file : Place} {form : Sexp}
    {item : Item (List Sexp)} :
    itemOf structs file known form = .ok item ↔
      itemOf structs file [] form = .ok item ∧ ∀ name ∈ item.functionNames, name ∉ known := by
  constructor
  · intro h
    refine ⟨?_, (definedName?_of_itemOf h).2⟩
    unfold itemOf at h ⊢
    split at h
    case h_3 | h_4 =>
      obtain ⟨⟨name, clauses⟩, named, h⟩ := bind_eq_ok h
      obtain ⟨_, h⟩ := guard_eq_ok h
      rw [named]
      exact h
    all_goals exact h
  · rintro ⟨h, new⟩
    unfold itemOf at h ⊢
    split at h
    case h_3 =>
      obtain ⟨⟨name, clauses⟩, named, h⟩ := bind_eq_ok h
      obtain ⟨_, h⟩ := guard_eq_ok h
      have fresh : name ∉ known := by
        obtain ⟨read, _, h⟩ := bind_eq_ok h
        cases h
        exact new name List.mem_cons_self
      rw [named]
      exact (if_neg fresh).trans h
    case h_4 =>
      obtain ⟨⟨name, clauses⟩, named, h⟩ := bind_eq_ok h
      obtain ⟨_, h⟩ := guard_eq_ok h
      have fresh : name ∉ known := by
        obtain ⟨read, _, h⟩ := bind_eq_ok h
        obtain ⟨_, h⟩ := guard_eq_ok h
        cases h
        exact new name List.mem_cons_self
      rw [named]
      exact (if_neg fresh).trans h
    all_goals exact h

/-- Items are read if each is read alone and no two of them are one function. -/
theorem itemsOf_eq_ok_iff {structs known : List String} {file : Place} {forms : List Sexp}
    {items : List (Item (List Sexp))} :
    itemsOf structs file known forms = .ok items ↔
      forms.mapM (itemOf structs file []) = .ok items ∧ (items.flatMap Item.functionNames).Nodup ∧
        ∀ name ∈ items.flatMap Item.functionNames, name ∉ known := by
  constructor
  · intro h
    refine ⟨?_, (names_of_itemsOf h).1, (names_of_itemsOf h).2.1⟩
    induction forms generalizing known items with
    | nil => exact h
    | cons form forms ih =>
      obtain ⟨item, first, h⟩ := bind_eq_ok h
      obtain ⟨rest, more, h⟩ := bind_eq_ok h
      rw [List.mapM_cons, (itemOf_eq_ok_iff.mp first).1, ih more]
      exact h
  · induction forms generalizing known items with
    | nil => exact fun h => h.1
    | cons form forms ih =>
      rintro ⟨h, nodup, new⟩
      rw [List.mapM_cons] at h
      obtain ⟨item, first, h⟩ := bind_eq_ok h
      obtain ⟨rest, more, h⟩ := bind_eq_ok h
      cases h
      rw [List.flatMap_cons] at nodup new
      obtain ⟨_, nodup, apart⟩ := List.nodup_append.mp nodup
      obtain ⟨here, later⟩ := List.forall_mem_append.mp new
      have next : itemsOf structs file (known ++ item.functionNames) forms = .ok rest := by
        refine ih ⟨more, nodup, fun name mem old => ?_⟩
        rcases List.mem_append.mp old with known | own
        · exact later name mem known
        · exact apart name own name mem rfl
      rw [itemsOf, itemOf_eq_ok_iff.mpr ⟨first, here⟩]
      simp only [next, bind, Except.bind]
      rfl

/-- The names that a form adds to those of the structures. -/
def structName (file : Place) : Sexp → Except Error (List String)
  | .list (.symbol "struct" :: parts) => do
    let (name, _) ← itemName file "struct" parts
    return [name]
  | _ => .ok []

theorem structNames_eq_ok_iff {file : Place} {forms : List Sexp} {names : List String} :
    structNames file forms = .ok names ↔ ∃ rows, forms.mapM (structName file) = .ok rows ∧
    rows.flatten = names := by
  induction forms generalizing names with
  | nil =>
    constructor
    · intro h
      cases h
      exact ⟨[], rfl, rfl⟩
    · rintro ⟨rows, h, rfl⟩
      cases h
      rfl
  | cons form forms ih =>
    have step : structNames file (form :: forms) = (do
        let first ← structName file form
        return first ++ (← structNames file forms)) := by
      fun_cases structName file form with
      | case1 parts =>
        rw [structNames]
        cases itemName file "struct" parts <;> rfl
      | case2 form other =>
        rw [structNames]
        · cases structNames file forms <;> rfl
        · exact other
    rw [step, List.mapM_cons]
    constructor
    · intro h
      obtain ⟨first, one, h⟩ := bind_eq_ok h
      obtain ⟨rest, more, h⟩ := bind_eq_ok h
      cases h
      obtain ⟨rows, read, rfl⟩ := ih.mp more
      exact ⟨first :: rows, by rw [one, read]; rfl, rfl⟩
    · rintro ⟨rows, h, rfl⟩
      obtain ⟨first, one, h⟩ := bind_eq_ok h
      obtain ⟨rest, more, h⟩ := bind_eq_ok h
      cases h
      rw [one, ih.mpr ⟨rest, more, rfl⟩]
      rfl

theorem structNames_perm {file : Place} {forms others : List Sexp} {names : List String}
    (perm : forms.Perm others) (h : structNames file forms = .ok names) :
    ∃ names', structNames file others = .ok names' ∧ names.Perm names' := by
  obtain ⟨rows, read, rfl⟩ := structNames_eq_ok_iff.mp h
  obtain ⟨rows', read', perm'⟩ := mapM_perm perm read
  exact ⟨_, structNames_eq_ok_iff.mpr ⟨rows', read', rfl⟩, perm'.flatten⟩

/-! ## Modules -/

/-- A module with a name is read if its name, its items and their bodies are, and no two items are
one function. -/
theorem decode_eq_ok_iff {file : String} {title : Sexp} (word : ∀ parts, title ≠ .list parts)
    {forms : List Sexp} {source : Source} :
    decode file (.list (.symbol "module" :: title :: forms)) = .ok source ↔
      nameOf (.file file) title = .ok source.name ∧
      ∃ structs drafts, structNames (.file file) forms = .ok structs ∧
        forms.mapM (itemOf structs (.file file) []) = .ok drafts ∧
        (drafts.flatMap Item.functionNames).Nodup ∧
        drafts.mapM (Item.withBody structs (drafts.flatMap Item.globalNames)) =
          .ok source.items := by
  have split : splitName (.file file) (title :: forms) =
      (do return (← nameOf (.file file) title, forms)) := by
    cases title with
    | list parts => exact absurd rfl (word parts)
    | _ => rfl
  constructor
  · intro h
    obtain ⟨outline, outlined, h⟩ := bind_eq_ok h
    obtain ⟨items, filled, h⟩ := bind_eq_ok h
    cases h
    obtain ⟨⟨name, forms'⟩, named, outlined⟩ := bind_eq_ok outlined
    obtain ⟨structs, collected, outlined⟩ := bind_eq_ok outlined
    obtain ⟨drafts, itemized, outlined⟩ := bind_eq_ok outlined
    cases outlined
    rw [split] at named
    obtain ⟨_, called, same⟩ := bind_eq_ok named
    cases same
    obtain ⟨read, nodup, _⟩ := itemsOf_eq_ok_iff.mp itemized
    exact ⟨called, structs, drafts, collected, read, nodup, filled⟩
  · rintro ⟨named, structs, drafts, collected, read, nodup, filled⟩
    have itemized : itemsOf structs (.file file) [] forms = .ok drafts :=
      itemsOf_eq_ok_iff.mpr ⟨read, nodup, fun _ _ => List.not_mem_nil⟩
    have outlined : Outline.decode file (.list (.symbol "module" :: title :: forms)) =
        .ok ⟨source.name, structs, drafts⟩ := by
      simp only [Outline.decode, split, named, collected, itemized, bind, Except.bind, pure,
        Except.pure]
    simp only [decode, outlined, Outline.decodeBodies, Outline.globals, filled, bind, Except.bind,
      pure, Except.pure]

/-- The structures and globals of an item are named by its form. -/
theorem given_of_itemOf {structs known : List String} {file : Place} {form : Sexp}
    {item : Item (List Sexp)} (h : itemOf structs file known form = .ok item) :
    item.structs.map (·.1) = (form.given? "struct").toList ∧
    item.globals.map (·.1) = (form.given? "global").toList := by
  have other {tag kind : String} (differ : tag ≠ kind) (parts : List Sexp) :
      Sexp.given? kind (.list (.symbol tag :: parts)) = none := by
    cases parts with
    | nil => rfl
    | cons name parts => exact if_neg differ
  unfold itemOf at h
  split at h
  next parts =>
    obtain ⟨⟨name, fields⟩, named, h⟩ := bind_eq_ok h
    obtain ⟨types, _, h⟩ := bind_eq_ok h
    cases h
    obtain ⟨first, rfl, spelled⟩ := parts_of_itemName named
    refine ⟨?_, by rw [other (by decide)]; rfl⟩
    rw [Sexp.given?, if_pos rfl, spelled]
    rfl
  next parts =>
    obtain ⟨⟨name, rest⟩, named, h⟩ := bind_eq_ok h
    have global : ∃ type, item = .global name type := by
      cases rest with
      | nil =>
        cases h
        exact ⟨_, rfl⟩
      | cons type more =>
        obtain ⟨type, _, h⟩ := bind_eq_ok h
        cases h
        exact ⟨_, rfl⟩
    obtain ⟨type, rfl⟩ := global
    obtain ⟨first, rfl, spelled⟩ := parts_of_itemName named
    refine ⟨by rw [other (by decide)]; rfl, ?_⟩
    rw [Sexp.given?, if_pos rfl, spelled]
    rfl
  next parts =>
    obtain ⟨⟨name, clauses⟩, _, h⟩ := bind_eq_ok h
    obtain ⟨_, h⟩ := guard_eq_ok h
    obtain ⟨read, _, h⟩ := bind_eq_ok h
    cases h
    rw [other (by decide), other (by decide)]
    exact ⟨rfl, rfl⟩
  next parts =>
    obtain ⟨⟨name, clauses⟩, _, h⟩ := bind_eq_ok h
    obtain ⟨_, h⟩ := guard_eq_ok h
    obtain ⟨read, _, h⟩ := bind_eq_ok h
    obtain ⟨_, h⟩ := guard_eq_ok h
    cases h
    rw [other (by decide), other (by decide)]
    exact ⟨rfl, rfl⟩
  next => cases h
  next => cases h
  next => cases h

theorem given_of_withBody {structs globals : List String} {item : Item (List Sexp)}
    {read : Item Block} (h : item.withBody structs globals = .ok read) :
    read.structs = item.structs ∧ read.globals = item.globals := by
  cases item with
  | struct name fields =>
    cases h
    exact ⟨rfl, rfl⟩
  | global name type =>
    cases h
    exact ⟨rfl, rfl⟩
  | function signature forms =>
    obtain ⟨blocks, _, h⟩ := bind_eq_ok h
    cases h
    exact ⟨rfl, rfl⟩

/-- The structures and globals of a module are named by its forms. -/
theorem given_of_decode {file : String} {title : Sexp} (word : ∀ parts, title ≠ .list parts)
    {forms : List Sexp} {source : Source}
    (h : decode file (.list (.symbol "module" :: title :: forms)) = .ok source) :
    (source.items.flatMap Item.structs).map (·.1) = forms.filterMap (Sexp.given? "struct") ∧
      (source.items.flatMap Item.globals).map (·.1) = forms.filterMap (Sexp.given? "global") := by
  obtain ⟨_, structs, drafts, _, read, _, filled⟩ := (decode_eq_ok_iff word).mp h
  rw [List.map_flatMap, List.map_flatMap, List.filterMap_eq_flatMap_toList,
    List.filterMap_eq_flatMap_toList]
  constructor
  · rw [← flatMap_of_mapM (fun h => (given_of_itemOf h).1) read]
    exact flatMap_of_mapM (fun h => by rw [(given_of_withBody h).1]) filled
  · rw [← flatMap_of_mapM (fun h => (given_of_itemOf h).2) read]
    exact flatMap_of_mapM (fun h => by rw [(given_of_withBody h).2]) filled

/-- A module with its items in another order is read, into the same items in another order. -/
theorem decode_perm {file : String} {title : Sexp} (word : ∀ parts, title ≠ .list parts)
    {forms others : List Sexp} (perm : forms.Perm others) {source : Source}
    (h : decode file (.list (.symbol "module" :: title :: forms)) = .ok source) :
    ∃ source', decode file (.list (.symbol "module" :: title :: others)) = .ok source' ∧
      source'.name = source.name ∧ source.items.Perm source'.items := by
  obtain ⟨named, structs, drafts, collected, read, nodup, filled⟩ := (decode_eq_ok_iff word).mp h
  obtain ⟨structs', collected', sameStructs⟩ := structNames_perm perm collected
  obtain ⟨drafts', read', sameDrafts⟩ := mapM_perm perm read
  rw [itemOf_congr sameStructs.mem_iff] at read'
  have functions := sameDrafts.flatMap_right Item.functionNames
  have globals := sameDrafts.flatMap_right Item.globalNames
  obtain ⟨items', filled', sameItems⟩ := mapM_perm sameDrafts filled
  rw [withBody_congr sameStructs.mem_iff globals.mem_iff] at filled'
  refine ⟨⟨source.name, items'⟩, (decode_eq_ok_iff word).mpr ?_, rfl, sameItems⟩
  exact ⟨named, structs', drafts', collected', read', functions.nodup_iff.mp nodup, filled'⟩

end Source
end Relock
