import Relock.Proofs.Pattern.Misread
import Relock.Proofs.Source.MisreadBody

/-!
# Refused texts

A program text is loaded, or it is refused for a fault that it has. No access to a form goes wrong
on the way. One form is apart: `body` is reserved, and a module that has it as an item stops there
without a place, if nothing before it is refused. `ReachesBody` says when that is. All this holds
whatever the reader of forms is.
-/

namespace Relock
namespace Source

/-- The faults for which a program text is refused. -/
inductive Refused : Except String Sexp → Fault → Prop
  | unreadable {reason : String} : Refused (.error reason) (.unreadable reason)
  | notModule {form : Sexp} (other : form.head? ≠ some "module") :
      Refused (.ok form) (.notTagged "module" form)
  | title {title : Sexp} {items : List Sexp} (word : ∀ parts, title ≠ .list parts)
      (other : title.name? = none) :
      Refused (.ok (.list (.symbol "module" :: title :: items))) (.notName title)
  | notItem {form item : Sexp} (mem : item ∈ form.moduleItems) (other : item.head? = none) :
      Refused (.ok form) (.notItem item)
  | unknownForm {form item : Sexp} {tag : String} (mem : item ∈ form.moduleItems)
      (tagged : item.head? = some tag) (other : tag ∉ "body" :: itemTags) :
      Refused (.ok form) (.unknownForm tag)
  | functionTwice {form : Sexp} {name : String}
      (twice : 2 ≤ (form.moduleItems.filterMap Sexp.functionName?).count name) :
      Refused (.ok form) .functionTwice
  | misread {form item : Sexp} {fault : Fault} (mem : item ∈ form.moduleItems)
      (h : Misread (Scope.within form.moduleItems item) item fault) : Refused (.ok form) fault

/-- What a text has wrong is never a crash of its reader. -/
theorem Refused.isTyped {form : Except String Sexp} {fault : Fault} (h : Refused form fault) :
    fault.isTyped = true := by
  cases h with
  | misread _ h => exact h.isTyped
  | _ => rfl

theorem Refused.unread {form : Except String Sexp} {reason : String}
    (h : Refused form (.unreadable reason)) :
    form = .error reason := by
  cases h with
  | unreadable => rfl
  | misread _ h => exact absurd rfl (h.ne_unreadable reason)

/-- Reading the items of a module gets to a `body` form: the module's name and the names of its
structures are read, and so are the items before the form. -/
def ReachesBody (file : String) (form : Except String Sexp) : Prop :=
  ∃ parts name structs before rest after items, form = .ok (.list (.symbol "module" :: parts)) ∧
    loadName (.file file) parts = .ok (name, before ++ .list (.symbol "body" :: rest) :: after) ∧
    loadStructNames (.file file) (before ++ .list (.symbol "body" :: rest) :: after) = .ok structs ∧
    loadItems structs (.file file) [] before = .ok items

/-! ## Names of the module -/

theorem refused_of_splitName (file : Place) (parts : List Sexp) :
    FailsOnly (fun e => Refused (.ok (.list (.symbol "module" :: parts))) e.fault)
    (splitName file parts) := by
  unfold splitName
  split
  next => exact .ok _
  next => exact .ok _
  next title items word =>
    refine FailsOnly.bind ?_ fun _ _ => .ok _
    unfold nameOf
    split
    next => exact .ok _
    next other => exact .error (.title word other)

theorem items_of_splitName {file : Place} {parts forms : List Sexp} {name : String}
    (h : splitName file parts = .ok (name, forms)) :
    forms = Sexp.moduleItems (.list (.symbol "module" :: parts)) := by
  unfold splitName at h
  split at h
  next =>
    cases h
    rfl
  next =>
    cases h
    rfl
  next title items word =>
    obtain ⟨_, _, h⟩ := bind_eq_ok h
    cases h
    cases title with
    | list parts => exact (word parts rfl).elim
    | _ => rfl

theorem structs_of_structNames {file : Place} {forms : List Sexp} {names : List String}
    (h : structNames file forms = .ok names) : names = forms.filterMap (Sexp.given? "struct") := by
  fun_induction structNames file forms generalizing names with
  | case1 =>
    cases h
    rfl
  | case2 parts forms ih =>
    obtain ⟨⟨name, rest⟩, named, h⟩ := bind_eq_ok h
    obtain ⟨later, more, h⟩ := bind_eq_ok h
    cases h
    obtain ⟨first, rfl, spelled⟩ := parts_of_itemName named
    have here : Sexp.given? "struct" (.list (.symbol "struct" :: first :: rest)) = some name := by
      rw [Sexp.given?, if_pos rfl, spelled]
    rw [List.filterMap_cons, here, ih more]
  | case3 form forms other ih =>
    have none : form.given? "struct" = none := by
      unfold Sexp.given?
      split
      next => exact if_neg fun same => other _ (by rw [same])
      next => rfl
    rw [List.filterMap_cons, none, ih h]

/-! ## Items and bodies -/

section Items

variable {file : String} {forms : List Sexp}

theorem functionNames_of_itemsOf
    {structs : List String} {place : Place} {items : List (Item (List Sexp))}
    (h : itemsOf structs place [] forms = .ok items) :
    items.flatMap Item.functionNames = forms.filterMap Sexp.functionName? := by
  rw [List.filterMap_eq_flatMap_toList]
  exact flatMap_of_mapM (fun h => (spelled_of_itemOf h).names) (itemsOf_eq_ok_iff.mp h).1

theorem globalNames_of_itemsOf {structs : List String} {place : Place}
    {items : List (Item (List Sexp))} (h : itemsOf structs place [] forms = .ok items) :
    items.flatMap Item.globalNames = forms.filterMap (Sexp.given? "global") := by
  rw [List.filterMap_eq_flatMap_toList]
  refine flatMap_of_mapM (fun {form item} h => ?_) (itemsOf_eq_ok_iff.mp h).1
  rw [← (given_of_itemOf h).2]
  cases item <;> rfl

variable {form : Sexp} (named : form.moduleItems = forms)
include named

theorem refused_of_itemsOf {place : Place} :
    FailsOnly (fun e => Refused (.ok form) e.fault ∨
        e = ⟨.nowhere, .reservedForm⟩ ∧
          ∃ before rest after items, forms = before ++ .list (.symbol "body" :: rest) :: after ∧
          itemsOf (forms.filterMap (Sexp.given? "struct")) place [] before = .ok items)
      (itemsOf (forms.filterMap (Sexp.given? "struct")) place [] forms) := by
  intro e failed
  obtain ⟨before, item, after, items, split, read, failed⟩ := itemsOf_eq_error_iff.mp failed
  have mem : item ∈ form.moduleItems := by
    rw [named, split]
    exact List.mem_append_right _ List.mem_cons_self
  rw [List.nil_append, functionNames_of_itemsOf read] at failed
  have refused :
      ItemRefused (Scope.within forms item) (before.filterMap Sexp.functionName?) item e :=
    refused_of_itemOf place _ item e failed
  cases refused with
  | misread h =>
    rw [← named] at h
    exact .inl (.misread mem h)
  | notItem other => exact .inl (.notItem mem other)
  | unknownForm tagged other => exact .inl (.unknownForm mem tagged other)
  | @functionTwice _ word spelled known =>
    have one := List.count_pos_iff.mpr known
    have twice : 2 ≤ (form.moduleItems.filterMap Sexp.functionName?).count word := by
      rw [named, split, List.filterMap_append, List.filterMap_cons, spelled, List.count_append,
        List.count_cons_self]
      omega
    exact .inl (.functionTwice twice)
  | reserved tagged =>
    obtain ⟨rest, rfl⟩ := Sexp.eq_of_head? tagged
    exact .inr ⟨rfl, before, rest, after, items, split, read⟩

theorem refused_of_source {name : String} {place : Place} {items : List (Item (List Sexp))}
    (read : itemsOf (forms.filterMap (Sexp.given? "struct")) place [] forms = .ok items) :
    FailsOnly (fun e => Refused (.ok form) e.fault)
      (Outline.decodeBodies ⟨name, forms.filterMap (Sexp.given? "struct"), items⟩) := by
  refine (FailsOnly.mapM fun item mem => ?_).bind fun _ _ => .ok _
  obtain ⟨part, inside, one⟩ :=
    exists_of_forall₂ (mapM_eq_ok_iff.mp (itemsOf_eq_ok_iff.mp read).1) mem
  have body : FailsOnly (Misreads (Scope.within forms part) part) _ :=
    fails_withBody (spelled_of_itemOf one) rfl rfl
  rw [Outline.globals, globalNames_of_itemsOf read]
  refine body.mono fun e h => ?_
  rw [Misreads, ← named] at h
  exact .misread (named ▸ inside) h

end Items

/-! ## Modules -/

/-- The items before a form are read by the loader if the grammar reads them: their structures are
counted. -/
theorem loadItems_before {file : Place} {before after : List Sexp} {structs : List String}
    (collected : structNames file (before ++ after) = .ok structs) :
    loadItems structs file [] before =
      (itemsOf structs file [] before).map (List.map (Item.map blockForm)) :=
  loadItems_eq structs file [] fun item mem =>
    counted_of_structNames file collected item (List.mem_append_left _ mem)

/-- A module is refused for a fault that it has, or where it gets to a `body` form. -/
theorem refused_of_ofSexp (file : String) (form : Sexp) :
    FailsOnly (fun e => Refused (.ok form) e.fault ∨ e = ⟨.nowhere, .reservedForm⟩ ∧
      ReachesBody file (.ok form))
      (ofSexp file form) := by
  rw [ofSexp_eq]
  unfold decode Outline.decode
  split
  next parts =>
    refine FailsOnly.bind ?_ fun outline outlined => ?_
    · refine ((refused_of_splitName _ parts).mono fun _ => .inl).bind fun parsed split => ?_
      obtain ⟨name, forms⟩ := parsed
      have named := (items_of_splitName split).symm
      refine FailsOnly.bind ?_ fun structs collected => ?_
      · refine (fails_structNames _ forms).mono fun e h => ?_
        obtain ⟨item, mem, h⟩ := h
        exact .inl (.misread (named ▸ mem) (h _))
      · cases structs_of_structNames collected
        refine ((refused_of_itemsOf named).mono fun e h => ?_).bind fun _ _ => .ok _
        rcases h with refused | ⟨reserved, before, rest, after, items, rfl, read⟩
        · exact .inl refused
        · have loaded := loadItems_before collected
          rw [read] at loaded
          rw [← loadStructNames_eq] at collected
          rw [← loadName_eq] at split
          exact .inr ⟨reserved, parts, name, _, before, rest, after, _, rfl, split,
            collected, loaded⟩
    · obtain ⟨⟨name, forms⟩, split, outlined⟩ := bind_eq_ok outlined
      obtain ⟨structs, collected, outlined⟩ := bind_eq_ok outlined
      obtain ⟨items, read, outlined⟩ := bind_eq_ok outlined
      cases outlined
      cases structs_of_structNames collected
      exact (refused_of_source (items_of_splitName split).symm read).mono fun _ => .inl
  next other =>
    exact FailsOnly.bind (.error (.inl (.notModule (Sexp.head?_ne other)))) fun _ read => by
      cases read

theorem reservedForm_of_reachesBody {file : String} {form : Sexp}
    (reaches : ReachesBody file (.ok form)) :
    ofSexp file form = .error ⟨.nowhere, .reservedForm⟩ := by
  obtain ⟨parts, name, structs, before, rest, after, items, whole, split, collected, read⟩ :=
    reaches
  cases whole
  rw [loadName_eq] at split
  rw [loadStructNames_eq] at collected
  rw [loadItems_before collected] at read
  obtain ⟨items, read, _⟩ := map_eq_ok read
  have failed := itemsOf_eq_error_iff.mpr
    ⟨before, .list (.symbol "body" :: rest), after, items, rfl, read, rfl⟩
  simp only [ofSexp_eq, decode, Outline.decode, split, collected, failed, bind, Except.bind]

section Parse

variable {read : Sexp.Reader} {file text : String}

theorem refused_of_parse :
    FailsOnly (fun e => Refused (read text) e.fault ∨ e = ⟨.nowhere, .reservedForm⟩ ∧
      ReachesBody file (read text))
      (parseWith read file text) := by
  unfold parseWith
  split
  next reason unread =>
    rw [unread]
    exact .error (.inl .unreadable)
  next form given =>
    rw [given]
    exact refused_of_ofSexp file form

/-- The reader goes wrong where a text gets to a reserved form, and only there. -/
theorem parse_untyped_iff {e : Error} :
    (parseWith read file text = .error e ∧ e.fault.isTyped = false) ↔
      e = ⟨.nowhere, .reservedForm⟩ ∧ ReachesBody file (read text) := by
  constructor
  · rintro ⟨failed, untyped⟩
    rcases refused_of_parse _ failed with refused | reserved
    · rw [refused.isTyped] at untyped
      cases untyped
    · exact reserved
  · rintro ⟨rfl, reaches⟩
    refine ⟨?_, rfl⟩
    unfold parseWith
    split
    next reason unread =>
      rw [unread] at reaches
      obtain ⟨_, _, _, _, _, _, _, differ, _⟩ := reaches
      cases differ
    next form given => exact reservedForm_of_reachesBody (given ▸ reaches)

theorem parse_eq_unreadable_iff {place : Place} {reason : String} :
    parseWith read file text = .error ⟨place, .unreadable reason⟩ ↔ place = .file file ∧
    read text = .error reason := by
  constructor
  · intro failed
    have unread : read text = .error reason := by
      rcases refused_of_parse _ failed with refused | ⟨same, _⟩
      · exact refused.unread
      · cases same
    rw [parseWith, unread] at failed
    cases failed
    exact ⟨rfl, unread⟩
  · rintro ⟨rfl, unread⟩
    rw [parseWith, unread]
    rfl

end Parse

/-- The accesses of the loader can go wrong: a structure and a block that nobody counted. -/
example :
    loadStruct [] (.list [.symbol "struct"]) = .error ⟨.nowhere, .crashed (.outOfRange 1)⟩ ∧
      createBlocks [] "f" [] [] [.symbol "block"] = .error ⟨.nowhere, .crashed .noParts⟩ :=
      ⟨rfl, rfl⟩

end Source

theorem Program.load_eq_error_iff {read : Sexp.Reader} {file text : String} {e : Source.Error} :
    Program.loadWith read file text = .error e ↔ Source.parseWith read file text = .error e := by
  unfold Program.loadWith
  cases Source.parseWith read file text with
  | error e' => exact ⟨fun h => by cases h; rfl, fun h => by cases h; rfl⟩
  | ok source => exact ⟨fun h => (by cases h), fun h => (by cases h)⟩

/-- **Refusals are typed and have a reason in the text.** Whatever the reader of forms: a program
text is loaded; or it is refused for a fault that it has, an unknown name among them where nothing
gives the name; or it gets to a `body` form, and exactly then something other than a refusal comes
of it. A pattern table is read, or it is refused for a fault that it has, with an error that carries
its source. A text that is no form is refused as one by both. -/
theorem load_refusals (read : Sexp.Reader) (file source text : String) :
    ((∃ p, Program.loadWith read file text = .ok p) ∨
      (∃ e, Program.loadWith read file text = .error e ∧ e.fault.isTyped = true ∧
        Source.Refused (read text) e.fault) ∨
      Program.loadWith read file text = .error ⟨.nowhere, .reservedForm⟩) ∧
    (∀ e, (Program.loadWith read file text = .error e ∧ e.fault.isTyped = false) ↔
      e = ⟨.nowhere, .reservedForm⟩ ∧ Source.ReachesBody file (read text)) ∧
    (∀ place reason, Program.loadWith read file text = .error ⟨place, .unreadable reason⟩ ↔
      place = .file file ∧ read text = .error reason) ∧
    ((∃ table, PatternTable.parseWith read source text = .ok table) ∨
      ∃ fault, PatternTable.parseWith read source text = .error ⟨source, fault⟩ ∧
        fault.isTyped = true ∧ Pattern.Refused (read text) fault) ∧
    ∀ reason, PatternTable.parseWith read source text = .error ⟨source, .unreadable reason⟩ ↔
      read text = .error reason := by
  refine ⟨?_, fun e => (and_congr_left' Program.load_eq_error_iff).trans Source.parse_untyped_iff,
    fun place reason => Program.load_eq_error_iff.trans Source.parse_eq_unreadable_iff, ?_,
    fun reason => Pattern.parse_eq_unreadable_iff⟩
  · cases loaded : Program.loadWith read file text with
    | ok p => exact .inl ⟨p, rfl⟩
    | error e =>
      rcases Source.refused_of_parse e (Program.load_eq_error_iff.mp loaded) with refused | ⟨rfl, _⟩
      · exact .inr (.inl ⟨e, rfl, refused.isTyped, refused⟩)
      · exact .inr (.inr rfl)
  · cases parsed : PatternTable.parseWith read source text with
    | ok table => exact .inl ⟨table, rfl⟩
    | error e =>
      obtain ⟨rfl, refused⟩ := Pattern.refused_of_parse e parsed
      exact .inr ⟨e.fault, rfl, refused.isTyped, refused⟩

/-- A `body` form is got to after items that are read, and hides behind one that is not. -/
example :
    Source.ofSexp "m" (.list [.symbol "module", .list [.symbol "global", .symbol "g"],
      .list [.symbol "body"]]) =
        .error ⟨.nowhere, .reservedForm⟩ ∧
      Source.ofSexp "m" (.list [.symbol "module", .list [.symbol "body", .symbol "f"],
        .list [.symbol "struct"]]) =
          .error ⟨.file "m", .tooShort "struct" 1⟩ := ⟨rfl, rfl⟩

end Relock
