import Relock.Proofs.Program.OfSource
import Relock.Proofs.Source.Loader

/-!
# What the decoder checks

A program text that is read has the operands that its operations need: every operation form is
refused if it is too short for its kind. `Program.load` therefore only makes finished programs.
-/

namespace Relock
namespace Source

/-! ## Operations -/

/-- A form that is not refused for its length is long enough. -/
theorem le_length_of_need {place : Place} {kind : OpKind} {args : List Sexp} {n : Nat} {u : Unit}
    (h : (if args.length < n then refuse place (.tooFewOperands kind n)
      else pure () : Except Error Unit) = .ok u) :
    n ≤ args.length := by
  split at h
  next => cases h
  next enough => exact Nat.le_of_not_lt enough

theorem length_of_mapM_take {ε α β : Type} {f : α → Except ε β} {row : List α} {out : List β}
    {n : Nat} (h : (row.take n).mapM f = .ok out) (enough : n ≤ row.length) : out.length = n := by
  rw [length_of_mapM h, List.length_take, Nat.min_eq_left enough]

/-- An operation that is read has the operands its kind needs. -/
theorem complete_of_opOf {names : List String} {draft : Draft} {op : Op}
    (h : opOf names draft = .ok op) :
    op.Complete := by
  unfold opOf at h
  unfold Op.Complete
  -- one case for each way in which the operands of a kind are written
  cases kind : draft.kind <;> simp only [kind] at h
  case alloca | unreachable =>
    cases h
    exact Nat.zero_le _
  case load | cast =>
    obtain ⟨_, need, h⟩ := bind_eq_ok h
    obtain ⟨values, read, h⟩ := bind_eq_ok h
    cases h
    exact Nat.le_of_eq (length_of_mapM_take read (le_length_of_need need)).symm
  case store | memcpy | memset | cmp | binop | phi =>
    obtain ⟨_, need, h⟩ := bind_eq_ok h
    obtain ⟨values, read, h⟩ := bind_eq_ok h
    cases h
    exact Nat.le_trans (le_length_of_need need) (Nat.le_of_eq (length_of_mapM read).symm)
  case gep =>
    obtain ⟨_, need, h⟩ := bind_eq_ok h
    obtain ⟨base, read, h⟩ := bind_eq_ok h
    obtain ⟨_, _, h⟩ := bind_eq_ok h
    cases h
    have one := length_of_mapM_take read (le_length_of_need need)
    simp only [OpKind.leastOperands, List.length_append, one]
    exact Nat.le_add_right 1 _
  case extract | insert =>
    obtain ⟨_, need, h⟩ := bind_eq_ok h
    obtain ⟨indices, _, h⟩ := bind_eq_ok h
    obtain ⟨values, read, h⟩ := bind_eq_ok h
    cases h
    exact Nat.le_of_eq (length_of_mapM_take read (le_length_of_need need)).symm
  case call =>
    split at h
    next => cases h
    next =>
      obtain ⟨callee, _, h⟩ := bind_eq_ok h
      obtain ⟨values, _, h⟩ := bind_eq_ok h
      cases h
      exact Nat.zero_le _
  case invoke =>
    split at h
    next =>
      obtain ⟨callee, _, h⟩ := bind_eq_ok h
      obtain ⟨values, _, h⟩ := bind_eq_ok h
      obtain ⟨targets, _, h⟩ := bind_eq_ok h
      cases h
      exact Nat.zero_le _
    next => cases h
  case br =>
    obtain ⟨_, _, h⟩ := bind_eq_ok h
    obtain ⟨targets, _, h⟩ := bind_eq_ok h
    cases h
    exact Nat.zero_le _
  case condbr | switch =>
    obtain ⟨_, need, h⟩ := bind_eq_ok h
    obtain ⟨values, read, h⟩ := bind_eq_ok h
    obtain ⟨targets, _, h⟩ := bind_eq_ok h
    cases h
    have enough : 1 ≤ draft.args.length := Nat.le_trans (by decide) (le_length_of_need need)
    exact Nat.le_of_eq (length_of_mapM_take read enough).symm
  case ret | resume =>
    obtain ⟨values, _, h⟩ := bind_eq_ok h
    cases h
    exact Nat.zero_le _

/-! ## Items -/

theorem complete_of_blockOf {names : List String} {draft : DraftBlock} {block : Block}
    (h : blockOf names draft = .ok block) : ∀ op ∈ block.ops, op.Complete := by
  obtain ⟨ops, read, h⟩ := bind_eq_ok h
  cases h
  exact forall_of_mapM (fun _ _ _ => complete_of_opOf) read

theorem complete_of_withBody {structs globals : List String} {item : Item (List Sexp)}
    {read : Item Block} (h : item.withBody structs globals = .ok read) : read.Complete := by
  cases item with
  | struct name fields =>
    cases h
    trivial
  | global name type =>
    cases h
    trivial
  | function signature blocks =>
    obtain ⟨body, made, h⟩ := bind_eq_ok h
    cases h
    obtain ⟨⟨drafts, bound⟩, _, made⟩ := bind_eq_ok made
    obtain ⟨blocks, readBlocks, made⟩ := bind_eq_ok made
    obtain ⟨_, _, made⟩ := bind_eq_ok made
    cases made
    exact forall_of_mapM (fun _ _ _ => complete_of_blockOf) readBlocks

/-- Every operation of a module that is read has its operands. -/
theorem complete_of_decode {file : String} {form : Sexp} {source : Source}
    (h : decode file form = .ok source) :
    ∀ item ∈ source.items, item.Complete := by
  obtain ⟨outline, _, h⟩ := bind_eq_ok h
  obtain ⟨items, read, h⟩ := bind_eq_ok h
  cases h
  exact forall_of_mapM (fun _ _ _ => complete_of_withBody) read

theorem complete_of_parse {read : Sexp.Reader} {file text : String} {source : Source}
    (h : parseWith read file text = .ok source) : ∀ item ∈ source.items, item.Complete := by
  obtain ⟨form, _, h⟩ := decode_of_parse h
  exact complete_of_decode h

end Source

namespace Program

section Loaded

variable {read : Sexp.Reader} {file text : String} {p : Program}
    (loaded : loadWith read file text = .ok p)

include loaded

/-- A program that is loaded is made from a text that is read. -/
theorem source_of_load : ∃ source, Source.parseWith read file text = .ok source ∧
    p = ofSource source := by
  obtain ⟨source, read, rfl⟩ := map_eq_ok loaded
  exact ⟨source, read, rfl⟩

/-- Loading makes finished programs only. -/
theorem finished_of_load : p.Finished := by
  obtain ⟨source, read, rfl⟩ := source_of_load loaded
  exact finished_ofSource (Source.complete_of_parse read)

theorem shape_of_load : p.Shape := (finished_of_load loaded).shape

end Loaded
end Program

/-- A text that loads, with something that can be checked of its program. The text is taken as the
row of its characters, which spares the evaluation of closed instances the way from its bytes. -/
theorem Program.exists_of_load {file text : String} {cs : List Char}
    (spelled : text = String.ofList cs) {holds : Program → Bool}
    (h : (match Sexp.readItems cs.length (cs.length + 1) cs with
      | .ok ([form], []) => (Source.decode file form).toOption.any fun source =>
          holds (Program.ofSource source)
      | _ => false) = true) :
    ∃ p, Program.load file text = .ok p ∧ holds p = true := by
  have chars : text.toList = cs := by rw [spelled, String.toList_ofList]
  split at h
  next form read =>
    obtain ⟨source, parsed, holds⟩ := exists_of_any h
    refine ⟨Program.ofSource source, ?_, holds⟩
    simp only [Program.load, Program.loadWith, Source.parseWith, Sexp.reader, Sexp.read, chars,
      read, Except.mapError, Source.ofSexp_eq, parsed, Except.map]
  next => simp only [Bool.false_eq_true] at h

end Relock
