/-!
# Numerals and lines

The text of a number is a row of digits, with a minus sign before it if the number is negative. It
tells the number, and it ends where a character follows that is neither. Lines without newlines are
found again in the text that holds them one after the other.
-/

namespace Relock.Text

/-! ## Numerals -/

/-- The characters of numerals. -/
def isNumeral (c : Char) : Bool := c = '-' || c.isDigit

theorem isNumeral_of_mem_nat {n : Nat} {c : Char} (mem : c ∈ (toString n).toList) :
    isNumeral c = true := by
  rw [Nat.toString_eq_ofList_toDigits, String.toList_ofList] at mem
  rw [isNumeral, Nat.isDigit_of_mem_toDigits (by decide) (by decide) mem, Bool.or_true]

theorem toList_negSucc (n : Nat) :
    (toString (Int.negSucc n)).toList = '-' :: (toString (n + 1)).toList :=
  String.toList_append

theorem isNumeral_of_mem {n : Int} {c : Char} (mem : c ∈ (toString n).toList) :
    isNumeral c = true := by
  cases n with
  | ofNat n => exact isNumeral_of_mem_nat mem
  | negSucc n =>
    rw [toList_negSucc] at mem
    rcases List.mem_cons.mp mem with rfl | later
    · rfl
    · exact isNumeral_of_mem_nat later

theorem toString_nat_inj {m n : Nat} (same : (toString m).toList = (toString n).toList) :
    m = n := by
  rw [Nat.toString_eq_ofList_toDigits, Nat.toString_eq_ofList_toDigits, String.toList_ofList,
    String.toList_ofList] at same
  rw [← Nat.ofDigitChars_ten_toDigits (n := m), same, Nat.ofDigitChars_ten_toDigits]

/-- A natural number has no sign. -/
theorem toString_nat_ne {m : Nat} {cs : List Char} : (toString m).toList ≠ '-' :: cs := by
  intro same
  rw [Nat.toString_eq_ofList_toDigits, String.toList_ofList] at same
  have sign : '-' ∈ Nat.toDigits 10 m := same ▸ List.mem_cons_self
  exact absurd (Nat.isDigit_of_mem_toDigits (by decide) (by decide) sign) (by decide)

theorem toString_int_inj {m n : Int} (same : (toString m).toList = (toString n).toList) :
    m = n := by
  cases m with
  | ofNat m =>
    cases n with
    | ofNat n => exact congrArg Int.ofNat (toString_nat_inj same)
    | negSucc n => exact absurd (same.trans (toList_negSucc n)) toString_nat_ne
  | negSucc m =>
    cases n with
    | ofNat n => exact absurd (same.symm.trans (toList_negSucc m)) toString_nat_ne
    | negSucc n =>
      rw [toList_negSucc, toList_negSucc] at same
      exact congrArg Int.negSucc (Nat.succ.inj (toString_nat_inj (List.cons.inj same).2))

theorem toString_int_starts (n : Int) : ∃ c cs, (toString n).toList = c :: cs ∧
    isNumeral c = true := by
  have nonempty : (toString n).toList ≠ [] := by
    cases n with
    | ofNat n =>
      show (toString n).toList ≠ []
      rw [Nat.toString_eq_ofList_toDigits, String.toList_ofList]
      exact Nat.toDigits_ne_nil
    | negSucc n =>
      rw [toList_negSucc]
      exact List.cons_ne_nil _ _
  obtain ⟨c, cs, text⟩ := List.exists_cons_of_ne_nil nonempty
  exact ⟨c, cs, text, isNumeral_of_mem (text ▸ List.mem_cons_self)⟩

/-- A text does not go on with a character of a numeral. -/
def Stops (rest : List Char) : Prop := ∀ c ∈ rest.head?, isNumeral c = false

theorem stops_cons {c : Char} (other : isNumeral c = false) (rest : List Char) :
    Stops (c :: rest) := by
  intro d first
  obtain rfl : c = d := Option.some.inj first
  exact other

theorem takeWhile_numeral {cs rest : List Char} (all : ∀ c ∈ cs, isNumeral c = true)
    (stops : Stops rest) :
    (cs ++ rest).takeWhile isNumeral = cs := by
  rw [List.takeWhile_append_of_pos all]
  cases rest with
  | nil => exact List.append_nil cs
  | cons c rest => rw [List.takeWhile_cons_of_neg (by rw [stops c rfl]; decide), List.append_nil]

/-- Numbers are told apart by the texts that begin with them. -/
theorem toString_append_inj {m n : Int} {rest rest' : List Char} (stops : Stops rest)
    (stops' : Stops rest') (same : (toString m).toList ++ rest = (toString n).toList ++ rest') :
    m = n ∧ rest = rest' := by
  have front : (toString m).toList = (toString n).toList := by
    rw [← takeWhile_numeral (fun _ => isNumeral_of_mem) stops, same,
      takeWhile_numeral (fun _ => isNumeral_of_mem) stops']
  rw [front] at same
  exact ⟨toString_int_inj front, List.append_cancel_left same⟩

/-! ## Lines -/

/-- Lines with newlines between them are lines with a newline after each, but for the last. -/
theorem intercalate_newline (lines : List String) (last : String) :
    "\n".intercalate (lines ++ [last]) = String.join (lines.map (· ++ "\n")) ++ last := by
  induction lines with
  | nil =>
    rw [List.nil_append, String.intercalate_singleton, List.map_nil, String.join_nil,
      String.empty_append]
  | cons line lines ih =>
    have more : lines ++ [last] ≠ [] := List.append_ne_nil_of_right_ne_nil _ (List.cons_ne_nil _ _)
    rw [List.cons_append, String.intercalate_cons_of_ne_nil more, ih, List.map_cons,
      String.join_cons]
    exact String.append_assoc.symm

/-- Lines with newlines between them divide at the newlines. -/
theorem splitOn_newline {lines : List String} (each : ∀ line ∈ lines, '\n' ∉ line.toList)
    (nonempty : lines ≠ []) :
    ("\n".intercalate lines).toList.splitOn '\n' = lines.map String.toList := by
  rw [String.toList_intercalate]
  refine List.splitOn_intercalate _ (fun text mem => ?_) (mt List.map_eq_nil_iff.mp nonempty)
  obtain ⟨line, inLines, rfl⟩ := List.mem_map.mp mem
  exact each line inLines

theorem count_newline {lines : List String} (each : ∀ line ∈ lines, '\n' ∉ line.toList) :
    (String.join (lines.map (· ++ "\n"))).toList.count '\n' = lines.length := by
  induction lines with
  | nil => rfl
  | cons line lines ih =>
    obtain ⟨here, later⟩ := List.forall_mem_cons.mp each
    have one : "\n".toList.count '\n' = 1 := by decide
    rw [List.map_cons, String.join_cons, String.toList_append, String.toList_append,
      List.count_append, List.count_append, ih later, List.count_eq_zero.mpr here, one,
      List.length_cons]
    omega

end Relock.Text
