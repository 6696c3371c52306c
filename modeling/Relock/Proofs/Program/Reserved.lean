import Relock.Proofs.Program.Built

/-!
# Number 0

The first number of the table is taken before any node is made, and stays vacant: the builder only
takes further numbers, and changes no vacant one. The call graph uses it for the calls that go to no
known function, so it must be no function's.
-/

namespace Relock.Program

variable {p : Program}

/-- Number 0 is taken, and no node has it. -/
structure Reserved (p : Program) : Prop where
  taken : 0 < p.nodes.size
  vacant : p.node 0 = .vacant

theorem Reserved.function_ne
    (reserved : p.Reserved) {f : FunctionId} (known : (p.function? f).isSome) : f ≠ 0 := by
  rintro rfl
  rw [function?, reserved.vacant] at known
  cases known

theorem Reserved.push (reserved : p.Reserved) (n : Node) : (p.push n).2.Reserved := by
  refine ⟨?_, ?_⟩
  · simp only [Program.push, Array.size_push]
    exact Nat.succ_pos _
  · rw [node_push, if_neg (Nat.ne_of_lt reserved.taken), reserved.vacant]

theorem Built.reserved (built : p.Built) : p.Reserved := by
  induction built with
  | empty name => exact ⟨Nat.zero_lt_one, rfl⟩
  | push _ _ ih => exact ih.push _
  | modify _ _ vacant _ ih =>
    refine ⟨?_, ?_⟩
    · simp only [Array.size_modify]
      exact ih.taken
    · rw [node_modify _ _ vacant, ih.vacant, vacant, ite_self]
  | declare _ _ ih =>
    obtain ⟨taken, vacant⟩ := ih.push _
    exact ⟨taken, vacant⟩
  | named _ nodes _ ih =>
    refine ⟨nodes ▸ ih.taken, ?_⟩
    rw [node, nodes]
    exact ih.vacant

/-- Loading leaves number 0 vacant. -/
theorem reserved_of_load {read : Sexp.Reader} {file text : String}
    (loaded : Program.loadWith read file text = .ok p) : p.Reserved :=
  (built_of_load loaded).reserved

/-- So does every row of calls to the builder: no call makes a function with number 0. -/
theorem function_ne_of_calls (name : String) (calls : List BuilderCall) {f : FunctionId}
    (known : ((calls.foldl call (empty name)).function? f).isSome) : f ≠ 0 :=
  (built_of_calls name calls).reserved.function_ne known

end Relock.Program
