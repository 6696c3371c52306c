import Relock.Pattern.Basic

/-!
# Where the kinds of matchers agree

A glob divides a text into pieces, one for each of its tokens. `Glob.accepts_cons` says so of the
first token: it stands for a piece at the front, of any length if it is a star, and the other tokens
take what is left. A text without wildcards reads as one token for each of its characters, and takes
just itself; with stars around it, it takes the texts that begin with it or that it occurs in. The
other kinds of matchers make the same three tests.
-/

namespace Relock

theorem mem_suffixes {α : Type} {rest as : List α} : rest ∈ suffixes as ↔ rest <:+ as := by
  induction as with
  | nil => rw [suffixes, List.mem_singleton, List.suffix_nil]
  | cons a as ih => rw [suffixes, List.mem_cons, ih, List.suffix_cons_iff]

theorem occursIn_iff {piece text : String} : occursIn piece text = true ↔
    piece.toList <:+: text.toList := by
  simp only [occursIn, List.any_eq_true, mem_suffixes, List.isPrefixOf_iff_prefix,
    List.infix_iff_prefix_suffix, and_comm]

namespace Glob

/-! ## What a row of tokens takes -/

/-- A token stands for a text: a star for any, another token for a character that it takes. -/
def Token.StandsFor : Token → List Char → Prop
  | star, _ => True
  | token, cs => ∃ c, cs = [c] ∧ token.takes c = true

variable {token : Token} {row : List Token} {cs : List Char}

theorem accepts_nil : accepts [] cs = true ↔ cs = [] := by
  rw [accepts, List.isEmpty_iff]

/-- The first token stands for a piece at the front, and the others take what is left. -/
theorem accepts_cons : accepts (token :: row) cs = true ↔
    ∃ piece rest, cs = piece ++ rest ∧ token.StandsFor piece ∧ accepts row rest = true := by
  by_cases star : token = .star
  · rw [star, accepts, List.any_eq_true]
    constructor
    · rintro ⟨rest, mem, left⟩
      obtain ⟨piece, rfl⟩ := mem_suffixes.mp mem
      exact ⟨piece, rest, rfl, trivial, left⟩
    · rintro ⟨piece, rest, rfl, _, left⟩
      exact ⟨rest, mem_suffixes.mpr (List.suffix_append _ _), left⟩
  · simp only [Token.StandsFor]
    constructor
    · intro taken
      cases cs with
      | nil => simp only [accepts, Bool.false_eq_true] at taken
      | cons c cs =>
        simp only [accepts, Bool.and_eq_true] at taken
        exact ⟨[c], cs, rfl, ⟨c, rfl, taken.1⟩, taken.2⟩
    · rintro ⟨_, rest, rfl, ⟨c, rfl, takes⟩, left⟩
      simp only [List.singleton_append, accepts, takes, left, Bool.and_self]

/-- A star takes a piece of any length. -/
theorem accepts_star : accepts (.star :: row) cs = true ↔ ∃ rest, rest <:+ cs ∧
    accepts row rest = true := by
  rw [accepts_cons]
  constructor
  · rintro ⟨piece, rest, rfl, _, left⟩
    exact ⟨rest, List.suffix_append _ _, left⟩
  · rintro ⟨rest, ⟨piece, rfl⟩, left⟩
    exact ⟨piece, rest, rfl, trivial, left⟩

/-- Characters that stand for themselves take themselves. -/
theorem accepts_ones {text : List Char} : accepts (text.map .one ++ row) cs = true ↔
    ∃ rest, cs = text ++ rest ∧ accepts row rest = true := by
  induction text generalizing cs with
  | nil => exact ⟨fun left => ⟨cs, rfl, left⟩, fun ⟨rest, same, left⟩ => same ▸ left⟩
  | cons c text ih =>
    rw [List.map_cons, List.cons_append, accepts_cons]
    constructor
    · rintro ⟨_, _, rfl, ⟨_, rfl, takes⟩, later⟩
      obtain ⟨rest, rfl, left⟩ := ih.mp later
      obtain rfl := of_decide_eq_true takes
      exact ⟨rest, rfl, left⟩
    · rintro ⟨rest, rfl, left⟩
      exact ⟨[c], text ++ rest, rfl, ⟨c, rfl, decide_eq_true rfl⟩, ih.mpr ⟨rest, rfl, left⟩⟩

theorem accepts_text {text : List Char} : accepts (text.map .one) cs = true ↔ cs = text := by
  rw [← List.append_nil (text.map Token.one), accepts_ones]
  simp only [accepts_nil, exists_eq_right, List.append_nil]

theorem accepts_text_star {text : List Char} : accepts (text.map .one ++ [.star]) cs = true ↔
    text <+: cs := by
  rw [accepts_ones]
  constructor
  · rintro ⟨rest, rfl, _⟩
    exact List.prefix_append _ _
  · rintro ⟨rest, rfl⟩
    exact ⟨rest, rfl, accepts_star.mpr ⟨[], List.nil_suffix, rfl⟩⟩

theorem accepts_star_text_star {text : List Char} :
    accepts (.star :: (text.map .one ++ [.star])) cs = true ↔ text <:+: cs := by
  simp only [accepts_star, accepts_text_star, List.infix_iff_prefix_suffix, and_comm]

/-! ## Reading a text without wildcards -/

/-- Characters other than the wildcards stand for themselves, whatever follows. -/
theorem tokens_append {text : List Char} (plain : ∀ c ∈ text, c ∉ ['*', '?', '[']) (fuel : Nat)
    (rest : List Char) :
    tokens (text.length + fuel) (text ++ rest) = text.map .one ++ tokens fuel rest := by
  induction text with
  | nil => rw [List.length_nil, Nat.zero_add]; rfl
  | cons c text ih =>
    obtain ⟨here, later⟩ := List.forall_mem_cons.mp plain
    simp only [List.mem_cons, List.not_mem_nil, or_false, not_or] at here
    obtain ⟨noStar, noAny, noSet⟩ := here
    rw [List.length_cons, Nat.add_right_comm, List.cons_append, List.map_cons,
      List.cons_append, ← ih later]
    simp only [tokens]

theorem parse_star (pattern : String) : parse ("*" ++ pattern) = .star :: parse pattern := by
  rw [parse, String.length_append, String.toList_append, Nat.add_comm]
  rfl

section Parse

variable {text : String} (plain : ∀ c ∈ text.toList, c ∉ ['*', '?', '['])

include plain

theorem parse_append (pattern : String) :
    parse (text ++ pattern) = text.toList.map .one ++ parse pattern := by
  rw [parse, String.length_append, String.toList_append, ← String.length_toList,
    tokens_append plain, parse]

theorem parse_text : parse text = text.toList.map .one := by
  have read := parse_append plain ""
  rwa [String.append_empty, show parse "" = [] from rfl, List.append_nil] at read

theorem parse_text_star : parse (text ++ "*") = text.toList.map .one ++ [.star] :=
  parse_append plain "*"

theorem parse_star_text_star :
    parse ("*" ++ text ++ "*") = .star :: (text.toList.map .one ++ [.star]) := by
  rw [String.append_assoc, parse_star, parse_text_star plain]

end Parse

end Glob

/-- A glob without wildcards takes what it equals, with a star after it what begins with it, and
between stars what it occurs in. -/
theorem accepts_glob_text {text : String}
    (plain : '*' ∉ text.toList ∧ '?' ∉ text.toList ∧ '[' ∉ text.toList)
    (name : String) :
    (⟨.glob, text⟩ : NameMatcher).accepts name = (⟨.equals, text⟩ : NameMatcher).accepts name ∧
    (⟨.glob, text ++ "*"⟩ : NameMatcher).accepts name =
      (⟨.starts, text⟩ : NameMatcher).accepts name ∧
    (⟨.glob, "*" ++ text ++ "*"⟩ : NameMatcher).accepts name =
      (⟨.contains, text⟩ : NameMatcher).accepts name := by
  have plain : ∀ c ∈ text.toList, c ∉ ['*', '?', '['] := by
    intro c mem wild
    simp only [List.mem_cons, List.not_mem_nil, or_false] at wild
    rcases wild with rfl | rfl | rfl
    · exact plain.1 mem
    · exact plain.2.1 mem
    · exact plain.2.2 mem
  refine ⟨Bool.eq_iff_iff.mpr ?_, Bool.eq_iff_iff.mpr ?_, Bool.eq_iff_iff.mpr ?_⟩
  · simp only [NameMatcher.accepts, globAccepts, Glob.parse_text plain, Glob.accepts_text,
      String.toList_inj, decide_eq_true_eq]
  · simp only [NameMatcher.accepts, globAccepts, Glob.parse_text_star plain, Glob.accepts_text_star,
      List.isPrefixOf_iff_prefix]
  · simp only [NameMatcher.accepts, globAccepts, Glob.parse_star_text_star plain,
      Glob.accepts_star_text_star, occursIn_iff]

/-- A text with a closing bracket, a line break and a letter outside ASCII, which a longer name
holds but does not begin with; and the empty text. -/
theorem accepts_glob_text_bracket :
    (⟨.glob, "]é\n::"⟩ : NameMatcher).accepts "]é\n::" = true ∧
    (⟨.glob, "]é\n::" ++ "*"⟩ : NameMatcher).accepts "a]é\n::b" = false ∧
    (⟨.glob, "*" ++ "]é\n::" ++ "*"⟩ : NameMatcher).accepts "a]é\n::b" = true ∧
    (⟨.glob, ""⟩ : NameMatcher).accepts "a" = false ∧
    (⟨.glob, "" ++ "*"⟩ : NameMatcher).accepts "a\n" = true := by
  have plain : '*' ∉ "]é\n::".toList ∧ '?' ∉ "]é\n::".toList ∧ '[' ∉ "]é\n::".toList := by decide
  have empty : '*' ∉ "".toList ∧ '?' ∉ "".toList ∧ '[' ∉ "".toList := by decide
  obtain ⟨same, _, _⟩ := accepts_glob_text plain "]é\n::"
  obtain ⟨_, starts, contains⟩ := accepts_glob_text plain "a]é\n::b"
  obtain ⟨none, _, _⟩ := accepts_glob_text empty "a"
  obtain ⟨_, all, _⟩ := accepts_glob_text empty "a\n"
  rw [same, starts, contains, none, all]
  decide +kernel

end Relock
