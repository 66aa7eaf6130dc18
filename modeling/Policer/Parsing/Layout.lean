import Mathlib.Data.List.TakeWhile
import Policer.Parsing.Names
import Policer.Parsing.RuleGrammar

/-!
# Layouts of tokens

Tokens with any white space in front of them, and how the parsers of the grammar read a token: a
sign, a word, a symbol of a table, a name and a text up to its end.
-/

namespace Policer.Parsing

open Policer.Lib.Expectation Rules

/-! ### White space in front of tokens -/

/-- Tokens with white space in front of them, and the rest of the text. -/
inductive Laid : List Str → Str → Str → Prop where
  | nil (rest : Str) : Laid [] rest rest
  | cons {tokens : List Str} {blanks rest text : Str} (token : Str)
      (blank : ∀ c ∈ blanks, space c = true) (later : Laid tokens rest text) :
      Laid (token :: tokens) rest (blanks ++ (token ++ text))

section Laid

variable {tokens others : List Str} {token rest text : Str}

theorem laid_cons : Laid (token :: tokens) rest text ↔ ∃ blanks middle,
    (∀ c ∈ blanks, space c = true) ∧ Laid tokens rest middle ∧
      text = blanks ++ (token ++ middle) := by
  constructor
  · intro laid
    cases laid with
    | cons token blank later => exact ⟨_, _, blank, later, rfl⟩
  · rintro ⟨blanks, middle, blank, later, rfl⟩
    exact .cons token blank later

theorem laid_append : Laid (tokens ++ others) rest text ↔
    ∃ middle, Laid tokens middle text ∧ Laid others rest middle := by
  constructor
  · intro laid
    induction tokens generalizing text with
    | nil => exact ⟨text, .nil text, laid⟩
    | cons token tokens ih =>
        obtain ⟨blanks, behind, blank, later, rfl⟩ := laid_cons.mp laid
        obtain ⟨middle, first, second⟩ := ih later
        exact ⟨middle, .cons token blank first, second⟩
  · rintro ⟨middle, first, second⟩
    induction first with
    | nil => exact second
    | cons token blank _ ih => exact .cons token blank (ih second)

/-- White space in front of the first token belongs to the layout. -/
theorem Laid.blank {c : Char} (laid : Laid (token :: tokens) rest text) (isSpace : space c = true) :
    Laid (token :: tokens) rest (c :: text) := by
  cases laid with
  | cons token blank later =>
      rw [← List.cons_append]
      exact .cons token (List.forall_mem_cons.mpr ⟨isSpace, blank⟩) later

theorem Laid.length_le (laid : Laid tokens rest text) : rest.length ≤ text.length := by
  induction laid with
  | nil => exact Nat.le_refl _
  | cons token blank later ih =>
      simp only [List.length_append]
      omega

/-- Each token behind its white space. -/
def layOut (rest : Str) : List (Str × Str) → Str
  | [] => rest
  | (blanks, token) :: entries => blanks ++ (token ++ layOut rest entries)

theorem laid_layOut (rest : Str) : (entries : List (Str × Str)) →
    (entries.all fun entry => entry.1.all space) = true →
      Laid (entries.map Prod.snd) rest (layOut rest entries)
  | [], _ => .nil rest
  | entry :: entries, blank => by
      rw [List.all_cons, Bool.and_eq_true] at blank
      exact .cons entry.2 (List.all_eq_true.mp blank.1) (laid_layOut rest entries blank.2)

/-- A token that starts with no white space but with a character of the encoding. -/
def isVisible (token : Str) : Bool := token.head?.any fun c => !space c && isAscii c

theorem exists_of_isVisible (visible : isVisible token = true) :
    ∃ c word, token = c :: word ∧ space c = false ∧ isAscii c = true := by
  cases token with
  | nil => cases visible
  | cons c word => exact ⟨c, word, rfl, by simpa [isVisible] using visible⟩

theorem length_lt_of_visible {blanks middle : Str} (visible : isVisible token = true) :
    middle.length < (blanks ++ (token ++ middle)).length := by
  obtain ⟨c, word, rfl, _⟩ := exists_of_isVisible visible
  simp only [List.length_append, List.length_cons]
  omega

theorem Laid.length_lt (laid : Laid (token :: tokens) rest text)
    (visible : isVisible token = true) :
    rest.length < text.length := by
  obtain ⟨blanks, middle, blank, later, rfl⟩ := laid_cons.mp laid
  exact later.length_le.trans_lt (length_lt_of_visible visible)

theorem dropWhile_blanks {blanks : Str} (blank : ∀ c ∈ blanks, space c = true) (text : Str) :
    (blanks ++ text).dropWhile space = text.dropWhile space :=
  List.dropWhile_append_of_pos blank

theorem preSkip_blanks {α : Type} {parser : Parser Char α} {blanks : Str}
    (blank : ∀ c ∈ blanks, space c = true) (text : Str) :
    preSkip parser (blanks ++ text) = preSkip parser text := by
  rw [preSkip, preSkip, skips, skips, dropWhile_blanks blank]

theorem dropWhile_visible (visible : isVisible token = true) (text : Str) :
    (token ++ text).dropWhile space = token ++ text := by
  obtain ⟨c, word, rfl, noSpace, _⟩ := exists_of_isVisible visible
  rw [List.cons_append, List.dropWhile_cons_of_neg (by simp [noSpace])]

theorem preSkip_visible {α : Type} {parser : Parser Char α} (visible : isVisible token = true)
    (text : Str) : preSkip parser (token ++ text) = parser (token ++ text) := by
  have skipped := dropWhile_visible visible text
  obtain ⟨c, word, rfl, _, ascii⟩ := exists_of_isVisible visible
  exact preSkip_cons skipped ascii

end Laid

/-! ### What follows -/

/-- What comes first behind white space is one of the signs, if anything does. -/
def EndsAt (signs rest : Str) : Prop := ∀ c, (rest.dropWhile space).head? = some c → c ∈ signs

section EndsAt

variable {signs rest : Str}

theorem EndsAt.mono {more : Str} (follows : EndsAt signs rest)
    (subset : signs.all more.contains = true) : EndsAt more rest := fun c first => by
  simpa using List.all_eq_true.mp subset c (follows c first)

theorem EndsAt.clear (follows : EndsAt signs rest) (ascii : signs.all isAscii = true) :
    Clear rest := by
  rw [Clear, skips]
  cases first : (rest.dropWhile space).head? with
  | none => rfl
  | some c => exact List.all_eq_true.mp ascii c (follows c first)

theorem EndsAt.not_starts {letters : Str} (follows : EndsAt signs rest)
    (disjoint : areApart signs letters = true) : ¬ Starts letters rest := by
  rintro ⟨c, member, first⟩
  exact notMem_of_areApart disjoint (follows c first) member

theorem Laid.head {tokens : List Str} {token text : Str} (laid : Laid (token :: tokens) rest text)
    (visible : isVisible token = true) : (text.dropWhile space).head? = token.head? := by
  obtain ⟨blanks, middle, blank, later, rfl⟩ := laid_cons.mp laid
  rw [dropWhile_blanks blank, dropWhile_visible visible]
  obtain ⟨c, word, rfl, _⟩ := exists_of_isVisible visible
  rfl

theorem Laid.follows {tokens : List Str} {c : Char} {token text : Str}
    (laid : Laid (token :: tokens) rest text) (visible : isVisible token = true)
    (isHead : token.head? = some c) : EndsAt [c] text := by
  intro d first
  rw [laid.head visible, isHead] at first
  cases first
  exact List.mem_singleton_self c

theorem Laid.starts {tokens : List Str} {c : Char} {token text : Str}
    (laid : Laid (token :: tokens) rest text) (visible : isVisible token = true)
    (isHead : token.head? = some c) : Starts [c] text :=
  ⟨c, List.mem_singleton_self c, (laid.head visible).trans isHead⟩

/-- The first character is white space or one of the signs. -/
theorem EndsAt.head {c : Char} (follows : EndsAt signs rest) (first : rest.head? = some c) :
    space c = true ∨ c ∈ signs := by
  obtain ⟨tail, rfl⟩ := List.head?_eq_some_iff.mp first
  by_cases isSpace : space c = true
  · exact Or.inl isSpace
  · refine Or.inr (follows c ?_)
    rw [List.dropWhile_cons_of_neg isSpace]
    rfl

theorem EndsAt.mem {c : Char} (follows : EndsAt signs rest) (first : rest.head? = some c) :
    c ∈ " \t\n\x0b\x0c\r".toList ++ signs := by
  rcases follows.head first with isSpace | member
  · simp only [space, Bool.or_eq_true, beq_iff_eq] at isSpace
    rcases isSpace with ((((rfl | rfl) | rfl) | rfl) | rfl) | rfl <;> simp
  · exact List.mem_append_right _ member

theorem EndsAt.ne {c d : Char} (follows : EndsAt signs rest) (first : rest.head? = some c)
    (outside : d ∉ " \t\n\x0b\x0c\r".toList ++ signs) : c ≠ d := by
  rintro rfl
  exact outside (follows.mem first)

/-- No character of a class stands behind when the class has neither white space nor the signs. -/
theorem EndsAt.rejects {cls : Char → Bool} {c : Char} (follows : EndsAt signs rest)
    (outside : (" \t\n\x0b\x0c\r".toList ++ signs).all (fun d => !cls d) = true)
    (first : rest.head? = some c) : cls c = false := by
  simpa using List.all_eq_true.mp outside c (follows.mem first)

theorem EndsAt.endsName (follows : EndsAt signs rest)
    (outside : (" \t\n\x0b\x0c\r".toList ++ signs).all (fun d => !isIdentifierRest d) = true) :
    EndsName rest := fun _ first => follows.rejects outside first

end EndsAt

/-! ### Signs, words and symbols -/

section Tokens

variable {α : Type} {tokens : List Str} {rest text : Str}

theorem lit_of_laid {c : Char} (visible : isVisible [c] = true)
    (laid : Laid ([c] :: tokens) rest text) :
    ∃ middle, lit c text = .matched () middle ∧ Laid tokens rest middle ∧
      middle.length < text.length := by
  obtain ⟨blanks, middle, blank, later, rfl⟩ := laid_cons.mp laid
  refine ⟨middle, ?_, later, length_lt_of_visible visible⟩
  rw [lit, preSkip_blanks blank, preSkip_visible visible]
  exact if_pos rfl

theorem litString_of_laid {word : Str} (visible : isVisible word = true)
    (laid : Laid (word :: tokens) rest text) :
    ∃ middle, litString word text = .matched () middle ∧ Laid tokens rest middle ∧
      middle.length < text.length := by
  obtain ⟨blanks, middle, blank, later, rfl⟩ := laid_cons.mp laid
  refine ⟨middle, ?_, later, length_lt_of_visible visible⟩
  have starts : word.isPrefixOf (word ++ middle) = true :=
    List.isPrefixOf_iff_prefix.mpr (List.prefix_append _ _)
  rw [litString, preSkip_blanks blank, preSkip_visible visible, if_pos starts, List.drop_left]

/-- No word of a table starts another one. -/
def PrefixFree (table : List (Str × α)) : Prop :=
  ∀ entry ∈ table, ∀ other ∈ table, entry.1 <+: other.1 → entry = other

theorem prefixFind_cons {entry : Str × α} {table : List (Str × α)} :
    prefixFind (entry :: table) text = match prefixFind table text with
      | none => if entry.1.isPrefixOf text then some entry else none
      | some other =>
          if entry.1.isPrefixOf text && other.1.length < entry.1.length then some entry
          else some other := rfl

theorem prefixFind_some {table : List (Str × α)} {found : Str × α}
    (finds : prefixFind table text = some found) : found ∈ table ∧ found.1 <+: text := by
  induction table with
  | nil => cases finds
  | cons entry table ih =>
      rw [prefixFind_cons] at finds
      cases later : prefixFind table text with
      | none =>
          rw [later] at finds
          obtain ⟨starts, same⟩ := Option.ite_none_right_eq_some.mp finds
          cases same
          exact ⟨List.mem_cons_self, List.isPrefixOf_iff_prefix.mp starts⟩
      | some other =>
          simp only [later] at finds
          split at finds
          · rename_i starts
            cases finds
            rw [Bool.and_eq_true] at starts
            exact ⟨List.mem_cons_self, List.isPrefixOf_iff_prefix.mp starts.1⟩
          · cases finds
            obtain ⟨member, starts⟩ := ih later
            exact ⟨List.mem_cons_of_mem _ member, starts⟩

/-- A word of such a table in front of a text is the one that is found. -/
theorem prefixFind_of_mem {table : List (Str × α)} (free : PrefixFree table) {entry : Str × α}
    (member : entry ∈ table) (starts : entry.1 <+: text) : prefixFind table text = some entry := by
  cases finds : prefixFind table text with
  | none => exact absurd starts (prefixFind_eq_none.mp finds entry member)
  | some other =>
      obtain ⟨isOther, also⟩ := prefixFind_some finds
      rcases List.prefix_or_prefix_of_prefix also starts with within | within
      · rw [free other isOther entry member within]
      · rw [free entry member other isOther within]

theorem symbols_of_laid {table : List (Str × α)} (free : PrefixFree table) {word : Str} {value : α}
    (member : (word, value) ∈ table) (visible : isVisible word = true)
    (laid : Laid (word :: tokens) rest text) :
    ∃ middle, symbols table text = .matched value middle ∧ Laid tokens rest middle ∧
      middle.length < text.length := by
  obtain ⟨blanks, middle, blank, later, rfl⟩ := laid_cons.mp laid
  refine ⟨middle, ?_, later, length_lt_of_visible visible⟩
  have finds : prefixFind table (word ++ middle) = some (word, value) :=
    prefixFind_of_mem free member (List.prefix_append _ _)
  rw [symbols, preSkip_blanks blank, preSkip_visible visible, finds]
  exact congrArg _ List.drop_left

/-- No symbol of a table stands in front of other letters. -/
theorem symbols_noMatch {table : List (Str × α)} {letters : Str}
    (heads : (table.all fun entry => entry.1.head?.any letters.contains) = true)
    (clear : Clear text) (none : ¬ Starts letters text) : symbols table text = .noMatch := by
  rw [symbols_eq_noMatch]
  refine ⟨clear, ?_⟩
  rintro ⟨word, value⟩ member ⟨tail, whole⟩
  have isHead := List.all_eq_true.mp heads _ member
  cases word with
  | nil => cases isHead
  | cons c word =>
      exact none ⟨c, by simpa using isHead, by rw [← whole]; rfl⟩

theorem isVisible_name (name : Identifier) : isVisible name.text = true := by
  obtain ⟨c, tail, made, starts, _⟩ := name.exists_cons
  simp [made, isVisible, (isIdentifierStart_ne starts).1, isAscii_of_start starts]

theorem identifier_of_laid {name : Identifier} (laid : Laid (name.text :: tokens) rest text)
    (ends : ∀ middle, Laid tokens rest middle → EndsName middle) :
    ∃ middle, identifier text = .matched name middle ∧ Laid tokens rest middle ∧
      middle.length < text.length := by
  obtain ⟨blanks, middle, blank, later, rfl⟩ := laid_cons.mp laid
  refine ⟨middle, ?_, later, length_lt_of_visible (isVisible_name name)⟩
  rw [← identifier_of_name name (ends middle later)]
  exact preSkip_blanks blank _

/-! ### What a match says -/

theorem lit_eq_matched {c : Char} (reads : lit c text = .matched () rest) :
    text.dropWhile space = c :: rest := by
  obtain ⟨_, reads⟩ := preSkip_eq_matched.mp reads
  split at reads
  · cases reads
  · rename_i d tail whole
    split at reads
    · rename_i same
      cases reads
      rw [whole, same]
    · cases reads

theorem symbols_eq_matched {table : List (Str × α)} {value : α}
    (reads : symbols table text = .matched value rest) :
    ∃ word, (word, value) ∈ table ∧ word <+: text.dropWhile space := by
  obtain ⟨_, reads⟩ := preSkip_eq_matched.mp reads
  split at reads
  · cases reads
  · rename_i found
    cases reads
    exact ⟨_, prefixFind_some found⟩

theorem identifier_eq_matched {name : Identifier} (reads : identifier text = .matched name rest) :
    text.dropWhile space = name.text ++ rest ∧ EndsName rest := by
  obtain ⟨_, reads⟩ := preSkip_eq_matched.mp reads
  generalize text.dropWhile space = text at reads ⊢
  dsimp only at reads
  split at reads
  · cases reads
    have whole := @List.takeWhile_append_dropWhile _ isIdentifierRest text
    have dropped := congrArg (List.drop (text.takeWhile isIdentifierRest).length) whole
    rw [List.drop_left] at dropped
    rw [← dropped]
    refine ⟨whole.symm, fun c first => ?_⟩
    have outside := List.head?_dropWhile_not isIdentifierRest text
    rwa [first] at outside
  · cases reads

/-! ### Keywords -/

theorem prefixFree_inputKeyword : PrefixFree inputKeyword := by
  unfold PrefixFree
  decide

theorem keyword_of_laid {unir : Unirec} (laid : Laid (stringUnirecEnum unir :: tokens) rest text) :
    ∃ middle, symbols inputKeyword text = .matched unir middle ∧ Laid tokens rest middle ∧
      middle.length < text.length := by
  have member : (stringUnirecEnum unir, unir) ∈ inputKeyword := by cases unir <;> decide
  have visible : isVisible (stringUnirecEnum unir) = true := by cases unir <;> rfl
  exact symbols_of_laid prefixFree_inputKeyword member visible laid

end Tokens

/-! ### Texts up to their ends -/

/-- A text that is read up to a sign: it is not empty, has neither the sign nor characters the
skipper aborts at, and ends visibly. -/
structure UpTo (stop : Char) (body : Str) : Prop where
  filled : body ≠ []
  absent : stop ∉ body
  ascii : ∀ c ∈ body, isAscii c = true
  visible : ∀ c, body.getLast? = some c → space c = false

section UpTo

variable {stop : Char} {body rest : Str}

theorem UpTo.tail {c d : Char} {body : Str} (upTo : UpTo stop (c :: d :: body)) :
    UpTo stop (d :: body) where
  filled := List.cons_ne_nil _ _
  absent member := upTo.absent (List.mem_cons_of_mem _ member)
  ascii e member := upTo.ascii e (List.mem_cons_of_mem _ member)
  visible e last := upTo.visible e (by rwa [List.getLast?_cons_cons])

/-- White space in front of such a text leads to a character of its own. -/
theorem UpTo.first (upTo : UpTo stop body) :
    ∃ c ∈ body, ((body ++ rest).dropWhile space).head? = some c := by
  cases skipped : body.dropWhile space with
  | nil =>
      have blank := List.dropWhile_eq_nil_iff.mp skipped
      have isLast := List.getLast?_eq_some_getLast upTo.filled
      have isSpace := blank _ (List.getLast_mem upTo.filled)
      rw [upTo.visible _ isLast] at isSpace
      cases isSpace
  | cons c tail =>
      refine ⟨c, (List.dropWhile_sublist space).subset (by rw [skipped]; simp), ?_⟩
      rw [List.dropWhile_append, skipped]
      rfl

theorem UpTo.clear (upTo : UpTo stop body) : Clear (body ++ rest) := by
  obtain ⟨c, member, first⟩ := upTo.first
  rw [Clear, skips, first]
  exact upTo.ascii c member

theorem UpTo.not_starts (upTo : UpTo stop body) : ¬ Starts [stop] (body ++ rest) := by
  rintro ⟨d, isStop, second⟩
  obtain ⟨c, member, first⟩ := upTo.first
  cases List.mem_singleton.mp isStop
  cases first.symm.trans second
  exact upTo.absent member

theorem charBut_of_noMatch {c : Char} (misses : lit stop (c :: rest) = .noMatch) :
    charBut stop (c :: rest) = .matched c rest := by
  rw [charBut, misses]

theorem charBut_of_upTo {c : Char} (upTo : UpTo stop (c :: body)) :
    charBut stop (c :: (body ++ rest)) = .matched c (body ++ rest) :=
  charBut_of_noMatch (lit_noMatch upTo.clear upTo.not_starts)

theorem lit_of_starts (isStop : isAscii stop = true) (starts : Starts [stop] rest) :
    ∃ behind, lit stop rest = .matched () behind := by
  obtain ⟨c, member, first⟩ := starts
  cases List.mem_singleton.mp member
  obtain ⟨behind, whole⟩ := List.head?_eq_some_iff.mp first
  exact ⟨behind, by rw [lit, preSkip_cons whole isStop]; exact if_pos rfl⟩

theorem charBut_stop (isStop : isAscii stop = true) (starts : Starts [stop] rest) :
    charBut stop rest = .noMatch := by
  obtain ⟨behind, matched⟩ := lit_of_starts isStop starts
  simp only [charBut, matched]

theorem charBut_chain (isStop : isAscii stop = true) (starts : Starts [stop] rest) :
    (body : Str) → UpTo stop body → Parser.Chain (charBut stop) body (body ++ rest) rest
  | [], upTo => (upTo.filled rfl).elim
  | [_], upTo =>
      .cons (charBut_of_upTo upTo) (Nat.lt_succ_self _) (.nil (charBut_stop isStop starts))
  | _ :: d :: body, upTo => .cons (charBut_of_upTo upTo) (Nat.lt_succ_self _)
      (charBut_chain isStop starts (d :: body) upTo.tail)

/-- Such a text in front of its sign is read, the first character and the others. -/
theorem charBut_of_starts (isStop : isAscii stop = true) (starts : Starts [stop] rest)
    (upTo : UpTo stop body) :
    ∃ c tail, body = c :: tail ∧ charBut stop (body ++ rest) = .matched c (tail ++ rest) ∧
      (charBut stop).many (tail ++ rest) = .matched tail rest := by
  obtain ⟨c, tail, rfl⟩ := List.exists_cons_of_ne_nil upTo.filled
  cases charBut_chain isStop starts (c :: tail) upTo with
  | cons reads _ later =>
      cases reads.symm.trans (charBut_of_upTo upTo)
      exact ⟨c, tail, rfl, reads, Parser.many_of_chain later⟩

theorem isAscii_of_space {c : Char} (isSpace : space c = true) : isAscii c = true := by
  simp only [space, Bool.or_eq_true, beq_iff_eq] at isSpace
  rcases isSpace with ((((rfl | rfl) | rfl) | rfl) | rfl) | rfl <;> rfl

theorem charBut_eq_matched {c : Char} {text : Str} (isStop : isAscii stop = true)
    (reads : charBut stop text = .matched c rest) :
    text = c :: rest ∧ isAscii c = true ∧ ¬ Starts [stop] text := by
  have misses : ¬ Starts [stop] text := by
    intro starts
    rw [charBut_stop isStop starts] at reads
    cases reads
  by_cases clear : Clear text
  · cases text with
    | nil =>
        rw [charBut, lit_noMatch clear misses] at reads
        cases reads
    | cons d text =>
        cases (charBut_of_noMatch (lit_noMatch clear misses)).symm.trans reads
        refine ⟨rfl, ?_, misses⟩
        by_cases isSpace : space c = true
        · exact isAscii_of_space isSpace
        · rwa [Clear, skips, List.dropWhile_cons_of_neg isSpace] at clear
  · have aborts : lit stop text = .aborted := preSkip_of_not_skips clear
    simp [charBut, aborts] at reads

theorem Rules.Starts.skip {letters : Str} {c : Char} {text : Str} (starts : Starts letters text)
    (isSpace : space c = true) : Starts letters (c :: text) := by
  obtain ⟨d, member, first⟩ := starts
  exact ⟨d, member, by rwa [List.dropWhile_cons_of_pos isSpace]⟩

theorem starts_self {c : Char} (visible : space c = false) (text : Str) :
    Starts [c] (c :: text) :=
  ⟨c, List.mem_singleton_self c, by rw [List.dropWhile_cons_of_neg (by simp [visible])]; rfl⟩

/-- What has been read in front of a sign is such a text. -/
theorem upTo_of_charBut (isStop : isVisible [stop] = true) (starts : Starts [stop] rest) :
    ∀ {fuel : Nat} {c : Char} {tail text middle : Str}, charBut stop text = .matched c middle →
      (charBut stop).manyUpTo fuel middle = .matched tail rest → UpTo stop (c :: tail) := by
  obtain ⟨_, _, same, visible, isStop⟩ := exists_of_isVisible isStop
  cases same
  have alone : ∀ {c : Char} {text : Str}, charBut stop text = .matched c rest →
      UpTo stop [c] := by
    intro c text reads
    obtain ⟨rfl, ascii, misses⟩ := charBut_eq_matched isStop reads
    refine ⟨List.cons_ne_nil _ _, ?_, by simpa using ascii, ?_⟩
    · intro member
      cases List.mem_singleton.mp member
      exact misses (starts_self visible _)
    · intro d last
      cases last
      rw [Bool.eq_false_iff]
      exact fun isSpace => misses (starts.skip isSpace)
  intro fuel
  induction fuel with
  | zero =>
      intro c tail text middle reads more
      cases more
      exact alone reads
  | succ fuel ih =>
      intro c tail text middle reads more
      rcases Parser.manyUpTo_succ_eq_matched.mp more with
        ⟨_, rfl, rfl⟩ | ⟨d, behind, later, second, isLater, rfl⟩
      · exact alone reads
      · have inner := ih second isLater
        obtain ⟨rfl, ascii, misses⟩ := charBut_eq_matched isStop reads
        refine ⟨List.cons_ne_nil _ _, ?_, List.forall_mem_cons.mpr ⟨ascii, inner.ascii⟩, ?_⟩
        · rintro (_ | ⟨_, member⟩)
          · exact misses (starts_self visible _)
          · exact inner.absent member
        · intro e last
          rw [List.getLast?_cons_cons] at last
          exact inner.visible e last

end UpTo

end Policer.Parsing
