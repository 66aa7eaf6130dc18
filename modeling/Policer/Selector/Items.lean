import Policer.Backend.Interfaces
import Policer.Backend.SelectorAliases
import Policer.Selector.Dictionary

/-!
# The items of a selector body

`Builder` joins the items of a body, `apply_aliases` renames variables in the joined text
and `set_dict` cuts it up again. `splitOn_applyAliases` says that every item goes its own
way: the dictionary is filled with the pieces of one item after the other.
-/

namespace Policer.Selector

open Policer.Lib Policer.Parsing Policer.Backend Policer.Aggregator

/-! ### Pieces -/

/-- Text without white space. -/
def unspaced (text : Str) : Str := text.filter fun c => !isspace c

/-- One variable is renamed in a piece. -/
def renameOne (piece : Str) (var : VarName) : Str :=
  if var.alias_.isEmpty then piece else replaceInItem var.name var.alias_ piece

/-- A piece with all variables renamed. -/
def renamePiece (pairs : List VarName) (piece : Str) : Str := pairs.foldl renameOne piece

/-- What an item gives the dictionary. -/
def pieces (pairs : List VarName) (sa : SelAssignment) : List Str :=
  ((unspaced (itemText sa)).splitOn ',').map (renamePiece pairs)

theorem unspaced_eq_self {text : Str} (clean : ∀ c ∈ text, isspace c = false) :
    unspaced text = text :=
  List.filter_eq_self.mpr fun c member => by simp [clean c member]

theorem isspace_of_mem_unspaced {text : Str} {c : Char} (member : c ∈ unspaced text) :
    isspace c = false := by
  simpa using (List.mem_filter.mp member).2

theorem unspaced_intercalate (texts : List Str) :
    unspaced ([','].intercalate texts) = [','].intercalate (texts.map unspaced) := by
  have comma : unspaced [','] = [','] := rfl
  cases texts with
  | nil => rfl
  | cons head tail =>
      rw [List.map_cons, intercalate_cons_eq, intercalate_cons_eq, unspaced, List.filter_append,
        List.filter_flatMap, List.flatMap_map]
      refine congrArg (unspaced head ++ ·) (congrArg (tail.flatMap ·) (funext fun text => ?_))
      exact (List.filter_append ..).trans (congrArg (· ++ unspaced text) comma)

/-! ### Renaming in one piece -/

theorem mem_replaceInItem {searched replaceStr item : Str} (nonempty : searched ≠ []) {c : Char}
    (member : c ∈ replaceInItem searched replaceStr item) : c ∈ item ∨ c ∈ replaceStr := by
  unfold replaceInItem at member
  split at member
  · rename_i equalPos _
    rcases List.mem_append.mp member with left | right
    · exact Or.inl (List.mem_of_mem_take left)
    · rw [findAndReplaceAll_eq nonempty] at right
      exact (mem_replaceAll replaceStr nonempty right).imp_left List.mem_of_mem_drop
  · split at member
    · exact Or.inr member
    · exact Or.inl member

theorem mem_renameOne {var : VarName} (assigned : var.Assigned) {piece : Str} {c : Char}
    (member : c ∈ renameOne piece var) : c ∈ piece ∨ c ∈ var.alias_ := by
  unfold renameOne at member
  split at member
  · exact Or.inl member
  · rename_i isAliased
    have aliased := assigned.resolve_left (by simpa using isAliased)
    exact mem_replaceInItem (plain_name_of_aliased aliased).nonempty member

/-- A text that can be a piece of a body. -/
structure IsPiece (text : Str) : Prop where
  noSpace : ∀ c ∈ text, isspace c = false
  noComma : ',' ∉ text

theorem IsPiece.renameOne {piece : Str} (isPiece : IsPiece piece) {var : VarName}
    (assigned : var.Assigned) : IsPiece (renameOne piece var) := by
  by_cases empty : var.alias_ = []
  · rwa [Selector.renameOne, empty, List.isEmpty_nil, if_pos rfl]
  · have plain := plain_alias_of_aliased (assigned.resolve_left empty)
    refine ⟨fun c member => ?_, fun member => ?_⟩
    · exact (mem_renameOne assigned member).elim (isPiece.noSpace c) (plain.noSpace c)
    · exact (mem_renameOne assigned member).elim isPiece.noComma plain.noComma

theorem isPiece_of_mem {text piece : Str} (member : piece ∈ (unspaced text).splitOn ',') :
    IsPiece piece := by
  have inside := of_mem_splitOn member
  exact ⟨fun c isIn => isspace_of_mem_unspaced (inside.2 isIn), inside.1⟩

theorem mem_renamePiece {pairs : List VarName} (assigned : ∀ var ∈ pairs, var.Assigned)
    {piece : Str} {c : Char} (member : c ∈ renamePiece pairs piece) :
    c ∈ piece ∨ ∃ var ∈ pairs, c ∈ var.alias_ := by
  induction pairs generalizing piece with
  | nil => exact Or.inl member
  | cons head tail ih =>
      rcases ih (fun var isIn => assigned var (List.mem_cons_of_mem _ isIn)) member with
        inside | ⟨var, isIn, inAlias⟩
      · rcases mem_renameOne (assigned head List.mem_cons_self) inside with inPiece | inAlias
        · exact Or.inl inPiece
        · exact Or.inr ⟨head, List.mem_cons_self, inAlias⟩
      · exact Or.inr ⟨var, List.mem_cons_of_mem _ isIn, inAlias⟩

/-- The aliases of assigned variables have no cut in them. -/
theorem isIdentifierRest_of_mem_alias {var : VarName} (assigned : var.Assigned) {c : Char}
    (member : c ∈ var.alias_) : isIdentifierRest c = true := by
  have some : var.alias_ ≠ [] := List.ne_nil_of_mem member
  obtain ⟨as, rfl⟩ := assigned.resolve_left some
  exact isIdentifierRest_of_alias (isAliasChar_of_mem_field as.funcType c member)

/-- One variable is renamed piece by piece. -/
theorem splitOn_applyAlias {var : VarName} (assigned : var.Assigned) (text : Str) :
    (unspaced (applyAlias .selectorBody text var)).splitOn ',' =
      ((unspaced text).splitOn ',').map fun piece => renameOne piece var := by
  by_cases empty : var.alias_ = []
  · simp [applyAlias, renameOne, empty]
  have isAliased : var.alias_.isEmpty = false := by simpa using empty
  have renames : ∀ piece, replaceInItem var.name var.alias_ piece = renameOne piece var := by
    intro piece
    rw [renameOne, isAliased, if_neg (by simp)]
  have joined : applyAlias .selectorBody text var = [','].intercalate
      (((unspaced text).splitOn ',').map fun piece => renameOne piece var) := by
    rw [applyAlias, isAliased, if_neg (by simp)]
    simp only [replaceAliasesInSelectorBody]
    split
    · rename_i isEmpty
      obtain rfl : text = [] := by simpa using isEmpty
      have name := (plain_name_of_aliased (assigned.resolve_left empty)).nonempty
      have noName : findFrom [] var.name 0 = none := by
        rw [findFrom_zero, indexOf?_eq_none]
        simpa using name
      have noEqual : findFrom ([] : Str) ['='] 0 = none := rfl
      simp [unspaced, renameOne, isAliased, replaceInItem, noName, noEqual]
    · rw [show ",".toList = [','] from rfl, vecOfstr2str_eq, divideStr_eq]
      exact congrArg _ (List.map_congr_left fun piece _ => renames piece)
  have each : ∀ piece ∈ ((unspaced text).splitOn ',').map fun piece => renameOne piece var,
      IsPiece piece := by
    intro piece member
    obtain ⟨before, isBefore, rfl⟩ := List.mem_map.mp member
    exact (isPiece_of_mem isBefore).renameOne assigned
  rw [joined, unspaced_eq_self,
    List.splitOn_intercalate ',' fun piece member => (each piece member).noComma]
  · simp
  · intro c member
    rcases mem_intercalate member with rfl | ⟨piece, isPiece, inside⟩
    · rfl
    · exact (each piece isPiece).noSpace c inside

/-- All variables are renamed piece by piece. -/
theorem splitOn_applyAliases {recorded : Option (List VarName)}
    (assigned : ∀ var ∈ recorded.getD [], var.Assigned) (text : Str) :
    (unspaced (applyAliases text recorded .selectorBody)).splitOn ',' =
      ((unspaced text).splitOn ',').map (renamePiece (recorded.getD [])) := by
  cases recorded with
  | none => exact (List.map_id _).symm
  | some pairs =>
      simp only [Option.getD_some] at assigned ⊢
      induction pairs generalizing text with
      | nil => exact (List.map_id _).symm
      | cons head tail ih =>
          have first := splitOn_applyAlias (assigned head List.mem_cons_self) text
          have later := ih (applyAlias .selectorBody text head) fun var member =>
            assigned var (List.mem_cons_of_mem _ member)
          rw [first, List.map_map] at later
          exact later

/-- The pieces of a body are those of its items. -/
theorem pieces_body {body : SelectorBody} (filled : ∀ sa ∈ body.all, itemText sa ≠ [])
    {recorded : Option (List VarName)} (assigned : ∀ var ∈ recorded.getD [], var.Assigned) :
    (unspaced (applyAliases (selectorText body) recorded .selectorBody)).splitOn ',' =
      body.all.flatMap (pieces (recorded.getD [])) := by
  have some : (body.all.map itemText).map unspaced ≠ [] := by simp [SelectorBody.all]
  rw [splitOn_applyAliases assigned, selectorText_eq filled, show ",".toList = [','] from rfl,
    unspaced_intercalate, splitOn_intercalate_flatMap ',' some, List.map_flatMap, List.map_map,
    List.flatMap_map]
  rfl

/-- A renamed body has the characters of its items and of the aliases. -/
theorem mem_body {body : SelectorBody} (filled : ∀ sa ∈ body.all, itemText sa ≠ [])
    {recorded : Option (List VarName)}
    (assigned : ∀ var ∈ recorded.getD [], var.Assigned) {c : Char}
    (noSpace : isspace c = false) (noComma : c ≠ ',')
    (member : c ∈ applyAliases (selectorText body) recorded .selectorBody) :
    (∃ sa ∈ body.all, c ∈ itemText sa) ∨ ∃ var ∈ recorded.getD [], c ∈ var.alias_ := by
  have kept : c ∈ unspaced (applyAliases (selectorText body) recorded .selectorBody) :=
    List.mem_filter.mpr ⟨member, by simp [noSpace]⟩
  have joined : ∀ text : Str, [','].intercalate (text.splitOn ',') = text := fun _ =>
    List.intercalate_splitOn ','
  rw [← joined (unspaced _), pieces_body filled assigned] at kept
  obtain ⟨piece, isPiece, inside⟩ := (mem_intercalate kept).resolve_left noComma
  obtain ⟨sa, inBody, ofItem⟩ := List.mem_flatMap.mp isPiece
  obtain ⟨before, isBefore, rfl⟩ := List.mem_map.mp ofItem
  refine (mem_renamePiece assigned inside).imp_left fun inBefore => ⟨sa, inBody, ?_⟩
  exact List.mem_of_mem_filter ((of_mem_splitOn isBefore).2 inBefore)

/-! ### The dictionary of pieces -/

/-- The entry of a piece. -/
def readItem (piece : Str) : SelDictItem :=
  match findFrom piece "=".toList 0 with
  | none => ⟨none, piece⟩
  | some found => ⟨some (piece.take found), piece.drop (found + 1)⟩

/-- The field an entry defines. -/
def defineItem (accepts : Str → Bool) (table : FieldTable) (item : SelDictItem) :
    Except InitError FieldTable :=
  match item.aliasName with
  | none => .ok table
  | some aliasName => defineNewAliasField accepts table aliasName item.fieldName

/-- The fields entries define. -/
def defineItems (accepts : Str → Bool) (table : FieldTable) (items : List SelDictItem) :
    Except InitError FieldTable :=
  items.foldlM (defineItem accepts) table

variable {accepts : Str → Bool}

theorem fillItem_eq (table : FieldTable) (dict : List SelDictItem) (piece : Str) :
    fillItem accepts (table, dict) piece =
      (defineItem accepts table (readItem piece)).map fun fields =>
        (fields, dict ++ [readItem piece]) := by
  cases found : findFrom piece "=".toList 0 with
  | none =>
      have entry : readItem piece = ⟨none, piece⟩ := by rw [readItem, found]
      rw [fillItem, found, entry]
      rfl
  | some equalPos =>
      have entry : readItem piece = ⟨some (piece.take equalPos), piece.drop (equalPos + 1)⟩ := by
        rw [readItem, found]
      rw [fillItem, found, entry]
      rfl

/-- `fill_dict` has an entry for each piece when their fields can be defined. -/
theorem fillDict_eq (table : FieldTable) (dict : List SelDictItem) (input : List Str) :
    fillDict accepts (table, dict) input =
      (defineItems accepts table (input.map readItem)).map fun fields =>
        (fields, dict ++ input.map readItem) := by
  unfold fillDict defineItems
  induction input generalizing table dict with
  | nil => simp [pure, Except.pure, Except.map]
  | cons head tail ih =>
      rw [List.foldlM_cons, fillItem_eq, List.map_cons, List.foldlM_cons]
      cases defined : defineItem accepts table (readItem head) with
      | error failed => rfl
      | ok fields =>
          refine (ih fields (dict ++ [readItem head])).trans ?_
          rw [List.append_assoc, List.singleton_append]
          rfl

/-- An entry without an equals sign has no alias. -/
theorem readItem_bare {piece : Str} (noEqual : '=' ∉ piece) : readItem piece = ⟨none, piece⟩ := by
  have absent : findFrom piece "=".toList 0 = none := by
    rw [findFrom_zero]
    exact indexOf?_singleton_eq_none.mpr noEqual
  rw [readItem, absent]

/-- An entry is cut at its first equals sign. -/
theorem readItem_assigned {label : Str} (noEqual : '=' ∉ label) (text : Str) :
    readItem (label ++ "=".toList ++ text) = ⟨some label, text⟩ := by
  have found : findFrom (label ++ "=".toList ++ text) "=".toList 0 = some label.length := by
    rw [findFrom_zero, List.append_assoc]
    exact indexOf?_singleton noEqual text
  have length : label.length + 1 = (label ++ "=".toList).length := by simp
  rw [readItem, found]
  simp only [length, List.drop_left]
  rw [List.append_assoc, List.take_left]

/-- The alias of an entry stands before the first equals sign of its piece. -/
theorem of_readItem_alias {piece label : Str} (isAlias : (readItem piece).aliasName = some label) :
    '=' ∉ label ∧ label ⊆ piece := by
  by_cases member : '=' ∈ piece
  · obtain ⟨before, rest, rfl, fresh⟩ := List.eq_append_cons_of_mem member
    have read := readItem_assigned fresh rest
    rw [List.append_assoc] at read
    change readItem (before ++ '=' :: rest) = _ at read
    rw [read] at isAlias
    obtain rfl := Option.some.inj isAlias
    exact ⟨fresh, List.subset_append_left ..⟩
  · rw [readItem_bare member] at isAlias
    cases isAlias

/-! ### The whole option string -/

/-- `init` reads the interface number and an entry for each piece. -/
theorem init_eq (table : FieldTable) (number : Nat) (text : Str) :
    init accepts table (toStringNat number ++ ":".toList ++ text) =
      if ':' ∈ cStr text ∨ 2 ^ 31 ≤ number then .error .rejected
      else
        let items := ((unspaced (cStr text)).splitOn ',').map readItem
        (defineItems accepts table items).map fun fields => (⟨number, items⟩, fields) := by
  have opened : cStr (toStringNat number ++ ":".toList ++ text) =
      toStringNat number ++ ':' :: cStr text := by
    have digits : ∀ c ∈ toStringNat number ++ ":".toList, (c != '\x00') = true := by
      intro c member
      rw [bne_iff_ne]
      rintro rfl
      rcases List.mem_append.mp member with isDigit | isColon
      · exact notMem_toStringNat (by decide) isDigit
      · revert isColon
        decide
    rw [cStr, List.takeWhile_append_of_pos digits, List.append_assoc]
    rfl
  have divided : divideStr (cStr (toStringNat number ++ ":".toList ++ text)) ":".toList =
      toStringNat number :: (cStr text).splitOn ':' := by
    refine (divideStr_eq _ ':').trans ?_
    rw [opened, List.splitOn_append_cons_self_of_not_mem (notMem_toStringNat (by decide))]
  rw [init, divided]
  by_cases colon : ':' ∈ cStr text
  · rw [if_pos (Or.inl colon)]
    obtain ⟨before, rest, split, fresh⟩ := List.eq_append_cons_of_mem colon
    obtain ⟨next, more, later⟩ := List.exists_cons_of_ne_nil (List.splitOn_ne_nil ':' rest)
    rw [split, List.splitOn_append_cons_self_of_not_mem fresh, later]
  · rw [List.splitOn_eq_singleton colon]
    simp only [stoi_toStringNat]
    by_cases large : 2 ^ 31 ≤ number
    · rw [if_pos (Or.inr large), if_neg (by omega)]
    · rw [if_neg (not_or.mpr ⟨colon, large⟩), if_pos (Nat.not_le.mp large)]
      have comma : divideStr (unspaced (cStr text)) ",".toList =
          (unspaced (cStr text)).splitOn ',' := divideStr_eq _ ','
      simp only [setDict]
      rw [show ((cStr text).filter fun c => !isspace c) = unspaced (cStr text) from rfl, comma,
        fillDict_eq]
      simp only [List.nil_append]
      cases defineItems accepts table (((unspaced (cStr text)).splitOn ',').map readItem) <;> rfl

end Policer.Selector
