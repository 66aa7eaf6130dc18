import Policer.Selector.Items

/-!
# Selector options read back

The option string of a selector whose items are keywords and renamed keywords, read by
`Selector::init`. `keywordBody_round_trip_iff` says which names survive: those without the
separators of the format.
-/

namespace Policer.Selector

open Policer.Lib Policer.Parsing Policer.Backend Policer.Aggregator

/-! ### Items -/

/-- A text between quotes, as the grammar of outputs reads it: a character that is not ASCII is
refused, and white space before the closing quote is skipped. -/
def isQuotedText (text : Str) : Bool :=
  text.all (fun c => decide (c.toNat < 128) && c != '\x22') && text.getLast?.any fun c => !isspace c

/-- The name of an output. -/
structure OutputName where
  text : Str
  accepted : (isIdentifier text || isQuotedText text) = true

/-- `k` or `name = k` for a keyword. -/
inductive KeywordItem where
  | keyword (unir : Unirec)
  | assigned (name : OutputName) (unir : Unirec)

namespace KeywordItem

/-- The item of the syntax tree. -/
def assignment : KeywordItem → SelAssignment
  | .keyword unir => ⟨.keyword unir, none⟩
  | .assigned name unir => ⟨.name name.text, some (.mk (.variable_ (.keyword unir)) .nil)⟩

/-- The keyword of an item. -/
def unir : KeywordItem → Unirec
  | .keyword unir => unir
  | .assigned _ unir => unir

/-- The name of an item, if it has one. -/
def label? : KeywordItem → Option Str
  | .keyword _ => none
  | .assigned name _ => some name.text

/-- The entry an item stands for. -/
def entry (item : KeywordItem) : SelDictItem := ⟨item.label?, stringUnirecEnum item.unir⟩

end KeywordItem

/-- A body of such items. -/
def keywordBody (first : KeywordItem) (rest : List KeywordItem) : SelectorBody :=
  ⟨first.assignment, rest.map KeywordItem.assignment⟩

theorem all_keywordBody (first : KeywordItem) (rest : List KeywordItem) :
    (keywordBody first rest).all = (first :: rest).map KeywordItem.assignment := rfl

/-! ### Names that survive -/

/-- A name without white space, separators and zeros. -/
structure Clean (name : Str) : Prop where
  noSpace : ∀ c ∈ name, isspace c = false
  noComma : ',' ∉ name
  noEqual : '=' ∉ name
  noColon : ':' ∉ name
  noZero : '\x00' ∉ name

/-- Every identifier is such a name. -/
theorem clean_identifier (name : Identifier) : Clean name.text := by
  have plain := plain_identifier name
  have outside : ∀ c, isIdentifierRest c = false → c ∉ name.text := by
    intro c noRest member
    rw [name.isRest c member] at noRest
    cases noRest
  exact ⟨plain.noSpace, plain.noComma, plain.noEqual, outside ':' (by decide),
    outside '\x00' (by decide)⟩

/-- A right-hand side with all variables renamed. -/
def renameText (pairs : List VarName) (text : Str) : Str :=
  pairs.foldl (fun text var =>
    if var.alias_.isEmpty then text else findAndReplaceAll text var.name var.alias_) text

/-- Behind a name only the right-hand side is renamed. -/
theorem renamePiece_assigned {label : Str} (noEqual : '=' ∉ label) (pairs : List VarName)
    (text : Str) :
    renamePiece pairs (label ++ "=".toList ++ text) =
      label ++ "=".toList ++ renameText pairs text := by
  have one : ∀ (var : VarName) (text : Str), renameOne (label ++ "=".toList ++ text) var =
      label ++ "=".toList ++
        if var.alias_.isEmpty then text else findAndReplaceAll text var.name var.alias_ := by
    intro var text
    have found : findFrom (label ++ "=".toList ++ text) "=".toList 0 = some label.length := by
      rw [findFrom_zero, List.append_assoc]
      exact indexOf?_singleton noEqual text
    have length : label.length + 1 = (label ++ "=".toList).length := by simp
    unfold renameOne
    split
    · rfl
    · rw [replaceInItem, found]
      simp only [length, List.take_left, List.drop_left]
  unfold renamePiece renameText
  induction pairs generalizing text with
  | nil => rfl
  | cons head tail ih => rw [List.foldl_cons, one, ih, List.foldl_cons]

theorem plain_variableText (variable_ : SelVariable) : Plain (variableText variable_) := by
  cases variable_ with
  | keyword unir => exact plain_unirec unir
  | name identifier => exact plain_identifier identifier

/-- An assignment to a name without separators is one piece. -/
theorem pieces_assigned {label : Str} (noSpace : ∀ c ∈ label, isspace c = false)
    (noComma : ',' ∉ label) (noEqual : '=' ∉ label) (pairs : List VarName) (se : SelExpression) :
    pieces pairs ⟨.name label, some se⟩ =
      [label ++ "=".toList ++ renameText pairs (se.reached.flatMap variableText)] := by
  have whole : IsPiece (label ++ "=".toList ++ se.reached.flatMap variableText) := by
    have each : ∀ c ∈ label ++ "=".toList ++ se.reached.flatMap variableText,
        isspace c = false ∧ c ≠ ',' := by
      intro c member
      rcases List.mem_append.mp member with left | right
      · rcases List.mem_append.mp left with inLabel | isEqual
        · exact ⟨noSpace c inLabel, fun same => noComma (same ▸ inLabel)⟩
        · obtain rfl := List.mem_singleton.mp isEqual
          exact ⟨by decide, by decide⟩
      · obtain ⟨variable_, _, inside⟩ := List.mem_flatMap.mp right
        have plain := plain_variableText variable_
        exact ⟨plain.noSpace c inside, fun same => plain.noComma (same ▸ inside)⟩
    exact ⟨fun c member => (each c member).1, fun member => (each _ member).2 rfl⟩
  have text : itemText ⟨.name label, some se⟩ =
      label ++ "=".toList ++ se.reached.flatMap variableText := rfl
  rw [pieces, text, unspaced_eq_self whole.noSpace, List.splitOn_eq_singleton whole.noComma,
    List.map_singleton, renamePiece_assigned noEqual]

/-- A keyword is one piece. -/
theorem pieces_keyword (pairs : List VarName) (un : Unirec) :
    pieces pairs ⟨.keyword un, none⟩ = [renamePiece pairs (stringUnirecEnum un)] := by
  have plain := plain_unirec un
  have text : itemText ⟨.keyword un, none⟩ = stringUnirecEnum un := rfl
  rw [pieces, text, unspaced_eq_self plain.noSpace, List.splitOn_eq_singleton plain.noComma,
    List.map_singleton]

/-- The keyword of an item with the recorded variables renamed in it. -/
def KeywordItem.renamed (pairs : List VarName) : KeywordItem → Str
  | .keyword unir => renamePiece pairs (stringUnirecEnum unir)
  | .assigned _ unir => renameText pairs (stringUnirecEnum unir)

/-- The names of an item survive. -/
def KeywordItem.Clean (item : KeywordItem) : Prop :=
  ∀ name, item.label? = some name → Selector.Clean name

/-- The entries of a body with clean names. -/
theorem readItems_of_clean {pairs : List VarName} (assigned : ∀ var ∈ pairs, var.Assigned)
    {items : List KeywordItem} (clean : ∀ item ∈ items, item.Clean) :
    ((items.map KeywordItem.assignment).flatMap (pieces pairs)).map readItem =
      items.map fun item => ⟨item.label?, item.renamed pairs⟩ := by
  have each : ∀ item ∈ items, (pieces pairs item.assignment).map readItem =
      [⟨item.label?, item.renamed pairs⟩] := by
    intro item member
    cases item with
    | keyword unir =>
        have noEqual : '=' ∉ renamePiece pairs (stringUnirecEnum unir) := by
          intro inside
          rcases mem_renamePiece assigned inside with inKeyword | ⟨var, isIn, inAlias⟩
          · exact (plain_unirec unir).noEqual inKeyword
          · have rest := isIdentifierRest_of_mem_alias (assigned var isIn) inAlias
            revert rest
            decide
        rw [KeywordItem.assignment, pieces_keyword, List.map_singleton, readItem_bare noEqual]
        rfl
    | assigned name unir =>
        have isClean := clean _ member name.text rfl
        have text : ([SelVariable.keyword unir].flatMap variableText) = stringUnirecEnum unir :=
          List.append_nil _
        rw [KeywordItem.assignment, pieces_assigned isClean.noSpace isClean.noComma isClean.noEqual,
          List.map_singleton, readItem_assigned isClean.noEqual]
        exact congrArg (fun text => [SelDictItem.mk (some name.text) (renameText pairs text)]) text
  rw [List.flatMap_map, List.map_flatMap, List.flatMap_congr each]
  exact (List.map_eq_flatMap ..).symm

/-! ### Fields of their own -/

/-- The names can be defined: none is a field of another type, and no two items give one name
different types. -/
structure Definable (accepts : Str → Bool) (table : FieldTable) (items : List KeywordItem) :
    Prop where
  known : ∀ item ∈ items, ∀ name, item.label? = some name →
    ∀ type, table name = some type → type = unirecType item.unir
  agree : items.Pairwise fun item later => ∀ name, item.label? = some name →
    later.label? = some name → accepts name = true → unirecType item.unir = unirecType later.unir

/-- The fields of the keywords are defined. -/
def HasKeywords (table : FieldTable) : Prop :=
  ∀ un, table (stringUnirecEnum un) = some (unirecType un)

variable {accepts : Str → Bool} {table : FieldTable}

theorem definable_cons {head : KeywordItem} {tail : List KeywordItem} :
    Definable accepts table (head :: tail) ↔
      (∀ name, head.label? = some name →
        (∀ type, table name = some type → type = unirecType head.unir) ∧
          ∀ later ∈ tail, later.label? = some name → accepts name = true →
            unirecType head.unir = unirecType later.unir) ∧
        Definable accepts table tail := by
  constructor
  · rintro ⟨known, agree⟩
    obtain ⟨first, rest⟩ := List.pairwise_cons.mp agree
    refine ⟨fun name isName => ⟨known head List.mem_cons_self name isName, ?_⟩, ?_, rest⟩
    · exact fun later member => first later member name isName
    · exact fun item member => known item (List.mem_cons_of_mem _ member)
  · rintro ⟨first, known, agree⟩
    refine ⟨fun item member name isName => ?_, List.pairwise_cons.mpr ⟨?_, agree⟩⟩
    · rcases List.mem_cons.mp member with rfl | later
      · exact (first name isName).1
      · exact known item later name isName
    · exact fun later member name isName => (first name isName).2 later member

/-- What a new field adds to the conditions on the items that follow. -/
theorem definable_update {name : Str} {type : FieldType} (fresh : table name = none)
    {items : List KeywordItem} :
    Definable accepts (if accepts name then Function.update table name (some type) else table)
        items ↔
      (∀ later ∈ items, later.label? = some name → accepts name = true →
          type = unirecType later.unir) ∧
        Definable accepts table items := by
  by_cases accepted : accepts name = true
  · rw [if_pos accepted]
    constructor
    · rintro ⟨known, agree⟩
      refine ⟨fun later member isName _ => ?_, fun item member other isOther known' isKnown => ?_,
        agree⟩
      · exact known later member name isName type (Function.update_self ..)
      · have different : other ≠ name := by
          rintro rfl
          rw [fresh] at isKnown
          cases isKnown
        exact known item member other isOther known' (by rwa [Function.update_of_ne different])
    · rintro ⟨later, known, agree⟩
      refine ⟨fun item member other isOther known' isKnown => ?_, agree⟩
      by_cases same : other = name
      · subst same
        rw [Function.update_self] at isKnown
        rw [← Option.some.inj isKnown]
        exact later item member isOther accepted
      · rw [Function.update_of_ne same] at isKnown
        exact known item member other isOther known' isKnown
  · rw [if_neg accepted]
    exact Iff.symm (and_iff_right fun _ _ _ isAccepted => absurd isAccepted accepted)

/-- The entries of items are defined exactly when their names can be. -/
theorem defineItems_ok_iff (keywords : HasKeywords table) {items : List KeywordItem} :
    (∃ fields, defineItems accepts table (items.map KeywordItem.entry) = .ok fields) ↔
      Definable accepts table items := by
  induction items generalizing table with
  | nil => exact ⟨fun _ => ⟨by simp, .nil⟩, fun _ => ⟨table, rfl⟩⟩
  | cons head tail ih =>
      have run : defineItems accepts table ((head :: tail).map KeywordItem.entry) =
          defineItem accepts table head.entry >>= fun fields =>
            defineItems accepts fields (tail.map KeywordItem.entry) := List.foldlM_cons ..
      rw [run, definable_cons]
      cases head with
      | keyword unir =>
          have made : defineItem accepts table (KeywordItem.keyword unir).entry = .ok table := rfl
          rw [made]
          refine Iff.trans (ih keywords) (Iff.symm (and_iff_right ?_))
          rintro name ⟨⟩
      | assigned name unir =>
          have known := keywords unir
          have made : defineItem accepts table (KeywordItem.assigned name unir).entry =
              defineNewAliasField accepts table name.text (stringUnirecEnum unir) := rfl
          rw [made, defineNewAliasField, known]
          dsimp only
          rw [urDefineField]
          cases found : table name.text with
          | some other =>
              by_cases same : other = unirecType unir
              · simp only [if_pos same]
                refine Iff.trans (ih keywords) ⟨fun rest => ⟨?_, rest⟩, And.right⟩
                rintro _ ⟨⟩
                refine ⟨fun type isKnown => ?_, fun later member isName _ => ?_⟩
                · rw [found] at isKnown
                  exact (Option.some.inj isKnown).symm.trans same
                · exact same.symm.trans (rest.known later member _ isName other found)
              · simp only [if_neg same]
                constructor
                · rintro ⟨_, fails⟩
                  cases fails
                · rintro ⟨first, _⟩
                  exact absurd ((first _ rfl).1 other found) same
          | none =>
              have kept : HasKeywords (if accepts name.text then
                  Function.update table name.text (some (unirecType unir)) else table) := by
                intro un
                split
                · rw [Function.update_of_ne, keywords]
                  rintro same
                  rw [← same, keywords] at found
                  cases found
                · exact keywords un
              refine (Iff.trans (ih kept) (definable_update found)).trans ?_
              constructor
              · rintro ⟨later, rest⟩
                refine ⟨?_, rest⟩
                rintro _ ⟨⟩
                exact ⟨fun type isKnown => absurd (found.symm.trans isKnown) (by simp), later⟩
              · rintro ⟨first, rest⟩
                exact ⟨(first _ rfl).2, rest⟩

/-! ### The round trip -/

theorem itemText_ne_nil (item : KeywordItem) : itemText item.assignment ≠ [] := by
  cases item with
  | keyword unir => exact (plain_unirec unir).nonempty
  | assigned name unir =>
      change name.text ++ "=".toList ++ _ ≠ []
      simp

theorem filled_keywordBody (first : KeywordItem) (rest : List KeywordItem) :
    ∀ sa ∈ (keywordBody first rest).all, itemText sa ≠ [] := by
  intro sa member
  obtain ⟨item, _, rfl⟩ := List.mem_map.mp (all_keywordBody first rest ▸ member)
  exact itemText_ne_nil item

/-- With clean names no colon and no zero is in the text of a body. -/
theorem noBreak_of_clean {recorded : Option (List VarName)}
    (assigned : ∀ var ∈ recorded.getD [], var.Assigned) {first : KeywordItem}
    {rest : List KeywordItem} (clean : ∀ item ∈ first :: rest, item.Clean) :
    ':' ∉ applyAliases (selectorText (keywordBody first rest)) recorded .selectorBody ∧
      '\x00' ∉ applyAliases (selectorText (keywordBody first rest)) recorded .selectorBody := by
  have outside : ∀ c : Char, isspace c = false → c ≠ ',' → c ≠ '=' → isIdentifierRest c = false →
      (∀ name, Clean name → c ∉ name) →
        c ∉ applyAliases (selectorText (keywordBody first rest)) recorded .selectorBody := by
    intro c noSpace noComma noEqual noRest noName member
    have noKeyword : ∀ un, c ∉ stringUnirecEnum un := by
      intro un inside
      have isRest := isIdentifierRest_of_alias (isAliasChar_of_mem_unirec un c inside)
      rw [noRest] at isRest
      cases isRest
    rcases mem_body (filled_keywordBody first rest) assigned noSpace noComma member with
      ⟨sa, inBody, inside⟩ | ⟨var, isVar, inside⟩
    · obtain ⟨item, isItem, rfl⟩ := List.mem_map.mp (all_keywordBody first rest ▸ inBody)
      cases item with
      | keyword unir => exact noKeyword unir inside
      | assigned name unir =>
          rcases List.mem_append.mp inside with left | right
          · rcases List.mem_append.mp left with inName | isEqual
            · exact noName name.text (clean _ isItem name.text rfl) inName
            · exact noEqual (List.mem_singleton.mp isEqual)
          · have text : ([SelVariable.keyword unir].flatMap variableText) = stringUnirecEnum unir :=
              List.append_nil _
            exact noKeyword unir (text ▸ right)
    · have isRest := isIdentifierRest_of_mem_alias (assigned var isVar) inside
      rw [noRest] at isRest
      cases isRest
  refine ⟨outside ':' (by decide) (by decide) (by decide) (by decide) fun _ => Clean.noColon,
    outside '\x00' (by decide) (by decide) (by decide) (by decide) fun _ => Clean.noZero⟩

/-- `Selector::init` recovers the interface number and the items of a body exactly when the number
is an `int`, the names have no white space, separators and zeros, no variable that another
selector of the same path recorded occurs in the keywords, and the names can be defined. -/
theorem init_keywordBody_iff (keywords : HasKeywords table) {recorded : Option (List VarName)}
    (assigned : ∀ var ∈ recorded.getD [], var.Assigned) (first : KeywordItem)
    (rest : List KeywordItem) (number : Nat) :
    (∃ fields, init accepts table (toStringNat number ++ ":".toList ++
        applyAliases (selectorText (keywordBody first rest)) recorded .selectorBody) =
          .ok (⟨number, (first :: rest).map KeywordItem.entry⟩, fields)) ↔
      number < 2 ^ 31 ∧ (∀ item ∈ first :: rest, item.Clean) ∧
        (∀ item ∈ first :: rest,
          item.renamed (recorded.getD []) = stringUnirecEnum item.unir) ∧
        Definable accepts table (first :: rest) := by
  have pieces := pieces_body (filled_keywordBody first rest) assigned
  rw [all_keywordBody] at pieces
  rw [init_eq]
  constructor
  · rintro ⟨fields, read⟩
    split at read
    · cases read
    · rename_i running
      obtain ⟨noColon, small⟩ := not_or.mp running
      obtain ⟨made, defined, same⟩ := map_ok.mp read
      have entries := congrArg (fun done => done.1.dict) same
      dsimp only at entries
      have clean : ∀ item ∈ first :: rest, item.Clean := by
        intro item member name isName
        have inside : item.entry ∈ (first :: rest).map KeywordItem.entry :=
          List.mem_map_of_mem member
        rw [← entries] at inside
        obtain ⟨piece, isPiece, isEntry⟩ := List.mem_map.mp inside
        have isAlias : (readItem piece).aliasName = some name := by rw [isEntry]; exact isName
        obtain ⟨noEqual, subset⟩ := of_readItem_alias isAlias
        have parts := of_mem_splitOn isPiece
        have here : ∀ c ∈ name, c ∈ cStr _ := fun c isIn =>
          List.mem_of_mem_filter (parts.2 (subset isIn))
        refine ⟨fun c isIn => isspace_of_mem_unspaced (parts.2 (subset isIn)),
          fun isIn => parts.1 (subset isIn), noEqual, fun isIn => noColon (here _ isIn),
          fun isIn => (of_mem_cStr (here _ isIn)).1 rfl⟩
      have noZero := (noBreak_of_clean assigned clean).2
      rw [cStr_eq_self noZero, pieces, readItems_of_clean assigned clean] at entries defined
      have renamed : ∀ item ∈ first :: rest,
          item.renamed (recorded.getD []) = stringUnirecEnum item.unir := fun item member =>
        congrArg SelDictItem.fieldName (List.map_inj_left.mp entries item member)
      rw [entries] at defined
      exact ⟨Nat.not_le.mp small, clean, renamed, (defineItems_ok_iff keywords).mp ⟨made, defined⟩⟩
  · rintro ⟨small, clean, renamed, definable⟩
    obtain ⟨noColon, noZero⟩ := noBreak_of_clean assigned clean
    obtain ⟨fields, defined⟩ := (defineItems_ok_iff keywords).mpr definable
    have entries : (first :: rest).map (fun item : KeywordItem =>
        SelDictItem.mk item.label? (item.renamed (recorded.getD []))) =
          (first :: rest).map KeywordItem.entry :=
      List.map_congr_left fun item member => by rw [renamed item member]; rfl
    refine ⟨fields, ?_⟩
    rw [cStr_eq_self noZero, if_neg (not_or.mpr ⟨noColon, Nat.not_le.mpr small⟩), pieces,
      readItems_of_clean assigned clean, entries]
    exact map_ok.mpr ⟨fields, defined, rfl⟩

theorem assigned_of_getD {ast : MainBranches} {data : InterRepr} (ran : Parser.run ast = .ok data)
    (key : Str) : ∀ var ∈ (data.selVars[key]?).getD [], var.Assigned := by
  intro var member
  cases recorded : data.selVars[key]? with
  | none =>
      rw [recorded] at member
      cases member
  | some vars =>
      rw [recorded] at member
      exact (assigned_of_run ran).2 _ vars recorded var member

/-- The options `Builder` gives the selectors of an accepted rule file, read back. -/
theorem keywordBody_round_trip_iff (accepts : Str → Bool) {ast : MainBranches} {data : InterRepr}
    (accepted : Accepted ast data) {start : Nat} {root : BuilderVec}
    (built : buildRoot data start = .ok root) (keywords : HasKeywords table) :
    selectorOptionsOf root = numberedOptions data start (selectorsOf ast.occurrences) ∧
      ∀ ctx first rest, (ctx, keywordBody first rest) ∈ selectorsOf ast.occurrences →
      ∀ number : Nat,
        ((∃ fields, init accepts table (selectorOptions data ctx (keywordBody first rest) number) =
            .ok (⟨number, (first :: rest).map KeywordItem.entry⟩, fields)) ↔
          number < 2 ^ 31 ∧ (∀ item ∈ first :: rest, item.Clean) ∧
            (∀ item ∈ first :: rest,
              item.renamed ((data.selVars[stageKey .selector ctx.path]?).getD []) =
                stringUnirecEnum item.unir) ∧
            Definable accepts table (first :: rest)) := by
  refine ⟨selectorOptionsOf_root accepted.run built, fun ctx first rest _ number => ?_⟩
  exact init_keywordBody_iff keywords (assigned_of_getD accepted.run _) first rest number

/-- The fields that are defined before any selector is built. -/
def definedFields : FieldTable := fun name => (urGetIdByName name).map Field.type

theorem hasKeywords_definedFields : HasKeywords definedFields := by
  intro un
  cases un <;> rfl

/-- `x = BYTES`. -/
def bytesItem : KeywordItem := .assigned ⟨"x".toList, by decide⟩ .bytes

/-- `main { selector: x = BYTES, PACKETS; }`. -/
def bytesAndPackets : MainBranches where
  first := .mk .main
    (.stage (.selector ⟨keywordBody bytesItem [.keyword .packets]⟩))
  rest := .nil

theorem keywordBody_round_trip_iff_bytesAndPackets :
    ∃ data root, Accepted bytesAndPackets data ∧ buildRoot data 0 = .ok root ∧
      selectorOptionsOf root = ["0:x=BYTES,PACKETS".toList] ∧
      ∃ fields, init (fun _ => true) definedFields "0:x=BYTES,PACKETS".toList =
        .ok (⟨0, [⟨some "x".toList, "BYTES".toList⟩, ⟨none, "PACKETS".toList⟩]⟩, fields) := by
  obtain ⟨data, accepted, recorded⟩ := accepted_of_accepts bytesAndPackets
    (fun data => data.selVars[stageKey .selector [⟨"main".toList, rfl⟩]]? == none)
    (by decide +kernel)
  have built := buildRoot_of_run accepted.run 0
  have noVars : data.selVars[stageKey .selector [⟨"main".toList, rfl⟩]]? = none := by
    simpa using recorded
  obtain ⟨options, reads⟩ :=
    keywordBody_round_trip_iff (fun _ => true) accepted built hasKeywords_definedFields
  let ctx := Context.root.push ⟨"main".toList, rfl⟩
  have written : selectorOptions data ctx (keywordBody bytesItem [.keyword .packets]) 0 =
      "0:x=BYTES,PACKETS".toList := (selectorOptions_of_none noVars).trans rfl
  refine ⟨data, _, accepted, built, ?_, ?_⟩
  · refine options.trans ?_
    exact congrArg (fun text => [text]) written
  · rw [← written]
    refine (reads ctx bytesItem [.keyword .packets] List.mem_cons_self 0).mpr
      ⟨by decide, fun item member => ?_, fun item member => ?_, ?_, ?_⟩
    · rcases List.mem_pair.mp member with rfl | rfl
      · rintro _ ⟨⟩
        exact clean_identifier ⟨"x".toList, rfl⟩
      · rintro _ ⟨⟩
    · have noPairs : (data.selVars[stageKey .selector ctx.path]?).getD [] = [] :=
        congrArg (fun vars => vars.getD []) noVars
      rw [noPairs]
      rcases List.mem_pair.mp member with rfl | rfl <;> rfl
    · intro item member name isName type isKnown
      rcases List.mem_pair.mp member with rfl | rfl
      · obtain rfl := Option.some.inj isName
        have unknown : definedFields "x".toList = none := by decide
        rw [unknown] at isKnown
        cases isKnown
      · cases isName
    · refine List.pairwise_pair.mpr ?_
      rintro _ _ ⟨⟩

/-- `"a,b" = BYTES`. -/
def commaItem : KeywordItem := .assigned ⟨"a,b".toList, by decide⟩ .bytes

/-- `main { selector: "a,b" = BYTES; }`. -/
def commaName : MainBranches where
  first := .mk .main (.stage (.selector ⟨keywordBody commaItem []⟩))
  rest := .nil

/-- The name `a,b` is cut into an item `a` and a name `b`. -/
theorem commaName_not_read :
    ∃ data root, Accepted commaName data ∧ buildRoot data 0 = .ok root ∧
      selectorOptionsOf root = ["0:a,b=BYTES".toList] ∧
      (init (fun _ => true) definedFields "0:a,b=BYTES".toList).map Prod.fst =
        .ok ⟨0, [⟨none, "a".toList⟩, ⟨some "b".toList, "BYTES".toList⟩]⟩ ∧
      [SelDictItem.mk none "a".toList, ⟨some "b".toList, "BYTES".toList⟩] ≠ [commaItem.entry] := by
  obtain ⟨data, accepted, recorded⟩ := accepted_of_accepts commaName
    (fun data => data.selVars[stageKey .selector [⟨"main".toList, rfl⟩]]? == none)
    (by decide +kernel)
  have built := buildRoot_of_run accepted.run 0
  have noVars : data.selVars[stageKey .selector [⟨"main".toList, rfl⟩]]? = none := by
    simpa using recorded
  refine ⟨data, _, accepted, built, ?_, by decide +kernel, by decide⟩
  refine (selectorOptionsOf_root accepted.run built).trans ?_
  exact congrArg (fun text => [text]) ((selectorOptions_of_none noVars).trans rfl)

end Policer.Selector
