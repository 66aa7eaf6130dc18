import Policer.Backend.Translation
import Policer.Parsing.Assigned

/-!
# Renaming in selector bodies

`apply_aliases` renames one variable after the other, and it looks for the name anywhere
in an item. `renamedBody` renames whole names, all at once. The two agree for a list of
variables and everything it starts with exactly when no name of the list occurs where it
does not stand for itself (`NoOverlap`).
-/

namespace Policer.Backend

open Policer.Lib Policer.Parsing

/-! ### Items -/

/-- Text without the characters at which a selector body is cut. -/
structure Plain (text : Str) : Prop where
  nonempty : text ≠ []
  noSpace : ∀ c ∈ text, isspace c = false
  noComma : ',' ∉ text
  noEqual : '=' ∉ text

theorem Plain.of_forall {text : Str} (nonempty : text ≠ [])
    (plain : ∀ c ∈ text, isspace c = false ∧ c ≠ ',' ∧ c ≠ '=') : Plain text :=
  ⟨nonempty, fun c member => (plain c member).1, fun member => (plain _ member).2.1 rfl,
    fun member => (plain _ member).2.2 rfl⟩

theorem plain_of_isIdentifierRest {c : Char} (inside : isIdentifierRest c = true) :
    isspace c = false ∧ c ≠ ',' ∧ c ≠ '=' := by
  have notBreak : ∀ bad : Char, isIdentifierRest bad = false → c ≠ bad := by
    rintro bad isBad rfl
    rw [isBad] at inside
    cases inside
  refine ⟨?_, notBreak ',' (by decide), notBreak '=' (by decide)⟩
  simp only [isspace, Bool.or_eq_false_iff, beq_eq_false_iff_ne]
  exact ⟨⟨⟨⟨⟨notBreak _ (by decide), notBreak _ (by decide)⟩, notBreak _ (by decide)⟩,
    notBreak _ (by decide)⟩, notBreak _ (by decide)⟩, notBreak _ (by decide)⟩

theorem isIdentifierRest_of_alias {c : Char} (isAlias : isAliasChar c = true) :
    isIdentifierRest c = true := by
  simp only [isAliasChar, isIdentifierRest, Bool.or_eq_true] at *
  exact isAlias.imp_left fun isUpper => isAlphanum_of_isAlpha (isAlpha_iff.mpr (Or.inl isUpper))

theorem plain_identifier (name : Identifier) : Plain name.text :=
  .of_forall name.text_ne_nil fun c member =>
    plain_of_isIdentifierRest (name.isRest c member)

theorem plain_field (func : AggrFuncType) : Plain func.field :=
  .of_forall (field_ne_nil func) fun c member =>
    plain_of_isIdentifierRest (isIdentifierRest_of_alias (isAliasChar_of_mem_field func c member))

theorem plain_unirec (un : Unirec) : Plain (stringUnirecEnum un) :=
  .of_forall (by cases un <;> decide) fun c member =>
    plain_of_isIdentifierRest (isIdentifierRest_of_alias (isAliasChar_of_mem_unirec un c member))

/-- A left-hand side. -/
structure Label where
  text : Str
  plain : Plain text

/-- The items a name can be renamed in: a keyword, a variable, or a label with either. -/
inductive SimpleItem where
  | keyword (unir : Unirec)
  | name (variable_ : Identifier)
  | assigned (label : Label) (variable_ : SelVariable)

/-- The item of the syntax tree. -/
def SimpleItem.assignment : SimpleItem → SelAssignment
  | .keyword unir => ⟨.keyword unir, none⟩
  | .name variable_ => ⟨.name variable_.text, none⟩
  | .assigned label variable_ => ⟨.name label.text, some (.mk (.variable_ variable_) .nil)⟩

/-- The variable of an item. -/
def SimpleItem.variable_ : SimpleItem → SelVariable
  | .keyword unir => .keyword unir
  | .name variable_ => .name variable_
  | .assigned _ variable_ => variable_

/-- A body of such items. -/
def simpleBody (first : SimpleItem) (rest : List SimpleItem) : SelectorBody :=
  ⟨first.assignment, rest.map SimpleItem.assignment⟩

/-! ### Renaming whole names -/

/-- The alias of a variable in a list, or its own name. -/
def renameName (pairs : List VarName) (name : Str) : Str :=
  ((pairs.find? fun var => var.name == name && !var.alias_.isEmpty).map VarName.alias_).getD name

/-- A keyword stays, a name is renamed. -/
def renameVariable (pairs : List VarName) : SelVariable → Str
  | .keyword unir => stringUnirecEnum unir
  | .name variable_ => renameName pairs variable_.text

/-- What an item becomes. -/
def SimpleItem.renamed (pairs : List VarName) : SimpleItem → Str
  | .assigned label variable_ => label.text ++ "=".toList ++ renameVariable pairs variable_
  | item => renameVariable pairs item.variable_

/-- What a body becomes. -/
def renamedBody (pairs : List VarName) (items : List SimpleItem) : Str :=
  ",".toList.intercalate (items.map (SimpleItem.renamed pairs))

/-- No variable of the list gives the name an alias. -/
def Fresh (pairs : List VarName) (name : Str) : Prop :=
  ∀ other ∈ pairs, other.name = name → other.alias_ = []

instance (pairs : List VarName) (name : Str) : Decidable (Fresh pairs name) :=
  inferInstanceAs (Decidable (∀ other ∈ pairs, other.name = name → other.alias_ = []))

/-- The variable is a name that is still to be renamed. -/
def Awaits (pairs : List VarName) (variable_ : SelVariable) (name : Str) : Prop :=
  (∃ identifier : Identifier, variable_ = .name identifier ∧ identifier.text = name) ∧
    Fresh pairs name

/-- What a replacement takes the place of: the name behind a label, and else the whole item. -/
def SimpleItem.replaced (before : List VarName) (name : Str) : SimpleItem → Str
  | .assigned _ _ => name
  | item => renameVariable before item.variable_

/-- Behind the variables `before`, `var` occurs in the item only as a name that is still to be
renamed, unless its alias is what it replaces. -/
def SimpleItem.Unharmed (before : List VarName) (var : VarName) (item : SimpleItem) : Prop :=
  var.name <:+: renameVariable before item.variable_ →
    Awaits before item.variable_ var.name ∨ var.alias_ = item.replaced before var.name

/-- No variable of the list harms an item. -/
def NoOverlap (items : List SimpleItem) (pairs : List VarName) : Prop :=
  ∀ before var after, pairs = before ++ var :: after → var.alias_ ≠ [] →
    ∀ item ∈ items, item.Unharmed before var

/-! ### One variable -/

theorem plain_name_of_aliased {var : VarName} (aliased : var.Aliased) : Plain var.name := by
  obtain ⟨as, rfl⟩ := aliased
  exact plain_identifier as.variableName

theorem plain_alias_of_aliased {var : VarName} (aliased : var.Aliased) : Plain var.alias_ := by
  obtain ⟨as, rfl⟩ := aliased
  exact plain_field as.funcType

/-- A variable with the text behind it renamed. -/
theorem renameName_append (before : List VarName) (var : VarName) (name : Str) :
    renameName (before ++ [var]) name =
      if Fresh before name ∧ var.name = name ∧ var.alias_ ≠ [] then var.alias_
      else renameName before name := by
  unfold renameName
  rw [List.find?_append]
  cases found : before.find? fun other => other.name == name && !other.alias_.isEmpty with
  | some other =>
      have stale : ¬ Fresh before name := by
        intro fresh
        have holds := List.find?_some found
        simp only [Bool.and_eq_true, beq_iff_eq, Bool.not_eq_true', List.isEmpty_eq_false_iff]
          at holds
        exact holds.2 (fresh other (List.mem_of_find?_eq_some found) holds.1)
      simp [stale]
  | none =>
      have fresh : Fresh before name := by
        intro other member same
        have absent := List.find?_eq_none.mp found other member
        simpa [same] using absent
      by_cases same : var.name = name
      · by_cases empty : var.alias_ = []
        · simp [fresh, same, empty]
        · simp [fresh, same, empty]
      · simp [same]

theorem renameName_of_fresh {pairs : List VarName} {name : Str} (fresh : Fresh pairs name) :
    renameName pairs name = name := by
  have absent : (pairs.find? fun var => var.name == name && !var.alias_.isEmpty) = none := by
    refine List.find?_eq_none.mpr fun other member => ?_
    by_cases same : other.name = name
    · simp [fresh other member same]
    · simp [same]
  rw [renameName, absent]
  rfl

/-- The texts of renamed variables have no cut in them. -/
theorem plain_renameVariable {pairs : List VarName}
    (assigned : ∀ var ∈ pairs, var.Assigned) (variable_ : SelVariable) :
    Plain (renameVariable pairs variable_) := by
  cases variable_ with
  | keyword unir => exact plain_unirec unir
  | name identifier =>
      change Plain (renameName pairs identifier.text)
      unfold renameName
      cases found : pairs.find? fun var => var.name == identifier.text && !var.alias_.isEmpty with
      | none => exact plain_identifier identifier
      | some var =>
          have holds := List.find?_some found
          simp only [Bool.and_eq_true, beq_iff_eq, Bool.not_eq_true', List.isEmpty_eq_false_iff]
            at holds
          exact plain_alias_of_aliased
            ((assigned var (List.mem_of_find?_eq_some found)).resolve_left holds.2)

/-- A name that awaits its alias gets it, and every other variable stays. -/
theorem renameVariable_append (before : List VarName) {var : VarName} (isAliased : var.alias_ ≠ [])
    (variable_ : SelVariable) :
    (Awaits before variable_ var.name ∧ renameVariable before variable_ = var.name ∧
        renameVariable (before ++ [var]) variable_ = var.alias_) ∨
      (¬ Awaits before variable_ var.name ∧
        renameVariable (before ++ [var]) variable_ = renameVariable before variable_) := by
  by_cases awaits : Awaits before variable_ var.name
  · refine Or.inl ⟨awaits, ?_⟩
    obtain ⟨⟨identifier, rfl, same⟩, fresh⟩ := awaits
    rw [← same] at fresh
    refine ⟨(renameName_of_fresh fresh).trans same, ?_⟩
    rw [renameVariable, renameName_append, if_pos ⟨fresh, same.symm, isAliased⟩]
  · refine Or.inr ⟨awaits, ?_⟩
    cases variable_ with
    | keyword unir => rfl
    | name identifier =>
        rw [renameVariable, renameName_append, if_neg, renameVariable]
        rintro ⟨fresh, same, _⟩
        exact awaits ⟨⟨identifier, rfl, same.symm⟩, same ▸ fresh⟩

theorem replaceInItem_bare {text : Str} (plain : Plain text) (searched replaceStr : Str) :
    replaceInItem searched replaceStr text = if searched <:+: text then replaceStr else text := by
  have noEqual : findFrom text "=".toList 0 = none := by
    rw [findFrom_zero]
    exact indexOf?_singleton_eq_none.mpr plain.noEqual
  rw [replaceInItem, noEqual, findFrom_zero]
  simp only [isSome_indexOf?]

theorem replaceInItem_assigned (label : Label) {text searched : Str} (nonempty : searched ≠ [])
    (replaceStr : Str) :
    replaceInItem searched replaceStr (label.text ++ "=".toList ++ text) =
      label.text ++ "=".toList ++ replaceAll searched replaceStr text := by
  have isEqual : findFrom (label.text ++ "=".toList ++ text) "=".toList 0 =
      some label.text.length := by
    rw [findFrom_zero, List.append_assoc]
    exact indexOf?_singleton label.plain.noEqual text
  have length : label.text.length + 1 = (label.text ++ "=".toList).length := by simp
  rw [replaceInItem, isEqual]
  simp only [length, List.take_left, List.drop_left]
  rw [findAndReplaceAll_eq nonempty]

theorem noComma_replaceInItem {before : List VarName} {var : VarName}
    (assigned : ∀ other ∈ before, other.Assigned) (aliased : var.Aliased) (item : SimpleItem) :
    ',' ∉ replaceInItem var.name var.alias_ (item.renamed before) := by
  have nonempty := (plain_name_of_aliased aliased).nonempty
  have isAlias := plain_alias_of_aliased aliased
  have plain := plain_renameVariable assigned item.variable_
  have bare : ',' ∉ replaceInItem var.name var.alias_ (renameVariable before item.variable_) := by
    rw [replaceInItem_bare plain]
    split
    · exact isAlias.noComma
    · exact plain.noComma
  cases item with
  | assigned label variable_ =>
      rw [SimpleItem.renamed, replaceInItem_assigned label nonempty]
      simp only [List.mem_append, not_or]
      refine ⟨⟨label.plain.noComma, by decide⟩, fun member => ?_⟩
      exact (mem_replaceAll var.alias_ nonempty member).elim plain.noComma isAlias.noComma
  | _ => exact bare

/-- A variable without alias renames nothing. -/
theorem renamed_append_of_empty {var : VarName} (empty : var.alias_ = []) (before : List VarName)
    (item : SimpleItem) : item.renamed (before ++ [var]) = item.renamed before := by
  have same : ∀ variable_ : SelVariable,
      renameVariable (before ++ [var]) variable_ = renameVariable before variable_ := by
    intro variable_
    cases variable_ with
    | keyword unir => rfl
    | name identifier =>
      exact (renameName_append ..).trans (if_neg fun isAlias => isAlias.2.2 empty)
  cases item with
  | assigned label variable_ => exact congrArg (label.text ++ "=".toList ++ ·) (same variable_)
  | keyword unir => exact same (.keyword unir)
  | name variable_ => exact same (.name variable_)

/-- One variable changes an item as it should exactly when it does not harm it. -/
theorem replaceInItem_renamed_iff {before : List VarName} {var : VarName}
    (assigned : ∀ other ∈ before, other.Assigned) (aliased : var.Aliased)
    (item : SimpleItem) :
    replaceInItem var.name var.alias_ (item.renamed before) = item.renamed (before ++ [var]) ↔
      item.Unharmed before var := by
  have nonempty := (plain_name_of_aliased aliased).nonempty
  have plain := plain_renameVariable assigned item.variable_
  have cases_ :=
    renameVariable_append before (plain_alias_of_aliased aliased).nonempty item.variable_
  have bare : replaceInItem var.name var.alias_ (renameVariable before item.variable_) =
      renameVariable (before ++ [var]) item.variable_ ↔
        (var.name <:+: renameVariable before item.variable_ →
          Awaits before item.variable_ var.name ∨
            var.alias_ = renameVariable before item.variable_) := by
    rw [replaceInItem_bare plain]
    rcases cases_ with ⟨awaits, isName, isAlias⟩ | ⟨stays, same⟩
    · simp [isName, isAlias, awaits]
    · rw [same]
      by_cases occurs : var.name <:+: renameVariable before item.variable_ <;> simp [occurs, stays]
  cases item with
  | keyword unir => exact bare
  | name variable_ => exact bare
  | assigned label variable_ =>
      simp only [SimpleItem.renamed, SimpleItem.Unharmed, SimpleItem.replaced, SimpleItem.variable_]
        at cases_ ⊢
      rw [replaceInItem_assigned label nonempty, List.append_cancel_left_eq]
      rcases cases_ with ⟨awaits, isName, isAlias⟩ | ⟨stays, same⟩
      · simp [isName, isAlias, awaits, replaceAll_self _ nonempty]
      · rw [same, replaceAll_eq_self_iff _ nonempty]
        simp [stays]

/-! ### Bodies -/

theorem renamed_nil (item : SimpleItem) : item.renamed [] = itemText item.assignment := by
  have reached : ∀ variable_ : SelVariable,
      renameVariable [] variable_ = [variable_].flatMap variableText := by
    intro variable_
    cases variable_ <;> exact (List.append_nil _).symm
  cases item with
  | assigned label variable_ => exact congrArg (label.text ++ "=".toList ++ ·) (reached variable_)
  | _ => rfl

theorem renamed_ne_nil {pairs : List VarName}
    (assigned : ∀ var ∈ pairs, var.Assigned) (item : SimpleItem) :
    item.renamed pairs ≠ [] := by
  have plain := (plain_renameVariable assigned item.variable_).nonempty
  cases item with
  | assigned label variable_ => simp [SimpleItem.renamed]
  | _ => exact plain

/-- The text of a body is its items with commas between them. -/
theorem selectorText_eq {body : SelectorBody} (filled : ∀ sa ∈ body.all, itemText sa ≠ []) :
    selectorText body = ",".toList.intercalate (body.all.map itemText) := by
  have run : ∀ (items : List SelAssignment) (text : Str), text ≠ [] →
      items.foldl appendItem text = text ++ items.flatMap fun sa => ",".toList ++ itemText sa := by
    intro items
    induction items with
    | nil => simp
    | cons head tail ih =>
        intro text some
        have appended : appendItem text head = text ++ (",".toList ++ itemText head) := by
          rw [appendItem, if_neg (by simpa using some), List.append_assoc]
        rw [List.foldl_cons, appended, ih _ (by simp), List.flatMap_cons, List.append_assoc]
  have opened : appendItem [] body.first = itemText body.first := rfl
  have joined := intercalate_cons_eq ',' (itemText body.first) (body.rest.map itemText)
  rw [List.flatMap_map] at joined
  rw [selectorText, SelectorBody.all, List.foldl_cons, opened,
    run body.rest _ (filled _ List.mem_cons_self)]
  exact joined.symm

/-- The text of a simple body is its text without renaming. -/
theorem selectorText_simpleBody (first : SimpleItem) (rest : List SimpleItem) :
    selectorText (simpleBody first rest) = renamedBody [] (first :: rest) := by
  have all : (simpleBody first rest).all = (first :: rest).map SimpleItem.assignment := rfl
  rw [selectorText_eq, all, List.map_map]
  · exact congrArg _ (List.map_congr_left fun item _ => (renamed_nil item).symm)
  · intro sa member
    obtain ⟨item, _, rfl⟩ := List.mem_map.mp (all ▸ member)
    rw [← renamed_nil]
    exact renamed_ne_nil (by simp) item

/-- The characters of a renamed item but the ones a body is cut at. -/
theorem mem_renamed {pairs : List VarName}
    (assigned : ∀ var ∈ pairs, var.Assigned) {item : SimpleItem} {c : Char}
    (member : c ∈ item.renamed pairs) : isspace c = false ∧ c ≠ ',' := by
  have plain : ∀ {text : Str}, Plain text → c ∈ text → isspace c = false ∧ c ≠ ',' :=
    fun isPlain inside => ⟨isPlain.noSpace c inside, fun same => isPlain.noComma (same ▸ inside)⟩
  have target := plain_renameVariable assigned item.variable_
  cases item with
  | assigned label variable_ =>
      rcases List.mem_append.mp member with left | right
      · rcases List.mem_append.mp left with inLabel | isEqual
        · exact plain label.plain inLabel
        · obtain rfl := List.mem_singleton.mp isEqual
          exact ⟨by decide, by decide⟩
      · exact plain target right
  | _ => exact plain target member

/-- One variable changes every item of a body on its own. -/
theorem replaceAliases_renamedBody {pairs : List VarName}
    (assigned : ∀ var ∈ pairs, var.Assigned) {items : List SimpleItem}
    (some : items ≠ []) (searched replaceStr : Str) :
    replaceAliasesInSelectorBody (renamedBody pairs items) searched replaceStr =
      ",".toList.intercalate
        (items.map fun item => replaceInItem searched replaceStr (item.renamed pairs)) := by
  have noSpace :
      (renamedBody pairs items).filter (fun c => !isspace c) = renamedBody pairs items := by
    refine List.filter_eq_self.mpr fun c member => ?_
    rcases mem_intercalate member with rfl | ⟨text, isText, inside⟩
    · rfl
    · obtain ⟨item, _, rfl⟩ := List.mem_map.mp isText
      simp [(mem_renamed assigned inside).1]
  have filled : (renamedBody pairs items).isEmpty = false := by
    obtain ⟨head, tail, rfl⟩ := List.exists_cons_of_ne_nil some
    have nonempty := renamed_ne_nil assigned head
    rw [List.isEmpty_eq_false_iff, renamedBody]
    by_cases last : tail = []
    · simpa [last] using nonempty
    · rw [List.map_cons, List.intercalate_cons_of_ne_nil (by simpa using last)]
      simp
  have divided : divideStr (renamedBody pairs items) ",".toList =
      items.map (SimpleItem.renamed pairs) := by
    refine (divideStr_eq _ ',').trans (List.splitOn_intercalate ',' ?_ (by simpa using some))
    intro text isText comma
    obtain ⟨item, _, rfl⟩ := List.mem_map.mp isText
    exact (mem_renamed assigned comma).2 rfl
  rw [replaceAliasesInSelectorBody, filled, if_neg (by simp)]
  simp only [noSpace, divided, List.map_map]
  exact vecOfstr2str_eq _ ','

/-- One variable changes a body as it should exactly when it harms no item. -/
theorem applyAlias_renamedBody_iff {before : List VarName} {var : VarName}
    (assigned : ∀ other ∈ before, other.Assigned) (aliased : var.Aliased) {items : List SimpleItem}
    (some : items ≠ []) :
    applyAlias .selectorBody (renamedBody before items) var = renamedBody (before ++ [var]) items ↔
      ∀ item ∈ items, item.Unharmed before var := by
  have isAlias : var.alias_.isEmpty = false := by
    simpa using (plain_alias_of_aliased aliased).nonempty
  have both : ∀ other ∈ before ++ [var], other.Assigned := by
    intro other member
    rcases List.mem_append.mp member with inBefore | isVar
    · exact assigned other inBefore
    · exact List.mem_singleton.mp isVar ▸ Or.inr aliased
  have items_iff : applyAlias .selectorBody (renamedBody before items) var =
      renamedBody (before ++ [var]) items ↔
        ∀ item ∈ items, replaceInItem var.name var.alias_ (item.renamed before) =
          item.renamed (before ++ [var]) := by
    rw [applyAlias, isAlias, if_neg (by simp)]
    simp only [replaceAliases_renamedBody assigned some]
    refine ⟨fun same => ?_, fun each => by rw [List.map_congr_left each, renamedBody]⟩
    have split := congrArg (List.splitOn ',') same
    have comma : ",".toList = [','] := rfl
    rw [renamedBody, comma, List.splitOn_intercalate, List.splitOn_intercalate] at split
    · exact List.map_inj_left.mp split
    · intro text isText inside
      obtain ⟨item, _, rfl⟩ := List.mem_map.mp isText
      exact (mem_renamed both inside).2 rfl
    · simpa using some
    · intro text isText inside
      obtain ⟨item, _, rfl⟩ := List.mem_map.mp isText
      exact noComma_replaceInItem assigned aliased item inside
    · simpa using some
  rw [items_iff]
  exact forall₂_congr fun item _ => replaceInItem_renamed_iff assigned aliased item

/-- Every list of variables that starts `pairs` renames whole names exactly when `pairs` does not
overlap. -/
theorem applyAliases_prefixes_iff {pairs : List VarName} (assigned : ∀ var ∈ pairs, var.Assigned)
    (first : SimpleItem) (rest : List SimpleItem) :
    (∀ before, before <+: pairs →
        applyAliases (selectorText (simpleBody first rest)) (some before) .selectorBody =
          renamedBody before (first :: rest)) ↔
      NoOverlap (first :: rest) pairs := by
  have append : ∀ (before : List VarName) (var : VarName),
      applyAliases (selectorText (simpleBody first rest)) (some (before ++ [var])) .selectorBody =
        applyAlias .selectorBody
          (applyAliases (selectorText (simpleBody first rest)) (some before)
            .selectorBody) var := by
    intro before var
    simp [applyAliases]
  constructor
  · rintro renames before var after rfl isAliased item member
    have here := renames before (List.prefix_append _ _)
    have next := renames (before ++ [var]) ⟨after, by simp⟩
    rw [append, here] at next
    have aliased := (assigned var (by simp)).resolve_left isAliased
    exact (applyAlias_renamedBody_iff
      (fun other inside => assigned other (by simp [inside])) aliased
      (by simp)).mp next item member
  · intro clean before
    induction before using List.reverseRecOn with
    | nil => exact fun _ => selectorText_simpleBody first rest
    | append_singleton before var ih =>
        rintro ⟨after, rfl⟩
        rw [append, ih ⟨[var] ++ after, by simp⟩]
        by_cases isAliased : var.alias_ = []
        · have same : renamedBody (before ++ [var]) (first :: rest) =
              renamedBody before (first :: rest) :=
            congrArg _ (List.map_congr_left fun item _ =>
              renamed_append_of_empty isAliased before item)
          rw [same, applyAlias, if_pos (by simp [isAliased])]
        · have aliased := (assigned var (by simp)).resolve_left isAliased
          refine (applyAlias_renamedBody_iff (fun other inside => assigned other (by simp [inside]))
            aliased (by simp)).mpr fun item member => ?_
          exact clean before var after (by simp) isAliased item member

/-- The options of a selector hold its body with whole names renamed when no recorded name
overlaps. -/
theorem selectorOptions_of_noOverlap {ast : MainBranches} {data : InterRepr}
    (ran : Parser.run ast = .ok data) {ctx : Context} {pairs : List VarName}
    (recorded : data.selVars[stageKey .selector ctx.path]? = some pairs) {first : SimpleItem}
    {rest : List SimpleItem} (clean : NoOverlap (first :: rest) pairs) (number : Nat) :
    selectorOptions data ctx (simpleBody first rest) number =
      toStringNat number ++ ":".toList ++ renamedBody pairs (first :: rest) := by
  have assigned := (assigned_of_run ran).2 _ pairs recorded
  rw [selectorOptions, recorded,
    (applyAliases_prefixes_iff assigned first rest).mpr clean pairs (List.prefix_refl _)]

/-- `apply_aliases` renames the whole names of a selector body when no name overlaps; and no name
overlaps exactly when every list the pairs start with renames the whole names as well. -/
theorem selectorBody_renamed_iff {pairs : List VarName} (assigned : ∀ var ∈ pairs, var.Assigned)
    (first : SimpleItem) (rest : List SimpleItem) :
    (NoOverlap (first :: rest) pairs →
      applyAliases (selectorText (simpleBody first rest)) (some pairs) .selectorBody =
        renamedBody pairs (first :: rest)) ∧
      (NoOverlap (first :: rest) pairs ↔ ∀ before, before <+: pairs →
        applyAliases (selectorText (simpleBody first rest)) (some before) .selectorBody =
          renamedBody before (first :: rest)) := by
  have prefixes := applyAliases_prefixes_iff assigned first rest
  exact ⟨fun clean => prefixes.mpr clean pairs (List.prefix_refl _), prefixes.symm⟩

/-- `count` with its alias. -/
def countVar : VarName := ⟨"count".toList, "PACKETS".toList⟩

/-- `smtp_count` with its alias. -/
def smtpCountVar : VarName := ⟨"smtp_count".toList, "COUNT_DISTINCT_DST_IP".toList⟩

theorem selectorBody_renamed_iff_count :
    (∀ var ∈ [countVar], var.Assigned) ∧
      NoOverlap [.name ⟨"count".toList, rfl⟩, .keyword .srcIP] [countVar] ∧
      applyAliases "count,SRC_IP".toList (some [countVar]) .selectorBody =
        "PACKETS,SRC_IP".toList := by
  have assigned : ∀ var ∈ [countVar], var.Assigned := by
    intro var member
    obtain rfl := List.mem_singleton.mp member
    exact Or.inr ⟨⟨⟨"count".toList, rfl⟩, .withParam ⟨.sum, .packets⟩⟩, rfl⟩
  have clean : NoOverlap [.name ⟨"count".toList, rfl⟩, .keyword .srcIP] [countVar] := by
    rintro before var after split _ item member
    obtain ⟨rfl, rfl⟩ : before = [] ∧ var = countVar := by
      cases before with
      | nil => exact ⟨rfl, (List.cons.inj split).1.symm⟩
      | cons head tail => simp at split
    rcases List.mem_pair.mp member with rfl | rfl
    · exact fun _ => Or.inl ⟨⟨_, rfl, rfl⟩, by simp [Fresh]⟩
    · exact fun occurs => absurd occurs (by decide)
  exact ⟨assigned, clean, (selectorBody_renamed_iff assigned _ _).1 clean⟩

/-- `main { aggregator: count = SUM(PACKETS), smtp_count = COUNT_DISTINCT(DST_IP); selector: count,
smtp_count; }`. -/
def countAndSmtpCount : MainBranches where
  first := .mk .main (.stage (.aggregator
    { body :=
        { first := ⟨⟨"count".toList, rfl⟩, .withParam ⟨.sum, .packets⟩⟩
          rest := [⟨⟨"smtp_count".toList, rfl⟩, .withParam ⟨.countDistinct, .dstIP⟩⟩] }
      succ := .stage (.selector
        ⟨simpleBody (.name ⟨"count".toList, rfl⟩) [.name ⟨"smtp_count".toList, rfl⟩]⟩) }))
  rest := .nil

/-- The name `smtp_count` is replaced by the alias of `count`. -/
theorem countAndSmtpCount_not_renamed :
    ∃ data, Accepted countAndSmtpCount data ∧
      data.selVars[stageKey .selector [⟨"main".toList, rfl⟩]]? = some [countVar, smtpCountVar] ∧
      applyAliases
          (selectorText (simpleBody (.name ⟨"count".toList, rfl⟩)
            [.name ⟨"smtp_count".toList, rfl⟩]))
          (some [countVar, smtpCountVar]) .selectorBody = "PACKETS,PACKETS".toList ∧
      renamedBody [countVar, smtpCountVar]
          [.name ⟨"count".toList, rfl⟩, .name ⟨"smtp_count".toList, rfl⟩] =
        "PACKETS,COUNT_DISTINCT_DST_IP".toList := by
  obtain ⟨data, accepted, recorded⟩ := accepted_of_accepts countAndSmtpCount
    (fun data => data.selVars[stageKey .selector [⟨"main".toList, rfl⟩]]? ==
      some [countVar, smtpCountVar]) (by decide +kernel)
  exact ⟨data, accepted, by simpa using recorded, by decide +kernel, by decide +kernel⟩

end Policer.Backend
