import Policer.Backend.InputTemplate
import Policer.Selector.RoundTrip

/-!
# The messages of a selector

`init` ends with a template for the fields of the dictionary and with one output record that
`eval` writes into for every record. `messages_of_records` says that nothing of a record is left
in the messages of later ones.
-/

namespace Policer.Selector

open Policer.Lib Policer.Parsing Policer.Backend

/-! ### The output template -/

/-- The text `create_output_template` makes of the dictionary. -/
def outputFields (dict : List SelDictItem) : Str :=
  (dict.foldl (fun fields item => fields ++ item.target ++ ",".toList) []).dropLast

/-- `create_output_template`: the names of the fields, or `none` when one is not defined. -/
def createOutputTemplate (table : FieldTable) (dict : List SelDictItem) : Option (List Str) :=
  let names := tokens ',' (outputFields dict)
  if names.all fun name => (table name).isSome then some names else none

/-! ### Evaluation -/

/-- The values of the fields of a template. -/
abbrev Message (α : Type) := Str → Option α

/-- A selector that is set up. `sent` are the messages handed to `trap_send`. -/
structure Running (α : Type) where
  members : Members
  outTmplt : List Str
  outRec : Values α
  sent : List (Message α)

namespace Running

variable {α : Type}

/-- The fields of the output record. -/
def message (self : Running α) : Message α := fun name =>
  if self.outTmplt.contains name then some (self.outRec name) else none

/-- `eval`. -/
def eval (self : Running α) (inRec : Values α) : Running α :=
  let written := { self with outRec := self.members.eval inRec self.outRec }
  { written with sent := self.sent ++ [written.message] }

end Running

/-- `init` with the creation of the template. A new record of UniRec is zeroed. -/
def start {α : Type} (zero : α) (accepts : Str → Bool) (table : FieldTable) (options : Str) :
    Option (Running α × FieldTable) :=
  match init accepts table options with
  | .error _ => none
  | .ok (members, table) => (createOutputTemplate table members.dict).map fun outTmplt =>
      (⟨members, outTmplt, fun _ => zero, []⟩, table)

/-! ### The last item of a name -/

/-- The field whose value a name gets: that of the last item for the name. -/
def Members.source (self : Members) (name : Str) : Option Str :=
  (self.dict.reverse.find? fun item => item.target = name).map SelDictItem.fieldName

section Records

variable {α : Type}

/-- `eval` writes the names of the dictionary and no others. -/
theorem Members.eval_apply (self : Members) (inRec outRec : Values α) (name : Str) :
    self.eval inRec outRec name = ((self.source name).map inRec).getD (outRec name) := by
  obtain ⟨ifcNum, dict⟩ := self
  simp only [Members.eval, Members.source]
  induction dict using List.reverseRecOn with
  | nil => rfl
  | append_singleton items last ih =>
      rw [List.foldl_append, List.reverse_append]
      simp only [List.foldl_cons, List.foldl_nil, List.reverse_singleton, List.singleton_append,
        List.find?_cons]
      by_cases here : last.target = name
      · subst here
        simp [SelDictItem.copy]
      · rw [SelDictItem.copy, Function.update_of_ne (Ne.symm here), ih]
        simp [here]

/-- A name with an item has a source. -/
theorem Members.isSome_source {self : Members} {name : Str} :
    (self.source name).isSome ↔ name ∈ self.dict.map SelDictItem.target := by
  simp [Members.source, List.find?_isSome]

/-- What a selector makes of a record, whatever its output record holds. -/
def Running.project (self : Running α) (inRec : Values α) : Message α := fun name =>
  if self.outTmplt.contains name then (self.members.source name).map inRec else none

/-- Every field of the template has an item. -/
def Running.Covered (self : Running α) : Prop :=
  ∀ name ∈ self.outTmplt, name ∈ self.members.dict.map SelDictItem.target

/-- A message has the values of the record it is sent for. -/
theorem Running.sent_eval {self : Running α} (covered : self.Covered) (inRec : Values α) :
    (self.eval inRec).sent = self.sent ++ [self.project inRec] := by
  have same : Running.message { self with outRec := self.members.eval inRec self.outRec } =
      self.project inRec := by
    funext name
    simp only [Running.message, Running.project]
    split
    · rename_i member
      obtain ⟨field, isSource⟩ :=
        Option.isSome_iff_exists.mp (Members.isSome_source.mpr (covered name
          (List.contains_iff_mem.mp member)))
      rw [Members.eval_apply, isSource]
      rfl
    · rfl
  rw [Running.eval, same]

theorem Running.sent_foldl {self : Running α} (covered : self.Covered)
    (records : List (Values α)) :
    (records.foldl Running.eval self).sent = self.sent ++ records.map self.project := by
  induction records generalizing self with
  | nil => simp
  | cons head tail ih =>
      have later : (self.eval head).Covered := covered
      rw [List.foldl_cons, ih later, Running.sent_eval covered, List.map_cons, List.append_assoc]
      rfl

end Records

/-! ### Selectors that start -/

section Start

variable {α : Type} {accepts : Str → Bool} {table after : FieldTable} {options : Str}

theorem target_readItem {piece : Str} {c : Char} (member : c ∈ (readItem piece).target) :
    c ∈ piece := by
  unfold readItem at member
  split at member
  · exact member
  · exact List.mem_of_mem_take member

/-- The names of a dictionary have no comma. -/
theorem comma_notMem_target {members : Members} (read : init accepts table options =
    .ok (members, after)) {item : SelDictItem} (member : item ∈ members.dict) :
    ',' ∉ item.target := by
  unfold init at read
  split at read
  · rename_i ifcNum body _
    split at read
    · cases read
    · obtain ⟨⟨fields, dict⟩, filled, same⟩ := map_ok.mp read
      cases same
      have comma : ",".toList = [','] := rfl
      simp only [setDict, comma, divideStr_eq, fillDict_eq] at filled
      obtain ⟨_, _, same⟩ := map_ok.mp filled
      cases same
      rw [List.nil_append] at member
      obtain ⟨piece, isPiece, rfl⟩ := List.mem_map.mp member
      exact fun comma => (of_mem_splitOn isPiece).1 (target_readItem comma)
  · cases read

/-- The template has the names of the dictionary that are not empty. -/
theorem tokens_outputFields {dict : List SelDictItem}
    (noComma : ∀ item ∈ dict, ',' ∉ item.target) :
    tokens ',' (outputFields dict) =
      (dict.map SelDictItem.target).filter fun name => !name.isEmpty := by
  have comma : ",".toList = [','] := rfl
  have joined : outputFields dict = ",".toList.intercalate (dict.map SelDictItem.target) := by
    rw [← dropLast_foldl_comma, List.foldl_map]
    rfl
  rw [joined, comma]
  by_cases none : dict = []
  · subst none
    rfl
  · have some : dict.map SelDictItem.target ≠ [] := by simpa using none
    have parts := splitOn_intercalate_flatMap ',' some
    have whole : ∀ name ∈ dict.map SelDictItem.target, name.splitOn ',' = [name] := by
      intro name member
      obtain ⟨item, isItem, rfl⟩ := List.mem_map.mp member
      exact List.splitOn_eq_singleton (noComma item isItem)
    rw [List.flatMap_congr whole, List.flatMap_singleton'] at parts
    rw [tokens]
    exact congrArg _ parts

/-- A selector that starts has sent nothing, and its template has the names of its dictionary. -/
theorem start_ok {zero : α} {self : Running α}
    (started : start zero accepts table options = some (self, after)) :
    self.sent = [] ∧ self.outTmplt =
      (self.members.dict.map SelDictItem.target).filter fun name => !name.isEmpty := by
  unfold start at started
  split at started
  · cases started
  · rename_i members fields read
    obtain ⟨outTmplt, created, same⟩ := Option.map_eq_some_iff.mp started
    cases same
    refine ⟨rfl, ?_⟩
    rw [createOutputTemplate] at created
    obtain ⟨_, created⟩ := Option.ite_none_right_eq_some.mp created
    cases created
    exact tokens_outputFields fun item member => comma_notMem_target read member

theorem covered_of_start {zero : α} {self : Running α}
    (started : start zero accepts table options = some (self, after)) : self.Covered := by
  intro name member
  rw [(start_ok started).2] at member
  exact List.mem_of_mem_filter member

/-- What a selector that has started makes of a record: each name that is not empty gets the value
of its last item. -/
theorem project_of_start {zero : α} {self : Running α}
    (started : start zero accepts table options = some (self, after)) (inRec : Values α) :
    self.project inRec = fun name =>
      if name = [] then none else (self.members.source name).map inRec := by
  funext name
  simp only [Running.project, (start_ok started).2]
  by_cases empty : name = []
  · simp [empty]
  · cases isSource : self.members.source name with
    | none => simp
    | some field =>
        have member := Members.isSome_source.mp (Option.isSome_of_eq_some isSource)
        simp [member, empty]

/-- The messages of a selector are made of one record each. -/
theorem messages_of_records {zero : α} {self : Running α}
    (started : start zero accepts table options = some (self, after)) (records : List (Values α)) :
    (records.foldl Running.eval self).sent = records.map fun inRec name =>
      if name = [] then none else (self.members.source name).map inRec := by
  rw [Running.sent_foldl (covered_of_start started), (start_ok started).1, List.nil_append]
  exact List.map_congr_left fun inRec _ => project_of_start started inRec

/-- `0:x = BYTES, PACKETS, x = LINK_BIT_FIELD`. -/
theorem messages_of_records_twice :
    ∃ self after, start 0 (fun _ => true) definedFields
        "0:x = BYTES, PACKETS, x = LINK_BIT_FIELD".toList = some (self, after) ∧
      ∀ records : List (Values Nat), (records.foldl Running.eval self).sent =
        records.map fun inRec name =>
          if name = [] then none else (self.members.source name).map inRec := by
  obtain ⟨⟨self, after⟩, started⟩ : ∃ running, start 0 (fun _ => true) definedFields
      "0:x = BYTES, PACKETS, x = LINK_BIT_FIELD".toList = some running :=
    Option.isSome_iff_exists.mp (by decide +kernel)
  exact ⟨self, after, started, messages_of_records started⟩

end Start

end Policer.Selector
