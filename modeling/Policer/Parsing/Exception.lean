import Policer.Parsing.Ast

/-!
# Errors of the rule parser

The exceptions of `exception.hpp` with the data they carry. `ProgramError.msgBody`
is the text `main` prints and `ProgramError.retCode` the exit code it returns. A call may end in
other ways, too, which nothing catches.
-/

namespace Policer.Parsing

/-- `ProgramError::Syntactic` and `ProgramError::Semantic`, one case for each tag. -/
inductive ProgramError where
  | parser
  | filterBodies (branchPath name : Str)
  | checkBranchNames (branchPath name : Str)
  | checkSeqStages (mainBranch stagesSeq : Str)
  | checkGrouper1 (branchPath name : Str)
  | checkGrouper2 (branchPath name : Str)
  | checkFilterVarname (branchPath name : Str)
  | checkSelector (branchPath name : Str)
deriving DecidableEq

namespace ProgramError

/-- `ErrorT` codes. -/
def retCode : ProgramError → Nat
  | .parser => 10
  | .checkBranchNames .. => 20
  | .checkSeqStages .. => 21
  | .filterBodies .. => 22
  | .checkFilterVarname .. => 23
  | .checkGrouper1 .. => 24
  | .checkGrouper2 .. => 25
  | .checkSelector .. => 26

/-- The shape all messages but the parser's share: a prefix and two quoted parts. -/
def quoted (msgPrefix bodyPart1 first bodyPart2 second bodyPart3 : Str) : Str :=
  msgPrefix ++ bodyPart1 ++ first ++ bodyPart2 ++ second ++ bodyPart3

/-- `msg_prefix` of `Syntactic`. -/
def syntacticPrefix : Str := "Syntactic error! ".toList

/-- `msg_prefix` of `Semantic`. -/
def semanticPrefix : Str := "Semantic error! ".toList

/-- `msg_body`. -/
def msgBody : ProgramError → Str
  | .parser => []
  | .filterBodies branchPath name =>
      quoted syntacticPrefix "In the branch path '".toList branchPath "' is '".toList name
        "'".toList
  | .checkBranchNames branchPath name =>
      quoted semanticPrefix "In the branch path '".toList branchPath
        "' is the duplicate branch name '".toList name "'".toList
  | .checkSeqStages mainBranch stagesSeq =>
      quoted semanticPrefix "Main branch '".toList mainBranch
        "' contains a bad sequence of stages:\n\t'".toList stagesSeq "' is not allowed".toList
  | .checkGrouper1 branchPath name =>
      quoted semanticPrefix "In the branch path '".toList branchPath
        "' it is not supported to have a grouper key '".toList name "'".toList
  | .checkGrouper2 branchPath name =>
      quoted semanticPrefix "In the branch path '".toList branchPath
        "' it is not supported to have an aggregate for the grouper key '".toList name
        "' in the same main branch".toList
  | .checkFilterVarname branchPath name =>
      quoted semanticPrefix "In the branch path '".toList branchPath
        "' is a variable with name '".toList name
        ("' that does not defined in appropriate aggregator stage " ++
          "and at the same time it is not unirec").toList
  | .checkSelector branchPath name =>
      quoted semanticPrefix "In the branch path '".toList branchPath
        "' is parameter with name '".toList name
        ("'\n                but is not possible to provide a meaningful result due to " ++
          "an influence of the grouper or aggregator stage").toList

end ProgramError

/-- How a call ends that does not return: an exception is thrown, an assertion of the parser
library fails, or a string is read behind its end. -/
inductive Failure where
  | thrown (error : ProgramError)
  | aborted
  | unterminated
deriving DecidableEq

end Policer.Parsing
