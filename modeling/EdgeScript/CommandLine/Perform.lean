import EdgeScript.CommandLine.Plan
import EdgeScript.Files.Tree

/-!
# Carrying out a plan in a tree of files

The actions of a plan are done one after the other; a file that cannot be written ends the command,
and what was printed and written before stays.
-/

set_option autoImplicit false

namespace EdgeScript.CommandLine

/-- What a command leaves behind. -/
structure Outcome where
  code : Nat
  out : String := ""
  err : String := ""
  tree : FileTree

namespace Outcome

/-- Does actions one after the other. -/
def perform (o : Outcome) : List Action → Outcome
  | [] => o
  | .print text :: rest => perform { o with out := o.out ++ text } rest
  | .tell text :: rest => perform { o with err := o.err ++ text } rest
  | .write path text :: rest =>
    match o.tree.write path text with
    | .ok tree => perform { o with tree } rest
    | .error fault => { o with code := 2, err := o.err ++ Plan.writeFailure path fault }

/-- Carries out a plan. -/
def ofPlan (tree : FileTree) (plan : Plan) : Outcome :=
  perform { code := plan.code, tree } plan.actions

end Outcome

end EdgeScript.CommandLine
