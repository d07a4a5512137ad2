/-
The events of an evaluation and the lines in which a log shows them.
-/
import StackLang.Operation.Failure

namespace StackLang

/-- What a log records. -/
inductive Event where
  /-- An operation is about to be executed on a stack of size `depth`. -/
  | executing (step : Nat) (operation : Operation) (depth : Nat)
  /-- A transform is about to be called on a stack of size `depth`. -/
  | applying (transform : Transform) (depth : Nat)
  /-- The program is done. -/
  | finished (steps depth : Nat)
  /-- The program goes on after `limit` operations. -/
  | limitExceeded (limit : Nat)
  /-- The operation of this step failed. -/
  | failed (step : Nat) (failure : Failure)
  /-- A word has got a new program. -/
  | redefined (word : String)
  /-- A function that the program calls remarked this. -/
  | remark (text : String)

namespace Event

/-- A line of the log: a level, a message and named fields. -/
def line (level message : String) (fields : List (String × String)) : String :=
  fields.foldl (fun s (name, value) => s ++ " " ++ name ++ "=" ++ value) (level ++ " " ++ message)

/-- The line of an event. -/
def render : Event → String
  | .executing step operation depth =>
    line "TRACE" "Executing" [("step", Text.Numeral.text step), ("operation", operation.render),
      ("depth", Text.Numeral.text depth)]
  | .applying transform depth =>
    line "TRACE" "Applying transform" [("transform", transform.describe),
      ("depth", Text.Numeral.text depth)]
  | .finished steps depth =>
    line "DEBUG" "Evaluation finished" [("steps", Text.Numeral.text steps),
      ("depth", Text.Numeral.text depth)]
  | .limitExceeded limit => line "DEBUG" "Step limit exceeded" [("limit", Text.Numeral.text limit)]
  | .failed step failure =>
    line "DEBUG" "Evaluation failed" [("step", Text.Numeral.text step), ("error", failure.message)]
  | .redefined word => line "DEBUG" "Redefined word" [("word", word)]
  | .remark text => text

end Event

/-- The events of executing an operation on a stack: those of the transform it applies. -/
def Operation.events (op : Operation) (s : Stack) : List Event :=
  match op with
  | .apply t => .applying t s.size :: (t.remark s).map .remark
  | _ => []

end StackLang
