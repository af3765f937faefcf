import ConditionalAssembly.Expr
import ConditionalAssembly.Text

/-!
# The text between quotes

The text of a quoted string is cut into literal text, variables, periods and
equal signs.  Two quotes stand for one, two ampersands stay two, and a period
directly behind a variable only ends its name.
-/

namespace ConditionalAssembly.Chain

open ConditionalAssembly.Text

/-- A chain with literal text put in front, joined with literal text that begins it. -/
def prependText (text : String) : Chain → Chain
  | .text next :: rest => .text (text ++ next) :: rest
  | chain => .text text :: chain

/-- The rest of a text behind a variable, without the period that ends its name. -/
def dropPeriod : List Char → List Char
  | '.' :: cs => cs
  | cs => cs

theorem length_dropPeriod_le (cs : List Char) : (dropPeriod cs).length ≤ cs.length := by
  unfold dropPeriod
  split
  · exact Nat.le_succ _
  · exact Nat.le_refl _

theorem length_behindName_le (cs : List Char) :
    (dropPeriod (cs.dropWhile isNameChar)).length ≤ cs.length :=
  Nat.le_trans (length_dropPeriod_le _) (List.dropWhile_suffix _).length_le

/-- The chain that a quoted text denotes, its first character standing in a column. -/
def ofQuoted (column : Nat) : List Char → Chain
  | [] => []
  | '\'' :: '\'' :: cs => prependText "'" (ofQuoted (column + 2) cs)
  | '\'' :: cs => prependText "'" (ofQuoted (column + 1) cs)
  | '&' :: '&' :: cs => prependText "&&" (ofQuoted (column + 2) cs)
  | '&' :: c :: cs =>
      if isNameStart c then
        let name := c :: cs.takeWhile isNameChar
        let behind := cs.dropWhile isNameChar
        let stop := column + 1 + name.length
        let period := behind.length - (dropPeriod behind).length
        have := length_behindName_le cs
        .variableItem ⟨.basic (nameOf name), [], .columns column stop⟩ ::
          ofQuoted (stop + period) (dropPeriod behind)
      else prependText "&" (ofQuoted (column + 1) (c :: cs))
  | '.' :: cs => .dot :: ofQuoted (column + 1) cs
  | '=' :: cs => .equals :: ofQuoted (column + 1) cs
  | c :: cs => prependText c.toString (ofQuoted (column + c.utf8Size) cs)
termination_by cs => cs.length
decreasing_by all_goals (simp only [List.length_cons]; omega)

end ConditionalAssembly.Chain
