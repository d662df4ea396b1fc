import StepTrace.Number.Decimal
import StepTrace.Number.Literal
import StepTrace.Text.Quoted

/-!
# Values

What a variable can hold: numbers, texts and lists, and beside them a truth value or nothing at all.
A value has three texts. Its *plain* text is the one used in messages, its *display* text is the one
shown for a variable, where numbers are in normal form and long lists are shortened, and inside a
list every item has its *source* text, in which texts are quoted.
-/

namespace StepTrace

/-- What a variable can hold. -/
inductive Value where
  | null
  | bool (value : Bool)
  | num (value : Number)
  | text (value : Text)
  | list (items : List Value)
deriving Repr, Inhabited

namespace Value

/-- The number zero as a value. -/
def zero : Value := .num .zero

/-- A value seen as a number: texts are read as literals, and what is no number is 0. -/
def toNumber : Value → Number
  | .bool b => .int (if b then 1 else 0)
  | .num n => n
  | .text t => (Number.ofLiteral? t).getD .zero
  | _ => .zero

/-- The number of items or characters, for lists and texts. -/
def length? : Value → Option Nat
  | .text t => some t.length
  | .list items => some items.length
  | _ => none

/-- Brackets around items. -/
def bracketed (items : List Text) : Text :=
  '[' :: Text.joined ", ".toList items ++ [']']

/-! ## Texts of a value -/

/-- A number as written: digits, or the shortest notation of a double. -/
def ofNumber : Number → Text
  | .int n => Text.ofInt n
  | .float x => Decimal.ofDouble x

mutual

/-- The text of a value as it stands inside a list. -/
def source : Value → Text
  | .null => "None".toList
  | .bool true => "True".toList
  | .bool false => "False".toList
  | .num n => ofNumber n
  | .text t => Text.quoted t
  | .list items => bracketed (sources items)

/-- The texts of the items of a list. -/
def sources : List Value → List Text
  | [] => []
  | v :: rest => source v :: sources rest

end

/-- The plain text of a value. -/
def plain : Value → Text
  | .text t => t
  | v => source v

end Value

/-- The display text of a number: in normal form, with words for what is infinite or no number. -/
def Number.display (n : Number) : Text :=
  match n.normalize with
  | .float .nan => "NaN".toList
  | .float (.infinite negative) => Decimal.sign negative ++ "Infinity".toList
  | n => Value.ofNumber n

namespace Value

/-- The display text of a value that is not taken apart. -/
def displayItem : Value → Text
  | .num n => n.display
  | v => v.plain

/-- The longest list that is shown whole. -/
def wholeListLimit : Nat := 8

/-- The display text of a list: all items, or the first three, the last two and the count. -/
def displayList (items : List Text) : Text :=
  if items.length ≤ wholeListLimit then bracketed items
  else
    let shown := items.take 3 ++ "...".toList :: items.drop (items.length - 2)
    bracketed shown ++ " (".toList ++ Text.ofNat items.length ++ " items)".toList

/-- The display text of a value. -/
def display : Value → Text
  | .list items => displayList (items.map displayItem)
  | v => v.displayItem

end Value

end StepTrace
