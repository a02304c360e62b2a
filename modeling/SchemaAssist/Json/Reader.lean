/-
# Reading JSON

A JSON text is read strictly: one value, its tokens separated by the four blanks of JSON.  The names
`NaN`, `Infinity` and `-Infinity` are read as doubles beside the numbers of the grammar.  If an
object names a member twice, the last value wins and stands in the first place.

Tokens are read by a machine with a stack of the containers that are open, one token a step, so that
reading a sequence of tokens is a fold (`State.run`) and reading ends exactly when a single value is
complete.
-/
import SchemaAssist.Json.Quoted
import SchemaAssist.Json.Token
import SchemaAssist.Json.Value

namespace SchemaAssist.Json

/-! ## 1. Words -/

/-- The leading digits of a text, and what follows them. -/
def splitDigits (text : List Char) : List Char × List Char :=
  (text.takeWhile Char.isDigit, text.dropWhile Char.isDigit)

/-- The fraction digits after a point: none where there is no point; a point needs a digit. -/
def readFraction? (text : List Char) : Option (Option (List Char) × List Char) :=
  match text with
  | '.' :: rest =>
    let (ds, rest) := splitDigits rest
    if ds.isEmpty then none else some (some ds, rest)
  | _ => some (none, text)

/-- The exponent at the end of a numeral: none where the numeral ends; an exponent needs a digit. -/
def readExponent? (text : List Char) : Option (Option Int) :=
  match text with
  | [] => some none
  | e :: rest =>
    if e = 'e' ∨ e = 'E' then
      let (negative, digits) :=
        match rest with
        | '-' :: ds => (true, ds)
        | '+' :: ds => (false, ds)
        | ds => (false, ds)
      if digits.isEmpty || !digits.all Char.isDigit then none
      else
        let k : Int := Nat.ofDigitChars 10 digits 0
        some (some (if negative then -k else k))
    else none

/-- The number that an unsigned numeral stands for. -/
def readMagnitude? (negative : Bool) (text : List Char) : Option Value :=
  let (whole, rest) := splitDigits text
  if whole.isEmpty || (whole.head? == some '0' && 1 < whole.length) then none
  else do
    let (fraction, rest) ← readFraction? rest
    let exponent ← readExponent? rest
    match fraction, exponent with
    | none, none =>
      let n : Int := Nat.ofDigitChars 10 whole 0
      return .int (if negative then -n else n)
    | fraction, exponent =>
      let places := fraction.getD []
      return .double (Double.ofDecimal negative (Nat.ofDigitChars 10 (whole ++ places) 0)
        (exponent.getD 0 - places.length))

/-- The number that a numeral stands for. -/
def readNumber? : List Char → Option Value
  | '-' :: rest => readMagnitude? true rest
  | text => readMagnitude? false text

/-- The value that a word stands for. -/
def readWord? (word : List Char) : Option Value :=
  if word = "null".toList then some .null
  else if word = "true".toList then some (.bool true)
  else if word = "false".toList then some (.bool false)
  else if word = "NaN".toList then some (.double .nan)
  else if word = "Infinity".toList then some (.double (.infinity false))
  else if word = "-Infinity".toList then some (.double (.infinity true))
  else readNumber? word

/-- The value that a token stands for by itself. -/
def Token.value? : Token → Option Value
  | .literal source => (unescape source).map fun s => .str (String.ofList s)
  | .word chars => readWord? chars
  | _ => none

/-! ## 2. The machine -/

/-- An open container that waits for a value. -/
inductive Pending where
  /-- An array and the items before the value, the last one first. -/
  | items (seen : List Value)
  /-- An object, the members before the value, the last one first, and the name of the value. -/
  | member (seen : Members) (key : String)

/-- What a reader of tokens waits for, with the open containers, the innermost first. -/
inductive State where
  | value (stack : List Pending)
  /-- The first item of an array, or its end. -/
  | firstItem (stack : List Pending)
  | afterItem (seen : List Value) (stack : List Pending)
  /-- The first name of an object, or its end. -/
  | firstName (stack : List Pending)
  | name (seen : Members) (stack : List Pending)
  | colon (seen : Members) (key : String) (stack : List Pending)
  | afterMember (seen : Members) (stack : List Pending)
  | done (v : Value)

namespace State

/-- The state after a complete value. -/
def complete (v : Value) : List Pending → State
  | [] => .done v
  | .items seen :: stack => .afterItem (v :: seen) stack
  | .member seen key :: stack => .afterMember ((key, v) :: seen) stack

/-- A token where a value is awaited. -/
def start (stack : List Pending) : Token → Option State
  | .openObject => some (.firstName stack)
  | .openArray => some (.firstItem stack)
  | t => t.value?.map fun v => complete v stack

/-- A token where the name of a member is awaited. -/
def startMember (seen : Members) (stack : List Pending) : Token → Option State
  | .literal source => (unescape source).map fun s => .colon seen (String.ofList s) stack
  | _ => none

/-- One token. -/
def step : State → Token → Option State
  | .value stack, t => start stack t
  | .firstItem stack, .closeArray => some (complete (.arr []) stack)
  | .firstItem stack, t => start (.items [] :: stack) t
  | .afterItem seen stack, .comma => some (.value (.items seen :: stack))
  | .afterItem seen stack, .closeArray => some (complete (.arr seen.reverse) stack)
  | .firstName stack, .closeObject => some (complete (.obj []) stack)
  | .firstName stack, t => startMember [] stack t
  | .name seen stack, t => startMember seen stack t
  | .colon seen key stack, .colon => some (.value (.member seen key :: stack))
  | .afterMember seen stack, .comma => some (.name seen stack)
  | .afterMember seen stack, .closeObject =>
    some (complete (.obj (Members.ofPairs seen.reverse)) stack)
  | _, _ => none

/-- A sequence of tokens. -/
def run : State → List Token → Option State
  | s, [] => some s
  | s, t :: ts => (s.step t).bind fun s' => s'.run ts

/-- The value that is complete. -/
def result? : State → Option Value
  | .done v => some v
  | _ => none

end State

/-! ## 3. Reading a text -/

/-- The value that a sequence of tokens stands for. -/
def Value.ofTokens? (ts : List Token) : Option Value :=
  ((State.value []).run ts).bind State.result?

/-- The value that a JSON text stands for, or `none` if the text is no JSON. -/
def Value.read? (text : List Char) : Option Value :=
  (tokens text).bind Value.ofTokens?

end SchemaAssist.Json
