import LangBench.Json.Token

/-!
Reading JSON texts.

The tokens are put together one after the other; an `Assembly` holds the arrays and objects that
are still open. At most 127 of them may be open at a time.
-/

namespace LangBench.Json

/-- An array or object whose end has not been read. Items and fields are held in reverse. -/
inductive Open where
  | array (items : List Json)
  | object (fields : List (String × Json)) (key : String)

/-- What has been read so far, the innermost open array or object first. -/
inductive Assembly where
  | value (stack : List Open)
  | firstItem (stack : List Open)
  | firstKey (stack : List Open)
  | key (stack : List Open) (fields : List (String × Json))
  | colon (stack : List Open) (fields : List (String × Json)) (key : String)
  /-- A value is complete; inside an array or object a comma or the end must follow. -/
  | complete (stack : List Open) (v : Json)

namespace Assembly

def maxDepth : Nat := 127

def start (stack : List Open) : Token → Option Assembly
  | .scalar v => some (complete stack v)
  | .text s => some (complete stack (.str s))
  | .openArray => if stack.length < maxDepth then some (firstItem stack) else none
  | .openObject => if stack.length < maxDepth then some (firstKey stack) else none
  | _ => none

def step : Assembly → Token → Option Assembly
  | value stack, t => start stack t
  | firstItem stack, .closeArray => some (complete stack (.arr []))
  | firstItem stack, t => start (.array [] :: stack) t
  | firstKey stack, .closeObject => some (complete stack (.obj []))
  | firstKey stack, .text s => some (colon stack [] s)
  | key stack fields, .text s => some (colon stack fields s)
  | colon stack fields s, .colon => some (value (.object fields s :: stack))
  | complete (.array items :: stack) v, .comma => some (value (.array (v :: items) :: stack))
  | complete (.array items :: stack) v, .closeArray =>
    some (complete stack (.arr (v :: items).reverse))
  | complete (.object fields s :: stack) v, .comma => some (key stack ((s, v) :: fields))
  | complete (.object fields s :: stack) v, .closeObject =>
    some (complete stack (.obj ((s, v) :: fields).reverse))
  | _, _ => none

def result? : Assembly → Option Json
  | complete [] v => some v
  | _ => none

end Assembly

def ofTokens? (ts : List Token) : Option Json :=
  (ts.foldlM Assembly.step (.value [])).bind Assembly.result?

/-- Read a text, keeping the fields of objects as they stand. -/
def parseRaw? (text : String) : Option Json := (Token.ofChars? text.toList).bind ofTokens?

def parse? (text : String) : Option Json := (parseRaw? text).map canonical

end LangBench.Json
