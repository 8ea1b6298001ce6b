import DataSpec.Json.Basic
import DataSpec.Json.Token

/-!
# Reading JSON

`Json.parse?` reads a text : its tokens are taken one by one, and `Json.Reader` is what
has been read so far, the open arrays and objects from the inside out and what may come
next. An object keeps all its members, repeated ones too (`Json.merged` joins them).

Parts that are passed over need to be well formed and no more, so a part that nobody can
read is no reason to refuse a text (`Json.unreadable`). `Json.parseReadable?` is for a text
of which every part is read.
-/

set_option autoImplicit false

namespace DataSpec.Json

/-- An array or object that is not closed yet; items and members are the last first. A
member has no name if it cannot be read. -/
inductive Open where
  | arr (items : List Json)
  | obj (members : List (Option String × Json)) (name : Option String)

/-- What may come next. -/
inductive Reader where
  /-- A value. -/
  | value (within : List Open)
  /-- The first item of an array, or its end. -/
  | item (within : List Open)
  /-- The name of a member; `first` says that the object may also end. -/
  | member (members : List (Option String × Json)) (first : Bool) (within : List Open)
  /-- The colon after a name. -/
  | colon (members : List (Option String × Json)) (name : Option String) (within : List Open)
  /-- A comma or the end of the innermost array or object. -/
  | more (innermost : Open) (within : List Open)
  /-- Nothing : the value is complete. -/
  | complete (v : Json)

namespace Reader

/-- The largest number of arrays and objects inside one another. -/
def maxDepth : Nat := 127

/-- After a complete value. -/
def afterValue (v : Json) : List Open → Reader
  | [] => .complete v
  | .arr items :: within => .more (.arr (v :: items)) within
  | .obj members name :: within => .more (.obj ((name, v) :: members) name) within

/-- After an array or object, which can be read if it is not nested too deep. -/
def afterNested (v : Json) (within : List Open) : Reader :=
  afterValue (if within.length < maxDepth then v else .unreadable) within

/-- After the end of an array with the given items. -/
def endArray (items : List Json) (within : List Open) : Reader :=
  afterNested (.arr items.reverse) within

/-- After the end of an object with the given members. -/
def endObject (members : List (Option String × Json)) (within : List Open) : Reader :=
  let named := members.reverse.mapM fun m => m.1.map fun name => (name, m.2)
  afterNested ((named.map .obj).getD .unreadable) within

/-- After a token that begins a value. -/
def beginValue (within : List Open) : Token → Option Reader
  | .null => some (afterValue .null within)
  | .bool b => some (afterValue (.bool b) within)
  | .int n => some (afterValue (.int n) within)
  | .decimal d => some (afterValue (.decimal d) within)
  | .str s => some (afterValue (.str s) within)
  | .tooLarge | .unpaired => some (afterValue .unreadable within)
  | .beginArray => some (.item (.arr [] :: within))
  | .beginObject => some (.member [] true within)
  | _ => none

/-- After a token. -/
def step : Reader → Token → Option Reader
  | .value within, t => beginValue within t
  | .item (.arr items :: within), .endArray => some (endArray items within)
  | .item within, t => beginValue within t
  | .member members true within, .endObject => some (endObject members within)
  | .member members _ within, .str s => some (.colon members (some s) within)
  | .member members _ within, .unpaired => some (.colon members none within)
  | .colon members name within, .colon => some (.value (.obj members name :: within))
  | .more (.arr items) within, .comma => some (.value (.arr items :: within))
  | .more (.arr items) within, .endArray => some (endArray items within)
  | .more (.obj members _) within, .comma => some (.member members false within)
  | .more (.obj members _) within, .endObject => some (endObject members within)
  | _, _ => none

end Reader

/-- The value that a list of tokens stands for. -/
def ofTokens? (ts : List Token) : Option Json :=
  match ts.foldlM Reader.step (.value []) with
  | some (.complete v) => some v
  | _ => none

/-- The value of a text. -/
def parse? (text : String) : Option Json := (Token.scan text).bind ofTokens?

/-- The value of a text of which every part can be read. -/
def parseReadable? (text : String) : Option Json := (parse? text).filter isReadable

end DataSpec.Json
