import LangBench.Sample
import LangBench.Json.Reader
import LangBench.Json.Writer

/-!
Shapes: what the axes of a sample are.

At most one axis may vary in extent; its extent is the length of a sample. A language fits a
backend whose shape is the same, except that the backend may leave a fixed extent open.
-/

namespace LangBench

/-- What is known of the extent of an axis. -/
inductive Dim where
  | fixed (n : UInt64)
  /-- The language that uses the backend decides on the extent. -/
  | configurable
  | length
  deriving DecidableEq, Repr

/-- The axes of a sample, of which at most one varies. -/
structure Shape where
  dims : List Dim
  count_length_le : dims.count .length ≤ 1 := by decide
  deriving DecidableEq

/-- Why axes form no shape, or a shape is refused. -/
inductive ShapeError where
  | multipleLengths (dims : List Dim)
  | mismatch (expected found : Shape)

namespace Dim

/-- The extent as a number or the name of what is open. -/
def render : Dim → String
  | .fixed n => toString n.toNat
  | .configurable => "CONFIGURABLE"
  | .length => "LENGTH"

def renderAll (dims : List Dim) : String := "(" ++ ", ".intercalate (dims.map render) ++ ")"

/-- A fixed extent is an object with the one key `fixed`, another axis a word. -/
def toJson : Dim → Json
  | .fixed n => .obj [("fixed", .ofNat n.toNat)]
  | .configurable => .str "configurable"
  | .length => .str "length"

/-- Read an axis. A word may also be the one key of an object with the value null. -/
def ofJson? : Json → Option Dim
  | .str "configurable" => some .configurable
  | .str "length" => some .length
  | .obj [("configurable", .null)] => some .configurable
  | .obj [("length", .null)] => some .length
  | .obj [("fixed", v)] =>
    v.asNat?.bind fun n ↦ if n < UInt64.size then some (.fixed (.ofNat n)) else none
  | _ => none

/-- Whether an axis of a language can be served by an axis of a backend. -/
def fits : Dim → Dim → Bool
  | .fixed _, .configurable => true
  | a, b => a = b

end Dim

namespace Shape

/-- Make a shape of axes, at most one of which may vary. -/
def ofDims (dims : List Dim) : Except ShapeError Shape :=
  if h : dims.count .length ≤ 1 then .ok ⟨dims, h⟩ else .error (.multipleLengths dims)

def sequence : Shape := { dims := [.fixed 1, .length] }

def rank (s : Shape) : Nat := s.dims.length

def lengthAxis (s : Shape) : Option Nat := s.dims.idxOf? .length

def sampleLength (s : Shape) (x : Sample) : Option Nat := s.lengthAxis.bind x.extent

/-- Whether a language of shape `s` can use a backend of shape `backend`. -/
def compatible (s backend : Shape) : Bool :=
  s.rank = backend.rank && (s.dims.zip backend.dims).all fun (a, b) ↦ a.fits b

def checkCompatible (s backend : Shape) : Except ShapeError Unit :=
  if s.compatible backend then .ok () else .error (.mismatch backend s)

def render (s : Shape) : String := Dim.renderAll s.dims

def toJson (s : Shape) : Json := .arr (s.dims.map Dim.toJson)

def toText (s : Shape) : String := s.toJson.render

def ofJson? : Json → Option Shape
  | .arr items => (items.mapM Dim.ofJson?).bind fun dims ↦ (ofDims dims).toOption
  | _ => none

def ofText? (text : String) : Option Shape := (Json.parseRaw? text).bind ofJson?

end Shape

def ShapeError.message : ShapeError → String
  | .multipleLengths dims =>
    "shape " ++ Dim.renderAll dims ++ " declares " ++ toString (dims.count .length)
      ++ " LENGTH dimensions (at most one is allowed)"
  | .mismatch expected found =>
    "shape mismatch: expected " ++ expected.render ++ ", found " ++ found.render

end LangBench
