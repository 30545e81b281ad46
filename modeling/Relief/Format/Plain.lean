import Relief.Format.Coordinate
import Relief.Format.Surface
import Relief.Mesh.Normal

/-!
Surfaces as plain text: vertices as a table, a row for each with the formula and the coordinates in four places;
triangles as a solid of facets, each with its direction and three corners.
-/
namespace Relief.Format

def csvHeader : String := "Equation,X,Y,Z"

def csvPlaces : Int := 4

/-- A field in quotes. A quote in it is written twice. -/
def quoteField (text : String) : List Char :=
  '"' :: text.toList.flatMap (fun c => if c == '"' then ['"', '"'] else [c]) ++ ['"']

def csvRow (label : String) (v : Vec3 Float) : String :=
  String.intercalate "," (label :: [v.x, v.y, v.z].map (placesText csvPlaces))

def csvRows (s : Surface) : List String :=
  let label := String.ofList (quoteField s.expression)
  s.mesh.vertices.toList.map (csvRow label)

def csv (surfaces : List Surface) : Except ExportError String := do
  return ofLines (csvHeader :: (← require surfaces).flatMap csvRows)

/-- The name of a solid unless a caller gives one. -/
def solidName : String := "GraphSpace"

def vecText (v : Vec3 Float) : String :=
  String.intercalate " " ([v.x, v.y, v.z].map coordinateText)

def facetLines (u v w : Vec3 Float) : List String :=
  ["  facet normal " ++ vecText (facetNormal u v w), "    outer loop",
   "      vertex " ++ vecText u, "      vertex " ++ vecText v, "      vertex " ++ vecText w,
   "    endloop", "  endfacet"]

def meshFacets (m : Mesh Float) : List String :=
  m.triangles.flatMap fun t => facetLines (m.vertex t.a) (m.vertex t.b) (m.vertex t.c)

/-- One solid with the facets of all surfaces. -/
def stl (name : String) (surfaces : List Surface) : Except ExportError String := do
  let surfaces ← require surfaces
  return ofLines (("solid " ++ name) :: surfaces.flatMap (fun s => meshFacets s.mesh)
    ++ ["endsolid " ++ name])

end Relief.Format
