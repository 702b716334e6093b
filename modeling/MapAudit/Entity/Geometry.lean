import MapAudit.Entity.Kind

namespace MapAudit

structure Position where
  lon : Float
  lat : Float
  deriving Repr

instance : BEq Position where
  beq a b := a.lon == b.lon && a.lat == b.lat

inductive Geometry where
  | point (p : Position)
  | line (positions : List Position)
  deriving Repr

namespace Geometry

/-- Same shape and the same sequence of positions. -/
def same : Geometry → Geometry → Bool
  | point p, point q => p == q
  | line ps, line qs => ps == qs
  | _, _ => false

instance : BEq Geometry := ⟨same⟩

def numPoints : Geometry → Nat
  | point _ => 1
  | line ps => ps.length

/-- A line needs two positions. -/
def isValid : Geometry → Bool
  | point _ => true
  | line ps => 2 ≤ ps.length

/-- The normal form of a geometry of an entity of the given kind: a line entity whose line has one
position is a point there, and one without positions has no geometry. -/
def normalize : EntityKind → Geometry → Option Geometry
  | .line, .line [] => none
  | .line, .line [p] => some (.point p)
  | _, g => some g

def normal (kind : EntityKind) (g : Option Geometry) : Option Geometry := g.bind (normalize kind)

end Geometry

end MapAudit
