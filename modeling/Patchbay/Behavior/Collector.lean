import Patchbay.Frame.Plan
import Patchbay.Scene.Reading
/-!
The sink of a scene.

It runs after all other nodes and collects what the renderer is told: how
many instances, where and in which colours, how many vertices, and the fog.
-/

namespace Patchbay

open Bytes

/-- A node that collects render parameters. -/
structure Collector where
  fogMin : Single
  fogMax : Single
  fogColor : Vec3
deriving DecidableEq

namespace Collector

/-- Seven tenths, to the nearest float. -/
def paleGrey : Single := ⟨0x3f333333⟩

def initial : Collector := ⟨Single.ofNat 10, Single.ofNat 50, ⟨paleGrey, paleGrey, paleGrey⟩⟩

instance : Inhabited Collector := ⟨initial⟩

/-- Sets the fog; its end is not before its start. -/
def setFog (start stop : Single) (color : Vec3) : Collector := ⟨start, stop.larger start, color⟩

def gates : List Gate :=
  [⟨"instanceCount", .single .uint⟩, ⟨"worldPosition", .single .vector3List⟩,
    ⟨"mesh", .single .mesh⟩, ⟨"colors", .single .vector4List⟩]

/-- The parameters for what the inputs supply. -/
def collect (c : Collector) (r : Readings) : RenderData where
  instances := (r.uint? "instanceCount").getD 1
  positions := ((r.value? "worldPosition").bind Value.vector3List?).getD []
  colors := ((r.value? "colors").bind Value.vector4List?).getD [Vec4.white]
  meshVertices :=
    (((r.value? "mesh").bind Value.mesh?).map fun m => UInt32.ofNat m.vertexCount).getD 0
  fogMin := c.fogMin
  fogMax := c.fogMax
  fogColor := c.fogColor

def plan (c : Collector) : Plan Collector :=
  ⟨none, gates, fun r => (c, [.publish 0 (.render (c.collect r))])⟩

/-- The fog's range, one place each, and its colour. -/
def fogText (c : Collector) : String :=
  s!"{Decimal.fixed 1 c.fogMin}..{Decimal.fixed 1 c.fogMax} {c.fogColor.text}"

def rows (c : Collector) (d : Directory) : List Row :=
  let counts : List Row := match d.firstValue? with
    | some (.render r) =>
      [⟨"instances", toString r.instances.toNat⟩, ⟨"positions", toString r.positions.length⟩,
        ⟨"colors", toString r.colors.length⟩, ⟨"mesh vertices", toString r.meshVertices.toNat⟩]
    | _ => []
  counts ++ [⟨"fog", c.fogText⟩]

def put (c : Collector) : List UInt8 :=
  Wire.single.put c.fogMin ++ Wire.single.put c.fogMax ++ Value.vec3Wire.put c.fogColor

def get : BlockReader Collector := do
  let fogMin ← BlockReader.field Wire.single
  let fogMax ← BlockReader.field Wire.single
  let fogColor ← BlockReader.field Value.vec3Wire
  return ⟨fogMin, fogMax, fogColor⟩

end Collector

end Patchbay
