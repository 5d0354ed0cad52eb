import Patchbay.Value.Payload
import Patchbay.Proofs.Wires
/-!
Payloads come back from their bytes and their kind.

Every payload but the render parameters is a row of elements of one width,
so the number of bytes tells how many there are.  The render parameters
hold two lists, which carry their own lengths.
-/

namespace Patchbay.Value

open Bytes Wire

theorem fixed_vec2 : vec2Wire.Fixed 8 :=
  (fixed_single.pair fixed_single).viaMap fun _ => rfl

theorem fixed_vec3 : vec3Wire.Fixed 12 :=
  (fixed_single.pair (fixed_single.pair fixed_single)).viaMap fun _ => rfl

theorem fixed_vec4 : vec4Wire.Fixed 16 :=
  (fixed_single.pair (fixed_single.pair (fixed_single.pair fixed_single))).viaMap fun _ => rfl

theorem faithful_render : renderWire.Faithful := by
  have hpositions : (Wire.list vec3Wire).Faithful := fixed_vec3.list (by decide)
  have hcolors : (Wire.list vec4Wire).Faithful := fixed_vec4.list (by decide)
  have hfog := (fixed_single.pair (fixed_single.pair fixed_vec3)).faithful
  have htail := fixed_u32.faithful.pair hfog
  exact (fixed_u32.faithful.pair (hpositions.pair (hcolors.pair htail))).viaMap fun _ => rfl

section Rows
variable {α : Type} {w : Wire α} {width : Nat}

theorem readOne_put (h : w.Fixed width) (k : Kind) (a : α) :
    readOne k width w (w.put a) = .ok a := by
  have hexact := h.exact a []
  rw [List.append_nil] at hexact
  rw [readOne, if_pos (h.length_put a), hexact]

theorem readRow_flatMap (h : w.Fixed width) (hwidth : 0 < width) (k : Kind) (as : List α) :
    readRow k width w (as.flatMap w.put) = .ok as := by
  have hrow := getMany_flatMap (fun a (_ : a ∈ as) => h.exact a) [] []
  rw [List.append_nil] at hrow
  rw [readRow, h.length_flatMap, if_pos (Nat.mul_mod_left as.length width),
    Nat.mul_div_cancel as.length hwidth, hrow]
  rfl

end Rows

theorem readRender_put {r : RenderData} (h : (renderWire.put r).length < sizeLimit) :
    readRender (renderWire.put r) = .ok r := by
  have hexact := faithful_render r h []
  rw [List.append_nil] at hexact
  rw [readRender, hexact]

/-- A payload is read back from its bytes, given its kind. -/
theorem ofBytes_toBytes {v : Value} (h : v.toBytes.length < sizeLimit) :
    ofBytes v.kind v.toBytes = .ok v := by
  have hone {α : Type} {w : Wire α} {width : Nat} (hw : w.Fixed width) (k : Kind) (f : α → Value)
      (a : α) : (readOne k width w (w.put a)).map f = .ok (f a) := by
    rw [readOne_put hw]
    rfl
  have hrow {α : Type} {w : Wire α} {width : Nat} (hw : w.Fixed width) (hwidth : 0 < width)
      (k : Kind) (f : List α → Value) (as : List α) :
      (readRow k width w (as.flatMap w.put)).map f = .ok (f as) := by
    rw [readRow_flatMap hw hwidth]
    rfl
  cases v with
  | empty => rfl
  | float x => exact hone fixed_single .float .float x
  | int x => exact hone fixed_i32 .int .int x
  | uint x => exact hone fixed_u32 .uint .uint x
  | vector2 x => exact hone fixed_vec2 .vector2 .vector2 x
  | vector3 x => exact hone fixed_vec3 .vector3 .vector3 x
  | vector4 x => exact hone fixed_vec4 .vector4 .vector4 x
  | floatArray xs => exact hrow fixed_single (by decide) .floatArray .floatArray xs
  | mesh m => exact hrow fixed_single (by decide) .mesh (fun xs => .mesh ⟨xs⟩) m.floats
  | render r =>
      show (readRender (renderWire.put r)).map Value.render = _
      rw [readRender_put h]
      rfl
  | floatList xs => exact hrow fixed_single (by decide) .floatList .floatList xs
  | intList xs => exact hrow fixed_i32 (by decide) .intList .intList xs
  | uintList xs => exact hrow fixed_u32 (by decide) .uintList .uintList xs
  | vector2List xs => exact hrow fixed_vec2 (by decide) .vector2List .vector2List xs
  | vector3List xs => exact hrow fixed_vec3 (by decide) .vector3List .vector3List xs
  | vector4List xs => exact hrow fixed_vec4 (by decide) .vector4List .vector4List xs

end Patchbay.Value
