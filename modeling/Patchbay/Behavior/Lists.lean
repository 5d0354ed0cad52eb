import Patchbay.Frame.Plan
import Patchbay.Node.Error
import Patchbay.Scene.Reading
/-!
Taking lists apart and putting them together.

A selector publishes one element of a list, at an index that is moved into
the list.  A joiner publishes two lists of one kind as one; a lone list is
the result, and without lists the output is empty.  A joiner computes only
when a list or the wiring has changed.
-/

namespace Patchbay

open Bytes

/-! ## Elements and concatenation -/

/-- The element of a list at an index. -/
def Value.element? (v : Value) (i : Nat) : Option Value :=
  match v with
  | .floatList xs => xs[i]?.map .float
  | .intList xs => xs[i]?.map .int
  | .uintList xs => xs[i]?.map .uint
  | .vector2List vs => vs[i]?.map .vector2
  | .vector3List vs => vs[i]?.map .vector3
  | .vector4List vs => vs[i]?.map .vector4
  | _ => none

/-- Two lists of one kind as one. -/
def Value.append? : Value → Value → Option Value
  | .floatList xs, .floatList ys => some (.floatList (xs ++ ys))
  | .intList xs, .intList ys => some (.intList (xs ++ ys))
  | .uintList xs, .uintList ys => some (.uintList (xs ++ ys))
  | .vector2List vs, .vector2List ws => some (.vector2List (vs ++ ws))
  | .vector3List vs, .vector3List ws => some (.vector3List (vs ++ ws))
  | .vector4List vs, .vector4List ws => some (.vector4List (vs ++ ws))
  | _, _ => none

/-! ## Selectors -/

/-- A node that publishes one element; `index` counts while the input supplies none. -/
structure Selector where
  index : Int32
  error : Option NodeError
deriving DecidableEq

namespace Selector

def initial : Selector := ⟨0, none⟩

instance : Inhabited Selector := ⟨initial⟩

def setIndex (s : Selector) (i : Int32) : Selector := { s with index := i }

def gates : List Gate := [⟨"index", .ofList [.uint, .int]⟩, ⟨"list", .lists⟩]

/-- The index asked for, which may lie outside the list. -/
def requested (s : Selector) (r : Readings) : Int :=
  match r.value? "index" with
  | some (.int i) => i.toInt
  | some (.uint i) => i.toNat
  | _ => s.index.toInt

/-- The place in a list of `length` elements that is nearest to an index. -/
def nearest (index : Int) (length : Nat) : Nat := min index.toNat (length - 1)

def missing (s : Selector) : Selector × List Post :=
  ({ s with error := some (.missingInput "list") }, [])

def finish (s : Selector) (r : Readings) : Selector × List Post :=
  match r.value? "list" with
  | none => s.missing
  | some list =>
    match list.listLength?.getD 0 with
    | 0 => s.missing
    | length + 1 =>
      match list.element? (nearest (s.requested r) (length + 1)) with
      | some v => ({ s with error := none }, [.publish 0 v])
      | none => (s, [])

def plan (s : Selector) : Plan Selector := ⟨none, gates, s.finish⟩

def rows (s : Selector) (d : Directory) : List Row :=
  let connected := (d.inputNamed? "index").any InputPort.isConnected
  (if connected then [] else [⟨"index", Value.intText s.index⟩]) ++
    (d.firstValue?.map fun v => ⟨"element", v.text⟩).toList

def put (s : Selector) : List UInt8 := Wire.i32.put s.index

def get : BlockReader Selector := do
  return { initial with index := ← BlockReader.field Wire.i32 }

end Selector

/-! ## Joiners -/

/-- A node that joins two lists; `refresh` tells that the wiring has changed. -/
structure Joiner where
  refresh : Bool
  error : Option NodeError
deriving DecidableEq

namespace Joiner

def initial : Joiner := ⟨false, none⟩

instance : Inhabited Joiner := ⟨initial⟩

def firstInput : String := "List A"

def secondInput : String := "List B"

def gates : List Gate := [⟨firstInput, .lists⟩, ⟨secondInput, .lists⟩]

/-- The list made of those that are there. -/
def join : Option Value → Option Value → Except NodeError Value
  | some a, some b =>
    match a.append? b with
    | some v => .ok v
    | none => .error (.typeMismatch secondInput (KindSet.single a.kind) b.kind)
  | some a, none => .ok a
  | none, some b => .ok b
  | none, none => .ok .empty

/-- Whether there is something to compute. -/
def isDue (j : Joiner) (r : Readings) : Bool :=
  r.changed firstInput || r.changed secondInput || j.refresh || r.refused firstInput ||
    r.refused secondInput

def finish (j : Joiner) (r : Readings) : Joiner × List Post :=
  if j.isDue r then
    match join (r.value? firstInput) (r.value? secondInput) with
    | .ok v => (⟨false, none⟩, [.publish 0 v])
    | .error e => (⟨false, some e⟩, [])
  else (j, [])

def plan (j : Joiner) : Plan Joiner := ⟨none, gates, j.finish⟩

def rewired (j : Joiner) : Joiner := { j with refresh := true }

def rows (d : Directory) : List Row :=
  (d.firstValue?.map fun v => ⟨"length", toString (v.listLength?.getD 0)⟩).toList

end Joiner

end Patchbay
