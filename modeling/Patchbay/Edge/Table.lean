import Patchbay.Node.Type
/-!
Edges and the edge table.

An edge feeds one input of its consumer from one output of its producer.
The table holds edges in the order in which their inputs were first
connected, at most one edge per input; an edge that replaces another takes
its place.
-/

namespace Patchbay

/-- Where an input reads from: a producer, one of its outputs, and the input's own index. -/
structure Address where
  producer : NodeId
  output : UInt8
  input : UInt8
deriving DecidableEq, Inhabited, Repr

/-- An input of a node, by its index. -/
abbrev Slot := NodeId × UInt8

structure Edge where
  consumer : NodeId
  address : Address
deriving DecidableEq, Inhabited, Repr

namespace Edge

def producer (e : Edge) : NodeId := e.address.producer

/-- The input that the edge feeds. -/
def slot (e : Edge) : Slot := (e.consumer, e.address.input)

/-- Whether the edge starts or ends at a node. -/
def involves (e : Edge) (n : NodeId) : Bool := e.producer == n || e.consumer == n

end Edge

/-- The edges of a graph, at most one per input. -/
structure EdgeTable where
  edges : List Edge
  slots_nodup : (edges.map Edge.slot).Nodup
deriving DecidableEq

namespace EdgeTable

def empty : EdgeTable := ⟨[], by simp⟩

instance : Inhabited EdgeTable := ⟨empty⟩

def length (t : EdgeTable) : Nat := t.edges.length

/-- The edge that feeds an input. -/
def find? (t : EdgeTable) (s : Slot) : Option Edge := t.edges.find? (·.slot == s)

/-- Where an input reads from. -/
def get? (t : EdgeTable) (s : Slot) : Option Address := (t.find? s).map Edge.address

def contains (t : EdgeTable) (e : Edge) : Bool := t.edges.contains e

/-- Keeps the edges that satisfy a test. -/
def filter (t : EdgeTable) (p : Edge → Bool) : EdgeTable :=
  ⟨t.edges.filter p, t.slots_nodup.sublist (List.filter_sublist.map Edge.slot)⟩

/-- The edge `e` in place of another on its input. -/
def replaceIn (e x : Edge) : Edge := if x.slot = e.slot then e else x

theorem slot_replaceIn (e x : Edge) : (replaceIn e x).slot = x.slot := by
  unfold replaceIn
  split
  · next h => exact h.symm
  · rfl

/-- Adds an edge; it takes the place of the edge that fed its input before. -/
def insert (t : EdgeTable) (e : Edge) : EdgeTable :=
  if h : e.slot ∈ t.edges.map Edge.slot then
    ⟨t.edges.map (replaceIn e), by
      have : (t.edges.map (replaceIn e)).map Edge.slot = t.edges.map Edge.slot := by
        rw [List.map_map]
        exact List.map_congr_left fun x _ => slot_replaceIn e x
      rw [this]
      exact t.slots_nodup⟩
  else
    ⟨t.edges ++ [e], by
      rw [List.map_append, List.nodup_append]
      refine ⟨t.slots_nodup, by simp, ?_⟩
      intro a ha b hb hab
      simp only [List.map_cons, List.map_nil, List.mem_singleton] at hb
      exact h (hb ▸ hab ▸ ha)⟩

/-- Removes the edge that feeds an input. -/
def remove (t : EdgeTable) (s : Slot) : EdgeTable := t.filter (·.slot != s)

/-- The edges that arrive at a node. -/
def incoming (t : EdgeTable) (n : NodeId) : List Edge := t.edges.filter (·.consumer == n)

/-- The edges that leave a node. -/
def outgoing (t : EdgeTable) (n : NodeId) : List Edge := t.edges.filter (·.producer == n)

/-- The edges that arrive at a node from other nodes. -/
def arriving (t : EdgeTable) (n : NodeId) : List Edge :=
  (t.incoming n).filter fun e => !(e.producer == n)

/-- Removes every edge at a node. -/
def removeNode (t : EdgeTable) (n : NodeId) : EdgeTable := t.filter fun e => !e.involves n

end EdgeTable

end Patchbay
