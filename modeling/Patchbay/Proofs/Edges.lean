import Patchbay.Edge.Table
/-!
Which edges a table holds.

A table is a list, but wiring only asks which edges are in it; each
operation is described by that.  The slots are free of duplicates, so a
look-up by slot finds an edge exactly when the edge is in the list.
-/

namespace Patchbay.EdgeTable

variable {t : EdgeTable}

/-- Edges of a list without two on one input are the same when they feed the same input. -/
theorem eq_of_slot_of_nodup {edges : List Edge} (hd : (edges.map Edge.slot).Nodup) {e x : Edge}
    (he : e ∈ edges) (hx : x ∈ edges) (h : e.slot = x.slot) : e = x := by
  induction edges with
  | nil => exact absurd he (by simp)
  | cons y edges ih =>
      rw [List.map_cons, List.nodup_cons] at hd
      rcases List.mem_cons.mp he with rfl | he'
      · rcases List.mem_cons.mp hx with rfl | hx'
        · rfl
        · exact absurd (h ▸ List.mem_map_of_mem hx') hd.1
      · rcases List.mem_cons.mp hx with rfl | hx'
        · exact absurd (h ▸ List.mem_map_of_mem he') hd.1
        · exact ih hd.2 he' hx'

theorem eq_of_slot {e x : Edge} (he : e ∈ t.edges) (hx : x ∈ t.edges) (h : e.slot = x.slot) :
    e = x :=
  eq_of_slot_of_nodup t.slots_nodup he hx h

/-- The table maps an input to an address when the edge of the two is in it. -/
theorem get?_eq_some {c : NodeId} {i : UInt8} {a : Address} :
    t.get? (c, i) = some a ↔ (⟨c, a⟩ : Edge) ∈ t.edges ∧ a.input = i := by
  simp only [get?, find?, Option.map_eq_some_iff]
  constructor
  · rintro ⟨e, he, rfl⟩
    have hslot : e.slot = (c, i) := by simpa using List.find?_some he
    obtain ⟨rfl, rfl⟩ := Prod.mk.inj hslot
    exact ⟨List.mem_of_find?_eq_some he, rfl⟩
  · rintro ⟨hmem, rfl⟩
    cases hf : t.edges.find? (·.slot == (c, a.input)) with
    | none =>
        have hne := List.find?_eq_none.mp hf _ hmem
        simp [Edge.slot] at hne
    | some e =>
        have hslot : e.slot = (c, a.input) := by simpa using List.find?_some hf
        exact ⟨e, rfl, by rw [eq_of_slot (List.mem_of_find?_eq_some hf) hmem hslot]⟩

theorem mem_filter {p : Edge → Bool} {e : Edge} :
    e ∈ (t.filter p).edges ↔ e ∈ t.edges ∧ p e = true :=
  List.mem_filter

theorem mem_remove {s : Slot} {e : Edge} :
    e ∈ (t.remove s).edges ↔ e ∈ t.edges ∧ e.slot ≠ s := by
  simp [remove, mem_filter]

theorem mem_removeNode {n : NodeId} {e : Edge} :
    e ∈ (t.removeNode n).edges ↔ e ∈ t.edges ∧ e.producer ≠ n ∧ e.consumer ≠ n := by
  simp [removeNode, mem_filter, Edge.involves]

theorem mem_outgoing {n : NodeId} {e : Edge} :
    e ∈ t.outgoing n ↔ e ∈ t.edges ∧ e.producer = n := by
  simp [outgoing]

/-- An edge that is added replaces the one on its input and leaves all others. -/
theorem mem_insert {e x : Edge} :
    x ∈ (t.insert e).edges ↔ x = e ∨ x ∈ t.edges ∧ x.slot ≠ e.slot := by
  unfold insert
  split
  · next h =>
      obtain ⟨y, hy, hye⟩ := List.mem_map.mp h
      simp only [List.mem_map]
      constructor
      · rintro ⟨z, hz, rfl⟩
        by_cases hs : z.slot = e.slot
        · simp [replaceIn, hs]
        · simp [replaceIn, hs, hz]
      · rintro (rfl | ⟨hx, hs⟩)
        · exact ⟨y, hy, by simp [replaceIn, hye]⟩
        · exact ⟨x, hx, by simp [replaceIn, hs]⟩
  · next h =>
      simp only [List.mem_append, List.mem_singleton]
      constructor
      · rintro (hx | rfl)
        · exact Or.inr ⟨hx, fun hs => h (hs ▸ List.mem_map_of_mem hx)⟩
        · exact Or.inl rfl
      · rintro (rfl | ⟨hx, _⟩)
        · exact Or.inr rfl
        · exact Or.inl hx

end Patchbay.EdgeTable
