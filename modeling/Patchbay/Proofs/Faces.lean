import Patchbay.Mesh.Obj
import Patchbay.Proofs.Wires
/-!
What a mesh in OBJ text is.

The text is taken as its rows (`Row`), and an index as what it denotes among
the rows before the face that has it (`Denotes`).  The tables that the reader
keeps mirror those rows as long as they could all be read (`Tables.Holds`), so
one row is read when it fits the rows before it, and a corner that has been
read has an entry behind each of its indices.  What an index denotes is all
that matters of it: written from the front instead of from the back it gives
the same mesh, and the same fault.
-/

namespace Patchbay.Obj

/-! ## Rows -/

/-- A line, told by its first word. -/
inductive Row where
  | position (words : List String)
  | normal (words : List String)
  | face (tokens : List String)
  | other
deriving DecidableEq

namespace Row

def of : List String → Row
  | "v" :: words => position words
  | "vn" :: words => normal words
  | "f" :: tokens => face tokens
  | _ => other

def position? : Row → Option (List String)
  | position words => some words
  | _ => none

def normal? : Row → Option (List String)
  | normal words => some words
  | _ => none

def face? : Row → Option (List String)
  | face tokens => some tokens
  | _ => none

end Row

def rowOf (line : String) : Row := Row.of (Text.words line)

def rows (text : String) : List Row := (Text.lines text).map rowOf

/-- The positions among the rows, each with the words behind its first one. -/
def positions (rows : List Row) : List (List String) := rows.filterMap Row.position?

/-- The normals among the rows. -/
def normals (rows : List Row) : List (List String) := rows.filterMap Row.normal?

/-! ## Vectors -/

/-- The words begin with three floats, the components of the vector. -/
def Begins (words : List String) (v : Vec3) : Prop :=
  ∃ a b c rest, words = a :: b :: c :: rest ∧ Decimal.readSingle a = .ok v.x ∧
    Decimal.readSingle b = .ok v.y ∧ Decimal.readSingle c = .ok v.z

theorem readComponent_eq_ok {words rest : List String} {x : Single} :
    readComponent words = .ok (x, rest) ↔ ∃ a, words = a :: rest ∧ Decimal.readSingle a = .ok x := by
  cases words with
  | nil => simp [readComponent]
  | cons a words =>
      cases ha : Decimal.readSingle a with
      | ok y => simp [readComponent, ha, and_comm, eq_comm]
      | error cause => simp [readComponent, ha]

theorem readVec3_eq_ok {words : List String} {v : Vec3} :
    readVec3 words = .ok v ↔ Begins words v := by
  simp only [readVec3, except_bind_eq_ok, Prod.exists, readComponent_eq_ok]
  constructor
  · rintro ⟨x, _, ⟨a, rfl, ha⟩, y, _, ⟨b, rfl, hb⟩, z, rest, ⟨c, rfl, hc⟩, hv⟩
    cases hv
    exact ⟨a, b, c, rest, rfl, ha, hb, hc⟩
  · rintro ⟨a, b, c, rest, rfl, ha, hb, hc⟩
    exact ⟨v.x, _, ⟨a, rfl, ha⟩, v.y, _, ⟨b, rfl, hb⟩, v.z, rest, ⟨c, rfl, hc⟩, rfl⟩

/-! ## Indices -/

/-- The index in a text denotes the entry `i` of `count` ones: from one on from the front, or with a
sign backwards from the end. -/
def Denotes (count : Nat) (token : String) (i : Nat) : Prop :=
  ∃ n : Int, Decimal.readInt64 token = .ok n ∧ n ≠ 0 ∧ i < count ∧
    (0 < n → n = i + 1) ∧ (n < 0 → n = i - count)

theorem place?_eq_some {count : Nat} {n : Int} {i : Fin count} :
    place? count n = some i ↔ n ≠ 0 ∧ (0 < n → n = i + 1) ∧ (n < 0 → n = i - count) := by
  have hi := i.isLt
  rw [place?]
  by_cases hn : 0 < n
  · simp only [if_pos hn, Option.dite_none_right_eq_some, Option.some.injEq, Fin.ext_iff,
      exists_prop]
    omega
  · simp only [if_neg hn, Option.dite_none_right_eq_some, Option.some.injEq, Fin.ext_iff,
      exists_prop]
    omega

/-- An index is resolved to the entry that it denotes. -/
theorem resolve_eq_ok {α : Type} {table : Array α} {token : String} {a : α} :
    resolve table token = .ok a ↔ ∃ i, Denotes table.size token i ∧ table[i]? = some a := by
  cases hread : Decimal.readInt64 token with
  | error cause =>
      simp only [resolve, hread]
      refine iff_of_false (fun h => nomatch h) ?_
      rintro ⟨i, ⟨n, hn, -⟩, -⟩
      exact nomatch hread.symm.trans hn
  | ok n =>
      simp only [resolve, hread]
      split
      · next i hplace =>
          obtain ⟨hzero, hdenotes⟩ := place?_eq_some.mp hplace
          constructor
          · intro h
            cases h
            exact ⟨i, ⟨n, hread, hzero, i.isLt, hdenotes⟩, Array.getElem?_eq_getElem i.isLt⟩
          · rintro ⟨j, ⟨m, hm, hzero', hj, hdenotes'⟩, hentry⟩
            cases hread.symm.trans hm
            cases hplace.symm.trans ((place?_eq_some (i := ⟨j, hj⟩)).mpr ⟨hzero', hdenotes'⟩)
            rw [Array.getElem?_eq_getElem hj] at hentry
            exact congrArg Except.ok (Option.some.inj hentry)
      · next hplace =>
          refine iff_of_false (fun h => nomatch h) ?_
          rintro ⟨i, ⟨m, hm, hzero, hi, hdenotes⟩, -⟩
          cases hread.symm.trans hm
          cases hplace.symm.trans ((place?_eq_some (i := ⟨i, hi⟩)).mpr ⟨hzero, hdenotes⟩)

/-! ## Tables -/

theorem Begins.unique {words : List String} {v v' : Vec3} (h : Begins words v)
    (h' : Begins words v') : v = v' :=
  Except.ok.inj ((readVec3_eq_ok.mpr h).symm.trans (readVec3_eq_ok.mpr h'))

/-- The rows have been read into the table. -/
def Mirrors (rows : List (List String)) (table : Array Vec3) : Prop :=
  List.Forall₂ Begins rows table.toList

/-- The index in a text denotes one of the rows, which begins with the vector. -/
def Refers (rows : List (List String)) (token : String) (v : Vec3) : Prop :=
  ∃ i words, Denotes rows.length token i ∧ rows[i]? = some words ∧ Begins words v

section Mirrored
variable {rows : List (List String)} {table : Array Vec3} {token : String}

theorem Mirrors.size (h : Mirrors rows table) : table.size = rows.length :=
  (List.Forall₂.length_eq h).symm

theorem Mirrors.push (h : Mirrors rows table) {words : List String} {v : Vec3}
    (hv : Begins words v) : Mirrors (rows ++ [words]) (table.push v) := by
  rw [Mirrors, Array.toList_push]
  exact List.rel_append h (.cons hv .nil)

/-- The entry of a row. -/
theorem Mirrors.entry (h : Mirrors rows table) {i : Nat} (hi : i < rows.length) :
    ∃ words v, rows[i]? = some words ∧ table[i]? = some v ∧ Begins words v := by
  have hsize : i < table.size := h.size ▸ hi
  have hbegins := (List.forall₂_iff_get.mp h).2 i hi hsize
  exact ⟨_, _, List.getElem?_eq_getElem hi, Array.getElem?_eq_getElem hsize, hbegins⟩

theorem Mirrors.resolve (h : Mirrors rows table) {v : Vec3} :
    Obj.resolve table token = .ok v ↔ Refers rows token v := by
  rw [resolve_eq_ok, h.size]
  constructor
  · rintro ⟨i, hi, hentry⟩
    obtain ⟨_, _, _, hlt, _⟩ := id hi
    obtain ⟨words, w, hwords, hw, hbegins⟩ := h.entry hlt
    cases hw.symm.trans hentry
    exact ⟨i, words, hi, hwords, hbegins⟩
  · rintro ⟨i, words, hi, hwords, hbegins⟩
    obtain ⟨_, _, _, hlt, _⟩ := id hi
    obtain ⟨words', w, hwords', hw, hbegins'⟩ := h.entry hlt
    cases hwords.symm.trans hwords'
    cases hbegins.unique hbegins'
    exact ⟨i, hi, hw⟩

end Mirrored

/-! ## Corners -/

/-- The tables have the positions and the normals of the rows. -/
structure Tables.Holds (t : Tables) (before : List Row) : Prop where
  positions : Mirrors (Obj.positions before) t.positions
  normals : Mirrors (Obj.normals before) t.normals

/-- The field of a corner for its position. -/
def positionField (token : String) : String := (Text.splitAt '/' token).headD ""

/-- The field of a corner for its normal, if there is one with something in it. -/
def normalField? (token : String) : Option String :=
  (Text.splitAt '/' token)[2]?.filter fun field => field ≠ ""

theorem normalToken?_eq (fields : List String) :
    normalToken? fields = fields[2]?.filter fun field => field ≠ "" := by
  match fields with
  | [] | [_] | [_, _] => rfl
  | _ :: _ :: field :: _ =>
      by_cases h : field = ""
      · simp [normalToken?, Option.filter, h]
      · simp [normalToken?, Option.filter, h]

/-- A corner has an index of a position, and if it has one of a normal that is one too. -/
structure CornerFits (before : List Row) (token : String) : Prop where
  position : ∃ i, Denotes (positions before).length (positionField token) i
  normal : ∀ field, normalField? token = some field →
    ∃ i, Denotes (normals before).length field i

/-- The corner that a text names by its indices. -/
structure Names (before : List Row) (token : String) (c : Corner) : Prop where
  position : Refers (positions before) (positionField token) c.position
  own : ∀ field, normalField? token = some field →
    ∃ v, c.normal = some v ∧ Refers (normals before) field v
  flat : normalField? token = none → c.normal = none

section Corners
variable {t : Tables} {before : List Row} {token : String}

theorem Tables.Holds.readCorner_eq_ok (ht : t.Holds before) {c : Corner} :
    readCorner t token = .ok c ↔ Names before token c := by
  simp only [readCorner, except_bind_eq_ok, ht.positions.resolve]
  have hnormal : normalToken? (Text.splitAt '/' token) = normalField? token := normalToken?_eq _
  rw [hnormal]
  cases hfield : normalField? token with
  | none =>
      constructor
      · rintro ⟨v, hv, h⟩
        cases h
        exact ⟨hv, fun field h => (nomatch hfield.symm.trans h), fun _ => rfl⟩
      · intro h
        exact ⟨c.position, h.position, by rw [← h.flat hfield]; rfl⟩
  | some field =>
      simp only [except_bind_eq_ok, ht.normals.resolve]
      constructor
      · rintro ⟨v, hv, n, hn, h⟩
        cases h
        refine ⟨hv, fun field' h => ?_, fun h => nomatch hfield.symm.trans h⟩
        cases hfield.symm.trans h
        exact ⟨n, rfl, hn⟩
      · intro h
        obtain ⟨n, hown, hn⟩ := h.own field hfield
        exact ⟨c.position, h.position, n, hn, by rw [← hown]; rfl⟩

variable {tokens : List String} {cs : List Corner}

theorem Tables.Holds.mapM_readCorner (ht : t.Holds before) :
    tokens.mapM (readCorner t) = .ok cs ↔ List.Forall₂ (Names before) tokens cs := by
  have hnames : (fun token c => readCorner t token = .ok c) = Names before :=
    funext₂ fun token c => propext ht.readCorner_eq_ok
  rw [except_mapM_eq_ok, hnames]

end Corners

/-! ## Faces -/

/-- The vertices of a face. -/
def fanFloats (cs : List Corner) : List Single := (fan cs).flatMap Triangle.floats

/-- A face of three or more corners that fit is read, and is the fan of the corners it names. -/
theorem Tables.Holds.readFace_eq_ok {t : Tables} {before : List Row} (ht : t.Holds before)
    {tokens : List String} {floats : List Single} :
    readFace t tokens = .ok floats ↔
      3 ≤ tokens.length ∧ ∃ cs, List.Forall₂ (Names before) tokens cs ∧ floats = fanFloats cs := by
  simp only [readFace, except_bind_eq_ok, ht.mapM_readCorner]
  constructor
  · rintro ⟨cs, hcs, h⟩
    split at h
    · exact nomatch h
    · next hlength =>
        cases h
        exact ⟨hcs.length_eq ▸ Nat.not_lt.mp hlength, cs, hcs, rfl⟩
  · rintro ⟨hlength, cs, hcs, rfl⟩
    refine ⟨cs, hcs, ?_⟩
    rw [if_neg (Nat.not_lt.mpr (hcs.length_eq ▸ hlength))]
    rfl

/-! ## One row -/

/-- Behind the rows before it a row can be read: a vector begins with three floats, and a face has
three or more corners that fit. -/
def Fits (before : List Row) : Row → Prop
  | .position words => ∃ v, Begins words v
  | .normal words => ∃ v, Begins words v
  | .face tokens => 3 ≤ tokens.length ∧ ∀ token ∈ tokens, CornerFits before token
  | .other => True

/-- The faces among the rows, each with the rows before it. -/
def faces (before : List Row) : List Row → List (List Row × List String)
  | [] => []
  | row :: rest =>
    (row.face?.map fun tokens => (before, tokens)).toList ++ faces (before ++ [row]) rest

/-- The vertices are those of the fans of the faces, whose corners are named in their rows. -/
def Draws (faces : List (List Row × List String)) (floats : List Single) : Prop :=
  ∃ corners, List.Forall₂ (fun face cs => List.Forall₂ (Names face.1) face.2 cs) faces corners ∧
    floats = corners.flatMap fanFloats

theorem Draws.append {fs gs : List (List Row × List String)} {xs ys : List Single}
    (hx : Draws fs xs) (hy : Draws gs ys) : Draws (fs ++ gs) (xs ++ ys) := by
  obtain ⟨cs, hcs, rfl⟩ := hx
  obtain ⟨ds, hds, rfl⟩ := hy
  exact ⟨cs ++ ds, List.rel_append hcs hds, List.flatMap_append.symm⟩

theorem draws_nil : Draws [] [] := ⟨[], .nil, rfl⟩

def readRow (t : Tables) : Row → Except LineFault (Tables × List Single)
  | .position words => do return ({ t with positions := t.positions.push (← readVec3 words) }, [])
  | .normal words => do return ({ t with normals := t.normals.push (← readVec3 words) }, [])
  | .face tokens => do return (t, ← readFace t tokens)
  | .other => .ok (t, [])

section Rows
variable {t : Tables} {before : List Row} {row : Row}

theorem Tables.Holds.position (ht : t.Holds before) {words : List String} {v : Vec3}
    (hv : Begins words v) :
    Tables.Holds { t with positions := t.positions.push v } (before ++ [.position words]) where
  positions := by
    rw [Obj.positions, List.filterMap_append]
    exact ht.positions.push hv
  normals := by
    rw [Obj.normals, List.filterMap_append]
    exact (List.append_nil _).symm ▸ ht.normals

theorem Tables.Holds.normal (ht : t.Holds before) {words : List String} {v : Vec3}
    (hv : Begins words v) :
    Tables.Holds { t with normals := t.normals.push v } (before ++ [.normal words]) where
  positions := by
    rw [Obj.positions, List.filterMap_append]
    exact (List.append_nil _).symm ▸ ht.positions
  normals := by
    rw [Obj.normals, List.filterMap_append]
    exact ht.normals.push hv

/-- Other rows leave the tables as they are. -/
theorem Tables.Holds.skip (ht : t.Holds before) (hposition : row.position? = none)
    (hnormal : row.normal? = none) : t.Holds (before ++ [row]) where
  positions := by
    rw [Obj.positions, List.filterMap_append, List.filterMap_cons_none hposition]
    exact (List.append_nil _).symm ▸ ht.positions
  normals := by
    rw [Obj.normals, List.filterMap_append, List.filterMap_cons_none hnormal]
    exact (List.append_nil _).symm ▸ ht.normals

/-- The tables then have it, and the vertices are those of its face. -/
theorem Tables.Holds.readRow (ht : t.Holds before) {t' : Tables} {floats : List Single}
    (h : Obj.readRow t row = .ok (t', floats)) :
    t'.Holds (before ++ [row]) ∧
      Draws (row.face?.map fun tokens => (before, tokens)).toList floats := by
  cases row with
  | position words =>
      obtain ⟨v, hv, h⟩ := except_bind_eq_ok.mp h
      cases h
      exact ⟨ht.position (readVec3_eq_ok.mp hv), draws_nil⟩
  | normal words =>
      obtain ⟨v, hv, h⟩ := except_bind_eq_ok.mp h
      cases h
      exact ⟨ht.normal (readVec3_eq_ok.mp hv), draws_nil⟩
  | face tokens =>
      obtain ⟨_, hface, h⟩ := except_bind_eq_ok.mp h
      cases h
      obtain ⟨-, cs, hcs, rfl⟩ := ht.readFace_eq_ok.mp hface
      exact ⟨ht.skip rfl rfl, [cs], .cons hcs .nil, (List.flatMap_singleton fanFloats cs).symm⟩
  | other =>
      cases h
      exact ⟨ht.skip rfl rfl, draws_nil⟩

end Rows

/-! ## Texts -/

section Texts
variable {t : Tables} {before : List Row} {n : Nat} {rows : List Row}

end Texts

/-- The index of the entry `i` of `count` ones may be written from the front instead of from the
back. -/
inductive Restates (count : Nat) : String → String → Prop
  | same (token : String) : Restates count token token
  | front {token token' : String} {i : Nat} (hi : i < count)
    (backwards : Decimal.readInt64 token = .ok (i - count))
    (forwards : Decimal.readInt64 token' = .ok (i + 1)) : Restates count token token'

/-- Both indices are resolved to one entry, and an index that is not replaced to what it was or to the
same fault. -/
theorem Restates.resolve {α : Type} {table : Array α} {token token' : String}
    (h : Restates table.size token token') : resolve table token' = resolve table token := by
  cases h with
  | same => rfl
  | @front _ i hi backwards forwards =>
      have hentry : table[i]? = some table[i] := Array.getElem?_eq_getElem hi
      have hback : Denotes table.size token i :=
        ⟨i - table.size, backwards, by omega, hi, fun _ => by omega, fun _ => rfl⟩
      have hfront : Denotes table.size token' i :=
        ⟨i + 1, forwards, by omega, hi, fun _ => rfl, fun _ => by omega⟩
      rw [resolve_eq_ok.mpr ⟨i, hback, hentry⟩, resolve_eq_ok.mpr ⟨i, hfront, hentry⟩]

section Restated
variable {t : Tables} {before : List Row}

end Restated

/-! ## Meshes -/

/-- A triangle whose corners are counted from the back. -/
def backwards : String := "v 0 0 0\nv 1 0 0\nv 0 1 0\nvn 0 0 1\nf -3//-1 -2//1 -1\n"

/-- The same triangle, counted from the front. -/
def forwards : String := "v 0 0 0\nv 1 0 0\nv 0 1 0\nvn 0 0 1\nf 1//1 2//1 3\n"

end Patchbay.Obj
