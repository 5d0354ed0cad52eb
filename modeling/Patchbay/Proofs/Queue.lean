import Patchbay.Proofs.Buffers
import Patchbay.Proofs.Payloads
/-!
A buffer is a queue.

Writes and reads of one buffer may be mixed in any order, as long as each
read asks for the type of the oldest item that has not been read; where the
type does not tell the length, it asks for the length as well.  The
invariant is that the unread bytes are those of the items that have been
written and not read, one after the other (`Buffer.Holds`): a write adds the
bytes of its item at the end, and a read takes those of the oldest item from
the front, whatever follows them.
-/

namespace Patchbay.Bytes

/-! ## Forms -/

/-- Values in a row whose number is known from elsewhere. -/
def Wire.row {α : Type} (w : Wire α) (n : Nat) : Wire (List α) where
  put as := as.flatMap w.put
  get bs := w.getMany [] n bs

theorem Wire.Fixed.row {α : Type} {w : Wire α} {width n : Nat} (h : w.Fixed width) {as : List α}
    (hlength : as.length = n) : (w.row n).Exact as := by
  subst hlength
  exact Wire.getMany_flatMap (fun a _ => h.exact a) []

/-- The types of single values; an array has its length in its type. -/
inductive Form where
  | u8
  | u32
  | u64
  | i32
  | single
  | flag
  | text
  | optional
  | floats (n : Nat)
  | vector2
  | vector3
  | vector4
  | floatList
deriving DecidableEq

namespace Form

abbrev Carrier : Form → Type
  | u8 => UInt8
  | u32 => UInt32
  | u64 => UInt64
  | i32 => Int32
  | single => Single
  | flag => Bool
  | text => String
  | optional => Option UInt32
  | floats _ => List Single
  | vector2 => Vec2
  | vector3 => Vec3
  | vector4 => Vec4
  | floatList => List Single

def wire : (f : Form) → Wire f.Carrier
  | u8 => Wire.u8
  | u32 => Wire.u32
  | u64 => Wire.u64
  | i32 => Wire.i32
  | single => Wire.single
  | flag => Wire.flag
  | text => Wire.text
  | optional => Wire.optional Wire.u32
  | floats n => Wire.single.row n
  | vector2 => Value.vec2Wire
  | vector3 => Value.vec3Wire
  | vector4 => Value.vec4Wire
  | floatList => Wire.list Wire.single

/-- An array has the length of its type, and a length that is written fits its eight bytes, as that
of anything does that a memory holds. -/
def Fits : (f : Form) → f.Carrier → Prop
  | floats n, xs => xs.length = n
  | text, s => (Wire.text.put s).length < sizeLimit
  | floatList, xs => ((Wire.list Wire.single).put xs).length < sizeLimit
  | _, _ => True

theorem exact_of_fits {f : Form} {x : f.Carrier} (h : f.Fits x) : f.wire.Exact x := by
  cases f with
  | u8 => exact Wire.fixed_u8.exact x
  | u32 => exact Wire.fixed_u32.exact x
  | u64 => exact Wire.fixed_u64.exact x
  | i32 => exact Wire.fixed_i32.exact x
  | single => exact Wire.fixed_single.exact x
  | flag => exact Wire.fixed_flag.exact x
  | text => exact Wire.faithful_text x h
  | optional => exact Wire.fixed_u32.optional x
  | floats n => exact Wire.fixed_single.row h
  | vector2 => exact Value.fixed_vec2.exact x
  | vector3 => exact Value.fixed_vec3.exact x
  | vector4 => exact Value.fixed_vec4.exact x
  | floatList => exact Wire.fixed_single.list (by decide) x h

/-- Only an array without elements has no bytes. -/
theorem put_eq_nil_iff {f : Form} {x : f.Carrier} (h : f.Fits x) :
    f.wire.put x = [] ↔ f = floats 0 := by
  cases f with
  | u8 => exact iff_of_false (Wire.fixed_u8.put_ne_nil (by decide) x) nofun
  | u32 => exact iff_of_false (Wire.fixed_u32.put_ne_nil (by decide) x) nofun
  | u64 => exact iff_of_false (Wire.fixed_u64.put_ne_nil (by decide) x) nofun
  | i32 => exact iff_of_false (Wire.fixed_i32.put_ne_nil (by decide) x) nofun
  | single => exact iff_of_false (Wire.fixed_single.put_ne_nil (by decide) x) nofun
  | flag => exact iff_of_false (Wire.fixed_flag.put_ne_nil (by decide) x) nofun
  | text => exact iff_of_false (Wire.put_block_ne_nil _) nofun
  | optional =>
      cases x with
      | none => exact iff_of_false nofun nofun
      | some a => exact iff_of_false nofun nofun
  | floats n =>
      have hlength : ((floats n).wire.put x).length = n * 4 := by
        rw [← h]
        exact Wire.fixed_single.length_flatMap x
      rw [← List.length_eq_zero_iff, hlength, floats.injEq]
      omega
  | vector2 => exact iff_of_false (Value.fixed_vec2.put_ne_nil (by decide) x) nofun
  | vector3 => exact iff_of_false (Value.fixed_vec3.put_ne_nil (by decide) x) nofun
  | vector4 => exact iff_of_false (Value.fixed_vec4.put_ne_nil (by decide) x) nofun
  | floatList => exact iff_of_false nofun nofun

end Form

/-! ## Items -/

/-- What can be written: a value, bytes behind their number, and bytes as they are. -/
inductive Item where
  | value (f : Form) (x : f.Carrier)
  | block (bytes : List UInt8)
  | raw (bytes : List UInt8)

/-- What a read can ask for. -/
inductive Request where
  | value (f : Form)
  | block
  | raw (n : Nat)
deriving DecidableEq

namespace Request

def read : Request → Buffer.Reader Item
  | value f => Item.value f <$> Buffer.get f.wire
  | block => Item.block <$> Buffer.getBlock
  | raw n => Item.raw <$> Buffer.take n

/-- Nothing is asked for. -/
def IsVoid (r : Request) : Prop := r = value (.floats 0) ∨ r = raw 0

end Request

namespace Item

/-- The read that gives the item back. -/
def request : Item → Request
  | value f _ => .value f
  | block _ => .block
  | raw bytes => .raw bytes.length

def bytes : Item → List UInt8
  | value f x => f.wire.put x
  | block bytes => Wire.block.put bytes
  | raw bytes => bytes

def write : Item → Buffer → Buffer
  | value f x, b => b.add f.wire x
  | block bytes, b => b.addBlock bytes
  | raw bytes, b => b.putBytes bytes

/-- The length of a block fits its eight bytes. -/
def Fits : Item → Prop
  | value f x => f.Fits x
  | block bytes => bytes.length < sizeLimit
  | raw _ => True

theorem write_eq (i : Item) (b : Buffer) : i.write b = b.putBytes i.bytes := by
  cases i <;> rfl

theorem bytes_eq_nil_iff {i : Item} (h : i.Fits) : i.bytes = [] ↔ i.request.IsVoid := by
  cases i with
  | value f x => simp [Request.IsVoid, request, bytes, Form.put_eq_nil_iff h]
  | block bytes => simp [Request.IsVoid, request, Item.bytes, Wire.put_block_ne_nil]
  | raw bytes => simp [Request.IsVoid, request, Item.bytes]

end Item

/-! ## One write and one read -/

namespace Buffer

variable {b : Buffer} {i : Item} {queue : List Item}

theorem unread_write (b : Buffer) (i : Item) : (i.write b).unread = b.unread ++ i.bytes := by
  rw [i.write_eq, unread_putBytes]

theorem bytes_write (b : Buffer) (i : Item) : (i.write b).bytes = b.bytes ++ i.bytes := by
  rw [i.write_eq]
  rfl

theorem position_write (b : Buffer) (i : Item) : (i.write b).position = b.position := by
  rw [i.write_eq]
  rfl

/-- The right request finds the item at the front. -/
theorem read_request {rest : List UInt8} (h : i.Fits) (hb : b.unread = i.bytes ++ rest) :
    i.request.read b = .ok i (b.leaving rest.length) := by
  cases i with
  | value f x =>
      have hget := get_of_exact (Form.exact_of_fits h) hb
      simp only [Item.request, Request.read, Functor.map, EStateM.map, hget]
  | block bytes =>
      have hblock := getBlock_of_length h hb
      simp only [Item.request, Request.read, Functor.map, EStateM.map, hblock]
  | raw bytes =>
      have htake : take bytes.length b = .ok bytes (b.leaving rest.length) := take_of_length rfl hb
      simp only [Item.request, Request.read, Functor.map, EStateM.map, htake]

/-- The unread bytes are those of the items, one after the other. -/
def Holds (b : Buffer) (queue : List Item) : Prop := b.unread = queue.flatMap Item.bytes

theorem Holds.write (h : b.Holds queue) (i : Item) : (i.write b).Holds (queue ++ [i]) := by
  unfold Holds
  rw [unread_write, h, List.flatMap_append, List.flatMap_singleton]

theorem Holds.read (h : b.Holds (i :: queue)) (hi : i.Fits) :
    ∃ b', i.request.read b = .ok i b' ∧ b'.bytes = b.bytes ∧ b'.Holds queue := by
  unfold Holds at h
  rw [List.flatMap_cons] at h
  exact ⟨_, read_request hi h, rfl, unread_leaving h⟩

/-- Nothing is left to read when no item that is held has bytes. -/
theorem Holds.isExhausted_iff (h : b.Holds queue) (hfit : ∀ i ∈ queue, i.Fits) :
    b.isExhausted = true ↔ ∀ i ∈ queue, i.request.IsVoid := by
  have hempty : b.isExhausted = true ↔ b.unread = [] := by
    rw [← List.length_eq_zero_iff, length_unread]
    exact beq_iff_eq
  rw [hempty, h, List.flatMap_eq_nil_iff]
  exact forall₂_congr fun i hi => Item.bytes_eq_nil_iff (hfit i hi)

end Buffer

/-! ## Any mixture of writes and reads -/

inductive Call where
  | write (i : Item)
  | read (r : Request)

namespace Call

/-- Each read asks for the oldest item that has been written and has not been read, where those of
`queue` were there before. -/
def Matched : List Call → List Item → Prop
  | [], _ => True
  | write i :: calls, queue => Matched calls (queue ++ [i])
  | read _ :: _, [] => False
  | read r :: calls, i :: queue => r = i.request ∧ Matched calls queue

/-- The items that are written, in that order. -/
def written : List Call → List Item
  | [] => []
  | write i :: calls => i :: written calls
  | read _ :: calls => written calls

/-- How many reads there are. -/
def reads : List Call → Nat
  | [] => 0
  | write _ :: calls => reads calls
  | read _ :: calls => reads calls + 1

/-- Makes the calls one after the other and gives what was read, in that order. -/
def perform : List Call → Buffer.Reader (List Item)
  | [] => return []
  | write i :: calls => do
    modify i.write
    perform calls
  | read r :: calls => do
    let i ← r.read
    let items ← perform calls
    return i :: items

end Call

open Call

theorem Buffer.Holds.perform {b : Buffer} {calls : List Call} {queue : List Item}
    (h : b.Holds queue) (hmatched : Matched calls queue)
    (hfit : ∀ i ∈ queue ++ written calls, i.Fits) :
    reads calls ≤ (queue ++ written calls).length ∧
      ∃ b', perform calls b = .ok ((queue ++ written calls).take (reads calls)) b' ∧
        b'.bytes = b.bytes ++ (written calls).flatMap Item.bytes ∧
        b'.Holds ((queue ++ written calls).drop (reads calls)) := by
  fun_induction Matched calls queue generalizing b with
  | case1 queue =>
      refine ⟨Nat.zero_le _, b, rfl, (List.append_nil _).symm, ?_⟩
      rw [written, reads, List.append_nil]
      exact h
  | case2 i calls queue ih =>
      have hsplit : queue ++ i :: written calls = queue ++ [i] ++ written calls := by simp
      rw [written, hsplit] at hfit
      rw [written, reads, hsplit]
      obtain ⟨hreads, b', hperform, hbytes, hholds⟩ := ih (h.write i) hmatched hfit
      rw [bytes_write, List.append_assoc] at hbytes
      exact ⟨hreads, b', hperform, hbytes, hholds⟩
  | case3 r calls => exact hmatched.elim
  | case4 r calls i queue ih =>
      obtain ⟨rfl, hrest⟩ := hmatched
      obtain ⟨b₁, hread, hbytes₁, hholds₁⟩ := h.read (hfit i (by simp))
      obtain ⟨hreads, b', hperform, hbytes, hholds⟩ :=
        ih hholds₁ hrest fun j hj => hfit j (List.mem_cons_of_mem i hj)
      refine ⟨Nat.succ_le_succ hreads, b', ?_, hbytes₁ ▸ hbytes, hholds⟩
      simp only [Call.perform, Bind.bind, EStateM.bind, hread, hperform]
      rfl

/-- Whatever the mixture of writes and reads, as long as each read asks for the oldest item that has
not been read, all reads succeed and give the items that were written, in that order.  The unread
bytes are those of the other items, so nothing is left exactly when these are arrays without
elements and runs of no bytes, and a further write only adds its bytes at the end. -/
theorem reads_back_in_order {calls : List Call} (hmatched : Matched calls [])
    (hfit : ∀ i ∈ written calls, i.Fits) :
    reads calls ≤ (written calls).length ∧
      ∃ b, perform calls .empty = .ok ((written calls).take (reads calls)) b ∧
        b.bytes = (written calls).flatMap Item.bytes ∧
        b.unread = ((written calls).drop (reads calls)).flatMap Item.bytes ∧
        b.position = (((written calls).take (reads calls)).flatMap Item.bytes).length ∧
        b.position ≤ b.size ∧
        (b.isExhausted = true ↔ ∀ i ∈ (written calls).drop (reads calls), i.request.IsVoid) ∧
        ∀ i : Item, (i.write b).unread = b.unread ++ i.bytes ∧
          (i.write b).position = b.position := by
  have hempty : Buffer.empty.Holds [] := rfl
  obtain ⟨hreads, b, hperform, hbytes, hholds⟩ := hempty.perform hmatched hfit
  rw [List.nil_append] at hreads hperform hholds
  have hall : b.bytes = (written calls).flatMap Item.bytes := hbytes
  have hsplit : ((written calls).flatMap Item.bytes).length =
      (((written calls).take (reads calls)).flatMap Item.bytes).length + b.unread.length := by
    rw [hholds, ← List.length_append, ← List.flatMap_append, List.take_append_drop]
  have hposition : b.position = (((written calls).take (reads calls)).flatMap Item.bytes).length := by
    have hlength := b.position_add_unread
    rw [hall, hsplit] at hlength
    exact Nat.add_right_cancel hlength
  have hleft : b.isExhausted = true ↔ ∀ i ∈ (written calls).drop (reads calls), i.request.IsVoid :=
    hholds.isExhausted_iff fun i hi => hfit i (List.mem_of_mem_drop hi)
  exact ⟨hreads, b, hperform, hall, hholds, hposition, b.position_le, hleft,
    fun i => ⟨b.unread_write i, b.position_write i⟩⟩

/-- Items of several types, a not-a-number with a payload among them; what is left in the end is a
run of no bytes. -/
def mixture : List Call :=
  [.write (.value .text "añ"), .write (.raw [1, 2]), .read (.value .text),
    .write (.value .single ⟨0x7fc00001⟩), .read (.raw 2), .write (.block [3]),
    .write (.value (.floats 2) [⟨0⟩, ⟨0x80000000⟩]), .read (.value .single), .read .block,
    .write (.value .optional (some 7)), .read (.value (.floats 2)), .write (.raw []),
    .read (.value .optional)]

theorem reads_back_in_order_of_mixture :
    Matched mixture [] ∧ (∀ i ∈ written mixture, i.Fits) ∧
      ∃ b, perform mixture .empty =
          .ok [.value .text "añ", .raw [1, 2], .value .single ⟨0x7fc00001⟩, .block [3],
            .value (.floats 2) [⟨0⟩, ⟨0x80000000⟩], .value .optional (some 7)] b ∧
        b.isExhausted = true := by
  have hmatched : Matched mixture [] :=
    ⟨rfl, rfl, rfl, rfl, rfl, rfl, trivial⟩
  have htext : (Wire.text.put "añ").length < sizeLimit := by decide +kernel
  have hblock : [(3 : UInt8)].length < sizeLimit := by decide +kernel
  have hfit : ∀ i ∈ written mixture, i.Fits := by
    simp only [mixture, written, List.forall_mem_cons]
    exact ⟨htext, trivial, trivial, hblock, rfl, trivial, trivial, nofun⟩
  obtain ⟨_, b, hperform, _, _, _, _, hexhausted, _⟩ := reads_back_in_order hmatched hfit
  refine ⟨hmatched, hfit, b, hperform, hexhausted.mpr fun i hi => ?_⟩
  have hleft : i ∈ [Item.raw []] := hi
  rw [List.mem_singleton.mp hleft]
  exact .inr rfl

end Patchbay.Bytes
