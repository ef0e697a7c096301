import IzarraVM.LittleEndian

/-! The fixed-width fields of a canonical payload (`CanonicalFieldWriter`). -/
namespace IzarraVM.Canonical

def writeU8 (value : UInt8) : List UInt8 := [value]

def writeBool (value : Bool) : List UInt8 := writeU8 value.toUInt8

def writeU16 (value : UInt16) : List UInt8 := leBytes 2 value.toNat

def writeU32 (value : UInt32) : List UInt8 := leBytes 4 value.toNat

@[simp] theorem writeU8_inj {v w : UInt8} : writeU8 v = writeU8 w ↔ v = w := List.singleton_inj

@[simp] theorem writeBool_inj {v w : Bool} : writeBool v = writeBool w ↔ v = w := by
  rw [writeBool, writeBool, writeU8_inj]
  revert v w
  decide

theorem leBytes_inj {k x y : ℕ} (hx : x < 256 ^ k) (hy : y < 256 ^ k) :
    leBytes k x = leBytes k y ↔ x = y := by
  constructor
  · intro h
    have hnat := congrArg leNat h
    rwa [leNat_leBytes, leNat_leBytes, Nat.mod_eq_of_lt hx, Nat.mod_eq_of_lt hy] at hnat
  · exact congrArg (leBytes k)

@[simp] theorem writeU16_inj {v w : UInt16} : writeU16 v = writeU16 w ↔ v = w := by
  rw [writeU16, writeU16, leBytes_inj v.toNat_lt w.toNat_lt, UInt16.toNat_inj]

@[simp] theorem writeU32_inj {v w : UInt32} : writeU32 v = writeU32 w ↔ v = w := by
  rw [writeU32, writeU32, leBytes_inj v.toNat_lt w.toNat_lt, UInt32.toNat_inj]

/-- Payloads of records of one layout are equal only record by record and field by field. -/
theorem records_eq_of_payload {α : Type} {fields : α → List (List UInt8)} {widths : List ℕ}
    (hwidths : ∀ a, (fields a).map List.length = widths) {l l' : List α} (hlength : l.length = l'.length)
    (h : (l.flatMap fields).flatten = (l'.flatMap fields).flatten) : l.map fields = l'.map fields := by
  have hall (m : List α) : (m.flatMap fields).map List.length = (List.replicate m.length widths).flatten := by
    rw [List.map_flatMap, ← List.map_const', ← List.flatMap_def]
    exact congrArg (m.flatMap ·) (funext hwidths)
  have hsize (m : List α) : (m.map fields).map List.length = List.replicate m.length widths.length := by
    rw [List.map_map, ← List.map_const']
    refine List.map_congr_left fun a _ => ?_
    rw [Function.comp_apply, ← hwidths a, List.length_map]
  have hfields := List.eq_iff_flatten_eq.mpr ⟨h, by rw [hall, hall, hlength]⟩
  rw [List.flatMap_def, List.flatMap_def] at hfields
  exact List.eq_iff_flatten_eq.mpr ⟨hfields, by rw [hsize, hsize, hlength]⟩

end IzarraVM.Canonical
