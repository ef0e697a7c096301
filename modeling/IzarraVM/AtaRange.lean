import IzarraVM.Ata

/-! Runs of sectors: the bytes read from them, and an image with new bytes stored in them. -/
namespace IzarraVM.Ata

def rangeBytes (image : List Sector) (start n : ℕ) : List UInt8 :=
  ((image.drop start).take n).flatMap Sector.bytes

@[simp] theorem rangeBytes_zero (image : List Sector) (start : ℕ) :
    rangeBytes image start 0 = [] := by
  rw [rangeBytes, List.take_zero, List.flatMap_nil]

variable {image : List Sector}

theorem rangeBytes_succ {start n : ℕ} {sector : Sector}
    (h : image[start + n]? = some sector) :
    rangeBytes image start (n + 1) = rangeBytes image start n ++ sector.bytes := by
  have hget : (image.drop start)[n]? = some sector := by rw [List.getElem?_drop, h]
  rw [rangeBytes, rangeBytes, List.take_add_one, hget]
  simp

theorem rangeBytes_cons {start n : ℕ} {sector : Sector}
    (h : image[start]? = some sector) :
    rangeBytes image start (n + 1) = sector.bytes ++ rangeBytes image (start + 1) n := by
  obtain ⟨hlt, hget⟩ := List.getElem?_eq_some_iff.mp h
  rw [rangeBytes, rangeBytes, List.drop_eq_getElem_cons hlt, hget, List.take_succ_cons,
    List.flatMap_cons]

theorem length_rangeBytes {start : ℕ} (n : ℕ)
    (h : start + n ≤ image.length) : (rangeBytes image start n).length = 512 * n := by
  induction n with
  | zero => simp
  | succ n ih =>
    rw [rangeBytes_succ (List.getElem?_eq_getElem (by omega)), List.length_append, ih (by omega),
      Sector.full]
    omega

theorem rangeBytes_isPrefix {start : ℕ} {m n : ℕ} (h : m ≤ n) :
    rangeBytes image start m <+: rangeBytes image start n := by
  obtain ⟨k, rfl⟩ := Nat.exists_eq_add_of_le h
  rw [rangeBytes, rangeBytes, List.take_add, List.flatMap_append]
  exact List.prefix_append _ _

def stored (image : List Sector) (start : ℕ) (data : List UInt8) : ℕ → List Sector
  | 0 => image
  | n + 1 => (stored image start data n).set (start + n) (Sector.ofBytes (data.drop (512 * n)))

@[simp] theorem length_stored (image : List Sector) (start : ℕ) (data : List UInt8) (n : ℕ) :
    (stored image start data n).length = image.length := by
  induction n with
  | zero => rfl
  | succ n ih => rw [stored, List.length_set, ih]

theorem ofBytes_append {a b : List UInt8} (h : 512 ≤ a.length) :
    Sector.ofBytes (a ++ b) = Sector.ofBytes a := by
  apply Sector.ext
  show List.take 512 (a ++ b ++ List.replicate 512 0) = List.take 512 (a ++ List.replicate 512 0)
  rw [List.append_assoc, List.take_append_of_le_length h, List.take_append_of_le_length h]

/-- Bytes past the sectors stored so far do not show. -/
theorem stored_append (image : List Sector) (start : ℕ) {data : List UInt8} {n : ℕ}
    (h : 512 * n ≤ data.length) (more : List UInt8) :
    stored image start (data ++ more) n = stored image start data n := by
  induction n with
  | zero => rfl
  | succ n ih =>
    have hdrop : (data ++ more).drop (512 * n) = data.drop (512 * n) ++ more :=
      List.drop_append_of_le_length (by omega)
    rw [stored, stored, ih (by omega), hdrop, ofBytes_append]
    rw [List.length_drop]
    omega

/-- Stored from the front: the first sector, then the others over it. -/
theorem stored_cons (image : List Sector) (start : ℕ) (data : List UInt8) (n : ℕ) :
    stored image start data (n + 1) =
      stored (image.set start (Sector.ofBytes data)) (start + 1) (data.drop 512) n := by
  induction n with
  | zero => rfl
  | succ n ih =>
    have hdrop : data.drop (512 * (n + 1)) = (data.drop 512).drop (512 * n) := by
      rw [List.drop_drop]
      congr 1
      omega
    rw [stored, ih, stored, hdrop]
    congr 1
    omega

end IzarraVM.Ata
