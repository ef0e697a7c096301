import IzarraVM.AtaAgree

/-! The address that a CHS transfer leaves in the task file, under the geometry the host chose. -/
namespace IzarraVM.Ata

namespace TaskFile

variable {t : TaskFile} (hchs : t.lbaMode = false) (lba : ℕ)

include hchs

theorem setAddress_chs : t.setAddress lba =
    { t with
      lbaLow := UInt8.ofNat (lba % (heads * sectorsPerTrack) % sectorsPerTrack + 1)
      lbaMid := UInt8.ofNat (lba / (heads * sectorsPerTrack))
      lbaHigh := UInt8.ofNat (lba / (heads * sectorsPerTrack) / 2 ^ 8)
      driveHead := (t.driveHead &&& 0xf0) |||
        UInt8.ofNat (lba % (heads * sectorsPerTrack) / sectorsPerTrack) } := by
  unfold setAddress
  rw [if_neg (by simp [hchs])]

/-- The cylinder register has sixteen bits. -/
theorem cylinder_setAddress : (t.setAddress lba).cylinder = lba / 1008 % 65536 := by
  rw [setAddress_chs hchs, cylinder]
  show (UInt8.ofNat (lba / 1008)).toNat + (UInt8.ofNat (lba / 1008 / 2 ^ 8)).toNat * 256 = _
  rw [UInt8.toNat_ofNat', UInt8.toNat_ofNat']
  omega

theorem head_setAddress : (t.setAddress lba).head = lba % 1008 / 63 := by
  have hlt : lba % 1008 / 63 < 16 := head_lt lba
  rw [setAddress_chs hchs, head]
  show (((t.driveHead &&& 0xf0) ||| UInt8.ofNat (lba % 1008 / 63)) &&& 0x0F).toNat = _
  rw [low_of_or (low_of_lt hlt), UInt8.toNat_ofNat']
  omega

theorem lbaLow_setAddress : (t.setAddress lba).lbaLow.toNat = lba % 63 + 1 := by
  rw [setAddress_chs hchs]
  show (UInt8.ofNat (lba % 1008 % 63 + 1)).toNat = _
  rw [UInt8.toNat_ofNat']
  omega

end TaskFile

namespace AtaDisk

def SameNumbers (heads sectors lba : ℕ) : Prop :=
  lba % 1008 / 63 < heads ∧ lba % 63 < sectors ∧
    (lba / 1008 % 65536 * heads + lba % 1008 / 63) * sectors =
      (lba / 1008 * 16 + lba % 1008 / 63) * 63

instance (heads sectors lba : ℕ) : Decidable (SameNumbers heads sectors lba) :=
  inferInstanceAs (Decidable (_ ∧ _))

/-- No CHS address of the registers' widths overflows. -/
theorem taskFileChsToLba_eq {d : AtaDisk} {cyl head sector : ℕ} (hcyl : cyl < 65536)
    (hhead : head < 16) (hsector : sector ≤ 63) :
    d.taskFileChsToLba cyl head (sector + 1) =
      if head < d.logicalHeads.toNat ∧ sector < d.logicalSectors.toNat ∧
          (cyl * d.logicalHeads.toNat + head) * d.logicalSectors.toNat + sector < d.totalSectors then
        some ((cyl * d.logicalHeads.toNat + head) * d.logicalSectors.toNat + sector)
      else none := by
  have hH : d.logicalHeads.toNat < 256 := d.logicalHeads.toNat_lt
  have hS : d.logicalSectors.toNat < 256 := d.logicalSectors.toNat_lt
  unfold taskFileChsToLba
  generalize d.logicalHeads.toNat = H at hH ⊢
  generalize d.logicalSectors.toNat = S at hS ⊢
  have hmul : cyl * H ≤ 65535 * 255 := Nat.mul_le_mul (by omega) (by omega)
  have hall : (cyl * H + head) * S ≤ (65535 * 255 + 15) * 255 :=
    Nat.mul_le_mul (by omega) (by omega)
  simp only
  by_cases hfits : head < H ∧ sector < S
  · rw [if_neg (by omega)]
    have hadd₁ : checkedMul32 cyl H = some (cyl * H) := if_pos (by omega)
    have hadd₂ : checkedAdd32 (cyl * H) head = some (cyl * H + head) := if_pos (by omega)
    have hadd₃ : checkedMul32 (cyl * H + head) S = some ((cyl * H + head) * S) := if_pos (by omega)
    have hadd₄ : checkedAdd32 ((cyl * H + head) * S) (sector + 1 - 1) =
        some ((cyl * H + head) * S + sector) := if_pos (by omega)
    simp only [hadd₁, hadd₂, hadd₃, hadd₄, Option.bind_eq_bind, Option.bind_some, hfits, true_and]
  · rw [if_pos (by omega), if_neg (fun h => hfits ⟨h.1, h.2.1⟩)]

/-- Where the registers point once an address is written in CHS. -/
theorem setAddress_decodes {d : AtaDisk} {t : TaskFile} (hchs : t.lbaMode = false) {lba : ℕ}
    (hinside : lba < d.totalSectors) :
    d.taskFileChsToLba (t.setAddress lba).cylinder (t.setAddress lba).head
        (t.setAddress lba).lbaLow.toNat = some lba ↔
      SameNumbers d.logicalHeads.toNat d.logicalSectors.toNat lba := by
  have hhead : lba % 1008 / 63 < 16 := by omega
  have hlba : (lba / 1008 * 16 + lba % 1008 / 63) * 63 + lba % 63 = lba := by omega
  rw [TaskFile.cylinder_setAddress hchs, TaskFile.head_setAddress hchs,
    TaskFile.lbaLow_setAddress hchs, taskFileChsToLba_eq (by omega) hhead (by omega), SameNumbers]
  constructor
  · intro h
    split at h
    · rename_i hfits
      have heq := Option.some.inj h
      exact ⟨hfits.1, hfits.2.1, by omega⟩
    · cases h
  · rintro ⟨hfits, hsector, heq⟩
    rw [heq, hlba, if_pos ⟨hfits, hsector, hinside⟩]

inductive Completes (d : AtaDisk) (count : ℕ) : AtaDisk → Prop
  | pioRead {command : UInt8} (hcommand : command ∈ pioReadCommands) (prefixTicks : ℕ)
      (steps : List HostStep) (hend : (d.pio command prefixTicks steps).1.AtRest) :
      Completes d count (d.pio command prefixTicks steps).1
  | pioWrite {command : UInt8} (hcommand : command ∈ pioWriteCommands) (prefixTicks : ℕ)
      (steps : List HostStep) (hend : (d.pio command prefixTicks steps).1.AtRest) :
      Completes d count (d.pio command prefixTicks steps).1
  | dmaRead (hmode : d.dmaMode.bytesPerSecond.isSome) {command : UInt8}
      (hcommand : command ∈ dmaReadCommands) (prefixTicks : ℕ) (before after : List HostStep) :
      Completes d count (d.dmaRead command prefixTicks before after).2
  | dmaWrite (hmode : d.dmaMode.bytesPerSecond.isSome) {command : UInt8}
      (hcommand : command ∈ dmaWriteCommands) (prefixTicks : ℕ) (polls : List HostStep)
      {data : List UInt8} (hdata : data.length = 512 * count) :
      Completes d count (d.dmaWrite command prefixTicks polls data)

theorem Served.transferred {d₀ d : AtaDisk} {start count : ℕ} {image : List Sector}
    (h : Served d₀ start count image d) : Transferred d₀ start count image d :=
  ⟨h.image, h.through.task, h.through.sectors, h.through.heads⟩

/-- However it went, a transfer leaves the registers past its sectors, the geometry as it was,
and a disk of the same size. -/
theorem Completes.transferred {d f : AtaDisk} {start count : ℕ} (hready : d.Ready)
    (hasks : d.Asks start count) (h : Completes d count f) :
    ∃ image : List Sector, image.length = d.medium.image.length ∧
      Transferred d start count image f := by
  cases h with
  | pioRead hcommand prefixTicks steps hend =>
    obtain ⟨hserved, -⟩ := (pio_reading hready hasks hcommand prefixTicks steps).ended hend
    exact ⟨_, rfl, hserved.transferred⟩
  | pioWrite hcommand prefixTicks steps hend =>
    obtain ⟨hserved, -⟩ := (pio_writing hready hasks hcommand prefixTicks steps).ended hend
    exact ⟨_, length_stored .., hserved.transferred⟩
  | dmaRead hmode hcommand prefixTicks before after =>
    obtain ⟨rate, hrate⟩ := Option.isSome_iff_exists.mp hmode
    exact ⟨_, rfl, (dmaRead_eq hready hasks hrate (request_dmaRead _ hcommand) prefixTicks before
      after).2⟩
  | dmaWrite hmode hcommand prefixTicks polls hdata =>
    obtain ⟨rate, hrate⟩ := Option.isSome_iff_exists.mp hmode
    exact ⟨_, length_stored .., dmaWrite_eq hready hasks hrate (request_dmaWrite _ hcommand)
      prefixTicks polls hdata⟩

/-- The sector that the registers point at, in CHS mode. -/
theorem commandLba_chs {d : AtaDisk} (hchs : d.task.lbaMode = false) :
    d.commandLba.map Prod.fst =
      d.taskFileChsToLba d.task.cylinder d.task.head d.task.lbaLow.toNat := by
  unfold commandLba
  rw [if_neg (by simp [hchs])]
  cases d.taskFileChsToLba d.task.cylinder d.task.head d.task.lbaLow.toNat with
  | none => rfl
  | some lba => rfl

/-- The address left by a CHS transfer that ends inside the disk is that of the next sector
exactly when the host's geometry numbers that sector as the derived geometry does. -/
theorem chs_continues_iff (image : List UInt8) (sectorCacheEnabled : Bool) (history : List Event) :
    let d := Runs.exec step history (new image sectorCacheEnabled)
    ∀ start count f, d.AtRest → d.task.masterSelected → d.task.lbaMode = false →
      d.Asks start count → start + count < d.totalSectors → Completes d count f →
      (f.commandLba.map Prod.fst = some (start + count) ↔
        SameNumbers d.logicalHeads.toNat d.logicalSectors.toNat (start + count)) := by
  intro d start count f hrest hmaster hchs hasks hinside hf
  have hstage : d.Stage := run_stage (new_stage image sectorCacheEnabled) history
  clear_value d
  have hready := ready_of_atRest hstage hrest hmaster
  obtain ⟨image', hlength, hleft⟩ := hf.transferred hready hasks
  have htotal : f.totalSectors = d.totalSectors := by
    rw [totalSectors, totalSectors, hleft.image, hlength]
  have htask : f.task = { d.task with
      sectorCount := d.task.sectorCount - UInt8.ofNat count }.setAddress (start + count) := by
    rw [hleft.task, TaskFile.passed, if_neg hasks.count_pos.ne']
  have hmode : f.task.lbaMode = false := by
    rw [htask, TaskFile.lbaMode_setAddress]
    exact hchs
  rw [commandLba_chs hmode, ← hleft.heads, ← hleft.sectors, htask]
  apply setAddress_decodes
  · exact hchs
  · rw [htotal]
    exact hinside

def twoSectors : List UInt8 := List.replicate 1024 0x5A

def chooseTrack (sectors : UInt8) : List Event :=
  [.writePort 0x1F2 sectors 0, .writePort 0x1F6 0 0, .writePort 0x1F7 0x91 0, .advance 1,
    .writePort 0x1F2 1 0]

theorem twoSectors_continues :
    let d := Runs.exec step (chooseTrack 2) (new twoSectors true)
    (d.dmaRead 0xC8 0 [] []).2.commandLba.map Prod.fst = some 1 := by
  have hrest : (Runs.exec step (chooseTrack 2) (new twoSectors true)).AtRest := by decide +kernel
  have hasks : (Runs.exec step (chooseTrack 2) (new twoSectors true)).Asks 0 1 :=
    ⟨by decide +kernel, by decide +kernel⟩
  refine (chs_continues_iff twoSectors true (chooseTrack 2) 0 1 _ hrest (by decide +kernel)
    (by decide +kernel) hasks (by decide +kernel) ?_).mpr (by decide +kernel)
  exact .dmaRead (by decide +kernel) (by decide) 0 [] []

/-- With one sector a track, the address left by a transfer of the first sector is of no sector
at all: its sector number is 2. -/
theorem oneSectorTracks_lost :
    let d := Runs.exec step (chooseTrack 1) (new twoSectors true)
    d.AtRest ∧ d.logicalHeads = 1 ∧ d.logicalSectors = 1 ∧ d.task.lbaMode = false ∧
      d.commandLba = some (0, 1) ∧ d.totalSectors = 2 ∧
      (d.pio 0x20 0 drainOne).1.AtRest ∧ (d.pio 0x20 0 drainOne).1.commandLba = none ∧
      (d.dmaRead 0xC8 0 [] []).2.commandLba = none := by
  decide +kernel

end AtaDisk

end IzarraVM.Ata
