import IzarraVM.StepRuns
import IzarraVM.CommonInstances

/-! The translation cache (`paging.rs`): 1024 entries shared by two slots, told by generations. -/
namespace IzarraVM.Paging

structure TlbEntry where
  tag : UInt32
  phys : UInt32
  generation : UInt32
  writable : Bool
  user : Bool
  dirty : Bool
  deriving DecidableEq

def TlbEntry.empty : TlbEntry := ⟨0, 0, 0, false, false, false⟩

structure Tlb where
  entries : Fin 1024 → TlbEntry
  generation : UInt32
  generations : Fin 2 → UInt32
  live : Fin 2
  nextGeneration : UInt32

namespace Tlb

def default : Tlb := ⟨fun _ => .empty, 1, ![1, 2], 0, 3⟩

def slot (page : UInt32) : Fin 1024 := ⟨page.toNat % 1024, Nat.mod_lt _ (by decide)⟩

variable (t : Tlb)

def lookup (page : UInt32) : Option TlbEntry :=
  let e := t.entries (slot page)
  if e.generation = t.generation ∧ e.tag = page then some e else none

def setEntry (i : Fin 1024) (e : TlbEntry) : Tlb :=
  { t with entries := Function.update t.entries i e }

def insert (page phys : UInt32) (writable user dirty : Bool) : Tlb :=
  t.setEntry (slot page) ⟨page, phys, t.generation, writable, user, dirty⟩

def invalidate (page : UInt32) : Tlb :=
  let e := t.entries (slot page)
  if e.generation = t.generation ∧ e.tag = page then t.setEntry (slot page) .empty else t

def restart : Tlb :=
  if t.nextGeneration = 0 then { t with entries := fun _ => .empty, nextGeneration := 1 } else t

def mintGeneration : UInt32 × Tlb :=
  let t := t.restart
  (t.nextGeneration, { t with nextGeneration := t.nextGeneration + 1 })

def setGeneration (s : Fin 2) (g : UInt32) : Tlb :=
  { t with generations := Function.update t.generations s g }

def selectGeneration (s : Fin 2) : Tlb :=
  { t with live := s, generation := t.generations s }

def allocateGeneration (s : Fin 2) : Tlb :=
  let (g, t) := t.mintGeneration
  { t.setGeneration s g with live := s, generation := g }

def flushLiveSlot : Tlb :=
  let (g, t) := t.mintGeneration
  { t.setGeneration t.live g with generation := g }

def retireAllSlots : Tlb :=
  let (g, t) := t.mintGeneration
  let (g', t) := (t.setGeneration 0 g).mintGeneration
  let t := t.setGeneration 1 g'
  { t with live := 0, generation := t.generations 0 }

def retireDormantSlot : Tlb :=
  let (g, t) := t.mintGeneration
  t.setGeneration (1 - t.live) g

end Tlb

end IzarraVM.Paging
