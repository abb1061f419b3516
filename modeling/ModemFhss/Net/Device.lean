import Mathlib.Data.List.Basic

/-!
# What both directions of the driver use (`mfhssnet.h`, `mfhssnet.c`)

Buffers are lists of bytes, and a copy that runs past the end of its destination makes the list
longer: `memcpy` stays inside exactly if the length is kept (`length_memcpy`). The counters of
`struct net_device_stats` are totals, of which an `unsigned long` holds the residue.
-/

namespace ModemFhss.Net

abbrev Frame := List UInt8

def ethHlen : Nat := 14

/-- The shortest frame that is sent, without its check sequence. -/
def ethZlen : Nat := 60

def ethDataLen : Nat := 1500

def mfhssnetDmaSize : Nat := 2048

/-- The members of `struct net_device_stats` that the driver counts in. -/
structure NetDeviceStats where
  rxPackets : Nat
  txPackets : Nat
  rxBytes : Nat
  txBytes : Nat
  txErrors : Nat
  rxDropped : Nat

/-- As `kzalloc` leaves them. -/
def NetDeviceStats.zero : NetDeviceStats := ⟨0, 0, 0, 0, 0, 0⟩

def memcpy (dst src : List UInt8) (len : Nat) : List UInt8 := src.take len ++ dst.drop len

def memset (dst : List UInt8) (c : UInt8) (len : Nat) : List UInt8 :=
  List.replicate len c ++ dst.drop len

variable {dst src : List UInt8} {len : Nat}

theorem length_memcpy (h : len ≤ src.length) :
    (memcpy dst src len).length = max len dst.length := by
  unfold memcpy
  rw [List.length_append, List.length_take, List.length_drop]
  omega

/-- What was copied is read back. -/
theorem take_memcpy (h : len ≤ src.length) : (memcpy dst src len).take len = src.take len := by
  have hlen : (src.take len).length = len := List.length_take_of_le h
  unfold memcpy
  rw [List.take_append_of_le_length (Nat.le_of_eq hlen.symm), List.take_take, Nat.min_self]

end ModemFhss.Net
