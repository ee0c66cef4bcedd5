import EtherApe.Common
import Mathlib.Data.Rat.Defs
import Mathlib.Algebra.Order.Field.Rat
import Mathlib.Tactic.FieldSimp

/-!
# Basic statistics and packet items

The model of `basic_stats.c`: time differences, protocol stacks of packets, the reference-counted
packet items, and the traffic counters. A `gdouble` byte counter is an integer and a `gdouble`
average or time difference is a rational, so the arithmetic is exact.

A `packet_info_t` never changes after it is filled except for its reference count, so items hold the
fixed part by value together with its address, and the counts live in the `PacketStore` under that
address.
-/

namespace EtherApe

def substractTimesMs (a b : Timeval) : ℚ :=
  ((a.tvSec - b.tvSec : Int) : ℚ) * 1000 + ((a.tvUsec - b.tvUsec : Int) : ℚ) / 1000

theorem substractTimesMs_sub (a b c : Timeval) :
    substractTimesMs a c - substractTimesMs a b = substractTimesMs b c := by
  simp only [substractTimesMs, Int.cast_sub]
  ring

/-! ### Protocol stacks of packets -/

/-- The stack of protocol names of a packet, one per level. -/
structure PacketProtos where
  protonames : Level → Option String

def PacketProtos.init : PacketProtos := ⟨fun _ => none⟩

/-- The shape the decoder gives a stack: the levels `1..k` are named and the rest is not, and level
`0` repeats level `k`, or is unnamed when `k = 0`. -/
def PacketProtos.Contiguous (pr : PacketProtos) : Prop :=
  ∃ k : Level, (∀ i : Level, 0 < i → ((pr.protonames i).isSome ↔ i ≤ k)) ∧
    (0 < k → pr.protonames 0 = pr.protonames k) ∧ (k = 0 → pr.protonames 0 = none)

theorem PacketProtos.Contiguous.none_of_le {pr : PacketProtos} (h : pr.Contiguous) {i j : Level}
    (hij : i ≤ j) (hi : pr.protonames i = none) : pr.protonames j = none := by
  obtain ⟨k, hnamed, htop, hempty⟩ := h
  have hk : j ≠ 0 → k < j := by
    intro hj
    by_contra hle
    have hi0 : i = 0 := by
      by_contra hi0
      have hsome := (hnamed i (Fin.pos_iff_ne_zero.mpr hi0)).mpr (hij.trans (not_lt.mp hle))
      rw [hi] at hsome
      exact absurd hsome Bool.false_ne_true
    have hk0 : 0 < k := (Fin.pos_iff_ne_zero.mpr hj).trans_le (not_lt.mp hle)
    have hsome := (hnamed k hk0).mpr le_rfl
    rw [← htop hk0, ← hi0, hi] at hsome
    exact absurd hsome Bool.false_ne_true
  by_cases hj : j = 0
  · obtain rfl : i = j := by
      subst hj
      exact Fin.le_zero_iff.mp hij
    exact hi
  · have hnone := (hnamed j (Fin.pos_iff_ne_zero.mpr hj)).not.mpr (not_le.mpr (hk hj))
    simpa using hnone

/-! ### Packets and packet items -/

/-- The address of a `packet_info_t`. -/
abbrev PacketRef := Nat

/-- The fixed part of a `packet_info_t`. -/
structure PacketInfo where
  ref : PacketRef
  size : Nat
  timestamp : Timeval
  protDesc : PacketProtos

structure PacketListItem where
  info : PacketInfo
  direction : PacketDirection

/-- The heap of live packets with their reference counts, and the two global counters.
`accessedFreed` records whether a freed packet was ever read or released again. -/
structure PacketStore where
  refCount : PacketRef → Option Nat
  packetListItemN : Int
  totalMemPackets : Int
  accessedFreed : Bool

namespace PacketStore

def empty : PacketStore := ⟨fun _ => none, 0, 0, false⟩

def live (st : PacketStore) (r : PacketRef) : Prop := (st.refCount r).isSome

/-- A packet fresh from the allocator, without references. -/
def alloc (st : PacketStore) (r : PacketRef) : PacketStore :=
  { st with refCount := fun q => if q = r then some 0 else st.refCount q }

/-- Reading a field of the packet behind an item. -/
def deref (st : PacketStore) (r : PacketRef) : PacketStore :=
  if (st.refCount r).isSome then st else { st with accessedFreed := true }

def packetListItemCreate (st : PacketStore) (i : PacketInfo) (d : PacketDirection) :
    PacketStore × PacketListItem :=
  ({ st with
      refCount := fun q => if q = i.ref then (st.refCount q).map (· + 1) else st.refCount q
      packetListItemN := st.packetListItemN + 1
      accessedFreed := st.accessedFreed || (st.refCount i.ref).isNone },
    ⟨i, d⟩)

/-- Drops the reference of an item; the packet is freed when its count falls below one. -/
def packetListItemDelete (st : PacketStore) (pli : PacketListItem) : PacketStore :=
  match st.refCount pli.info.ref with
  | none => { st with accessedFreed := true, packetListItemN := st.packetListItemN - 1 }
  | some count =>
      if count - 1 < 1 then
        { st with
          refCount := fun q => if q = pli.info.ref then none else st.refCount q
          totalMemPackets := st.totalMemPackets - 1
          packetListItemN := st.packetListItemN - 1 }
      else
        { st with
          refCount := fun q => if q = pli.info.ref then some (count - 1) else st.refCount q
          packetListItemN := st.packetListItemN - 1 }

end PacketStore

/-! ### Traffic counters -/

structure BasicStats where
  average : ℚ
  averAccu : Int
  accumulated : Int
  avgSize : ℚ
  accuPackets : Nat
  lastTime : Timeval

namespace BasicStats

def reset (now : Timeval) : BasicStats :=
  { average := 0, averAccu := 0, accumulated := 0, avgSize := 0, accuPackets := 0, lastTime := now }

def add (s : BasicStats) (now : Timeval) (val : Int) : BasicStats :=
  { s with
    accumulated := s.accumulated + val
    averAccu := s.averAccu + val
    accuPackets := s.accuPackets + 1
    avgSize := ((s.accumulated + val : Int) : ℚ) / ((s.accuPackets + 1 : Nat) : ℚ)
    lastTime := now }

def sub (s : BasicStats) (val : Int) : BasicStats :=
  { s with
    averAccu := s.averAccu - val
    average := if s.averAccu - val = 0 then 0 else s.average }

/-- `basic_stats_avg`: bits per second from bytes and milliseconds. -/
def avg (s : BasicStats) (avgMsecs : ℚ) : BasicStats :=
  if avgMsecs ≠ 0 then { s with average := 8000 * s.averAccu / avgMsecs } else s

@[simp] theorem reset_averAccu (now : Timeval) : (reset now).averAccu = 0 := rfl

@[simp] theorem reset_average (now : Timeval) : (reset now).average = 0 := rfl

@[simp] theorem reset_accumulated (now : Timeval) : (reset now).accumulated = 0 := rfl

@[simp] theorem add_averAccu (s : BasicStats) (now : Timeval) (val : Int) :
    (s.add now val).averAccu = s.averAccu + val := rfl

@[simp] theorem add_average (s : BasicStats) (now : Timeval) (val : Int) :
    (s.add now val).average = s.average := rfl

@[simp] theorem add_accumulated (s : BasicStats) (now : Timeval) (val : Int) :
    (s.add now val).accumulated = s.accumulated + val := rfl

@[simp] theorem sub_averAccu (s : BasicStats) (val : Int) :
    (s.sub val).averAccu = s.averAccu - val := rfl

@[simp] theorem sub_accumulated (s : BasicStats) (val : Int) :
    (s.sub val).accumulated = s.accumulated := rfl

@[simp] theorem avg_averAccu (s : BasicStats) (avgMsecs : ℚ) :
    (s.avg avgMsecs).averAccu = s.averAccu := by
  unfold avg
  split <;> rfl

@[simp] theorem avg_accumulated (s : BasicStats) (avgMsecs : ℚ) :
    (s.avg avgMsecs).accumulated = s.accumulated := by
  unfold avg
  split <;> rfl

theorem avg_average (s : BasicStats) {avgMsecs : ℚ} (h : avgMsecs ≠ 0) :
    (s.avg avgMsecs).average = 8000 * s.averAccu / avgMsecs := by
  rw [avg, if_pos h]

/-- An average is zero whenever the counter it is computed from is. -/
def Settled (s : BasicStats) : Prop := s.averAccu = 0 → s.average = 0

theorem settled_reset (now : Timeval) : (reset now).Settled := fun _ => rfl

theorem Settled.add {s : BasicStats} (h : s.Settled) {now : Timeval} {val : Int}
    (hval : 0 ≤ val) (haccu : 0 ≤ s.averAccu) : (s.add now val).Settled := by
  intro hzero
  rw [add_averAccu] at hzero
  exact h (by omega)

theorem settled_sub (s : BasicStats) (val : Int) : (s.sub val).Settled := by
  intro hzero
  rw [sub_averAccu] at hzero
  simp [sub, hzero]

theorem Settled.avg {s : BasicStats} (h : s.Settled) (avgMsecs : ℚ) : (s.avg avgMsecs).Settled := by
  intro hzero
  rw [avg_averAccu] at hzero
  by_cases hms : avgMsecs = 0
  · rw [BasicStats.avg, if_neg (not_not.mpr hms)]
    exact h hzero
  · rw [avg_average s hms, hzero]
    simp

theorem Settled.sub_zero {s : BasicStats} (h : s.Settled) : s.sub 0 = s := by
  unfold sub
  rw [Int.sub_zero]
  by_cases hzero : s.averAccu = 0
  · rw [if_pos hzero, ← h hzero]
  · rw [if_neg hzero]

end BasicStats

end EtherApe
