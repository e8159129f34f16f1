import LibRtmp.Types

namespace LibRtmp

def bufferMaxSize : Nat := 64 * 1024 * 1024
def bufferInitialSize : Nat := 4096
def bufferResetCapacity : Nat := bufferInitialSize
def bufferGrowFactor : Nat := 2

/-- A call that may panic: `none` is a slice range or an addition out of bounds. -/
abbrev Call (α : Type) := Option α

def checkedAdd (a b : Nat) : Call Nat :=
  if a + b ≤ usizeMax then some (a + b) else none

def sliceRange (v : List UInt8) (a b : Nat) : Call (List UInt8) :=
  if a ≤ b ∧ b ≤ v.length then some ((v.take b).drop a) else none

def copyInto (v : List UInt8) (a : Nat) (d : List UInt8) : Call (List UInt8) :=
  if a + d.length ≤ v.length then some (v.take a ++ d ++ v.drop (a + d.length)) else none

def resizeVec (v : List UInt8) (n : Nat) : List UInt8 :=
  v.take n ++ List.replicate (n - v.length) 0

structure RawBuffer where
  data : List UInt8
  size : Nat
  readPos : Nat
  owned : Bool
  deriving DecidableEq

namespace RawBuffer

def withCapacity (capacity : Nat) : RawBuffer :=
  { data := List.replicate capacity 0, size := 0, readPos := 0, owned := true }

def new : RawBuffer := withCapacity bufferInitialSize

def fromSlice (d : List UInt8) : RawBuffer :=
  { data := d, size := d.length, readPos := 0, owned := true }

def available (b : RawBuffer) : Nat := b.size - b.readPos

def space (b : RawBuffer) : Nat := b.data.length - b.size

def peek (b : RawBuffer) : Call (List UInt8) := sliceRange b.data b.readPos b.size

def compact (b : RawBuffer) : Call RawBuffer :=
  if b.readPos = 0 then some b
  else if b.readPos ≥ b.size then some { b with size := 0, readPos := 0 }
  else do
    -- `copy_within(read_pos..size, 0)`
    let moved ← sliceRange b.data b.readPos b.size
    let data ← copyInto b.data 0 moved
    return { b with data := data, size := b.size - b.readPos, readPos := 0 }

/-- The growth loop of `ensure_capacity`; it starts from a capacity that is not zero. -/
def growCapacity (cap needed : Nat) (hc : 0 < cap) : Nat :=
  if hn : cap < needed then
    let next := min (cap * bufferGrowFactor) usizeMax
    if hm : next > bufferMaxSize then bufferMaxSize
    else growCapacity next needed (by
      simp only [next, bufferMaxSize, bufferGrowFactor, usizeMax] at hm ⊢; omega)
  else cap
termination_by needed - cap
decreasing_by
  simp only [next, bufferMaxSize, bufferGrowFactor, usizeMax] at hm ⊢
  omega

def ensureCapacity (b : RawBuffer) (needed : Nat) : RawBuffer × Except ErrorCode Unit :=
  if needed ≤ b.data.length then (b, .ok ())
  else if b.owned = false then (b, .error .internal)
  else if needed > bufferMaxSize then (b, .error .internal)
  else
    let cap := growCapacity (max b.data.length bufferInitialSize) needed
      (by simp only [bufferInitialSize]; omega)
    ({ b with data := resizeVec b.data cap }, .ok ())

def makeRoom (b : RawBuffer) (additional : Nat) : Call (RawBuffer × Except ErrorCode Unit) :=
  -- A fully drained buffer rewinds for free.
  let b := if b.readPos > 0 ∧ b.readPos ≥ b.size then { b with size := 0, readPos := 0 } else b
  if additional > bufferMaxSize ∨ b.available > bufferMaxSize - additional then
    some (b, .error .internal)
  else if additional ≤ b.space then some (b, .ok ())
  else do
    let b ← b.compact
    let needed ← checkedAdd b.size additional
    return b.ensureCapacity needed

def write (b : RawBuffer) (d : List UInt8) : Call (RawBuffer × Except ErrorCode Nat) :=
  if d.isEmpty then some (b, .ok 0)
  else do
    let (b, room) ← b.makeRoom d.length
    match room with
    | .error e => return (b, .error e)
    | .ok () =>
      let finish ← checkedAdd b.size d.length
      let data ← copyInto b.data b.size d
      return ({ b with data := data, size := finish }, .ok d.length)

def reserve (b : RawBuffer) (additional : Nat) : Call (RawBuffer × Except ErrorCode Unit) :=
  b.makeRoom additional

def read (b : RawBuffer) (n : Nat) : Call (RawBuffer × Except ErrorCode (List UInt8)) := do
  let finish ← checkedAdd b.readPos n
  if finish > b.size then return (b, .error .io)
  else
    let out ← sliceRange b.data b.readPos finish
    return ({ b with readPos := finish }, .ok out)

def reset (b : RawBuffer) : RawBuffer :=
  { b with
    size := 0, readPos := 0
    data := if b.owned ∧ b.data.length > bufferResetCapacity
      then b.data.take bufferResetCapacity else b.data }

def releaseExcess (b : RawBuffer) (keep : Nat) : Call RawBuffer :=
  if b.owned = false ∨ b.data.length ≤ keep ∨ b.available > keep / 2 then some b
  else do
    let b ← b.compact
    return { b with data := b.data.take (max b.size bufferInitialSize) }

def drain (b : RawBuffer) (len : Nat) : RawBuffer :=
  { b with readPos := b.readPos + min len b.available }

def take (b : RawBuffer) : RawBuffer × List UInt8 :=
  let out := b.data.take b.size
  let out := if b.readPos > 0 then out.drop (min b.readPos out.length) else out
  ({ b with
      data := if b.owned then [] else List.replicate b.data.length 0
      size := 0, readPos := 0 }, out)

/-- What every call keeps: the cursors are in order and inside an owned allocation. -/
structure Valid (b : RawBuffer) : Prop where
  read_le : b.readPos ≤ b.size
  size_le : b.size ≤ b.data.length
  data_le : b.data.length ≤ isizeMax
  owned : b.owned = true

end RawBuffer

end LibRtmp
