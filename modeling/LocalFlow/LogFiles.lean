import Mathlib.Data.List.Basic
import Mathlib.Tactic.Common

/-! The bounded log of one task. A writer consumes everything it is given; what it does not store it
declares missing in the integrity record. -/
namespace LocalFlow

def outputLimitMarker : List UInt8 :=
  "\r\n[LocalFlow] task output limit reached; later output is not stored.\r\n".toUTF8.data.toList

/-- What the file system answers during one call: the free space, and how much of so many bytes one
`write` takes, `none` when it raises. -/
structure Disk where
  free : Nat
  accepts : Nat → Option Nat

structure BoundedLogWriter where
  maxBytes : Nat
  keepFreeBytes : Nat
  file : List UInt8
  size : Nat
  reason : Option String
  stopped : Bool
  bytesSinceSpaceCheck : Nat

namespace BoundedLogWriter

def markIncomplete (writer : BoundedLogWriter) (reason : String) : BoundedLogWriter :=
  { writer with reason := some reason, stopped := true }

/-- The loop of `_append`. Every turn stores at least one byte, so one turn for each byte is enough. -/
def appendLoop (disk : Disk) : Nat → BoundedLogWriter → List UInt8 → BoundedLogWriter × Bool
  | 0, writer, _ => (writer, true)
  | turns + 1, writer, view =>
    if view = [] then (writer, true)
    else
      match disk.accepts view.length with
      | none | some 0 => (writer.markIncomplete "write_error", false)
      | some size => appendLoop disk turns
          { writer with file := writer.file ++ view.take size, size := writer.size + size }
            (view.drop size)

def append (writer : BoundedLogWriter) (disk : Disk) (data : List UInt8) : BoundedLogWriter × Bool :=
  appendLoop disk data.length writer data

def write (writer : BoundedLogWriter) (disk : Disk) (data : List UInt8) : BoundedLogWriter :=
  if data = [] ∨ writer.stopped then writer
  else
    let checks := 1048576 ≤ writer.bytesSinceSpaceCheck + data.length
    let writer := { writer with
      bytesSinceSpaceCheck := if checks then 0 else writer.bytesSinceSpaceCheck + data.length }
    if checks ∧ writer.keepFreeBytes ≠ 0 ∧ disk.free ≤ writer.keepFreeBytes then
      writer.markIncomplete "disk_reserve"
    else if writer.maxBytes = 0 then (writer.append disk data).1
    else
      let payloadLimit := writer.maxBytes - outputLimitMarker.length
      if writer.size + data.length ≤ payloadLimit then (writer.append disk data).1
      else
        let remaining := payloadLimit - writer.size
        let marked := writer.markIncomplete "file_limit"
        let (filled, stored) := if remaining = 0 then (marked, true)
          else marked.append disk (data.take remaining)
        if stored then { (filled.append disk outputLimitMarker).1 with stopped := true } else filled

/-- No size limit, and nothing has gone wrong so far. -/
structure Unlimited (writer : BoundedLogWriter) : Prop where
  maxBytes : writer.maxBytes = 0
  stopped : writer.stopped = false

/-- The free space stays above the reserve, and every write makes progress. -/
structure Sound (writer : BoundedLogWriter) (disk : Disk) : Prop where
  reserve : writer.keepFreeBytes ≠ 0 → writer.keepFreeBytes < disk.free
  accepts : ∀ n, 0 < n → ∃ size, disk.accepts n = some size ∧ 0 < size ∧ size ≤ n

/-- Everything is stored, however many pieces it takes. -/
theorem appendLoop_sound {disk : Disk}
    (accepts : ∀ n, 0 < n → ∃ size, disk.accepts n = some size ∧ 0 < size ∧ size ≤ n)
    {turns : Nat} {writer : BoundedLogWriter} {view : List UInt8} (enough : view.length ≤ turns) :
    ∃ size, appendLoop disk turns writer view = ({ writer with file := writer.file ++ view, size },
      true) := by
  induction turns generalizing writer view with
  | zero =>
    obtain rfl := List.length_eq_zero_iff.mp (Nat.le_zero.mp enough)
    exact ⟨writer.size, by simp [appendLoop]⟩
  | succ turns ih =>
    rw [appendLoop]
    split
    · rename_i empty
      exact ⟨writer.size, by simp [empty]⟩
    · rename_i more
      obtain ⟨size, taken, progress, within⟩ := accepts view.length (List.length_pos_iff.mpr more)
      have shorter : (view.drop size).length ≤ turns := by
        rw [List.length_drop]
        omega
      obtain ⟨final, rest⟩ := ih shorter
      rw [taken]
      split
      · contradiction
      · rename_i same
        cases same
        omega
      · rename_i same
        cases same
        rw [rest]
        exact ⟨final, by simp [List.append_assoc]⟩

variable {writer : BoundedLogWriter} {disk : Disk}

/-- With no limit and a sound disk a write appends exactly its data. -/
theorem write_unlimited (unlimited : writer.Unlimited) (sound : writer.Sound disk) (data : List UInt8) :
    (writer.write disk data).file = writer.file ++ data ∧ (writer.write disk data).Unlimited ∧
      (writer.write disk data).keepFreeBytes = writer.keepFreeBytes := by
  unfold write
  split
  · rename_i done
    have nothing : data = [] := by simpa [unlimited.stopped] using done
    exact ⟨by simp [nothing], unlimited, rfl⟩
  · dsimp only
    split
    · rename_i full
      have above := sound.reserve full.2.1
      omega
    · rw [if_pos unlimited.maxBytes, append]
      obtain ⟨size, stored⟩ := appendLoop_sound sound.accepts (Nat.le_refl data.length)
      rw [stored]
      exact ⟨rfl, ⟨unlimited.maxBytes, unlimited.stopped⟩, rfl⟩

end BoundedLogWriter
end LocalFlow
