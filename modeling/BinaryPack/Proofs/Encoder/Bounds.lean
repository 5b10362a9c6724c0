import BinaryPack.Proofs.Encoder.Writing
import Mathlib.Data.Nat.PSub

/-! # Closing a container within bounds

  To close a container, bytes of the buffer are read and written at places that are counted
  from the start of the container, and what the name and the payload take is counted back
  from the end. `Buffer.closeContainer?` does the same edits and asks before each of them
  whether it is within the buffer, and before each subtraction whether it stays above zero.

  One condition answers all these questions: the header and the name that it tells must
  lie in the buffer (`Buffer.closeContainer?_of_le`). It holds of a container that was opened,
  whatever was appended since, so such a container is closed and no question is answered
  with no (`Write.container_filled`).
-/

namespace BinaryPack

namespace Buffer

/-! ### Edits that ask first -/

/-- The buffer with another byte at an index, if the index is in it. -/
def set? (buffer : Buffer) (index : Nat) (byte : UInt8) : Option Buffer :=
  if index < buffer.size then some (buffer.patch index [byte]) else none

/-- The buffer with the bytes from `source` to its end copied to `target`, if both stretches
    are in it. -/
def copyDown? (buffer : Buffer) (source target : Nat) : Option Buffer :=
  if source ≤ buffer.size ∧ target + (buffer.size - source) ≤ buffer.size then
    some (buffer.copyDown source target)
  else none

/-- The buffer with the bytes from `start` up to `stop` replaced, if they are in it and there
    are as many new ones. -/
def patch? (buffer : Buffer) (start stop : Nat) (bytes : Bytes) : Option Buffer :=
  if start ≤ stop ∧ stop ≤ buffer.size ∧ stop - start = bytes.length then
    some (buffer.patch start bytes)
  else none

/-- Closes the container opened at `start`, or says that its payload is too long. Nothing
    comes of it if an index or a stretch of bytes is not in the buffer, or a difference is
    below zero. -/
def closeContainer? (buffer : Buffer) (start : Nat) : Option (Except MarshalError Buffer) := do
  let long := SizeClass.long.headerLength
  let short := SizeClass.short.headerLength
  let nameLength ← buffer[start + 1]?
  let length ← buffer.size.psub (start + long + nameLength.toNat)
  if length ≤ maxShortLength then
    let tag ← buffer[start]?
    let marked ← buffer.set? start (tag ||| Tag.shortBit)
    let headed ← marked.set? (start + 2) (UInt8.ofNat length)
    let slid ← headed.copyDown? (start + long) (start + short)
    let stop ← slid.size.psub (long - short)
    return .ok (slid.truncate stop)
  else if maxLongLength < length then
    return .error (.payloadTooLong length)
  else
    let patched ← buffer.patch? (start + 2) (start + long) (LittleEndian.encode 4 length)
    return .ok patched

theorem getElem?_eq_getD {buffer : Buffer} {index : Nat} (h : index < buffer.size) :
    buffer[index]? = some (buffer.getD index 0) := by
  simp [h]

@[simp] theorem size_patch (buffer : Buffer) (start : Nat) (bytes : Bytes) :
    (buffer.patch start bytes).size = buffer.size := by
  induction bytes generalizing buffer start with
  | nil => rfl
  | cons b rest ih => rw [patch, ih, Array.size_setIfInBounds]

theorem set?_of_lt {buffer : Buffer} {index : Nat} (byte : UInt8) (h : index < buffer.size) :
    buffer.set? index byte = some (buffer.patch index [byte]) :=
  if_pos h

theorem copyDown?_of_le {buffer : Buffer} {source target : Nat} (h : target ≤ source)
    (h' : source ≤ buffer.size) :
    buffer.copyDown? source target = some (buffer.copyDown source target) :=
  if_pos ⟨h', by omega⟩

theorem patch?_of_le {buffer : Buffer} {start stop : Nat} {bytes : Bytes}
    (h : stop ≤ buffer.size) (hlen : start + bytes.length = stop) :
    buffer.patch? start stop bytes = some (buffer.patch start bytes) :=
  if_pos ⟨by omega, h, by omega⟩

/-- If the header and the name that it tells lie in the buffer, so does all that is read or
    written on closing. -/
theorem closeContainer?_of_le {buffer : Buffer} {start : Nat}
    (h : start + SizeClass.long.headerLength + (buffer.getD (start + 1) 0).toNat ≤ buffer.size) :
    buffer.closeContainer? start =
      if maxLongLength < buffer.payloadLength start then
        some (.error (.payloadTooLong (buffer.payloadLength start)))
      else some (.ok (buffer.closeContainer start (buffer.payloadLength start))) := by
  have hlong : SizeClass.long.headerLength = 6 := rfl
  have hshort : SizeClass.short.headerLength = 3 := rfl
  have hheader : start + 6 ≤ buffer.size := by omega
  have hname := getElem?_eq_getD (show start + 1 < buffer.size by omega)
  have hlength : buffer.size.psub
      (start + SizeClass.long.headerLength + (buffer.getD (start + 1) 0).toNat)
      = some (buffer.payloadLength start) := Nat.psub_eq_sub h
  unfold closeContainer?
  simp only [hname, hlength, Option.bind_eq_bind, Option.bind_some]
  by_cases hsmall : buffer.payloadLength start ≤ maxShortLength
  · have hfits : ¬ maxLongLength < buffer.payloadLength start :=
      Nat.not_lt.mpr (Nat.le_trans hsmall (by decide))
    have htag := getElem?_eq_getD (show start < buffer.size by omega)
    rw [if_pos hsmall, if_neg hfits, closeContainer, if_pos hsmall, htag, Option.bind_some]
    -- No edit before the last one changes the length, so all of them find the same room.
    have hmarked := size_patch buffer start [buffer.getD start 0 ||| Tag.shortBit]
    have hheaded := size_patch (buffer.patch start [buffer.getD start 0 ||| Tag.shortBit])
      (start + 2) [UInt8.ofNat (buffer.payloadLength start)]
    rw [set?_of_lt _ (by omega), Option.bind_some, set?_of_lt _ (by omega), Option.bind_some,
      copyDown?_of_le (by omega) (by omega), Option.bind_some, Nat.psub_eq_sub, Option.bind_some]
    · rfl
    · rw [size_copyDown (by omega) (by omega)]
      omega
  · rw [if_neg hsmall, closeContainer, if_neg hsmall]
    split
    · rfl
    · rw [patch?_of_le (by omega) (by rw [LittleEndian.length_encode, hlong]), Option.bind_some]
      rfl

/-- The room that closing asks for is there once a container is opened: what is appended to
    it does not touch its header. -/
theorem closeContainer?_opened (buffer : Buffer) (type : ItemType) {name : Bytes} (count : Nat)
    {body : Bytes} (hname : name.length < 256) (hbody : body.length + 4 ≤ maxLongLength) :
    ((buffer.openContainer type.tag name count).append body).closeContainer? buffer.size
      = some (.ok
        (buffer.append (Layout.sized type name (LittleEndian.encode 4 count ++ body)))) := by
  have hroom : buffer.size + SizeClass.long.headerLength
      + (((buffer.openContainer type.tag name count).append body).getD (buffer.size + 1) 0).toNat
      ≤ ((buffer.openContainer type.tag name count).append body).size := by
    rw [getD_opened buffer type name count body hname, size_opened]
    exact Nat.le_add_right _ _
  have hpayload := payloadLength_opened buffer type name count body hname
  have hfits : ¬ maxLongLength < (LittleEndian.encode 4 count ++ body).length := by
    rw [List.length_append, LittleEndian.length_encode]
    omega
  rw [closeContainer?_of_le hroom, hpayload, if_neg hfits, closeContainer_opened]

end Buffer

namespace ItemName

/-- A name that has bytes fits, and its layout is these bytes. -/
theorem layout_of_bytes {name : ItemName} {bytes : Bytes} (h : name.bytes = .ok bytes) :
    name.Fits ∧ name.layout = bytes := by
  by_cases hfits : name.Fits
  · rw [bytes_of_fits hfits] at h
    exact ⟨hfits, Except.ok.inj h⟩
  · obtain ⟨cause, hcause⟩ := bytes_of_not_fits hfits
    rw [hcause] at h
    cases h

end ItemName

namespace Write

/-- A container that is opened at the end of a buffer, filled with any bytes and closed has the
    short header if count and bytes are no more than one byte can tell, else the long one. What
    stood in the buffer before is kept, and closing stays within the buffer. -/
theorem container_filled (buffer : Buffer) (type : ItemType) {name : ItemName} {bytes : Bytes}
    {count depth : Nat} {body : Bytes} (hdepth : depth ≠ 0) (hname : name.bytes = .ok bytes)
    (hcount : count ≤ maxLongLength) (hbody : body.length + 4 ≤ maxLongLength) :
    ∃ opened closed : Buffer,
      (openContainer type name count depth).run.run buffer = (.ok buffer.size, opened) ∧
      (closeContainer buffer.size).run.run (opened.append body) = (.ok (), closed) ∧
      (opened.append body).closeContainer? buffer.size = some (.ok closed) ∧
      bytes.length ≤ 255 ∧
      (body.length + 4 ≤ 255 →
        closed.toList = buffer.toList
          ++ [type.tag ||| 0x80, UInt8.ofNat bytes.length, UInt8.ofNat (body.length + 4)]
          ++ bytes ++ LittleEndian.encode 4 count ++ body) ∧
      (255 < body.length + 4 →
        closed.toList = buffer.toList
          ++ [type.tag, UInt8.ofNat bytes.length] ++ LittleEndian.encode 4 (body.length + 4)
          ++ bytes ++ LittleEndian.encode 4 count ++ body) := by
  obtain ⟨hfits, rfl⟩ := ItemName.layout_of_bytes hname
  have hlength := ItemName.length_layout_lt hfits
  have hpayload : (LittleEndian.encode 4 count ++ body).length = body.length + 4 := by
    rw [List.length_append, LittleEndian.length_encode, Nat.add_comm]
  have hclose : (closeContainer buffer.size).run.run
      ((buffer.openContainer type.tag name.layout count).append body)
      = (.ok (), buffer.append
          (Layout.sized type name.layout (LittleEndian.encode 4 count ++ body))) := by
    rw [run_closeContainer, Buffer.payloadLength_opened buffer type _ count body hlength, hpayload,
      if_neg (Nat.not_lt.mpr hbody), ← hpayload, Buffer.closeContainer_opened]
  refine ⟨_, _, run_openContainer type hdepth hcount hfits buffer, hclose,
    Buffer.closeContainer?_opened buffer type count hlength hbody, Nat.le_of_lt_succ hlength,
    fun hshort => ?_, fun hlong => ?_⟩
  · rw [Buffer.toList_append, Layout.sized, hpayload, if_pos hshort]
    simp only [Tag.shortBit, List.append_assoc]
  · rw [Buffer.toList_append, Layout.sized, hpayload, if_neg (Nat.not_le.mpr hlong)]
    simp only [List.append_assoc]

/-- The two containers on either side of the border between the headers. -/
theorem container_filled_border :
    (∃ opened closed : Buffer,
      (openContainer .array (.key "k") 1 3).run.run #[1, 2] = (.ok 2, opened) ∧
      (closeContainer 2).run.run (opened.append (List.replicate 251 7)) = (.ok (), closed) ∧
      closed.toList
        = [1, 2, 0xA0, 2, 255, 0x6B, 0, 1, 0, 0, 0] ++ List.replicate 251 7) ∧
    (∃ opened closed : Buffer,
      (openContainer .array (.key "k") 1 3).run.run #[1, 2] = (.ok 2, opened) ∧
      (closeContainer 2).run.run (opened.append (List.replicate 252 7)) = (.ok (), closed) ∧
      closed.toList
        = [1, 2, 0x20, 2, 0, 1, 0, 0, 0x6B, 0, 1, 0, 0, 0] ++ List.replicate 252 7) := by
  have hname : (ItemName.key "k").bytes = .ok [0x6B, 0] := rfl
  have hdepth : 3 ≠ 0 := by decide
  have hcount : 1 ≤ maxLongLength := by decide
  have hborder : (List.replicate 251 (7 : UInt8)).length + 4 = 255 := by
    rw [List.length_replicate]
  have hbeyond : (List.replicate 252 (7 : UInt8)).length + 4 = 256 := by
    rw [List.length_replicate]
  constructor
  · obtain ⟨opened, closed, hopen, hclose, -, -, hshort, -⟩ :=
      container_filled #[1, 2] .array hdepth hname hcount (by rw [hborder]; decide)
    have hbytes := hshort (Nat.le_of_eq hborder)
    rw [hborder] at hbytes
    exact ⟨opened, closed, hopen, hclose, hbytes⟩
  · obtain ⟨opened, closed, hopen, hclose, -, -, -, hlong⟩ :=
      container_filled #[1, 2] .array hdepth hname hcount (by rw [hbeyond]; decide)
    have hbytes := hlong (by rw [hbeyond]; decide)
    rw [hbeyond] at hbytes
    exact ⟨opened, closed, hopen, hclose, hbytes⟩

end Write

end BinaryPack
