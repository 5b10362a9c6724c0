import BinaryPack.Encoder.Buffer
import BinaryPack.Encoder.Layout

/-! # Closing a container in a buffer

  A container is opened with a blank length and closed when its payload is
  written. What stands in the buffer then is the layout of the container, with
  the header of the right size class, and nothing before it has changed
  (`closeContainer_opened`). All facts here speak of a buffer as a list that is
  cut into the parts that an edit touches and those that it leaves alone.
-/

namespace BinaryPack

namespace Buffer

/-! ### Editing -/

@[simp] theorem toList_append (buffer : Buffer) (bytes : Bytes) :
    (buffer.append bytes).toList = buffer.toList ++ bytes := by
  simp [append]

theorem toList_patch {buffer : Buffer} {before old after : Bytes} (bytes : Bytes)
    (h : buffer.toList = before ++ old ++ after) (hlen : bytes.length = old.length) :
    (buffer.patch before.length bytes).toList = before ++ bytes ++ after := by
  induction bytes generalizing buffer before old with
  | nil =>
    have hold : old = [] := List.length_eq_zero_iff.mp hlen.symm
    simpa [patch, hold] using h
  | cons b rest ih =>
    cases old with
    | nil => cases hlen
    | cons b' old =>
      have hset : (buffer.setIfInBounds before.length b).toList
          = (before ++ [b]) ++ old ++ after := by
        simp [Array.toList_setIfInBounds, h]
      have hrest := ih hset (by simpa using hlen)
      simpa [patch] using hrest

theorem getD_of_toList {buffer : Buffer} {before after : Bytes} {b : UInt8}
    (h : buffer.toList = before ++ b :: after) : buffer.getD before.length 0 = b := by
  rw [Array.getD_eq_getD_getElem?, ← Array.getElem?_toList, h]
  simp

theorem size_of_toList {buffer : Buffer} {bytes : Bytes} (h : buffer.toList = bytes) :
    buffer.size = bytes.length := by
  rw [← h, Array.length_toList]

/-- Copying within a buffer keeps its length. -/
theorem size_copyDown {buffer : Buffer} {source target : Nat} (h : target ≤ source)
    (h' : source ≤ buffer.size) : (buffer.copyDown source target).size = buffer.size := by
  simp only [copyDown, Array.size_append, Array.size_extract]
  omega

/-- Copying the end of a buffer down over a gap and cutting off what is left over
    closes the gap. -/
theorem toList_copyDown {buffer : Buffer} {before gap moved : Bytes}
    (h : buffer.toList = before ++ gap ++ moved) :
    ((buffer.copyDown (before.length + gap.length) before.length).truncate
      (buffer.size - gap.length)).toList = before ++ moved := by
  have hsize := size_of_toList h
  obtain ⟨rest, hcopied⟩ : ∃ rest, (buffer.copyDown (before.length + gap.length)
      before.length).toList = before ++ moved ++ rest := by
    have hbefore : (buffer.extract 0 before.length).toList = before := by
      simp [Array.toList_extract, h, List.extract_eq_take_drop]
    have hmoved : (buffer.extract (before.length + gap.length) buffer.size).toList = moved := by
      have hlen : before.length + gap.length = (before ++ gap).length := by simp
      have hroom : (before ++ gap ++ moved).length - (before ++ gap).length = moved.length := by
        rw [List.length_append, Nat.add_sub_cancel_left]
      rw [Array.toList_extract, h, hsize, hlen, List.extract_eq_take_drop, List.drop_left, hroom,
        List.take_length]
    rw [copyDown, Array.toList_append, Array.toList_append, hbefore, hmoved]
    exact ⟨_, rfl⟩
  have hlen : buffer.size - gap.length = (before ++ moved).length := by
    simp only [hsize, List.length_append]
    omega
  rw [truncate, Array.toList_extract, hcopied, hlen, List.extract_eq_take_drop, List.drop_zero,
    Nat.sub_zero, List.take_left]

/-! ### Opening and closing a container -/

section container

variable {buffer : Buffer} {before moved : Bytes} {tag n : UInt8} {blank : Bytes}

/-- A payload that fits one byte makes the header a short one, and what follows it
    slides down. -/
theorem toList_closeContainer_short (hblank : blank.length = 4)
    (h : buffer.toList = before ++ [tag, n] ++ blank ++ moved) {length : Nat}
    (hshort : length ≤ maxShortLength) :
    (buffer.closeContainer before.length length).toList
      = before ++ [tag ||| Tag.shortBit, n, UInt8.ofNat length] ++ moved := by
  obtain ⟨b, gap, rfl⟩ : ∃ b gap, blank = b :: gap := List.exists_cons_of_length_eq_add_one hblank
  have hgap : gap.length = 3 := by simpa using hblank
  have hstart : buffer.toList = before ++ [tag] ++ (n :: b :: gap ++ moved) := by simp [h]
  have htag : buffer.getD before.length 0 = tag :=
    getD_of_toList (by rw [hstart, List.append_assoc]; rfl)
  -- First the tag is marked, then the length takes the first of the blank bytes.
  have hmarked : (buffer.patch before.length [tag ||| Tag.shortBit]).toList
      = (before ++ [tag ||| Tag.shortBit, n]) ++ [b] ++ (gap ++ moved) := by
    rw [toList_patch [tag ||| Tag.shortBit] hstart rfl]
    simp
  have hplace : before.length + 2 = (before ++ [tag ||| Tag.shortBit, n]).length := by simp
  have hheaded : ((buffer.patch before.length [tag ||| Tag.shortBit]).patch (before.length + 2)
      [UInt8.ofNat length]).toList
      = (before ++ [tag ||| Tag.shortBit, n, UInt8.ofNat length]) ++ gap ++ moved := by
    rw [hplace, toList_patch [UInt8.ofNat length] hmarked rfl]
    simp
  have hsize := size_of_toList hheaded
  have hclosed := toList_copyDown hheaded
  rw [closeContainer, if_pos hshort, htag]
  simp only [List.length_append, List.length_cons, List.length_nil, hgap] at hclosed hsize
  simp only [SizeClass.headerLength, SizeClass.lengthWidth]
  rw [size_copyDown (by omega) (by omega)]
  simpa using hclosed

/-- A longer payload fills the length in. -/
theorem toList_closeContainer_long (hblank : blank.length = 4)
    (h : buffer.toList = before ++ [tag, n] ++ blank ++ moved) {length : Nat}
    (hlong : maxShortLength < length) :
    (buffer.closeContainer before.length length).toList
      = before ++ [tag, n] ++ LittleEndian.encode 4 length ++ moved := by
  have hpatched := toList_patch (LittleEndian.encode 4 length) h
    (by rw [LittleEndian.length_encode, hblank])
  rw [closeContainer, if_neg (Nat.not_le.mpr hlong)]
  simpa using hpatched

end container

section opened

variable (buffer : Buffer) (type : ItemType) (name : Bytes) (count : Nat) (body : Bytes)

theorem toList_opened : ((buffer.openContainer type.tag name count).append body).toList
    = buffer.toList ++ [type.tag, UInt8.ofNat name.length] ++ LittleEndian.encode 4 0
      ++ (name ++ (LittleEndian.encode 4 count ++ body)) := by
  simp [openContainer]

/-- The length of the name is read back from the header. -/
theorem getD_opened (hname : name.length < 256) :
    (((buffer.openContainer type.tag name count).append body).getD (buffer.size + 1) 0).toNat
      = name.length := by
  have hheader : ((buffer.openContainer type.tag name count).append body).toList
      = (buffer.toList ++ [type.tag]) ++ UInt8.ofNat name.length ::
        (LittleEndian.encode 4 0 ++ (name ++ (LittleEndian.encode 4 count ++ body))) := by
    rw [toList_opened]
    simp
  have hplace : buffer.size + 1 = (buffer.toList ++ [type.tag]).length := by simp
  rw [hplace, getD_of_toList hheader, UInt8.toNat_ofNat', Nat.mod_eq_of_lt hname]

theorem size_opened : ((buffer.openContainer type.tag name count).append body).size
    = buffer.size + SizeClass.long.headerLength + name.length
      + (LittleEndian.encode 4 count ++ body).length := by
  rw [size_of_toList (toList_opened buffer type name count body)]
  simp only [List.length_append, LittleEndian.length_encode, List.length_cons, List.length_nil,
    Array.length_toList, SizeClass.headerLength, SizeClass.lengthWidth]
  omega

/-- The length of a payload is counted from behind the name. -/
theorem payloadLength_opened (hname : name.length < 256) :
    ((buffer.openContainer type.tag name count).append body).payloadLength buffer.size
      = (LittleEndian.encode 4 count ++ body).length := by
  rw [payloadLength, getD_opened buffer type name count body hname, size_opened,
    Nat.add_sub_cancel_left]

/-- A container that is opened, filled and closed has the layout that is written down
    from the inside out. -/
theorem closeContainer_opened :
    ((buffer.openContainer type.tag name count).append body).closeContainer buffer.size
        (LittleEndian.encode 4 count ++ body).length
      = buffer.append (Layout.sized type name (LittleEndian.encode 4 count ++ body)) := by
  apply Array.ext'
  have hopened := toList_opened buffer type name count body
  have hsize : buffer.size = buffer.toList.length := Array.length_toList.symm
  rw [toList_append, hsize, Layout.sized]
  split
  · next hshort =>
    rw [toList_closeContainer_short (LittleEndian.length_encode 4 0) hopened hshort]
    simp
  · next hlong =>
    rw [toList_closeContainer_long (LittleEndian.length_encode 4 0) hopened (Nat.not_le.mp hlong)]
    simp

end opened

end Buffer

end BinaryPack
