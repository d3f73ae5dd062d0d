import Mathlib.Data.List.TakeDrop
import Mathlib.Data.List.TakeWhile

/-!
# Output streams over a device that can fail

A file that was opened for writing, and so truncated, and that is written through a stream. Each
write and each seek is one operation on the device. The device may take only a part of a write; the
stream then has failed, and a failed stream ignores every later operation. What the device loses
when the stream is closed, no operation reports.

A caller sees whether the stream has failed, and the rules below say what it may conclude: a stream
that has not failed after a write had not failed before, the device took the whole write
(`write_of_not_failed`), and at the end of the file the write is an append (`AtEnd.write_bytes`).
-/

namespace OutStream

/-- What a device does with the operations of one stream. -/
structure Device where
  /-- The number of bytes at the end of a write that the device does not take, by the number of the
  operation. For a seek, any number but zero is a failure. -/
  missing : ℕ → ℕ
  /-- The number of bytes at the end of the file that are lost when the stream is closed, or when
  the process ends before. -/
  unflushed : ℕ

/-- A device that takes everything. -/
def Device.perfect : Device := ⟨fun _ => 0, 0⟩

/-- An open output stream and the file under it. -/
structure Stream where
  /-- The content of the file. -/
  bytes : List UInt8
  /-- The offset of the next write. -/
  pos : ℕ
  /-- Whether an operation has failed. -/
  failed : Bool
  /-- The number of operations on the device so far. -/
  ops : ℕ

/-- A stream right after the file was opened and truncated. -/
def Stream.opened : Stream := ⟨[], 0, false, 0⟩

/-- The file after bytes were written at an offset; a gap before the offset is filled with zeros. -/
def overwrite (file : List UInt8) (pos : ℕ) (bs : List UInt8) : List UInt8 :=
  file.takeD pos 0 ++ bs ++ file.drop (pos + bs.length)

/-- Writes bytes at the current offset. -/
def Stream.write (dev : Device) (s : Stream) (bs : List UInt8) : Stream :=
  if s.failed then s
  else
    let taken := bs.take (bs.length - dev.missing s.ops)
    { bytes := overwrite s.bytes s.pos taken
      pos := s.pos + taken.length
      failed := dev.missing s.ops ≠ 0
      ops := s.ops + 1 }

/-- The bytes of an array up to its first zero byte, which is what it holds as a C string. -/
def cString (bs : List UInt8) : List UInt8 := bs.takeWhile (· ≠ 0)

/-- Writes an array that is taken for a C string. -/
def Stream.writeCString (dev : Device) (s : Stream) (bs : List UInt8) : Stream :=
  s.write dev (cString bs)

/-- Moves the offset of the next write. -/
def Stream.seek (dev : Device) (s : Stream) (pos : ℕ) : Stream :=
  if s.failed then s
  else if dev.missing s.ops ≠ 0 then { s with failed := true, ops := s.ops + 1 }
  else { s with pos := pos, ops := s.ops + 1 }

/-- The file that is left when the stream is closed. -/
def Stream.close (dev : Device) (s : Stream) : List UInt8 :=
  s.bytes.take (s.bytes.length - dev.unflushed)

/-! ## Overwriting -/

/-- Writing at the end of a file appends. -/
theorem overwrite_length (file bs : List UInt8) : overwrite file file.length bs = file ++ bs := by
  have htake : file.takeD file.length 0 = file := by
    rw [List.takeD_eq_take 0 (Nat.le_refl _), List.take_length]
  rw [overwrite, htake, List.drop_eq_nil_of_le (by omega), List.append_nil]

/-- Writing at the start replaces a prefix. -/
theorem overwrite_zero (file bs : List UInt8) :
    overwrite file 0 bs = bs ++ file.drop bs.length := by
  simp [overwrite]

/-- Writing at the start what is there already changes nothing. -/
theorem overwrite_zero_prefix (bs rest : List UInt8) :
    overwrite (bs ++ rest) 0 bs = bs ++ rest := by
  rw [overwrite_zero, List.drop_left]

/-! ## Overwriting with a C string -/

/-- Overwriting an array with its own C string changes nothing. -/
theorem overwrite_cString_self (bs rest : List UInt8) :
    overwrite (bs ++ rest) 0 (cString bs) = bs ++ rest := by
  obtain ⟨tail, htail⟩ : cString bs <+: bs := List.takeWhile_prefix _
  have hsplit : bs ++ rest = cString bs ++ (tail ++ rest) := by rw [← List.append_assoc, htail]
  rw [hsplit, overwrite_zero_prefix]

/-- A C string that starts with bytes other than zero goes on after them. -/
theorem cString_append_of_ne_zero {pre : List UInt8} (h : ∀ b ∈ pre, b ≠ 0) (bs : List UInt8) :
    cString (pre ++ bs) = pre ++ cString bs := by
  unfold cString
  exact List.takeWhile_append_of_pos fun b hb => by simpa using h b hb

/-- Overwriting a file with the C string of an array that has the same constant bytes around one
field, and a zero byte after them, changes at most that field. -/
theorem overwrite_cString_field (pre old new mid post rest : List UInt8) (hpre : ∀ b ∈ pre, b ≠ 0)
    (hmid : ∀ b ∈ mid, b ≠ 0) (hlen : new.length = old.length) :
    ∃ u, u.length = old.length ∧
      overwrite (pre ++ (old ++ (mid ++ rest))) 0 (cString (pre ++ (new ++ (mid ++ 0 :: post)))) =
        pre ++ (u ++ (mid ++ rest)) := by
  rw [cString_append_of_ne_zero hpre]
  by_cases hnew : ∀ b ∈ new, b ≠ 0
  · -- The new field has no zero byte, so the string ends after the constant bytes.
    refine ⟨new, hlen, ?_⟩
    have hzero : cString (0 :: post) = [] := by simp [cString]
    rw [cString_append_of_ne_zero hnew, cString_append_of_ne_zero hmid, hzero, List.append_nil,
      overwrite_zero]
    have hdrop : (pre ++ (old ++ (mid ++ rest))).drop (pre ++ (new ++ mid)).length = rest := by
      have hsplit : pre ++ (old ++ (mid ++ rest)) = (pre ++ (old ++ mid)) ++ rest := by
        simp only [List.append_assoc]
      rw [hsplit, List.drop_left']
      simp [hlen]
    rw [hdrop]
    simp only [List.append_assoc]
  · -- The string ends at a zero byte of the new field.
    have hshort : (cString new).length ≠ new.length := by
      intro heq
      have hall : cString new = new := (List.takeWhile_prefix _).eq_of_length heq
      exact hnew fun b hb => by simpa using List.takeWhile_eq_self_iff.mp hall b hb
    have hle : (cString new).length ≤ old.length := by
      rw [← hlen]
      exact (List.takeWhile_prefix _).length_le
    have hstop : cString (new ++ (mid ++ 0 :: post)) = cString new := by
      unfold cString at hshort ⊢
      rw [List.takeWhile_append, if_neg hshort]
    refine ⟨cString new ++ old.drop (cString new).length, by simp; omega, ?_⟩
    rw [hstop, overwrite_zero, List.length_append, List.drop_length_add_append,
      List.drop_append_of_le_length hle]
    simp only [List.append_assoc]

/-! ## Writing and seeking -/

/-- A failed stream ignores writes. -/
theorem Stream.write_of_failed {dev : Device} {s : Stream} (h : s.failed = true) (bs : List UInt8) :
    s.write dev bs = s := by
  rw [Stream.write, if_pos h]

/-- A stream that has not failed after a write is one whose device took the whole write. -/
theorem Stream.write_failed_iff {dev : Device} {s : Stream} {bs : List UInt8} :
    (s.write dev bs).failed = false ↔ s.failed = false ∧ dev.missing s.ops = 0 := by
  unfold Stream.write
  cases hs : s.failed <;> simp [hs]

/-- The stream after a write that the device took. -/
theorem Stream.write_of_not_failed {dev : Device} {s : Stream} (bs : List UInt8)
    (hs : s.failed = false) (h : dev.missing s.ops = 0) :
    s.write dev bs =
      { bytes := overwrite s.bytes s.pos bs, pos := s.pos + bs.length, failed := false,
        ops := s.ops + 1 } := by
  simp [Stream.write, hs, h]

/-- A stream that has not failed after a seek is one whose device did the seek. -/
theorem Stream.seek_failed_iff {dev : Device} {s : Stream} {pos : ℕ} :
    (s.seek dev pos).failed = false ↔ s.failed = false ∧ dev.missing s.ops = 0 := by
  unfold Stream.seek
  by_cases hs : s.failed = true
  · simp [hs]
  · by_cases hm : dev.missing s.ops = 0 <;> simp [hs, hm]

/-- The stream after a seek that the device did. -/
theorem Stream.seek_of_not_failed {dev : Device} {s : Stream} {pos : ℕ}
    (hs : s.failed = false) (h : dev.missing s.ops = 0) :
    s.seek dev pos = { s with pos := pos, ops := s.ops + 1 } := by
  simp [Stream.seek, hs, h]

/-- A stream that writes at the end of its file. -/
structure Stream.AtEnd (s : Stream) : Prop where
  /-- No operation has failed. -/
  not_failed : s.failed = false
  /-- The next write appends. -/
  pos_eq : s.pos = s.bytes.length

/-- A new stream is at the end of its empty file. -/
theorem Stream.atEnd_opened : Stream.opened.AtEnd := ⟨rfl, rfl⟩

/-- A write that the device took at the end of the file appends, and the stream stays there. -/
theorem Stream.AtEnd.write_eq {dev : Device} {s : Stream} (hs : s.AtEnd) (bs : List UInt8)
    (h : dev.missing s.ops = 0) :
    s.write dev bs =
      { bytes := s.bytes ++ bs, pos := (s.bytes ++ bs).length, failed := false,
        ops := s.ops + 1 } := by
  rw [Stream.write_of_not_failed bs hs.not_failed h, hs.pos_eq, overwrite_length,
    List.length_append]

/-- Two writes that make a file: if the stream has not failed after them, the file that is left is
what they wrote, less what was lost at the close. -/
theorem Stream.close_write_write {dev : Device} {as bs : List UInt8}
    (h : ((Stream.opened.write dev as).write dev bs).failed = false) :
    ((Stream.opened.write dev as).write dev bs).close dev =
      (as ++ bs).take ((as ++ bs).length - dev.unflushed) := by
  obtain ⟨hopen, hmiss⟩ := Stream.write_failed_iff.mp h
  obtain ⟨-, hmiss₀⟩ := Stream.write_failed_iff.mp hopen
  have hfirst : Stream.opened.write dev as =
      { bytes := as, pos := as.length, failed := false, ops := 1 } :=
    Stream.atEnd_opened.write_eq as hmiss₀
  rw [hfirst] at hmiss ⊢
  have hend : Stream.AtEnd { bytes := as, pos := as.length, failed := false, ops := 1 } :=
    ⟨rfl, rfl⟩
  rw [hend.write_eq bs hmiss, Stream.close]

/-! ## A sequence of writes -/

/-- One write after the other. -/
def Stream.writeAll (dev : Device) (s : Stream) (bss : List (List UInt8)) : Stream :=
  bss.foldl (Stream.write dev) s

@[simp] theorem Stream.writeAll_nil (dev : Device) (s : Stream) : s.writeAll dev [] = s := rfl

@[simp] theorem Stream.writeAll_cons (dev : Device) (s : Stream) (bs : List UInt8)
    (bss : List (List UInt8)) : s.writeAll dev (bs :: bss) = (s.write dev bs).writeAll dev bss :=
  rfl

/-- A failed stream ignores all of them. -/
theorem Stream.writeAll_of_failed {dev : Device} {s : Stream} (h : s.failed = true)
    (bss : List (List UInt8)) : s.writeAll dev bss = s := by
  induction bss with
  | nil => rfl
  | cons bs bss ih => rw [Stream.writeAll_cons, Stream.write_of_failed h, ih]

/-- Writes that the device takes at the end of the file append what they write. -/
theorem Stream.AtEnd.writeAll_bytes {dev : Device} {s : Stream} (hs : s.AtEnd)
    {bss : List (List UInt8)} (h : ∀ k < bss.length, dev.missing (s.ops + k) = 0) :
    (s.writeAll dev bss).bytes = s.bytes ++ bss.flatten := by
  induction bss generalizing s with
  | nil => rw [Stream.writeAll_nil, List.flatten_nil, List.append_nil]
  | cons bs bss ih =>
    have hwrite := hs.write_eq bs (h 0 (Nat.succ_pos _))
    have hrest : ∀ k < bss.length, dev.missing (s.ops + 1 + k) = 0 := by
      intro k hk
      have hnext := h (k + 1) (Nat.succ_lt_succ hk)
      rwa [Nat.add_comm k, ← Nat.add_assoc] at hnext
    rw [Stream.writeAll_cons, hwrite, ih ⟨rfl, rfl⟩ hrest, List.flatten_cons, List.append_assoc]

/-- A write that the device does not take whole leaves fewer bytes than were written. -/
theorem Stream.AtEnd.writeAll_length_lt {dev : Device} {s : Stream} (hs : s.AtEnd)
    {bss : List (List UInt8)} (hpos : ∀ bs ∈ bss, 0 < bs.length) {k : ℕ} (hk : k < bss.length)
    (h : dev.missing (s.ops + k) ≠ 0) :
    (s.writeAll dev bss).bytes.length < s.bytes.length + bss.flatten.length := by
  induction bss generalizing s k with
  | nil => exact absurd hk (Nat.not_lt_zero k)
  | cons bs bss ih =>
    have hbs := hpos bs List.mem_cons_self
    rw [Stream.writeAll_cons, List.flatten_cons, List.length_append]
    by_cases hfirst : dev.missing s.ops = 0
    · obtain _ | k := k
      · exact absurd hfirst h
      · have hwrite := hs.write_eq bs hfirst
        have hnext : dev.missing (s.ops + 1 + k) ≠ 0 := by
          rwa [Nat.add_assoc, Nat.add_comm 1 k]
        have hlt := ih (s := s.write dev bs) (by rw [hwrite]; exact ⟨rfl, rfl⟩)
          (fun bs h => hpos bs (List.mem_cons_of_mem _ h)) (Nat.lt_of_succ_lt_succ hk)
          (by rw [hwrite]; exact hnext)
        have hlen : (s.bytes ++ bs).length = s.bytes.length + bs.length := List.length_append
        rw [hwrite] at hlt ⊢
        dsimp only at hlt
        omega
    · -- The first write fails, and nothing is written after it.
      have hfailed : (s.write dev bs).failed = true := by
        rw [← Bool.not_eq_false]
        exact fun hopen => hfirst (Stream.write_failed_iff.mp hopen).2
      have hbytes : (s.write dev bs).bytes.length < s.bytes.length + bs.length := by
        have hshort : (bs.take (bs.length - dev.missing s.ops)).length < bs.length := by
          rw [List.length_take]
          omega
        rw [Stream.write, if_neg (by rw [hs.not_failed]; exact Bool.false_ne_true)]
        dsimp only
        rw [hs.pos_eq, overwrite_length, List.length_append]
        omega
      rw [Stream.writeAll_of_failed hfailed]
      omega

/-- The file that is left after writes that are not empty is what they wrote exactly if there was
none, or the device took them all and lost nothing at the close. -/
theorem Stream.close_writeAll_iff {dev : Device} {bss : List (List UInt8)}
    (hpos : ∀ bs ∈ bss, 0 < bs.length) :
    (Stream.opened.writeAll dev bss).close dev = bss.flatten ↔
      bss = [] ∨ (dev.unflushed = 0 ∧ ∀ k < bss.length, dev.missing k = 0) := by
  have hops (k : ℕ) : Stream.opened.ops + k = k := Nat.zero_add k
  have hempty : Stream.opened.bytes = [] := rfl
  rcases eq_or_ne bss [] with rfl | hne
  · exact ⟨fun _ => Or.inl rfl, fun _ => by simp [Stream.close, hempty]⟩
  have hflatten : 0 < bss.flatten.length := by
    obtain ⟨bs, bss, rfl⟩ := List.exists_cons_of_ne_nil hne
    have hbs := hpos bs List.mem_cons_self
    rw [List.flatten_cons, List.length_append]
    omega
  by_cases hmissing : ∀ k < bss.length, dev.missing k = 0
  · have htaken : ∀ k < bss.length, dev.missing (Stream.opened.ops + k) = 0 := by
      intro k hk
      rw [hops, hmissing k hk]
    have hbytes := Stream.atEnd_opened.writeAll_bytes htaken
    rw [hempty, List.nil_append] at hbytes
    rw [Stream.close, hbytes, List.take_eq_self_iff]
    constructor
    · intro hlen
      exact Or.inr ⟨by omega, hmissing⟩
    · rintro (hnil | ⟨hflush, -⟩)
      · exact absurd hnil hne
      · omega
  · obtain ⟨k, hk, hlost⟩ : ∃ k < bss.length, dev.missing k ≠ 0 := by
      by_contra hnone
      exact hmissing fun k hk => by_contra fun hlost => hnone ⟨k, hk, hlost⟩
    have hlt := Stream.atEnd_opened.writeAll_length_lt hpos hk (by rwa [hops])
    rw [hempty, List.length_nil, Nat.zero_add] at hlt
    constructor
    · intro heq
      have hlen := congrArg List.length heq
      rw [Stream.close, List.length_take] at hlen
      omega
    · rintro (hnil | ⟨-, hall⟩)
      · exact absurd hnil hne
      · exact absurd hall hmissing

end OutStream
