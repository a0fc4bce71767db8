/-
# A pipe and the reader behind it

What a process writes goes into a pipe of the kernel, as far as that takes it; an event loop
moves it from there into the buffer of a reader, and a coroutine reads from that buffer.  The
loop leaves the pipe alone (`pause_reading`) while the buffer is longer than twice its limit,
until a read has left no more than the limit.

`Channel` is the two of them, with any kind of content.  Nothing is lost on the way
(`content_write`, `content_transport`, `content_read`), the buffer is bounded (`Ok`), and
`Ok.exists_next` is what the progress of a whole system rests on: where there is something,
the loop can move it or the coroutine can read.
-/

import Boveda.Lib.KernelPipe

namespace Boveda
namespace Lib

/-- A pipe and the buffer of its reader. -/
structure Channel (S : ReadPipe) (α : Type*) where
  inPipe : List α := []
  /-- How the kernel keeps it. -/
  kernel : S.kernel.Contents := S.kernel.empty
  buffer : List α := []
  paused : Bool := false
  /-- Nobody can write into the pipe any more. -/
  closed : Bool := false

namespace Channel

variable {α : Type*} {S : ReadPipe} (c : Channel S α)

/-- What has been written and not been read. -/
def content : List α := c.buffer ++ c.inPipe

/-- Each byte counts once for every move it has still to make, and so does an open end. -/
def weight : ℕ := 2 * c.inPipe.length + c.buffer.length + (!c.closed).toNat

/-- As much of a write as the pipe takes, and the rest of it. -/
def write (data : List α) : Option (List α × Channel S α) :=
  let count := S.kernel.takes c.kernel data.length
  if c.closed = false ∧ count ≠ 0 then
    some (data.drop count, { c with
      inPipe := c.inPipe ++ data.take count
      kernel := S.kernel.put c.kernel data.length })
  else none

/-- The event loop reads that much of the pipe (`feed_data`). -/
def transport (count : ℕ) : Option (Channel S α) :=
  if c.paused = false ∧ 0 < count ∧ count ≤ min S.readMax c.inPipe.length then
    some { c with
      inPipe := c.inPipe.drop count
      kernel := S.kernel.get c.kernel count
      buffer := c.buffer ++ c.inPipe.take count
      paused := 2 * S.limit < c.buffer.length + count }
  else none

/-- `read(count)`, for a count that is not zero: what there is, or nothing at the end. -/
def read (count : ℕ) : Option (List α × Channel S α) :=
  if c.buffer ≠ [] then
    some (c.buffer.take count, { c with
      buffer := c.buffer.drop count
      paused := c.paused && S.limit < (c.buffer.drop count).length })
  else if c.closed = true ∧ c.inPipe = [] then some ([], c)
  else none

/-- The last writer is gone. -/
def close : Channel S α := { c with closed := true }

/-- What a channel keeps. -/
structure Ok : Prop where
  length_kernel : S.kernel.length c.kernel = c.inPipe.length
  buffer_le : c.paused = false → c.buffer.length ≤ 2 * S.limit
  lt_buffer : c.paused = true → S.limit < c.buffer.length
  bounded : c.buffer.length ≤ 2 * S.limit + S.readMax

variable {c} {c' : Channel S α} {data rest : List α} {count : ℕ}

theorem ok_empty : ({} : Channel S α).Ok where
  length_kernel := S.kernel.length_empty
  buffer_le _ := Nat.zero_le _
  lt_buffer h := nomatch h
  bounded := Nat.zero_le _

/-! ### The moves, one by one -/

/-- Something of the write goes in, and what does not is left of it. -/
theorem write_eq_some (h : c.write data = some (rest, c')) : ∃ written, written ≠ [] ∧
    written ++ rest = data ∧ c.closed = false ∧ c' = { c with
      inPipe := c.inPipe ++ written
      kernel := S.kernel.put c.kernel data.length } ∧
    S.kernel.length c'.kernel = S.kernel.length c.kernel + written.length := by
  have hle := S.kernel.takes_le c.kernel data.length
  rw [write, ite_eq_iff] at h
  obtain ⟨⟨hclosed, hzero⟩, h⟩ | ⟨-, h⟩ := h
  · obtain ⟨rfl, rfl⟩ := Prod.mk.inj (Option.some.inj h)
    have hlength := List.length_take_of_le hle
    refine ⟨_, List.ne_nil_of_length_pos ?_, List.take_append_drop .., hclosed, rfl, ?_⟩
    · rw [hlength]
      exact Nat.pos_of_ne_zero hzero
    · rw [hlength]
      exact S.kernel.length_put ..
  · cases h

theorem transport_eq_some (h : c.transport count = some c') : c.paused = false ∧ 0 < count ∧
    count ≤ S.readMax ∧ count ≤ c.inPipe.length ∧ c' = { c with
      inPipe := c.inPipe.drop count
      kernel := S.kernel.get c.kernel count
      buffer := c.buffer ++ c.inPipe.take count
      paused := 2 * S.limit < c.buffer.length + count } := by
  rw [transport, ite_eq_iff] at h
  obtain ⟨⟨hpaused, hpos, hle⟩, h⟩ | ⟨-, h⟩ := h
  · exact ⟨hpaused, hpos, hle.trans (min_le_left _ _), hle.trans (min_le_right _ _),
      (Option.some.inj h).symm⟩
  · cases h

/-- A read returns a part of the buffer, or finds the end. -/
theorem read_eq_some (h : c.read count = some (data, c')) :
    c.buffer ≠ [] ∧ data = c.buffer.take count ∧ c' = { c with
      buffer := c.buffer.drop count
      paused := c.paused && S.limit < (c.buffer.drop count).length } ∨
    (c.buffer = [] ∧ c.inPipe = [] ∧ c.closed = true) ∧ data = [] ∧ c' = c := by
  rw [read, ite_eq_iff, ite_eq_iff] at h
  obtain ⟨hbuffer, h⟩ | ⟨hbuffer, ⟨⟨hclosed, hpipe⟩, h⟩ | ⟨-, h⟩⟩ := h
  · obtain ⟨rfl, rfl⟩ := Prod.mk.inj (Option.some.inj h)
    exact .inl ⟨hbuffer, rfl, rfl⟩
  · obtain ⟨rfl, rfl⟩ := Prod.mk.inj (Option.some.inj h)
    exact .inr ⟨⟨not_not.1 hbuffer, hpipe, hclosed⟩, rfl, rfl⟩
  · cases h

/-- Only the end is an empty read. -/
theorem ended_of_read_nil (hcount : 0 < count) (h : c.read count = some ([], c')) :
    c.buffer = [] ∧ c.inPipe = [] ∧ c.closed = true := by
  obtain ⟨hbuffer, htake, -⟩ | ⟨hended, -⟩ := read_eq_some h
  · rcases List.take_eq_nil_iff.1 htake.symm with hzero | hnil
    · exact absurd hzero hcount.ne'
    · exact absurd hnil hbuffer
  · exact hended

theorem closed_write (h : c.write data = some (rest, c')) : c'.closed = c.closed := by
  obtain ⟨_, -, -, -, rfl, -⟩ := write_eq_some h
  rfl

theorem closed_transport (h : c.transport count = some c') : c'.closed = c.closed := by
  obtain ⟨-, -, -, -, rfl⟩ := transport_eq_some h
  rfl

theorem closed_read (h : c.read count = some (data, c')) : c'.closed = c.closed := by
  obtain ⟨-, -, rfl⟩ | ⟨-, -, rfl⟩ := read_eq_some h <;> rfl

/-! ### Nothing is lost -/

theorem content_write (h : c.write data = some (rest, c')) :
    c'.content = c.content ++ data.take (data.length - rest.length) := by
  obtain ⟨written, -, rfl, -, rfl, -⟩ := write_eq_some h
  rw [List.length_append, Nat.add_sub_cancel, List.take_left, content, content, List.append_assoc]

theorem content_transport (h : c.transport count = some c') : c'.content = c.content := by
  obtain ⟨-, -, -, -, rfl⟩ := transport_eq_some h
  simp only [content, List.append_assoc, List.take_append_drop]

theorem content_read (h : c.read count = some (data, c')) : data ++ c'.content = c.content := by
  obtain ⟨-, rfl, rfl⟩ | ⟨-, rfl, rfl⟩ := read_eq_some h
  · simp only [content, ← List.append_assoc, List.take_append_drop]
  · rfl

@[simp] theorem content_close : c.close.content = c.content := rfl

theorem weight_close : c.close.weight + (!c.closed).toNat = c.weight := rfl

theorem weight_write (h : c.write data = some (rest, c')) :
    c'.weight + 2 * rest.length = c.weight + 2 * data.length ∧ rest.length < data.length := by
  obtain ⟨written, hwritten, rfl, -, rfl, -⟩ := write_eq_some h
  have hpos := List.length_pos_iff.2 hwritten
  simp only [weight, List.length_append]
  omega

theorem weight_transport (h : c.transport count = some c') : c'.weight < c.weight := by
  obtain ⟨-, hpos, -, hle, rfl⟩ := transport_eq_some h
  simp only [weight, List.length_append, List.length_drop, List.length_take_of_le hle]
  omega

theorem weight_read (h : c.read count = some (data, c')) :
    c'.weight + data.length = c.weight := by
  obtain ⟨-, rfl, rfl⟩ | ⟨-, rfl, rfl⟩ := read_eq_some h
  · have htake : min count c.buffer.length + (c.buffer.length - count) = c.buffer.length := by omega
    simp only [weight, List.length_drop, List.length_take]
    omega
  · rfl

/-! ### What is kept -/

theorem Ok.write (hc : c.Ok) (h : c.write data = some (rest, c')) : c'.Ok := by
  obtain ⟨written, -, -, -, rfl, hput⟩ := write_eq_some h
  refine ⟨hput.trans ?_, hc.buffer_le, hc.lt_buffer, hc.bounded⟩
  rw [hc.length_kernel, List.length_append]

theorem Ok.transport (hc : c.Ok) (h : c.transport count = some c') : c'.Ok := by
  obtain ⟨hpaused, -, hmax, hle, rfl⟩ := transport_eq_some h
  have hbuffer := hc.buffer_le hpaused
  have hlen : (c.buffer ++ c.inPipe.take count).length = c.buffer.length + count := by
    rw [List.length_append, List.length_take_of_le hle]
  refine ⟨?_, fun hp => ?_, fun hp => ?_, ?_⟩
  · rw [List.length_drop, ← hc.length_kernel]
    exact S.kernel.length_get _ _ (hle.trans hc.length_kernel.ge)
  · rw [hlen]
    exact Nat.not_lt.1 (of_decide_eq_false hp)
  · rw [hlen]
    exact lt_of_le_of_lt (Nat.le_mul_of_pos_left _ two_pos) (of_decide_eq_true hp)
  · rw [hlen]
    exact Nat.add_le_add hbuffer hmax

theorem Ok.read (hc : c.Ok) (h : c.read count = some (data, c')) : c'.Ok := by
  obtain ⟨-, -, rfl⟩ | ⟨-, -, rfl⟩ := read_eq_some h
  · have hlen : (c.buffer.drop count).length ≤ c.buffer.length := by
      rw [List.length_drop]
      exact Nat.sub_le ..
    refine ⟨hc.length_kernel, fun hp => ?_, fun hp => ?_, hlen.trans hc.bounded⟩
    · rcases Bool.and_eq_false_iff.1 hp with hp | hp
      · exact hlen.trans (hc.buffer_le hp)
      · exact (Nat.not_lt.1 (of_decide_eq_false hp)).trans (Nat.le_mul_of_pos_left _ two_pos)
    · exact of_decide_eq_true (Bool.and_eq_true_iff.1 hp).2
  · exact hc

theorem Ok.close (hc : c.Ok) : c.close.Ok :=
  ⟨hc.length_kernel, hc.buffer_le, hc.lt_buffer, hc.bounded⟩

/-! ### Something can be done -/

theorem exists_write (hclosed : c.closed = false)
    (htakes : S.kernel.takes c.kernel data.length ≠ 0) :
    ∃ rest c', c.write data = some (rest, c') :=
  ⟨_, _, if_pos ⟨hclosed, htakes⟩⟩

/-- A write is blocked only by what is in the pipe. -/
theorem Ok.inPipe_ne (hc : c.Ok) (hdata : data ≠ [])
    (hblocked : S.kernel.takes c.kernel data.length = 0) : c.inPipe ≠ [] := by
  intro hnil
  have hlength := hc.length_kernel
  rw [hnil] at hlength
  exact (S.kernel.takes_pos _ _ hlength (List.length_pos_iff.2 hdata)).ne' hblocked

theorem exists_read (hbuffer : c.buffer ≠ []) (count : ℕ) :
    ∃ data c', c.read count = some (data, c') :=
  ⟨_, _, if_pos hbuffer⟩

/-- The end can be read. -/
theorem read_at_end (hbuffer : c.buffer = []) (hpipe : c.inPipe = [])
    (hclosed : c.closed = true) (count : ℕ) : c.read count = some ([], c) := by
  rw [read, if_neg (not_not.2 hbuffer), if_pos ⟨hclosed, hpipe⟩]

/-- **Where there is something in the pipe**, the loop can read it, or the coroutine what is in
the buffer. -/
theorem Ok.exists_next (hc : c.Ok) (hpipe : c.inPipe ≠ []) :
    (∃ c', c.transport 1 = some c') ∨ c.paused = true ∧ c.buffer ≠ [] := by
  cases hpaused : c.paused with
  | false =>
    exact .inl ⟨_, if_pos ⟨hpaused, one_pos,
      le_min S.readMax_pos (List.length_pos_iff.2 hpipe)⟩⟩
  | true =>
    exact .inr ⟨rfl, List.ne_nil_of_length_pos ((Nat.zero_le _).trans_lt (hc.lt_buffer hpaused))⟩

end Channel
end Lib
end Boveda
