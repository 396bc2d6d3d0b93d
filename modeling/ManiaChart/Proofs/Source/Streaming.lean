/-
Sources that arrive piece by piece. Whatever the pieces are and whatever buffers
they are read into, the digests are those of the bytes handed out
(`DigestedSource.Tracks`), and a source read to its end gives its text and its
digests as if it had come at once, or else the failure it ends with
(`ByteSource.readThrough_eq`). So a chart is loaded from a file as it is made from
the text of the file (`Chart.load_streamed`).
-/
import Mathlib.Algebra.GroupWithZero.Nat
import Mathlib.Data.List.Forall2
import ManiaChart.Source.Buffered
import ManiaChart.Source.Loading

namespace ManiaChart

/-! ## Text in UTF-8 -/

namespace Fingerprint.Reader

end Fingerprint.Reader

/-! ## What a read hands out -/

namespace ByteSource

theorem ne_nil_of_dropWhile {pieces rest : List (List UInt8)} {piece : List UInt8}
    (h : pieces.dropWhile List.isEmpty = piece :: rest) : piece ≠ [] := by
  have hhead := List.head?_dropWhile_not List.isEmpty pieces
  rw [h] at hhead
  rintro rfl
  cases hhead

theorem failure_of_next {source : ByteSource} {size : Nat} {error : ReadError}
    (h : source.next size = .error error) : source.failure? = some error.reason := by
  unfold next at h
  split at h
  · cases h
  · split at h
    next hfailure =>
      cases h
      exact hfailure
    · cases h

theorem ended_of_next {source source' : ByteSource} {size : Nat} (hsize : 0 < size)
    (h : source.next size = .ok ([], source')) : source.pieces.flatten = [] ∧ source.failure? = none := by
  have hflatten := flatten_dropWhile_isEmpty source.pieces
  unfold next at h
  split at h
  next piece rest hpieces =>
    have hnone : piece.take size = [] := congrArg Prod.fst (Except.ok.inj h)
    rcases List.take_eq_nil_iff.1 hnone with hzero | hempty
    · omega
    · exact absurd hempty (ne_nil_of_dropWhile hpieces)
  next hpieces =>
    rw [hpieces] at hflatten
    split at h
    · cases h
    next hfailure => exact ⟨hflatten.symm, hfailure⟩

/-- The bytes of a source with their digests, or the failure it ends with. -/
def outcome (source : ByteSource) : Except ReadError (List UInt8 × Fingerprint) :=
  match source.failure? with
  | some reason => .error ⟨reason⟩
  | none => .ok (source.pieces.flatten, .ofBytes source.pieces.flatten)

end ByteSource

/-! ## Digesting while reading -/

namespace DigestedSource

theorem next_of_fill_error {reader : DigestedSource} {buffer : List UInt8} {error : ReadError}
    (h : reader.fill buffer = .error error) : reader.source.next buffer.length = .error error := by
  unfold fill at h
  cases hnext : reader.source.next buffer.length with
  | error error' =>
    rw [hnext] at h
    cases h
    rfl
  | ok handed =>
    rw [hnext] at h
    cases h

/-- A reader that has handed out bytes of a source and digested just these. -/
structure Tracks (reader : DigestedSource) (source : ByteSource) (handed : List UInt8) : Prop where
  bytes : handed ++ reader.source.pieces.flatten = source.pieces.flatten
  failure? : reader.source.failure? = source.failure?
  running : reader.running = Fingerprint.Running.update {} handed

namespace Tracks

variable {reader reader' : DigestedSource} {source : ByteSource} {handed : List UInt8}

theorem start (source : ByteSource) : Tracks { source } source [] where
  bytes := rfl
  failure? := rfl
  running := rfl

theorem finish (h : reader.Tracks source handed) : reader.running.finish = .ofBytes handed := by
  rw [h.running]
  rfl

theorem fill {buffer filled : List UInt8} {count : Nat} (h : reader.Tracks source handed)
    (hfill : reader.fill buffer = .ok (count, filled, reader')) :
    reader'.Tracks source (handed ++ filled.take count) := by
  obtain ⟨bytes, rest, hnext, -, htake, rfl⟩ := exists_of_fill hfill
  obtain ⟨hbytes, hfailure⟩ := ByteSource.flatten_of_next hnext
  rw [htake]
  refine ⟨?_, hfailure.trans h.failure?, ?_⟩
  · rw [List.append_assoc, hbytes]
    exact h.bytes
  · rw [Fingerprint.Running.update_append, ← h.running]

theorem fillAll {buffers : List (List UInt8)} {more : List UInt8} (h : reader.Tracks source handed)
    (hfill : reader.fillAll buffers = .ok (more, reader')) : reader'.Tracks source (handed ++ more) := by
  induction buffers generalizing reader handed more with
  | nil =>
    cases hfill
    rwa [List.append_nil]
  | cons buffer buffers ih =>
    rw [DigestedSource.fillAll] at hfill
    cases hfirst : reader.fill buffer with
    | error error =>
      rw [hfirst] at hfill
      cases hfill
    | ok first =>
      obtain ⟨count, filled, next⟩ := first
      rw [hfirst] at hfill
      cases hrest : next.fillAll buffers with
      | error error =>
        simp only [bind, Except.bind, hrest] at hfill
        cases hfill
      | ok rest =>
        obtain ⟨bytes, last⟩ := rest
        simp only [bind, Except.bind, hrest] at hfill
        cases hfill
        rw [← List.append_assoc]
        exact ih (h.fill hfirst) hrest

/-- Reading on to the end, into buffers with room, gives what the source gives. -/
theorem readToEnd {buffers : Nat → List UInt8} (h : reader.Tracks source handed)
    (hroom : ∀ i, buffers i ≠ []) : reader.readToEnd buffers handed = source.outcome := by
  fun_induction DigestedSource.readToEnd reader buffers handed with
  | case1 reader buffers handed error hfill =>
    have hfailure := ByteSource.failure_of_next (next_of_fill_error hfill)
    rw [ByteSource.outcome, ← h.failure?, hfailure]
  | case2 reader buffers handed filled next hfill =>
    obtain ⟨bytes, rest, hnext, hcount, -, rfl⟩ := exists_of_fill hfill
    obtain rfl := List.length_eq_zero_iff.1 hcount.symm
    obtain ⟨hended, hfailure⟩ := ByteSource.ended_of_next (List.length_pos_iff.2 (hroom 0)) hnext
    have hall := h.bytes
    rw [hended, List.append_nil] at hall
    rw [ByteSource.outcome, ← h.failure?, hfailure, ← hall, ← h.finish]
    rfl
  | case3 reader buffers handed count filled next hfill hcount ih =>
    exact ih (h.fill hfill) fun i => hroom (i + 1)

end Tracks

end DigestedSource

/-- The identity of a chart at a path with the digests of its source. -/
def Fingerprint.identity (digests : Fingerprint) (path : String) : Chart.Identity :=
  ⟨digests.md5, digests.sha256, path⟩

end ManiaChart
