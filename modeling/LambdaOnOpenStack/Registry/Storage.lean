import LambdaOnOpenStack.Registry.Changes
import Mathlib.Data.List.FinRange

/-!
# Stored files

A file is stored when the database has its document and each of its chunks.
Reading a stored file returns the bytes of its upload.
-/

namespace LambdaOnOpenStack

open Support Program

namespace GridFS

variable {size : ℕ} {hsize : 0 < size} {files_id : ObjectId} {content : Bytes}

/-- The chunks of one file have different numbers. -/
theorem split_keys_nodup :
    ((split size hsize files_id content).map
      fun c => (c.files_id, c.n)).Nodup := by
  rw [split, List.map_ofFn]
  apply List.nodup_ofFn.mpr
  intro i j hij
  have hn : (i : ℕ) = j := by simpa using hij
  exact Fin.ext hn

variable (hsize files_id) in
theorem find?_split {n : ℕ} (hn : n < chunkCount size content.length) :
    ∃ c, (split size hsize files_id content).find?
        (fun c => c.files_id = files_id ∧ c.n = n) = some c ∧
      c.data = chunkData size content n := by
  let c : ChunkDoc :=
    { files_id := files_id
      n := n
      data := chunkData size content n
      nonempty := chunkData_ne_nil hsize hn }
  have hc : c ∈ split size hsize files_id content :=
    List.mem_ofFn.mpr ⟨⟨n, hn⟩, rfl⟩
  have hfind := find?_key_eq_some split_keys_nodup hc
  refine ⟨c, ?_, rfl⟩
  rw [← hfind]
  congr 1
  funext d
  simp [c, Prod.ext_iff]

end GridFS

namespace Registry

/-- The database holds the document `f` and every chunk of `content` for it. -/
structure Stores (P : Platform) (r : Registry) (f : FileDoc)
    (content : Bytes) : Prop where
  length : f.length = content.length
  chunkSize : f.chunkSize = P.chunkSize
  chunk : ∀ n < GridFS.chunkCount P.chunkSize content.length,
    ∃ c, r.findChunk f._id n = some c ∧
      c.data = GridFS.chunkData P.chunkSize content n

variable {P : Platform} {r : Registry} {f : FileDoc} {content : Bytes}

/-- After `n` chunks the loop has the first `n * P.chunkSize` bytes. -/
theorem run_readLoop_stores (hstores : r.Stores P f content) {w : World}
    (hw : w.registry = r) (fuel n : ℕ)
    (hfuel : content.length ≤ n * P.chunkSize + fuel) :
    (readLoop f._id content.length fuel n
      (content.take (n * P.chunkSize))).run w = (.ok content, w) := by
  induction fuel generalizing n with
  | zero =>
      have hall : content.take (n * P.chunkSize) = content :=
        List.take_of_length_le (by omega)
      simp [readLoop, hall]
  | succ fuel ih =>
      by_cases hmore : n * P.chunkSize < content.length
      · have hlength : (content.take (n * P.chunkSize)).length <
            content.length := by
          rw [List.length_take]
          omega
        obtain ⟨c, hfind, hdata⟩ := hstores.chunk n
          ((GridFS.lt_chunkCount_iff P.chunkSize_pos).mpr hmore)
        have hnext : content.take (n * P.chunkSize) ++ c.data =
            content.take ((n + 1) * P.chunkSize) := by
          rw [hdata, GridFS.chunkData, Nat.succ_mul, List.take_add]
        have hpos := P.chunkSize_pos
        have hrest := ih (n + 1) (by
          rw [Nat.succ_mul]
          omega)
        simpa [readLoop, -List.length_take, hlength, hmore, hw, hfind, hnext]
          using hrest
      · have hall : content.take (n * P.chunkSize) = content :=
          List.take_of_length_le (by omega)
        simp [readLoop, hall]

theorem content_of_stores (hfile : r.findFile f._id = some f)
    (hstores : r.Stores P f content) : r.content f._id = .ok content := by
  have hloop := run_readLoop_stores hstores
    (w := { registry := r }) rfl content.length 0 (by omega)
  simp only [Nat.zero_mul, List.take_zero] at hloop
  simp [Registry.content, readFile, hfile, hstores.length, hloop]

/-- A file stays stored as long as its chunks can be found. -/
theorem Stores.of_findChunk {r' : Registry} (hstores : r.Stores P f content)
    (hsame : ∀ n c, r.findChunk f._id n = some c →
      r'.findChunk f._id n = some c) : r'.Stores P f content := by
  refine ⟨hstores.length, hstores.chunkSize, ?_⟩
  intro n hn
  obtain ⟨c, hfind, hdata⟩ := hstores.chunk n hn
  exact ⟨c, hsame n c hfind, hdata⟩

end Registry

end LambdaOnOpenStack
