import LambdaOnOpenStack.Registry.Documents
import Mathlib.Data.List.OfFn
import Mathlib.Tactic.Linarith

/-!
# GridFS

An upload cuts its content into chunks numbered from zero and then inserts the
file document.  Reading a file looks up its document and then its chunks, one
query each, until as many bytes are there as the document announces.
-/

namespace LambdaOnOpenStack

open Support

/-! ## Cutting content into chunks -/

namespace GridFS

/-- The number of chunks of a file. -/
def chunkCount (size length : ℕ) : ℕ := (length + size - 1) / size

/-- The data of chunk `n`. -/
def chunkData (size : ℕ) (content : Bytes) (n : ℕ) : Bytes :=
  (content.drop (n * size)).take size

theorem lt_chunkCount_iff {size length n : ℕ} (hsize : 0 < size) :
    n < chunkCount size length ↔ n * size < length := by
  have hexpand : (n + 1) * size = n * size + size := Nat.succ_mul n size
  rw [chunkCount, ← Nat.succ_le_iff, Nat.le_div_iff_mul_le hsize]
  simp only [Nat.succ_eq_add_one]
  omega

theorem chunkData_ne_nil {size n : ℕ} {content : Bytes} (hsize : 0 < size)
    (hn : n < chunkCount size content.length) :
    chunkData size content n ≠ [] := by
  have hlt := (lt_chunkCount_iff hsize).mp hn
  apply List.ne_nil_of_length_pos
  simp only [chunkData, List.length_take, List.length_drop]
  omega

/-- The chunk documents of a file, in the order of their insertion. -/
def split (size : ℕ) (hsize : 0 < size) (files_id : ObjectId)
    (content : Bytes) : List ChunkDoc :=
  List.ofFn fun i : Fin (chunkCount size content.length) =>
    { files_id := files_id
      n := i
      data := chunkData size content i
      nonempty := chunkData_ne_nil hsize i.isLt }

theorem mem_split {size : ℕ} {hsize : 0 < size} {files_id : ObjectId}
    {content : Bytes} {c : ChunkDoc} (hc : c ∈ split size hsize files_id content) :
    c.files_id = files_id := by
  obtain ⟨i, rfl⟩ := List.mem_ofFn.mp hc
  rfl

end GridFS

/-! ## Steps -/

namespace Registry

def findFile (r : Registry) (_id : ObjectId) : Option FileDoc :=
  r.files.find? fun f => f._id = _id

def findChunk (r : Registry) (files_id : ObjectId) (n : ℕ) : Option ChunkDoc :=
  r.chunks.find? fun c => c.files_id = files_id ∧ c.n = n

end Registry

namespace World

/-- Change the database only. -/
def onRegistry (f : Registry → Registry) (w : World) : World :=
  { w with registry := f w.registry }

@[simp] theorem onRegistry_registry (f : Registry → Registry) (w : World) :
    (w.onRegistry f).registry = f w.registry := rfl

@[simp] theorem onRegistry_host (f : Registry → Registry) (w : World) :
    (w.onRegistry f).host = w.host := rfl

@[simp] theorem onRegistry_deployed (f : Registry → Registry) (w : World) :
    (w.onRegistry f).deployed = w.deployed := rfl

end World

/-- Generate an ObjectId. -/
def freshId (P : Platform) : Handler ObjectId :=
  .atomic
    (World.onRegistry fun r => { r with issued := r.issued + 1 })
    fun w => .done (P.newId w.registry.issued)

def insertChunk (c : ChunkDoc) : Handler Unit :=
  .modify (World.onRegistry fun r => { r with chunks := r.chunks ++ [c] })

def insertFile (f : FileDoc) (content : Bytes) : Handler Unit :=
  .modify (World.onRegistry fun r =>
    { r with
      files := r.files ++ [f]
      uploads := r.uploads ++ [(f._id, content)] })

/-- `upload_from_stream`: chunks first, the file document last. -/
def uploadFromStream (P : Platform) (filename : String) (content : Bytes)
    (metadata : String) : Handler Unit := do
  let _id ← freshId P
  Program.forEach insertChunk
    (GridFS.split P.chunkSize P.chunkSize_pos _id content)
  insertFile
    { _id := _id
      filename := filename
      metadata := metadata
      length := content.length
      chunkSize := P.chunkSize } content

/-- The loop of `GridOut.read`.  A chunk has data, so `fuel` covers every
iteration once it is at least the number of bytes still missing. -/
def readLoop (_id : ObjectId) (size : ℕ) :
    (fuel chunk_number : ℕ) → (data : Bytes) → Handler Bytes
  | 0, _, data => .done (data.take size)
  | fuel + 1, chunk_number, data =>
      if data.length < size then
        .atomic id fun w =>
          match w.registry.findChunk _id chunk_number with
          | none => .raised (.corruptGridFile chunk_number)
          | some chunk =>
              readLoop _id size fuel (chunk_number + 1) (data ++ chunk.data)
      else .done (data.take size)

/-- `fs.get(objId).read()`. -/
def readFile (objId : ObjectId) : Handler Bytes :=
  .atomic id fun w =>
    match w.registry.findFile objId with
    | none => .raised (.noFile objId)
    | some f => readLoop objId f.length f.length 0 []

end LambdaOnOpenStack
