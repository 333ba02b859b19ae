import NusaKernel.Lib.Coverage
import NusaKernel.Vm.Pmm

/-!
# The miniheap

`lib/heap/miniheap/miniheap.c` on a 64-bit target. The free chunks are in a list, each known by its
address and length, and in front of each allocation is a header with the chunk it was cut from. A
chunk is a span of addresses. The debug level, which decides whether a header has a magic number, is
a parameter, and so is what `page_alloc` returns.

The free list and the headers are in the memory of the heap: a free chunk has its list node at its
beginning, and an allocation its header in front of the pointer. Both are inside their chunk, so
that they are kept here as a list of spans and a list of headers by pointer. A call that would make
a chunk too short for its list node, or insert one over the next, has no result. The other
assertions are in no build and stop nothing here. The fill patterns of `DEBUG_HEAP` are left out.
-/

namespace NusaKernel.Miniheap

open Word

/-- `sizeof(struct free_heap_chunk)`. -/
def freeHeapChunkSize : ℕ := 24

/-- `sizeof(struct alloc_struct_begin)`, which has a magic number at debug levels above one. -/
def headerSize (debug : Bool) : ℕ := if debug then 24 else 16

/-- `sizeof(void *)`. -/
def pointerSize : ℕ := 8

/-- `struct alloc_struct_begin`, with the pointer it is in front of. -/
structure Header where
  ptr : ℕ
  chunk : Span

/-- `struct heap`, with the headers of the allocations. -/
structure Heap where
  base : ℕ
  len : ℕ
  remaining : ℕ
  lowWatermark : ℕ
  freeList : List Span
  headers : List Header

/-! ## The free list -/

/-- Put a chunk in front of the chunks after it, merging it with the next one if they touch. -/
def mergeNext (chunk : Span) : List Span → List Span
  | [] => [chunk]
  | next :: rest =>
    if chunk.start + chunk.len = next.start then ⟨chunk.start, chunk.len + next.len⟩ :: rest
    else chunk :: next :: rest

/-- Put a chunk between the chunks before and after it, merging it with those that it touches. At
the end of the list the source compares with the list head, which no chunk touches. -/
def tryMerge (before : List Span) (chunk : Span) (after : List Span) : List Span :=
  match before.getLast? with
  | none => mergeNext chunk after
  | some last =>
    if last.start + last.len = chunk.start then
      before.dropLast ++ mergeNext ⟨last.start, last.len + chunk.len⟩ after
    else before ++ mergeNext chunk after

/-- `heap_insert_free_chunk`. -/
def heapInsertFreeChunk (h : Heap) (chunk : Span) : Option Heap :=
  let before := h.freeList.takeWhile fun next => !decide (chunk.start < next.start)
  let after := h.freeList.dropWhile fun next => !decide (chunk.start < next.start)
  if ∀ next ∈ after.head?, chunk.start + chunk.len ≤ next.start then
    some { h with remaining := h.remaining + chunk.len, freeList := tryMerge before chunk after }
  else none

/-- `heap_create_free_chunk`, of a range that its list node is inside of. -/
def heapCreateFreeChunk (ptr len : ℕ) : Option Span :=
  if freeHeapChunkSize ≤ len then some ⟨ptr, len⟩ else none

/-- Create a free chunk and insert it. -/
def insertCreated (h : Heap) (ptr len : ℕ) : Option Heap :=
  (heapCreateFreeChunk ptr len).bind (heapInsertFreeChunk h)

/-! ## Allocating -/

/-- The size that `miniheap_alloc` looks for, and the alignment it uses. -/
def requestSize (debug : Bool) (size alignment : ℕ) : ℕ × ℕ :=
  let size := (size + headerSize debug) % 2 ^ 64
  let size := if size < freeHeapChunkSize then freeHeapChunkSize else size
  let size := roundup64 size pointerSize
  if 0 < alignment then
    let alignment := if alignment < 16 then 16 else alignment
    ((size + alignment) % 2 ^ 64, alignment)
  else (size, 0)

/-- The loop of `miniheap_alloc`: the chunk it allocates, cut off the first one that is big enough,
and the free list it leaves. -/
def takeChunk (size : ℕ) : List Span → Option (Span × List Span)
  | [] => none
  | chunk :: rest =>
    if size ≤ chunk.len then
      if (size + freeHeapChunkSize) % 2 ^ 64 < chunk.len then
        some (⟨chunk.start, size⟩, ⟨chunk.start + size, chunk.len - size⟩ :: rest)
      else some (chunk, rest)
    else (takeChunk size rest).map fun (found, rest) => (found, chunk :: rest)

/-- What `miniheap_alloc` does under the lock: the pointer, if a chunk was found. -/
def allocChunk (debug : Bool) (h : Heap) (size alignment : ℕ) : Option (ℕ × Heap) :=
  (takeChunk size h.freeList).map fun (chunk, freeList) =>
    let ptr := chunk.start + headerSize debug
    let ptr := if 0 < alignment then roundup64 ptr alignment else ptr
    let remaining := h.remaining - chunk.len
    (ptr,
      { h with
        remaining := remaining
        lowWatermark := if remaining < h.lowWatermark then remaining else h.lowWatermark
        freeList := freeList
        headers := ⟨ptr, chunk⟩ :: h.headers })

/-- The end of `heap_grow`, with the pages that `page_alloc` returns. -/
def heapGrow (h : Heap) (size ptr : ℕ) : Option Heap :=
  let size := roundup64 size pageSize
  (insertCreated h ptr size).map fun h =>
    let base := if ptr < h.base ∨ h.base = 0 then ptr else h.base
    { h with base := base, len := if base + h.len < ptr + size then ptr + size - base else h.len }

/-- `miniheap_alloc`, with what `page_alloc` returns if it is called. -/
def miniheapAlloc (debug : Bool) (h : Heap) (size alignment : ℕ) (pages : Option ℕ) :
    Option (Option ℕ × Heap) :=
  if alignment &&& (alignment - 1) ≠ 0 then some (none, h)
  else
    let (size, alignment) := requestSize debug size alignment
    match allocChunk debug h size alignment with
    | some (ptr, h) => some (some ptr, h)
    | none =>
      match pages with
      | none => some (none, h)
      | some pages =>
        (heapGrow h size pages).map fun h =>
          match allocChunk debug h size alignment with
          | some (ptr, h) => (some ptr, h)
          | none => (none, h)

/-- `miniheap_free`. The header of a pointer that is not allocated is not known. -/
def miniheapFree (h : Heap) (ptr : ℕ) : Option Heap :=
  if ptr = 0 then some h
  else
    match h.headers.find? (·.ptr = ptr) with
    | none => none
    | some as =>
      insertCreated { h with headers := h.headers.eraseP (·.ptr = ptr) } as.chunk.start as.chunk.len

/-! ## Trimming -/

/-- The first page boundary of a free chunk with room for a list node before it. In the last page of
the address space it goes round. -/
def trimStart (start : ℕ) : ℕ :=
  let startPage := roundup64 start pageSize
  if startPage ≠ start ∧ sub64 startPage start < freeHeapChunkSize then startPage + pageSize
  else startPage

/-- The last page boundary of a free chunk with room for a list node after it. -/
def trimEnd (stop : ℕ) : ℕ :=
  let endPage := rounddown64 stop pageSize
  if endPage < stop ∧ stop - endPage < freeHeapChunkSize then endPage - pageSize else endPage

/-- The pages of a free chunk that `miniheap_trim` returns. The test is repeated when a bound has
moved, and each of the two moves at most once. -/
def trimPages (start stop : ℕ) : Option (ℕ × ℕ) :=
  if roundup64 start pageSize < rounddown64 stop pageSize ∧
      trimStart start < rounddown64 stop pageSize ∧ trimStart start < trimEnd stop then
    some (trimStart start, trimEnd stop)
  else none

/-- The chunks that are left of a free chunk, and the pages returned. The piece after the pages is
taken off the length of the chunk first, then the pages. -/
def trimChunk (chunk : Span) : List Span × List Span :=
  let stop := (chunk.start + chunk.len) % 2 ^ 64
  match trimPages chunk.start stop with
  | none => ([chunk], [])
  | some (startPage, endPage) =>
    let len := sub64 (sub64 chunk.len (stop - endPage)) (endPage - startPage)
    ((if startPage = chunk.start then [] else [⟨chunk.start, len⟩]) ++
        (if endPage < stop then [⟨endPage, stop - endPage⟩] else []),
      [⟨startPage, endPage - startPage⟩])

/-- `miniheap_trim`: the heap and the pages given to `page_free`. -/
def miniheapTrim (h : Heap) : Heap × List Span :=
  let pages := h.freeList.flatMap fun chunk => (trimChunk chunk).2
  ({ h with
      remaining := h.remaining - (pages.map Span.len).sum
      freeList := h.freeList.flatMap fun chunk => (trimChunk chunk).1 }, pages)

/-- `miniheap_init`, with the aligned part of the buffer. -/
def miniheapInit (ptr len : ℕ) : Option Heap :=
  let aligned := if 0 < ptr % pointerSize then roundup64 ptr pointerSize else ptr
  let skipped := sub64 aligned ptr
  if 0 < ptr % pointerSize ∧ len ≤ skipped then none
  else
    let len := len - skipped
    let h : Heap := ⟨aligned, len, 0, 0, [], []⟩
    if 0 < len then insertCreated h aligned len else some h

end NusaKernel.Miniheap
