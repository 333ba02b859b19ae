import Mathlib.Data.List.Forall2
import NusaKernel.Lib.Segment
import NusaKernel.Lib.Transition
import NusaKernel.Lib.Word

/-!
# Packet buffers

`lib/minip/pktbuf.c`: a `pktbuf_t` points into a buffer with room before and behind the data. The
margins are differences of pointers that are cut to 32 bits, and every operation checks its own
margin. A panic is `none`.

`pktbuf_refines`: under every sequence of calls the data stay inside of the buffer, no byte outside
of the buffer is written, and the data are those of a list of bytes under the same calls. Bytes that
a call has made room for and nobody has written yet are not specified.

Left out: the flags, the list node, the physical address and the free callback, which none of these
functions looks at.
-/

namespace NusaKernel.Minip

open List Nat Ring Segment Transition Word

/-- `pktbuf_t`. Pointers are addresses. -/
structure Pktbuf where
  data : ℕ
  blen : ℕ
  dlen : ℕ
  buffer : ℕ
deriving DecidableEq

variable (p : Pktbuf) {headerSz : ℕ}

/-- `pktbuf_avail_head`: the difference of the pointers as a `u32`. -/
def pktbufAvailHead : ℕ := sub64 p.data p.buffer % 2 ^ 32

/-- `pktbuf_avail_tail`: computed in 64 bits, returned as a `u32`. -/
def pktbufAvailTail : ℕ := sub64 (sub64 p.blen (sub64 p.data p.buffer)) p.dlen % 2 ^ 32

/-- `pktbuf_add_buffer`. -/
def pktbufAddBuffer (buf len headerSz : ℕ) : Pktbuf where
  buffer := buf
  blen := len
  data := (buf + headerSz) % 2 ^ 64
  dlen := 0

def pktbufReset (headerSz : ℕ) : Pktbuf :=
  { p with data := (p.buffer + headerSz) % 2 ^ 64, dlen := 0 }

def pktbufAppendData (mem : ℕ → UInt8) (p : Pktbuf) (bytes : List UInt8) :
    Option ((ℕ → UInt8) × Pktbuf) :=
  if pktbufAvailTail p < bytes.length then none
  else some (store mem ((p.data + p.dlen) % 2 ^ 64) bytes,
    { p with dlen := (p.dlen + bytes.length) % 2 ^ 32 })

/-- `pktbuf_append`: the start of the new region. -/
def pktbufAppend (sz : ℕ) : Option (ℕ × Pktbuf) :=
  if pktbufAvailTail p < sz then none
  else some ((p.data + p.dlen) % 2 ^ 64, { p with dlen := (p.dlen + sz) % 2 ^ 32 })

/-- `pktbuf_prepend`: the new start of the data. -/
def pktbufPrepend (sz : ℕ) : Option (ℕ × Pktbuf) :=
  if pktbufAvailHead p < sz then none
  else some (sub64 p.data sz, { p with dlen := (p.dlen + sz) % 2 ^ 32, data := sub64 p.data sz })

/-- `pktbuf_consume`: the old start of the data, or `NULL`. -/
def pktbufConsume (sz : ℕ) : Option ℕ × Pktbuf :=
  if p.dlen < sz then (none, p)
  else (some p.data, { p with data := (p.data + sz) % 2 ^ 64, dlen := p.dlen - sz })

def pktbufConsumeTail (sz : ℕ) : Pktbuf :=
  if p.dlen < sz then { p with dlen := 0 } else { p with dlen := p.dlen - sz }

/-! ## Runs -/

/-- A packet buffer and the memory. -/
structure PktState where
  p : Pktbuf
  mem : ℕ → UInt8

/-- A call, or a write of bytes by the caller, at an offset into the data. -/
inductive PktOp where
  | reset (headerSz : ℕ)
  | appendData (bytes : List UInt8)
  | append (sz : ℕ)
  | prepend (sz : ℕ)
  | consume (sz : ℕ)
  | consumeTail (sz : ℕ)
  | write (offset : ℕ) (bytes : List UInt8)

/-- A call. A panic has no next state. -/
def PktState.step (s : PktState) : PktOp → Option PktState
  | .reset headerSz => some { s with p := pktbufReset s.p headerSz }
  | .appendData bytes => (pktbufAppendData s.mem s.p bytes).map fun (mem, p) => ⟨p, mem⟩
  | .append sz => (pktbufAppend s.p sz).map fun (_, p) => { s with p := p }
  | .prepend sz => (pktbufPrepend s.p sz).map fun (_, p) => { s with p := p }
  | .consume sz => some { s with p := (pktbufConsume s.p sz).2 }
  | .consumeTail sz => some { s with p := pktbufConsumeTail s.p sz }
  | .write offset bytes => some { s with mem := store s.mem (s.p.data + offset) bytes }

/-- The data of the packet. -/
def PktState.content (s : PktState) : List UInt8 := block s.mem s.p.data s.p.dlen

/-- A reset has a header size below the buffer length, and a caller writes into the data only. -/
def Proper (s : PktState) : PktOp → Prop
  | .reset headerSz => headerSz < s.p.blen
  | .write offset bytes => offset + bytes.length ≤ s.p.dlen
  | _ => True

/-- `Proper` can be checked along a run. -/
instance (s : PktState) (op : PktOp) : Decidable (Proper s op) := by
  cases op <;> unfold Proper <;> infer_instance

/-- A list of bytes under the same calls. A byte that was not written yet is `none`. -/
def refStep (bytes : List (Option UInt8)) : PktOp → List (Option UInt8)
  | .reset _ => []
  | .appendData new => bytes ++ new.map some
  | .append sz => bytes ++ replicate sz none
  | .prepend sz => replicate sz none ++ bytes
  | .consume sz => if bytes.length < sz then bytes else bytes.drop sz
  | .consumeTail sz => bytes.take (bytes.length - sz)
  | .write offset new =>
    bytes.take offset ++ (new.map some ++ bytes.drop (offset + new.length))

/-! ## The data stay inside -/

/-- The data are inside of the buffer, which is somewhere in memory. -/
structure Pktbuf.Inside (p : Pktbuf) : Prop where
  blen : p.blen < 2 ^ 32
  storage : p.buffer + p.blen < 2 ^ 64
  head : p.buffer ≤ p.data
  tail : p.data + p.dlen ≤ p.buffer + p.blen

namespace Pktbuf.Inside

variable {p : Pktbuf} (h : p.Inside)

include h

/-- The margins and the data make up the buffer. -/
theorem avail_head : pktbufAvailHead p = p.data - p.buffer := by
  obtain ⟨hblen, hstorage, hhead, htail⟩ := h
  unfold pktbufAvailHead
  rw [sub64_of_le hhead (by omega)]
  omega

theorem avail_tail : pktbufAvailTail p = p.buffer + p.blen - (p.data + p.dlen) := by
  obtain ⟨hblen, hstorage, hhead, htail⟩ := h
  have hoffset : sub64 p.data p.buffer = p.data - p.buffer := sub64_of_le hhead (by omega)
  have hrest : sub64 p.blen (p.data - p.buffer) = p.blen - (p.data - p.buffer) :=
    sub64_of_le (by omega) (by omega)
  unfold pktbufAvailTail
  rw [hoffset, hrest, sub64_of_le (by omega) (by omega)]
  omega

theorem reset (hsz : headerSz < p.blen) : (pktbufReset p headerSz).Inside := by
  obtain ⟨hblen, hstorage, hhead, htail⟩ := h
  refine ⟨hblen, hstorage, ?_, ?_⟩
  · show p.buffer ≤ (p.buffer + headerSz) % 2 ^ 64
    omega
  · show (p.buffer + headerSz) % 2 ^ 64 + 0 ≤ p.buffer + p.blen
    omega

/-- A region is appended behind the data, or there is no room for it. -/
theorem append_cases (sz : ℕ) :
    pktbufAppend p sz = none ∨
      p.data + p.dlen + sz ≤ p.buffer + p.blen ∧
        pktbufAppend p sz = some (p.data + p.dlen, { p with dlen := p.dlen + sz }) := by
  have htail := h.avail_tail
  obtain ⟨hblen, hstorage, hhead, hend⟩ := h
  unfold pktbufAppend
  split
  · exact .inl rfl
  · rw [mod_eq_of_lt (by omega), mod_eq_of_lt (by omega)]
    exact .inr ⟨by omega, rfl⟩

/-- Bytes are copied behind the data, or there is no room for them. -/
theorem append_data_cases (mem : ℕ → UInt8) (bytes : List UInt8) :
    pktbufAppendData mem p bytes = none ∨
      p.data + p.dlen + bytes.length ≤ p.buffer + p.blen ∧
        pktbufAppendData mem p bytes = some (store mem (p.data + p.dlen) bytes,
          { p with dlen := p.dlen + bytes.length }) := by
  have htail := h.avail_tail
  obtain ⟨hblen, hstorage, hhead, hend⟩ := h
  unfold pktbufAppendData
  split
  · exact .inl rfl
  · rw [mod_eq_of_lt (by omega), mod_eq_of_lt (by omega)]
    exact .inr ⟨by omega, rfl⟩

/-- A region is put before the data, or there is no room for it. -/
theorem prepend_cases (sz : ℕ) :
    pktbufPrepend p sz = none ∨
      p.buffer + sz ≤ p.data ∧
        pktbufPrepend p sz =
          some (p.data - sz, { p with dlen := p.dlen + sz, data := p.data - sz }) := by
  have hroom := h.avail_head
  obtain ⟨hblen, hstorage, hhead, hend⟩ := h
  unfold pktbufPrepend
  split
  · exact .inl rfl
  · rw [mod_eq_of_lt (by omega), sub64_of_le (by omega) (by omega)]
    exact .inr ⟨by omega, rfl⟩

theorem consume_cases (sz : ℕ) :
    (p.dlen < sz ∧ (pktbufConsume p sz).2 = p) ∨
      (sz ≤ p.dlen ∧
        (pktbufConsume p sz).2 = { p with data := p.data + sz, dlen := p.dlen - sz }) := by
  obtain ⟨hblen, hstorage, hhead, hend⟩ := h
  unfold pktbufConsume
  split
  · next hlt => exact .inl ⟨hlt, rfl⟩
  · rw [mod_eq_of_lt (by omega)]
    exact .inr ⟨by omega, rfl⟩

end Pktbuf.Inside

theorem consume_tail_eq (sz : ℕ) :
    pktbufConsumeTail p sz = { p with dlen := p.dlen - sz } := by
  unfold pktbufConsumeTail
  split
  · rw [Nat.sub_eq_zero_of_le (by omega)]
  · rfl

/-! ## The data are those of the list -/

/-- The bytes that the list specifies. -/
def Agrees : List (Option UInt8) → List UInt8 → Prop :=
  Forall₂ fun spec byte => ∀ b ∈ spec, b = byte

theorem agrees_some (bytes : List UInt8) : Agrees (bytes.map some) bytes := by
  induction bytes with
  | nil => exact .nil
  | cons byte rest ih => exact .cons (fun b hb => (Option.some.inj hb).symm) ih

theorem agrees_none (bytes : List UInt8) : Agrees (replicate bytes.length none) bytes := by
  induction bytes with
  | nil => exact .nil
  | cons byte rest ih => exact .cons (fun b hb => nomatch hb) ih

variable {spec : List (Option UInt8)} {bytes : List UInt8}

theorem Agrees.append {spec' : List (Option UInt8)} {bytes' : List UInt8} (h : Agrees spec bytes)
    (h' : Agrees spec' bytes') : Agrees (spec ++ spec') (bytes ++ bytes') :=
  rel_append h h'

theorem Agrees.take (h : Agrees spec bytes) (n : ℕ) : Agrees (spec.take n) (bytes.take n) :=
  forall₂_take n h

theorem Agrees.drop (h : Agrees spec bytes) (n : ℕ) : Agrees (spec.drop n) (bytes.drop n) :=
  forall₂_drop n h

/-- The data are inside of the buffer and those of the list. -/
structure PktState.Refines (s : PktState) (bytes : List (Option UInt8)) : Prop where
  inside : s.p.Inside
  agrees : Agrees bytes s.content

/-- The same buffer, and nothing else was written. -/
structure PktState.Keeps (s s' : PktState) : Prop where
  buffer : s'.p.buffer = s.p.buffer
  blen : s'.p.blen = s.p.blen
  outside : ∀ a, a < s.p.buffer ∨ s.p.buffer + s.p.blen ≤ a → s'.mem a = s.mem a

theorem PktState.Keeps.refl (s : PktState) : s.Keeps s := ⟨rfl, rfl, fun _ _ => rfl⟩

theorem PktState.Keeps.trans {s s' s'' : PktState} (h : s.Keeps s') (h' : s'.Keeps s'') :
    s.Keeps s'' := by
  refine ⟨h'.buffer.trans h.buffer, h'.blen.trans h.blen, fun a ha => ?_⟩
  rw [h'.outside a (by rwa [h.buffer, h.blen]), h.outside a ha]

namespace PktState.Refines

variable {s s' : PktState} {bytes : List (Option UInt8)} (h : s.Refines bytes) {sz : ℕ}

include h

theorem length_eq : bytes.length = s.p.dlen := by
  rw [h.agrees.length_eq]
  exact length_block

/-- Bytes behind the data that become part of it. -/
theorem append {new : List (Option UInt8)} {mem : ℕ → UInt8}
    (hroom : s.p.data + s.p.dlen + sz ≤ s.p.buffer + s.p.blen)
    (hold : block mem s.p.data s.p.dlen = s.content)
    (hnew : Agrees new (block mem (s.p.data + s.p.dlen) sz)) :
    PktState.Refines ⟨{ s.p with dlen := s.p.dlen + sz }, mem⟩ (bytes ++ new) := by
  obtain ⟨hblen, hstorage, hhead, htail⟩ := h.inside
  refine ⟨⟨hblen, hstorage, hhead, by dsimp only; omega⟩, ?_⟩
  show Agrees _ (block mem s.p.data (s.p.dlen + sz))
  rw [block_add, hold]
  exact h.agrees.append hnew

theorem prepend (hroom : s.p.buffer + sz ≤ s.p.data) :
    PktState.Refines { s with p := { s.p with dlen := s.p.dlen + sz, data := s.p.data - sz } }
      (replicate sz none ++ bytes) := by
  obtain ⟨hblen, hstorage, hhead, htail⟩ := h.inside
  refine ⟨⟨hblen, hstorage, ?_, ?_⟩, ?_⟩
  · show s.p.buffer ≤ s.p.data - sz
    omega
  · show s.p.data - sz + (s.p.dlen + sz) ≤ s.p.buffer + s.p.blen
    omega
  show Agrees _ (block s.mem (s.p.data - sz) (s.p.dlen + sz))
  rw [Nat.add_comm s.p.dlen sz, block_add, Nat.sub_add_cancel (by omega)]
  have hnew := agrees_none (block s.mem (s.p.data - sz) sz)
  rw [length_block] at hnew
  exact hnew.append h.agrees

theorem consume (hsz : sz ≤ s.p.dlen) :
    PktState.Refines { s with p := { s.p with data := s.p.data + sz, dlen := s.p.dlen - sz } }
      (bytes.drop sz) := by
  obtain ⟨hblen, hstorage, hhead, htail⟩ := h.inside
  refine ⟨⟨hblen, hstorage, ?_, ?_⟩, ?_⟩
  · show s.p.buffer ≤ s.p.data + sz
    omega
  · show s.p.data + sz + (s.p.dlen - sz) ≤ s.p.buffer + s.p.blen
    omega
  · have hdrop := h.agrees.drop sz
    rwa [PktState.content, drop_block hsz] at hdrop

theorem consume_tail (sz : ℕ) :
    PktState.Refines { s with p := { s.p with dlen := s.p.dlen - sz } }
      (bytes.take (bytes.length - sz)) := by
  obtain ⟨hblen, hstorage, hhead, htail⟩ := h.inside
  refine ⟨⟨hblen, hstorage, hhead, ?_⟩, ?_⟩
  · show s.p.data + (s.p.dlen - sz) ≤ s.p.buffer + s.p.blen
    omega
  · have htake := h.agrees.take (s.p.dlen - sz)
    rw [PktState.content, take_block, Nat.min_eq_left (by omega)] at htake
    rwa [h.length_eq]

theorem write {offset : ℕ} {new : List UInt8} (hfit : offset + new.length ≤ s.p.dlen) :
    PktState.Refines { s with mem := store s.mem (s.p.data + offset) new }
      (bytes.take offset ++ (new.map some ++ bytes.drop (offset + new.length))) := by
  refine ⟨h.inside, ?_⟩
  show Agrees _ (block (store s.mem (s.p.data + offset) new) s.p.data s.p.dlen)
  rw [block_store_inside hfit]
  exact (h.agrees.take offset).append ((agrees_some new).append (h.agrees.drop _))

/-- One call. -/
theorem step {op : PktOp} (hproper : Proper s op) (hstep : s.step op = some s') :
    s'.Refines (refStep bytes op) ∧ s.Keeps s' := by
  have hinside := h.inside
  cases op with
  | reset headerSz =>
    cases hstep
    exact ⟨⟨hinside.reset hproper, .nil⟩, rfl, rfl, fun _ _ => rfl⟩
  | appendData new =>
    rcases hinside.append_data_cases s.mem new with hnone | ⟨hroom, hsome⟩
    · simp only [PktState.step, hnone] at hstep
      cases hstep
    simp only [PktState.step, hsome] at hstep
    cases hstep
    have hhead := hinside.head
    refine ⟨h.append hroom (block_store_of_disjoint (by omega)) ?_, rfl, rfl,
      fun a ha => store_of_outside (by omega)⟩
    rw [block_store]
    exact agrees_some new
  | append sz =>
    rcases hinside.append_cases sz with hnone | ⟨hroom, hsome⟩
    · simp only [PktState.step, hnone] at hstep
      cases hstep
    simp only [PktState.step, hsome] at hstep
    cases hstep
    have hnew := agrees_none (block s.mem (s.p.data + s.p.dlen) sz)
    rw [length_block] at hnew
    exact ⟨h.append hroom rfl hnew, rfl, rfl, fun _ _ => rfl⟩
  | prepend sz =>
    rcases hinside.prepend_cases sz with hnone | ⟨hroom, hsome⟩
    · simp only [PktState.step, hnone] at hstep
      cases hstep
    · simp only [PktState.step, hsome] at hstep
      cases hstep
      exact ⟨h.prepend hroom, rfl, rfl, fun _ _ => rfl⟩
  | consume sz =>
    cases hstep
    have hlength := h.length_eq
    rcases hinside.consume_cases sz with ⟨hlt, hsame⟩ | ⟨hle, hcut⟩
    · rw [hsame, refStep, if_pos (by omega)]
      exact ⟨h, .refl s⟩
    · rw [hcut, refStep, if_neg (by omega)]
      exact ⟨h.consume hle, rfl, rfl, fun _ _ => rfl⟩
  | consumeTail sz =>
    cases hstep
    rw [consume_tail_eq]
    exact ⟨h.consume_tail sz, rfl, rfl, fun _ _ => rfl⟩
  | write offset new =>
    cases hstep
    have hfit : offset + new.length ≤ s.p.dlen := hproper
    have hhead := hinside.head
    have htail := hinside.tail
    exact ⟨h.write hfit, rfl, rfl, fun a ha => store_of_outside (by omega)⟩

theorem run {ops : List PktOp} (hproper : Admits PktState.step Proper s ops)
    (hrun : Transition.run PktState.step s ops = some s') :
    s'.Refines (ops.foldl refStep bytes) ∧ s.Keeps s' := by
  induction ops generalizing s bytes with
  | nil =>
    cases hrun
    exact ⟨h, .refl _⟩
  | cons op rest ih =>
    obtain ⟨hop, hrest⟩ := hproper
    obtain ⟨middle, hstep, hrun⟩ := Option.bind_eq_some_iff.mp hrun
    obtain ⟨hmiddle, hkeeps⟩ := h.step hop hstep
    obtain ⟨hfinal, hkeeps'⟩ := ih hmiddle (hrest middle hstep) hrun
    exact ⟨hfinal, hkeeps.trans hkeeps'⟩

end PktState.Refines

theorem add_buffer_refines {buf len : ℕ} (hlen : len < 2 ^ 32) (hbuf : buf + len < 2 ^ 64)
    (hsz : headerSz < len) (mem : ℕ → UInt8) :
    PktState.Refines ⟨pktbufAddBuffer buf len headerSz, mem⟩ [] := by
  have hinside : (Pktbuf.mk buf len 0 buf).Inside :=
    ⟨hlen, hbuf, Nat.le_refl _, by dsimp only; omega⟩
  exact ⟨hinside.reset hsz, .nil⟩

/-- From a new packet on, after every sequence of calls in which no call panics: the data are inside
of the buffer, they are what the same calls make of a list of bytes, and nothing outside of the
buffer was written. -/
theorem pktbuf_refines {buf len headerSz : ℕ} (hlen : len < 2 ^ 32) (hbuf : buf + len < 2 ^ 64)
    (hsz : headerSz < len) {mem : ℕ → UInt8} {ops : List PktOp} {s : PktState}
    (hproper : Admits PktState.step Proper ⟨pktbufAddBuffer buf len headerSz, mem⟩ ops)
    (hrun : Transition.run PktState.step ⟨pktbufAddBuffer buf len headerSz, mem⟩ ops = some s) :
    s.p.buffer = buf ∧ s.p.blen = len ∧
      buf ≤ s.p.data ∧ s.p.data + s.p.dlen ≤ buf + len ∧
      Agrees (ops.foldl refStep []) s.content ∧
      ∀ a, a < buf ∨ buf + len ≤ a → s.mem a = mem a := by
  obtain ⟨⟨hinside, hagrees⟩, hkeeps⟩ := (add_buffer_refines hlen hbuf hsz mem).run hproper hrun
  have hbuffer : s.p.buffer = buf := hkeeps.buffer
  have hblen : s.p.blen = len := hkeeps.blen
  have hhead := hinside.head
  have htail := hinside.tail
  rw [hbuffer] at hhead htail
  rw [hblen] at htail
  exact ⟨hbuffer, hblen, hhead, htail, hagrees, hkeeps.outside⟩

/-- Three bytes, a header of two bytes before them, and one byte taken away at each end. -/
def headerOps : List PktOp :=
  [.appendData [1, 2, 3], .prepend 2, .write 0 [9, 8], .consume 1, .consumeTail 1]

theorem pktbuf_refines_header : ∃ s,
    Transition.run PktState.step ⟨pktbufAddBuffer 4096 64 16, fun _ => 0⟩ headerOps = some s ∧
      s.p.data = 4111 ∧ s.p.dlen = 3 ∧ Agrees [some 8, some 1, some 2] s.content := by
  have hproper : Admits PktState.step Proper ⟨pktbufAddBuffer 4096 64 16, fun _ => 0⟩
    headerOps := by decide
  refine ⟨_, rfl, rfl, rfl, ?_⟩
  exact (pktbuf_refines (by decide) (by decide) (by decide) hproper rfl).2.2.2.2.1

end NusaKernel.Minip
