import NusaKernel.Kernel.Port
import NusaKernel.Lib.Ring

/-!
# The buffers of ports

A buffer of `kernel/port.c` is a queue of packets. `unread` is the queue, oldest packet first,
`buf_write` appends all of its packets or none, and `buf_read` takes the first. The loops of
`port_write` and `port_read` over read ports come down to these two on each of the ports.
-/

namespace NusaKernel.Port

open Function List Nat Ring

universe u

variable {Pid Tid Packet : Type u}

/-! ## One buffer -/

/-- The number of packets a buffer can hold. -/
def Buf.capacity (buf : Buf Packet) : ℕ := 2 ^ buf.log2

/-- The packets of a buffer, oldest first. -/
def unread (buf : Buf Packet) : List (Option Packet) :=
  contents buf.packet buf.capacity buf.head (buf.capacity - buf.avail)

/-- The counters of a buffer agree: the tail is as far behind the head as there are packets. -/
structure BufInv (buf : Buf Packet) : Prop where
  avail_le : buf.avail ≤ buf.capacity
  head_lt : buf.head < buf.capacity
  tail_eq : buf.tail = (buf.head + (buf.capacity - buf.avail)) % buf.capacity

variable {buf buf' : Buf Packet} {packets : List Packet} {rp : ReadPort Pid Packet}
  {wp : WritePort Pid Packet}

theorem BufInv.length_unread (h : BufInv buf) :
    (unread buf).length + buf.avail = buf.capacity := by
  have hle := h.avail_le
  rw [unread, length_contents]
  omega

theorem capacity_make_buf (big : Bool) :
    (makeBuf big : Buf Packet).capacity = (makeBuf big : Buf Packet).avail := by
  cases big with
  | false => rfl
  | true => rfl

theorem buf_inv_make_buf (big : Bool) : BufInv (makeBuf big : Buf Packet) := by
  have hcapacity : (makeBuf big : Buf Packet).capacity = (makeBuf big : Buf Packet).avail :=
    capacity_make_buf big
  refine ⟨hcapacity.ge, Nat.two_pow_pos _, ?_⟩
  rw [hcapacity, Nat.sub_self]
  exact (zero_mod _).symm

theorem unread_make_buf (big : Bool) : unread (makeBuf big : Buf Packet) = [] := by
  rw [unread, capacity_make_buf, Nat.sub_self, contents_zero]

theorem buf_is_empty_iff (h : BufInv buf) : bufIsEmpty buf = true ↔ unread buf = [] := by
  have hlength := h.length_unread
  unfold bufIsEmpty
  rw [decide_eq_true_eq, ← length_eq_zero_iff]
  show buf.avail = buf.capacity ↔ _
  omega

/-- What the loop of `buf_write` does while there is room. -/
theorem foldl_buf_put (packets : List Packet) (buf : Buf Packet) {used : ℕ}
    (htail : buf.tail = (buf.head + used) % buf.capacity)
    (hroom : used + packets.length ≤ buf.capacity) :
    let result := packets.foldl bufPut buf
    result.log2 = buf.log2 ∧ result.avail = buf.avail ∧ result.head = buf.head ∧
      result.tail = (buf.head + (used + packets.length)) % buf.capacity ∧
      contents result.packet buf.capacity buf.head (used + packets.length) =
        contents buf.packet buf.capacity buf.head used ++ packets.map some := by
  induction packets generalizing buf used with
  | nil => simpa using htail
  | cons packet rest ih =>
    rw [length_cons] at hroom
    have hlength : used + (rest.length + 1) = used + 1 + rest.length := by omega
    have hnext : (bufPut buf packet).tail = (buf.head + (used + 1)) % buf.capacity := by
      show (buf.tail + 1) % buf.capacity = _
      rw [htail, mod_add_mod, Nat.add_assoc]
    have hput : contents (bufPut buf packet).packet buf.capacity buf.head (used + 1) =
        contents buf.packet buf.capacity buf.head used ++ [some packet] := by
      show contents (Function.update buf.packet buf.tail (some packet)) _ _ _ = _
      rw [htail]
      exact contents_push (some packet) (by omega)
    obtain ⟨hlog, havail, hhead, htail', hcontents⟩ :=
      ih (bufPut buf packet) hnext (by show used + 1 + rest.length ≤ buf.capacity; omega)
    refine ⟨hlog, havail, hhead, ?_, ?_⟩
    · rw [length_cons, hlength]
      exact htail'
    · rw [length_cons, hlength, map_cons, append_cons, ← hput]
      exact hcontents

/-- `buf_write` fails without room for all packets. -/
theorem buf_write_of_lt (h : buf.avail < packets.length) :
    bufWrite buf packets = (errNotEnoughBuffer, buf) :=
  if_pos h

theorem BufInv.buf_write (hinv : BufInv buf) (h : packets.length ≤ buf.avail) :
    (bufWrite buf packets).1 = noError ∧ BufInv (bufWrite buf packets).2 ∧
      (bufWrite buf packets).2.capacity = buf.capacity ∧
      unread (bufWrite buf packets).2 = unread buf ++ packets.map some := by
  have hle := hinv.avail_le
  obtain ⟨hlog, havail, hhead, htail, hcontents⟩ :=
    foldl_buf_put packets buf hinv.tail_eq (by omega)
  have hwrite : bufWrite buf packets = (noError, { packets.foldl bufPut buf with
      avail := (packets.foldl bufPut buf).avail - packets.length }) := if_neg (by omega)
  have hcapacity : (packets.foldl bufPut buf).capacity = buf.capacity := by
    rw [Buf.capacity, Buf.capacity, hlog]
  have hused : buf.capacity - (buf.avail - packets.length) =
      buf.capacity - buf.avail + packets.length := by omega
  rw [hwrite]
  refine ⟨rfl, ⟨?_, ?_, ?_⟩, hcapacity, ?_⟩
  · show (packets.foldl bufPut buf).avail - packets.length ≤ (packets.foldl bufPut buf).capacity
    omega
  · show (packets.foldl bufPut buf).head < (packets.foldl bufPut buf).capacity
    rw [hhead, hcapacity]
    exact hinv.head_lt
  · show (packets.foldl bufPut buf).tail = ((packets.foldl bufPut buf).head +
      ((packets.foldl bufPut buf).capacity -
        ((packets.foldl bufPut buf).avail - packets.length))) %
      (packets.foldl bufPut buf).capacity
    rw [hhead, hcapacity, havail, hused]
    exact htail
  show contents (packets.foldl bufPut buf).packet (packets.foldl bufPut buf).capacity
    (packets.foldl bufPut buf).head ((packets.foldl bufPut buf).capacity -
      ((packets.foldl bufPut buf).avail - packets.length)) = _
  rw [hhead, hcapacity, havail, hused]
  exact hcontents

/-- The status of `buf_write` says whether there was room. -/
theorem buf_write_neg_iff : (bufWrite buf packets).1 < 0 ↔ buf.avail < packets.length := by
  unfold bufWrite
  split
  · next h => simp [h, errNotEnoughBuffer]
  · next h => simp [h, noError]

/-- `buf_write` keeps the counters in agreement whether it fails or not. -/
theorem BufInv.of_buf_write (hinv : BufInv buf) (packets : List Packet) :
    BufInv (bufWrite buf packets).2 := by
  rcases Nat.lt_or_ge buf.avail packets.length with h | h
  · rw [buf_write_of_lt h]
    exact hinv
  · exact (hinv.buf_write h).2.1

theorem BufInv.of_read_error {status : Status} (hinv : BufInv buf)
    (h : bufRead buf = .error status) : unread buf = [] := by
  unfold bufRead at h
  split at h
  next hempty => exact (buf_is_empty_iff hinv).mp hempty
  next => cases h

theorem BufInv.of_buf_read {packet : Option Packet} {buf' : Buf Packet} (hinv : BufInv buf)
    (h : bufRead buf = .ok (packet, buf')) : BufInv buf' ∧ unread buf = packet :: unread buf' := by
  have hlength := hinv.length_unread
  unfold bufRead at h
  split at h
  next => cases h
  next hempty =>
  cases h
  have hpos := length_pos_of_ne_nil fun hnil => hempty ((buf_is_empty_iff hinv).mpr hnil)
  have hused : buf.capacity - buf.avail = 1 + (buf.capacity - (buf.avail + 1)) := by omega
  refine ⟨⟨?_, ?_, ?_⟩, ?_⟩
  · show buf.avail + 1 ≤ buf.capacity
    omega
  · exact mod_lt _ (Nat.two_pow_pos buf.log2)
  · show buf.tail = ((buf.head + 1) % buf.capacity + (buf.capacity - (buf.avail + 1))) %
      buf.capacity
    rw [hinv.tail_eq, mod_add_mod, Nat.add_assoc, ← hused]
  · show contents _ _ _ (buf.capacity - buf.avail) = _
    rw [hused, contents_add, contents_one hinv.head_lt]
    rfl

/-! ## The ports of a state -/

/-- What a write does to a read port. -/
def Object.deliver (packets : List Packet) : Object Pid Packet → Object Pid Packet
  | .read rp => .read { rp with buf := (bufWrite rp.buf packets).2 }
  | .write wp => .write wp
  | .group => .group

/-- The buffer of an object. -/
def Object.buf? : Object Pid Packet → Option (Buf Packet)
  | .write wp => wp.buf
  | .read rp => some rp.buf
  | .group => none

/-- The counters of all buffers agree. -/
def BufsInv (s : State Pid Tid Packet) : Prop :=
  ∀ p object, s.heap p = some object → ∀ buf, object.buf? = some buf → BufInv buf

/-- The counters of all buffers agree, and no thread is in `port_read`. -/
structure Settled (s : State Pid Tid Packet) : Prop where
  bufs : BufsInv s
  quiet : s.waiters.All (· = .running)

section

variable {s : State Pid Tid Packet} {p r w : Pid} (hinv : BufsInv s)
include hinv

theorem BufsInv.read (hr : readPort? s r = some rp) : BufInv rp.buf :=
  hinv r _ (read_port_eq_some.mp hr) rp.buf rfl

theorem BufsInv.write (hw : writePort? s w = some wp) (hbuf : wp.buf = some buf) : BufInv buf :=
  hinv w _ (write_port_eq_some.mp hw) buf hbuf

variable [DecidableEq Pid]

/-- Another object at an address, or none. -/
theorem BufsInv.update {object : Option (Object Pid Packet)}
    (h : ∀ o, object = some o → ∀ buf, o.buf? = some buf → BufInv buf) :
    BufsInv { s with heap := Function.update s.heap p object } :=
  (forall_update_iff s.heap fun _ object => ∀ o, object = some o →
    ∀ buf, o.buf? = some buf → BufInv buf).mpr ⟨h, fun q _ => hinv q⟩

theorem BufsInv.store {object : Object Pid Packet}
    (h : ∀ buf, object.buf? = some buf → BufInv buf) :
    BufsInv (store s p object) := by
  refine hinv.update fun o ho => ?_
  cases ho
  exact h

theorem BufsInv.release : BufsInv (release s p) := hinv.update nofun

/-- A change of a read port that leaves its buffer alone. -/
theorem BufsInv.store_read {rp' : ReadPort Pid Packet} (hr : readPort? s r = some rp)
    (hbuf : rp'.buf = rp.buf) : BufsInv (Port.store s r (.read rp')) := by
  refine hinv.store fun buf heq => ?_
  cases heq
  rw [hbuf]
  exact hinv.read hr

end

variable [DecidableEq Pid]

theorem heap_store (s : State Pid Tid Packet) (p : Pid) (object : Object Pid Packet) :
    (store s p object).heap = Function.update s.heap p (some object) := rfl

/-! ## The loop of a write -/

variable [DecidableEq Tid] {gport : Option Pid} {result : Status × State Pid Tid Packet}

/-- Waking a reader changes no port. -/
theorem heap_wake_reader {s s' : State Pid Tid Packet} {r : Pid}
    (h : wakeReader s r gport = some s') : s'.heap = s.heap := by
  cases gport with
  | none =>
    cases h
    rfl
  | some g =>
    obtain ⟨_, h⟩ := Option.ite_none_left_eq_some.mp h
    cases h
    rfl

/-- The loop of `port_write` delivers to each of the read ports, and reports success if there was
room in all of them. -/
theorem heap_write_readers (packets : List Packet) {readers : List Pid} {status : Status}
    {s : State Pid Tid Packet} (hnodup : readers.Nodup)
    (h : writeReaders s packets status readers = some result) :
    (∀ q, result.2.heap q =
      if q ∈ readers then (s.heap q).map (Object.deliver packets) else s.heap q) ∧
    (result.1 = noError ↔ status = noError ∧ ∀ r ∈ readers, ∀ rp, s.heap r = some (.read rp) →
      packets.length ≤ rp.buf.avail) := by
  induction readers generalizing s status with
  | nil =>
    cases h
    simp
  | cons r rest ih =>
    obtain ⟨rp, hrp, h⟩ := Option.bind_eq_some_iff.mp h
    rw [read_port_eq_some] at hrp
    obtain ⟨hnot, hrest⟩ := nodup_cons.mp hnodup
    simp only [buf_write_neg_iff] at h
    split at h
    · next hfull =>
      obtain ⟨hheap, hstatus⟩ := ih hrest h
      refine ⟨fun q => ?_, ?_⟩
      · rw [hheap]
        by_cases hq : q = r
        · subst hq
          simp [hnot, hrp, Object.deliver, buf_write_of_lt hfull]
        · simp [hq]
      · refine ⟨fun hok => ?_, fun hok => ?_⟩
        · exact absurd (hstatus.mp hok).1 (by decide)
        · have hroom := hok.2 r mem_cons_self rp hrp
          omega
    · next hroom =>
      obtain ⟨s₁, hwake, h⟩ := Option.bind_eq_some_iff.mp h
      have hheap₁ : ∀ q, q ≠ r → s₁.heap q = s.heap q := by
        intro q hq
        rw [heap_wake_reader hwake, heap_store, update_of_ne hq]
      obtain ⟨hheap, hstatus⟩ := ih hrest h
      refine ⟨fun q => ?_, ?_⟩
      · rw [hheap]
        by_cases hq : q = r
        · subst hq
          rw [if_neg hnot, if_pos mem_cons_self, heap_wake_reader hwake, heap_store,
            update_self, hrp]
          rfl
        · rw [hheap₁ q hq]
          simp [hq]
      rw [hstatus]
      refine and_congr_right fun _ => ⟨fun hall q hq rq hrq => ?_, fun hall q hq rq hrq => ?_⟩
      · rcases mem_cons.mp hq with rfl | hq'
        · rw [hrp] at hrq
          cases hrq
          omega
        · rw [← hheap₁ q (fun heq => hnot (heq ▸ hq'))] at hrq
          exact hall q hq' rq hrq
      · rw [hheap₁ q (fun heq => hnot (heq ▸ hq))] at hrq
        exact hall q (mem_cons_of_mem r hq) rq hrq

end NusaKernel.Port
