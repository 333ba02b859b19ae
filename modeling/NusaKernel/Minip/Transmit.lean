import NusaKernel.Kernel.Status
import NusaKernel.Lib.Ownership
import NusaKernel.Minip.Pktbuf

/-!
# Sending packets

A packet is two objects of the pool in `pktbuf.c`: one for the `pktbuf_t` and one for its buffer.
The functions that send packets take them from the pool and pass them to the transmit handler of the
network driver, or give them back. Calls run in any interleaving with each other and with the
driver, which gives buffers back or takes some for itself at any time. A thread that finds the pool
empty waits on the semaphore, also between the two objects of a packet.

`buffers_conserved`: as long as every destination of TCP has a route and the ARP cache has the
address of every host that gets a ping reply, no object of the pool is lost or in two places.
`minip_ipv4_send` does not dispose of a packet for which there is no route, and `send_ping_reply`
copies from the null pointer if the lookup fails (`no_route_leaks_buffer`).

What other parties decide is given with a call: the addresses that are configured, and what the
lookups in the ARP cache find. Left out: the bytes of the headers, and the `reschedule` flags.
-/

namespace NusaKernel.Minip

open Ownership (Prog Action)
open Transition (Reachable)

/-- A program over the objects of the pool. -/
abbrev NetProg := Prog ℕ

def pktbufSize : ℕ := 1536
def pktbufMaxHdr : ℕ := 64

/-- A packet: the object of the `pktbuf_t`, and what is in it. -/
structure Packet where
  header : ℕ
  p : Pktbuf

variable (packet : Packet)

/-- The objects of a packet. -/
def Packet.items : List ℕ := [packet.p.buffer, packet.header]

/-- `get_pool_object`. -/
def getPoolObject : NetProg (Option ℕ) := .take .done

/-- `free_pool_object`. -/
def freePoolObject (entry : ℕ) : NetProg Unit := .give entry (.done ())

def pktbufAlloc : NetProg (Option Packet) := do
  match ← getPoolObject with
  | none => return none
  | some p =>
    match ← getPoolObject with
    | none =>
      freePoolObject p
      return none
    | some buf => return some ⟨p, pktbufAddBuffer buf pktbufSize pktbufMaxHdr⟩

/-- `pktbuf_free` of a packet from `pktbuf_alloc`, whose callback frees the buffer. -/
def pktbufFree : NetProg Unit := do
  freePoolObject packet.p.buffer
  freePoolObject packet.header

/-- `minip_tx_handler(minip_tx_arg, p)`. Its result is not looked at. -/
def minipTxHandler : NetProg Unit := .hand packet.items (.done ())

/-- Put `sz` bytes before the data of a packet. -/
def prepend (sz : ℕ) : NetProg Packet :=
  match pktbufPrepend packet.p sz with
  | none => .panic
  | some (_, p) => .done { packet with p := p }

/-- Put `sz` bytes behind the data of a packet, with or without their values. -/
def append (sz : ℕ) : NetProg Packet :=
  match pktbufAppend packet.p sz with
  | none => .panic
  | some (_, p) => .done { packet with p := p }

/-! ## ARP -/

abbrev Mac := List UInt8

def ipv4Bcast : UInt32 := 0xFFFFFFFF
def ipv4None : UInt32 := 0
def bcastMac : Mac := List.replicate 6 0xFF

def ethHdrLength : ℕ := 14
def ipv4HdrLength : ℕ := 20
def arpPktLength : ℕ := 28
def icmpPktLength : ℕ := 8
def udpHdrLength : ℕ := 8
def tcpHeaderLength : ℕ := 20

/-- What the lookups in the ARP cache find: the first one, and those until the timeout. -/
structure ArpAnswers where
  first : Option Mac
  polls : List (Option Mac)

/-- `arp_send_request`. -/
def arpSendRequest : NetProg Int := do
  match ← pktbufAlloc with
  | none => return -1
  | some p =>
    let p ← prepend p ethHdrLength
    let p ← append p arpPktLength
    minipTxHandler p
    return 0

def arpGetDestMac (answers : ArpAnswers) (host : UInt32) : NetProg (Option Mac) :=
  if host = ipv4Bcast then return some bcastMac
  else
    match answers.first with
    | some mac => return some mac
    | none => do
        let _ ← arpSendRequest
        -- the cache is asked until it has the address or the timer has expired
        return answers.polls.findSome? id

/-- The reply of `handle_arp_pkt` to a request for our address. -/
def arpReply : NetProg Int := do
  match ← pktbufAlloc with
  | none => return 0
  | some p =>
    let p ← prepend p ethHdrLength
    let p ← append p arpPktLength
    minipTxHandler p
    return 0

/-! ## IPv4 -/

/-- The configured addresses. -/
structure Config where
  ip : UInt32
  netmask : UInt32
  broadcast : UInt32
  gateway : UInt32

/-- The destination is all hosts, or all hosts of our network. -/
def Config.isBroadcast (config : Config) (destAddr : UInt32) : Bool :=
  destAddr = ipv4Bcast ∨ destAddr = config.broadcast

/-- The destination is not in our network. -/
def Config.isRemote (config : Config) (destAddr : UInt32) : Bool :=
  (destAddr &&& config.netmask) ≠ (config.ip &&& config.netmask)

def errHostUnreach : Status := -118
def errInval : Status := -22
def errNoMem : Status := -12

def minipIpv4Send (config : Config) (answers : ArpAnswers) (p : Packet) (destAddr : UInt32) :
    NetProg Status := do
  let p ← prepend p ipv4HdrLength
  let p ← prepend p ethHdrLength
  if config.isBroadcast destAddr then
    minipTxHandler p
    return 0
  else if config.isRemote destAddr ∧ config.gateway = ipv4None then return errNotFound
  else
    let targetAddr := if config.isRemote destAddr then config.gateway else destAddr
    match ← arpGetDestMac answers targetAddr with
    | none =>
      pktbufFree p
      return errHostUnreach
    | some _ =>
      minipTxHandler p
      return 0

/-- The data of a segment, if there are any. -/
def appendData (len : ℕ) : NetProg Packet :=
  if 0 < len then append packet len else return packet

/-- `tcp_send`. -/
def tcpSend (config : Config) (answers : ArpAnswers) (destIp : UInt32) (len optionsLength : ℕ) :
    NetProg Status := do
  match ← pktbufAlloc with
  | none => return errNoMemory
  | some p =>
    let p ← prepend p (tcpHeaderLength + optionsLength)
    let p ← appendData p len
    minipIpv4Send config answers p destIp

/-- `udp_send_iovec`, with the lengths of the vector, and whether there are a handle and a
vector. -/
def udpSendIovec (valid : Bool) (iov : List ℕ) : NetProg Status := do
  if !valid ∨ iov = [] then return errInval
  else
    match ← pktbufAlloc with
    | none => return errNoMem
    | some p =>
      let p ← append p (iov.sum % 2 ^ 64)
      let p ← prepend p udpHdrLength
      let p ← prepend p ipv4HdrLength
      let p ← prepend p ethHdrLength
      minipTxHandler p
      return noError

/-- `send_ping_reply`, with what `arp_cache_lookup` returns for the host. -/
def sendPingReply (mac : Option Mac) (reqdatalen : ℕ) : NetProg Status := do
  match ← pktbufAlloc with
  | none => return noError
  | some p =>
    let p ← prepend p icmpPktLength
    let p ← prepend p ipv4HdrLength
    let p ← prepend p ethHdrLength
    let p ← append p reqdatalen
    match mac with
    | none => .fault -- `minip_build_mac_hdr` copies from the null pointer
    | some _ =>
      minipTxHandler p
      return noError

/-! ## Calls own what they hold -/

/-- A call that sends a packet. -/
inductive Request where
  | tcp (config : Config) (answers : ArpAnswers) (destIp : UInt32) (len optionsLength : ℕ)
  | udp (valid : Bool) (iov : List ℕ)
  | ping (mac : Option Mac) (reqdatalen : ℕ)
  | arp

def Request.program : Request → NetProg Status
  | .tcp config answers destIp len optionsLength => tcpSend config answers destIp len optionsLength
  | .udp valid iov => udpSendIovec valid iov
  | .ping mac reqdatalen => sendPingReply mac reqdatalen
  | .arp => arpReply

/-- What a call with a packet holds, besides `held`. -/
def Packet.plus (p : Packet) (held : Multiset ℕ) : Multiset ℕ := p.items + held

section Owns

variable {held : Multiset ℕ} (p : Packet) {α : Type} {config : Config}

theorem packet_plus_eq : p.plus held = p.p.buffer ::ₘ p.header ::ₘ held := by
  show (p.p.buffer ::ₘ p.header ::ₘ 0) + held = _
  rw [Multiset.cons_add, Multiset.cons_add, zero_add]

/-- What is done with a packet goes on with the packet it gives. -/
theorem bind_plus {prog : NetProg Packet} {f : Packet → NetProg α} {post : α → Multiset ℕ → Prop}
    (h : prog.Owns (p.plus held) fun q rest => rest = q.plus held)
    (hf : ∀ q, (f q).Owns (q.plus held) post) :
    Prog.Owns (p.plus held) (prog >>= f) post :=
  h.bind fun q _ hq => hq ▸ hf q

/-- Two objects, or none. -/
theorem pktbuf_alloc_owns : pktbufAlloc.Owns held fun packet rest =>
    match packet with
    | none => rest = held
    | some p => rest = p.plus held := by
  refine ⟨fun header => ⟨fun buf => ?_, held, rfl, rfl⟩, rfl⟩
  exact (packet_plus_eq ⟨header, pktbufAddBuffer buf pktbufSize pktbufMaxHdr⟩).symm

/-- The data move in the buffer that the packet has. -/
theorem prepend_owns (sz : ℕ) :
    (prepend p sz).Owns (p.plus held) fun q rest => rest = q.plus held := by
  unfold prepend pktbufPrepend
  split
  · trivial
  next hsome =>
  split at hsome
  · cases hsome
  · cases hsome
    rfl

theorem append_owns (sz : ℕ) :
    (append p sz).Owns (p.plus held) fun q rest => rest = q.plus held := by
  unfold append pktbufAppend
  split
  · trivial
  next hsome =>
  split at hsome
  · cases hsome
  · cases hsome
    rfl

theorem append_data_owns (len : ℕ) :
    (appendData p len).Owns (p.plus held) fun q rest => rest = q.plus held := by
  unfold appendData
  split
  · exact append_owns p len
  · rfl

theorem pktbuf_free_owns : (pktbufFree p).Owns (p.plus held) fun _ rest => rest = held :=
  ⟨p.header ::ₘ held, packet_plus_eq p, held, rfl, rfl⟩

/-- A packet is handed over, and the call is done. -/
theorem send_owns (result : α) :
    Prog.Owns (p.plus held) (do minipTxHandler p; return result : NetProg α)
      fun _ rest => rest = held :=
  ⟨held, rfl, rfl⟩

/-- A packet is allocated; what is done with it disposes of it. -/
theorem alloc_then_owns {failed : NetProg α} {send : Packet → NetProg α}
    (hfailed : failed.Owns held fun _ rest => rest = held)
    (hsend : ∀ p, (send p).Owns (p.plus held) fun _ rest => rest = held) :
    Prog.Owns held
      (do
        match ← pktbufAlloc with
        | none => failed
        | some p => send p)
      fun _ rest => rest = held := by
  refine pktbuf_alloc_owns.bind fun packet rest hrest => ?_
  cases packet with
  | none =>
    rw [show rest = held from hrest]
    exact hfailed
  | some p =>
    rw [show rest = p.plus held from hrest]
    exact hsend p

theorem arp_packet_owns (result : α) :
    Prog.Owns (p.plus held)
      (do
        let p ← prepend p ethHdrLength
        let p ← append p arpPktLength
        minipTxHandler p
        return result : NetProg α)
      fun _ rest => rest = held := by
  refine bind_plus p (prepend_owns p _) fun p => ?_
  refine bind_plus p (append_owns p _) fun p => ?_
  exact send_owns p result

theorem arp_send_request_owns : arpSendRequest.Owns held fun _ rest => rest = held :=
  alloc_then_owns rfl fun p => arp_packet_owns p 0

theorem arp_get_dest_mac_owns (answers : ArpAnswers) (host : UInt32) :
    (arpGetDestMac answers host).Owns held fun _ rest => rest = held := by
  unfold arpGetDestMac
  split
  · rfl
  split
  · rfl
  · exact arp_send_request_owns.bind fun _ _ hrest => hrest

/-- A route to the destination: a broadcast, a host of our network, or a gateway. -/
def Config.Routes (config : Config) (destAddr : UInt32) : Prop :=
  config.isBroadcast destAddr ∨ ¬ config.isRemote destAddr ∨ config.gateway ≠ ipv4None

theorem minip_ipv4_send_owns {destAddr : UInt32} (hroute : config.Routes destAddr)
    (answers : ArpAnswers) (p : Packet) :
    (minipIpv4Send config answers p destAddr).Owns (p.plus held) fun _ rest => rest = held := by
  refine bind_plus p (prepend_owns p _) fun p => ?_
  refine bind_plus p (prepend_owns p _) fun p => ?_
  split
  · exact send_owns p 0
  next hbroadcast =>
  split
  · next hnone =>
    rcases hroute with hbcast | hlocal | hgateway
    · exact absurd hbcast hbroadcast
    · exact absurd hnone.1 hlocal
    · exact absurd hnone.2 hgateway
  refine (arp_get_dest_mac_owns answers _).bind fun mac _ hrest => ?_
  rw [hrest]
  cases mac with
  | none => exact (pktbuf_free_owns p).bind fun _ _ hrest => hrest
  | some mac => exact send_owns p 0

theorem tcp_send_owns {destIp : UInt32} (hroute : config.Routes destIp)
    (answers : ArpAnswers) (len optionsLength : ℕ) :
    (tcpSend config answers destIp len optionsLength).Owns held fun _ rest => rest = held := by
  refine alloc_then_owns rfl fun p => ?_
  refine bind_plus p (prepend_owns p _) fun p => ?_
  refine bind_plus p (append_data_owns p _) fun p => ?_
  exact minip_ipv4_send_owns hroute answers p

theorem udp_send_iovec_owns (valid : Bool) (iov : List ℕ) :
    (udpSendIovec valid iov).Owns held fun _ rest => rest = held := by
  unfold udpSendIovec
  split
  · rfl
  refine alloc_then_owns rfl fun p => ?_
  refine bind_plus p (append_owns p _) fun p => ?_
  refine bind_plus p (prepend_owns p _) fun p => ?_
  refine bind_plus p (prepend_owns p _) fun p => ?_
  refine bind_plus p (prepend_owns p _) fun p => ?_
  exact send_owns p noError

theorem send_ping_reply_owns (mac : Mac) (reqdatalen : ℕ) :
    (sendPingReply (some mac) reqdatalen).Owns held fun _ rest => rest = held := by
  refine alloc_then_owns rfl fun p => ?_
  refine bind_plus p (prepend_owns p _) fun p => ?_
  refine bind_plus p (prepend_owns p _) fun p => ?_
  refine bind_plus p (prepend_owns p _) fun p => ?_
  refine bind_plus p (append_owns p _) fun p => ?_
  exact send_owns p noError

/-- TCP sends to destinations that have a route, and ping replies go to hosts that the ARP cache
has. -/
def Request.Routable : Request → Prop
  | .tcp config _ destIp _ _ => config.Routes destIp
  | .ping mac _ => mac.isSome
  | _ => True

theorem program_owns {request : Request} (h : request.Routable) :
    request.program.Owns 0 fun _ rest => rest = 0 := by
  cases request with
  | tcp config answers destIp len optionsLength => exact tcp_send_owns h answers len optionsLength
  | udp valid iov => exact udp_send_iovec_owns valid iov
  | ping mac reqdatalen =>
    obtain ⟨mac, rfl⟩ := Option.isSome_iff_exists.mp h
    exact send_ping_reply_owns mac reqdatalen
  | arp => exact alloc_then_owns rfl fun p => arp_packet_owns p 0

end Owns

/-! ## Runs -/

/-- Calls, the driver, and a pool that was initialized with some objects. -/
abbrev NetSystem := Ownership.System ℕ Status

def NetSystem.step : NetSystem → Action ℕ Request → Option NetSystem :=
  Ownership.System.step Request.program

/-- `pktbuf_init`. -/
def netInit (objects : List ℕ) : NetSystem := ⟨objects, objects.length, 0, []⟩

/-- Every call that is started is one for which there is a route. -/
def Routed (_ : NetSystem) : Action ℕ Request → Prop
  | .start request => request.Routable
  | _ => True

theorem net_init_sound (objects : List ℕ) : (netInit objects).Sound ↑objects :=
  ⟨by rw [Ownership.System.total]; exact (add_zero _).trans (add_zero _), rfl,
    fun _ hcall => nomatch hcall⟩

/-- In every run in which every destination has a route: each object of the pool is in exactly one
place, the numbers of free objects and of those that calls and the driver hold add up to the size of
the pool, no call does anything undefined, and one that is done has handed over or given back every
object exactly as often as it took it. -/
theorem buffers_conserved {objects : List ℕ} (hobjects : objects.Nodup) {s : NetSystem}
    (h : Reachable NetSystem.step Routed (· = netInit objects) s) :
    (s.total = ↑objects ∧ s.total.Nodup) ∧
      s.pool.length + Multiset.card s.received +
        (s.calls.map fun call => Multiset.card call.held).sum = objects.length ∧
      ∀ call ∈ s.calls, call.prog ≠ .fault ∧ ∀ status, call.prog = .done status →
        call.held = 0 ∧ call.taken = call.disposed := by
  have hsound : s.Sound ↑objects := by
    refine h.invariant_from (P := fun s => s.Sound ↑objects) (net_init_sound objects) ?_
    intro s action s' hs hrouted hstep
    refine hs.step (fun request haction => ?_) hstep
    rw [haction] at hrouted
    exact program_owns hrouted
  refine ⟨⟨hsound.total, ?_⟩, hsound.conserved, fun call hcall =>
    ⟨hsound.not_fault hcall, fun status hdone => hsound.settled hcall hdone⟩⟩
  rw [hsound.total]
  exact Multiset.coe_nodup.mpr hobjects

/-- A TCP segment to a host outside of our network, with this gateway. -/
def segment (gateway : UInt32) : Request :=
  .tcp ⟨0x0100000a, 0x00ffffff, 0xff00000a, gateway⟩ ⟨none, [none, some bcastMac]⟩ 0x08080808 0 0

/-- The address of the gateway is asked for and found, the segment is sent, and the driver has freed
the buffer of the question. -/
def segmentRun : List (Action ℕ Request) :=
  .start (segment 0xfe00000a) :: List.replicate 6 (.run 0) ++ [.release 8192]

theorem buffers_conserved_segment : ∃ s, Reachable NetSystem.step Routed
      (· = netInit [2048, 4096, 6144, 8192]) s ∧
    s.pool = [8192] ∧ (s.calls.map fun call => call.prog.result) = [some 0] ∧
    s.pool.length + Multiset.card s.received +
      (s.calls.map fun call => Multiset.card call.held).sum = 4 := by
  have hrun : ∃ s ∈ Transition.run NetSystem.step (netInit [2048, 4096, 6144, 8192]) segmentRun,
      s.pool = [8192] ∧ (s.calls.map fun call => call.prog.result) = [some 0] := by decide
  have hadmits : ∀ action ∈ segmentRun, ∀ s, Routed s action := by
    have hroute : (segment 0xfe00000a).Routable := .inr (.inr (by decide))
    simp [segmentRun, Routed, hroute]
  obtain ⟨s, hrun, hpool, hdone⟩ := hrun
  have hreach : Reachable NetSystem.step Routed (· = netInit [2048, 4096, 6144, 8192]) s :=
    .run (.init rfl) (Transition.admits_of_forall hadmits _) hrun
  exact ⟨s, hreach, hpool, hdone, (buffers_conserved (by decide) hreach).2.1⟩

/-- Without a gateway the call is done, but it has neither handed over nor given back the objects of
its packet. A ping reply to a host that the ARP cache does not have does not do that either. -/
theorem no_route_leaks_buffer :
    let run := fun request => (Transition.run NetSystem.step (netInit [2048, 4096, 6144, 8192])
      [.start request, .run 0, .run 0]).map fun s =>
        (s.pool, Multiset.card s.received, s.calls.map fun call =>
          (call.prog.result, Multiset.card call.taken, Multiset.card call.disposed))
    run (segment ipv4None) = some ([6144, 8192], 0, [(some errNotFound, 2, 0)]) ∧
      run (.ping none 4) = some ([6144, 8192], 0, [(none, 2, 0)]) :=
  ⟨by decide, by decide⟩

end NusaKernel.Minip
