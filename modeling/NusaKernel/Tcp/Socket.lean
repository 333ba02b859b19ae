import NusaKernel.Cbuf.Queue

/-!
# A TCP connection (`lib/minip/tcp.c`)

The socket of one connection, from the first `SYN` on, with the functions that run under its lock.
Sequence numbers are words of 32 bits that go round. Each function returns the socket and the
segments it sends. The events that wake waiting threads and the timers are left out: a timeout may
come at any time.

What is handed to the receive buffer is part of the result of `handle_data` and `tcp_input`.
-/

namespace NusaKernel.Tcp

open Cbuf (cbufRead cbufWrite cbufSpaceUsed cbufInitializeEtc)

/-- `tcp_state_t`, without `STATE_LISTEN`: a listening socket is no connection. -/
inductive TcpState where
  | closed | synSent | synRcvd | established | closeWait | lastAck | closing | finWait1 | finWait2
  | timeWait
  deriving DecidableEq

/-- `tcp_flags_t`. -/
structure Flags where
  fin : Bool
  syn : Bool
  rst : Bool
  psh : Bool
  ack : Bool
  deriving DecidableEq

/-- The flags of a segment that only acknowledges, and of the others that are sent. -/
def Flags.ofAck : Flags := ⟨false, false, false, false, true⟩
def Flags.ofData : Flags := ⟨false, false, false, true, true⟩
def Flags.ofFin : Flags := ⟨true, false, false, false, true⟩
def Flags.ofSynAck : Flags := ⟨false, true, false, false, true⟩
def Flags.ofSyn : Flags := ⟨false, true, false, false, false⟩
def Flags.ofRst : Flags := ⟨false, false, true, false, false⟩

/-- A segment that is sent. -/
structure Segment where
  flags : Flags
  seq : BitVec 32
  ack : BitVec 32
  win : BitVec 16
  data : List UInt8
  deriving DecidableEq

/-- `tcp_socket_t`. -/
structure Socket (Tid : Type*) where
  state : TcpState
  mss : BitVec 32
  rxWinSize : BitVec 32
  rxWinLow : BitVec 32
  rxWinHigh : BitVec 32
  rxBuffer : Cbuf.State Tid
  rxFullMssCount : ℕ
  txWinLow : BitVec 32
  txWinHigh : BitVec 32
  txHighestSeq : BitVec 32
  txBuffer : ℕ → UInt8
  txBufferSize : BitVec 32
  txBufferOffset : BitVec 32

variable {Tid : Type*}

/-! ## Sequence numbers -/

/-- `SEQUENCE_GTE`. -/
def sequenceGte (a b : BitVec 32) : Prop := 0 ≤ (a - b).toInt
deriving Decidable

/-- `SEQUENCE_LTE`. -/
def sequenceLte (a b : BitVec 32) : Prop := (a - b).toInt ≤ 0
deriving Decidable

/-- `SEQUENCE_GT`. -/
def sequenceGt (a b : BitVec 32) : Prop := 0 < (a - b).toInt
deriving Decidable

/-! ## Creation -/

/-- `DEFAULT_MSS`. -/
def defaultMss : BitVec 32 := 1460#32

/-- `DEFAULT_RX_WINDOW_SIZE`. -/
def defaultRxWindowSize : BitVec 32 := 8192#32

/-- `DEFAULT_TX_BUFFER_SIZE`. -/
def defaultTxBufferSize : BitVec 32 := 8192#32

variable (rand : BitVec 32)

/-- `create_tcp_socket` with buffers. The first sequence number comes from `rand()`, and what is in
the buffers is whatever was in the memory. -/
def createTcpSocket (rxRaw txRaw : ℕ → UInt8) : Socket Tid where
  state := .closed
  mss := defaultMss
  rxWinSize := defaultRxWindowSize
  rxWinLow := 0
  rxWinHigh := 0
  rxBuffer := cbufInitializeEtc defaultRxWindowSize.toNat rxRaw
  rxFullMssCount := 0
  txWinLow := rand
  txWinHigh := rand
  txHighestSeq := rand
  txBuffer := txRaw
  txBufferSize := defaultTxBufferSize
  txBufferOffset := 0

/-! ## Sending -/

variable (s : Socket Tid)

/-- The right edge of the receive window that the buffer has room for. -/
def roomEdge : BitVec 32 :=
  s.rxWinLow + s.rxWinSize - BitVec.ofNat 32 (cbufSpaceUsed s.rxBuffer) - 1

/-- The update of the right edge in `tcp_socket_send`, which does not move it backwards. -/
def moveEdge : Socket Tid :=
  if sequenceGte (roomEdge s) s.rxWinHigh then { s with rxWinHigh := roomEdge s } else s

/-- `tcp_socket_send`. -/
def tcpSocketSend (data : List UInt8) (flags : Flags) (sequence : BitVec 32) :
    Socket Tid × Segment :=
  let s := moveEdge s
  (s, ⟨flags, sequence, if flags.ack then s.rxWinLow else 0,
    (s.rxWinHigh - s.rxWinLow).setWidth 16, data⟩)

/-- `send_ack`. -/
def sendAck : Socket Tid × List Segment :=
  if s.state ≠ .established ∧ s.state ≠ .closeWait ∧ s.state ≠ .finWait2 then (s, [])
  else
    let r := tcpSocketSend s [] .ofAck s.txWinLow
    (r.1, [r.2])

/-- As much as fits a segment. -/
def segmentLen (left : BitVec 32) : BitVec 32 :=
  if s.mss < left then s.mss else left

/-- Send data from a place in the buffer on, with the next number. -/
def sendRound (place : ℕ) (tosend : BitVec 32) : Socket Tid × Segment :=
  let r := tcpSocketSend s (Ring.block s.txBuffer place tosend.toNat) .ofData s.txHighestSeq
  ({ r.1 with txHighestSeq := r.1.txHighestSeq + tosend }, r.2)

/-- The loop of `tcp_write_pending_data`, with a bound on its rounds. -/
def sendPending (outstanding pending : BitVec 32) :
    ℕ → Socket Tid → BitVec 32 → Socket Tid × List Segment
  | 0, s, _ => (s, [])
  | fuel + 1, s, offset =>
    if offset < pending then
      let tosend := segmentLen s (pending - offset)
      let r := sendRound s (outstanding.toNat + offset.toNat) tosend
      let rest := sendPending outstanding pending fuel r.1 (offset + tosend)
      (rest.1, r.2 :: rest.2)
    else (s, [])

/-- `tcp_write_pending_data`. -/
def tcpWritePendingData : Socket Tid × List Segment :=
  let outstanding := s.txHighestSeq - s.txWinLow
  let pending := s.txBufferOffset - outstanding
  sendPending outstanding pending pending.toNat s 0

/-- `tcp_retransmit`. -/
def tcpRetransmit : Socket Tid × List Segment :=
  if s.state ≠ .established ∧ s.state ≠ .closeWait then (s, [])
  else
    let outstanding := s.txHighestSeq - s.txWinLow
    if outstanding = 0 then (s, [])
    else
      let tosend := segmentLen s outstanding
      let r := tcpSocketSend s (Ring.block s.txBuffer 0 tosend.toNat) .ofData s.txWinLow
      (r.1, [r.2])

/-! ## Receiving -/

/-- How the kernel is built: whether assertions are checked, and the width of `size_t`. -/
structure Build where
  debug : Bool
  sizeBits : ℕ
  size_bits_le : 32 ≤ sizeBits

/-- What a function does: the socket, what is sent, and what is handed to the receive buffer. -/
structure Outcome (Tid : Type*) where
  socket : Socket Tid
  sent : List Segment
  handed : List UInt8

/-- Nothing but the socket. -/
def Outcome.quiet : Outcome Tid := ⟨s, [], []⟩

/-- Send an acknowledgement at the end. -/
def Outcome.thenAck (o : Outcome Tid) : Outcome Tid :=
  ⟨(sendAck o.socket).1, o.sent ++ (sendAck o.socket).2, o.handed⟩

variable [DecidableEq Tid]

/-- The segment reaches the bottom of the window. -/
def inOrder (len : ℕ) (sequence : BitVec 32) : Prop :=
  sequenceLte sequence s.rxWinLow ∧ sequenceGte (sequence + BitVec.ofNat 32 len - 1) s.rxWinLow
deriving Decidable

/-- `offset` in `handle_data`. -/
def dataOffset (sequence : BitVec 32) : ℕ := (sequence - s.rxWinLow).toNat

/-- `copy_len` in `handle_data`. -/
def copyLen (b : Build) (s : Socket Tid) (len : ℕ) (sequence : BitVec 32) : ℕ :=
  min (s.rxWinHigh - s.rxWinLow).toNat
    ((len + (2 ^ b.sizeBits - dataOffset s sequence)) % 2 ^ b.sizeBits)

/-- Copy data into the receive buffer and move the window. -/
def takeData (data : ℕ → UInt8) (copyLen : ℕ) : Socket Tid :=
  { s with
    rxWinLow := s.rxWinLow + BitVec.ofNat 32 copyLen
    rxBuffer := (cbufWrite s.rxBuffer (some data) copyLen).2
    rxFullMssCount := if s.mss.toNat ≤ copyLen then s.rxFullMssCount + 1 else 0 }

/-- `handle_data`. The packet is a pointer to memory of which `len` bytes are data; an assertion
that fails stops the kernel. -/
def handleData (b : Build) (s : Socket Tid) (data : ℕ → UInt8) (len : ℕ) (sequence : BitVec 32) :
    Option (Outcome Tid) :=
  if inOrder s len sequence then
    let offset := dataOffset s sequence
    let n := copyLen b s len sequence
    if b.debug = true ∧ len ≤ offset then none
    else
      let source := fun i => data ((offset + i) % 2 ^ b.sizeBits)
      let s := takeData s source n
      let o : Outcome Tid := ⟨s, [], Ring.block source 0 n⟩
      if 2 ≤ s.rxFullMssCount ∨
          s.rxWinSize.toInt / 2 < (s.rxWinLow + s.rxWinSize - s.rxWinHigh).toInt then
        let o := o.thenAck
        some { o with socket := { o.socket with rxFullMssCount := 0 } }
      else some o
  else some (Outcome.quiet s).thenAck

/-- `handle_ack`. -/
def handleAck (sequence winSize : BitVec 32) : Socket Tid :=
  if sequenceLte sequence s.txWinLow then s
  else if sequenceGt sequence s.txHighestSeq then s
  else
    let ackedLen := sequence - s.txWinLow
    { s with
      txBuffer := Ring.copyIn s.txBuffer 0 (fun i => s.txBuffer (ackedLen.toNat + i))
        (s.txBufferOffset - ackedLen).toNat
      txBufferOffset := s.txBufferOffset - ackedLen
      txWinLow := s.txWinLow + ackedLen
      txWinHigh := s.txWinLow + ackedLen + winSize }

/-- A packet that arrives for the connection. -/
structure Packet where
  flags : Flags
  seqNum : BitVec 32
  ackNum : BitVec 32
  winSize : BitVec 16
  data : ℕ → UInt8
  dataLen : ℕ

/-- `highest_sequence` in `tcp_input`. -/
def Packet.highestSequence (p : Packet) : BitVec 32 := p.seqNum + BitVec.ofNat 32 (p.dataLen - 1)

/-- `send_reset`. -/
def sendReset (p : Packet) : Outcome Tid :=
  ⟨s, if p.flags.rst then [] else [⟨.ofRst, p.ackNum, 0, 0, []⟩], []⟩

/-- `tcp_remote_close`. -/
def tcpRemoteClose : Socket Tid := { s with state := .closed }

/-- The data of a packet, in `STATE_ESTABLISHED`. -/
def inputData (b : Build) (s : Socket Tid) (p : Packet) : Option (Outcome Tid) :=
  if 0 < p.dataLen then handleData b s p.data p.dataLen p.seqNum else some (.quiet s)

/-- The `FIN` of a packet, in `STATE_ESTABLISHED`. -/
def inputFin (o : Outcome Tid) (p : Packet) : Outcome Tid :=
  if p.flags.fin = true ∧ sequenceGte o.socket.rxWinLow p.highestSequence then
    let o := Outcome.thenAck
      { o with socket := { o.socket with rxWinLow := o.socket.rxWinLow + 1 } }
    { o with socket := { o.socket with state := .closeWait } }
  else o

/-- The acknowledgement of a packet. -/
def inputAck (p : Packet) : Socket Tid :=
  if p.flags.ack then handleAck s p.ackNum (p.winSize.setWidth 32) else s

/-- The `FIN` of a packet, in `STATE_FIN_WAIT_2`. -/
def inputFinWait2 (p : Packet) : Outcome Tid :=
  if p.flags.fin then
    let o := (Outcome.quiet { s with rxWinLow := s.rxWinLow + 1 }).thenAck
    { o with socket := { o.socket with state := .timeWait } }
  else .quiet s

/-- `tcp_input`, from the lookup of the socket on. -/
def tcpInput (b : Build) (s : Socket Tid) (p : Packet) : Option (Outcome Tid) :=
  if p.flags.rst then some (.quiet (tcpRemoteClose s))
  else
    match s.state with
    | .closed => some (sendReset s p)
    | .synRcvd =>
      if p.flags.syn then some (sendReset s p)
      else if p.flags.ack then
        if p.ackNum ≠ s.txWinLow then some (sendReset s p)
        else
          some (.quiet { s with
            txWinHigh := s.txWinLow + p.winSize.setWidth 32
            txHighestSeq := s.txWinLow
            state := .established })
      else some (sendReset s p)
    | .synSent =>
      if p.flags.syn = false then some (sendReset s p)
      else if p.flags.ack = false then some (sendReset s p)
      else if p.ackNum ≠ s.txWinLow + 1 then some (sendReset s p)
      else
        some (Outcome.quiet { s with
          rxWinLow := p.seqNum + 1
          rxWinHigh := p.seqNum + 1 + s.rxWinSize - 1
          txWinLow := s.txWinLow + 1
          txWinHigh := s.txWinLow + 1 + p.winSize.setWidth 32
          txHighestSeq := s.txWinLow + 1
          state := .established }).thenAck
    | .established => (inputData b (inputAck s p) p).map fun o => inputFin o p
    | .closeWait =>
      let o := Outcome.quiet (inputAck s p)
      some (if p.flags.fin then o.thenAck else o)
    | .lastAck => some (.quiet (if p.flags.ack then tcpRemoteClose s else s))
    | .finWait1 =>
      if p.flags.ack then some (inputFinWait2 { s with state := .finWait2 } p)
      else if p.flags.fin then
        -- the state is not yet one in which an acknowledgement is sent
        let o := (Outcome.quiet { s with rxWinLow := s.rxWinLow + 1 }).thenAck
        some { o with socket := { o.socket with state := .closing } }
      else some (.quiet s)
    | .finWait2 => some (inputFinWait2 s p)
    | .closing => some (.quiet (if p.flags.ack then { s with state := .timeWait } else s))
    | .timeWait => some (.quiet s)

/-! ## User calls -/

/-- One try of `tcp_read`: what is copied out, and the rest. -/
def tcpRead (len : ℕ) : List UInt8 × Socket Tid × List Segment :=
  let r := cbufRead s.rxBuffer true len
  let s := { s with rxBuffer := r.2.2 }
  if r.1 = 0 then ([], s, [])
  else
    let newRxWinSize := s.rxWinSize - BitVec.ofNat 32 (cbufSpaceUsed s.rxBuffer)
    if s.mss ≤ newRxWinSize ∧ s.rxWinHigh - s.rxWinLow < s.mss then (r.2.1, sendAck s)
    else (r.2.1, s, [])

/-- How much of the data `tcp_write` copies in one round of its loop. -/
def writeLen (data : List UInt8) : ℕ :=
  if s.state ≠ .established ∧ s.state ≠ .closeWait then 0
  else min (s.txBufferSize - s.txBufferOffset).toNat data.length

/-- One round of the loop of `tcp_write`, which has this data left. -/
def tcpWriteRound (data : List UInt8) : Socket Tid × List Segment :=
  let toCopy := writeLen s data
  if toCopy = 0 then (s, [])
  else
    tcpWritePendingData
      { s with
        txBuffer := Ring.copyIn s.txBuffer s.txBufferOffset.toNat (fun i => data.getD i 0) toCopy
        txBufferOffset := s.txBufferOffset + BitVec.ofNat 32 toCopy }

/-- Send a `FIN` and go to a state. -/
def sendFin (state : TcpState) : Socket Tid × List Segment :=
  let r := tcpSocketSend { s with state := state } [] .ofFin s.txWinLow
  ({ r.1 with txWinLow := r.1.txWinLow + 1 }, [r.2])

/-- `tcp_close`. -/
def tcpClose : Socket Tid × List Segment :=
  match s.state with
  | .closed => (s, [])
  | .synRcvd => sendFin s .finWait1
  | .established => sendFin s .finWait1
  | .closeWait => sendFin s .lastAck
  | .synSent => (s, [])
  | .finWait1 => (s, [])
  | .finWait2 => (s, [])
  | .closing => (s, [])
  | .timeWait => (s, [])
  | .lastAck => (s, [])

/-- The socket that `tcp_connect` waits with, and the `SYN` it sends. -/
def tcpConnect (rxRaw txRaw : ℕ → UInt8) : Socket Tid × List Segment :=
  let s := { createTcpSocket rand rxRaw txRaw with state := .synSent }
  (s, [⟨.ofSyn, s.txWinLow, 0, s.rxWinSize.setWidth 16, []⟩])

/-- The socket that `tcp_input` sets up for a `SYN` in `STATE_LISTEN`. -/
def acceptSocket (rxRaw txRaw : ℕ → UInt8) (p : Packet) : Socket Tid :=
  { createTcpSocket rand rxRaw txRaw with
    state := .synRcvd
    rxWinLow := p.seqNum + 1
    rxWinHigh := p.seqNum + 1 + defaultRxWindowSize - 1 }

/-- The answer to a `SYN` in `STATE_LISTEN`. -/
def acceptSyn (rxRaw txRaw : ℕ → UInt8) (p : Packet) : Socket Tid × List Segment :=
  let s := acceptSocket rand rxRaw txRaw p
  let r := tcpSocketSend s [] .ofSynAck s.txWinLow
  ({ r.1 with txWinLow := r.1.txWinLow + 1 }, [r.2])

end NusaKernel.Tcp
