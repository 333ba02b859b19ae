import NusaKernel.Lib.EndAround

/-!
# Internet checksums

`lib/minip/chksum.c` and its users in `minip.c` and `tcp.c`. The machines are little-endian. A
buffer is the list of its bytes; a packet buffer holds far fewer than `INT_MAX` of them.

`ones_sum16` is the sum with end-around carry of every buffer, so that a segment of `tcp_send`
passes the test of `tcp_input` (`tcp_checksum_accepted`). `rfc1701_chksum` leaves out an odd last
byte and folds its sum once, and that fold may carry again: it is the Internet checksum exactly
where what is lost does not matter (`internet_checksum`), and there are headers that no receiver
accepts (`header_refused`).
-/

namespace NusaKernel.Chksum

open EndAround List Nat

/-- A 16-bit word in memory. -/
def word (a b : UInt8) : ℕ := a.toNat + 256 * b.toNat

/-- The bytes of a 16-bit word in memory. -/
def store16 (value : ℕ) : List UInt8 := [UInt8.ofNat value, UInt8.ofNat (value / 256)]

/-- The words of a buffer, with a zero behind an odd last byte. -/
def words : List UInt8 → List ℕ
  | a :: b :: rest => word a b :: words rest
  | [a] => [word a 0]
  | [] => []

/-- `htons`: in memory the high byte comes first. -/
def htons (value : ℕ) : List UInt8 := [UInt8.ofNat (value / 256), UInt8.ofNat value]

/-- `htonl`. -/
def htonl (value : ℕ) : List UInt8 := htons (value / 2 ^ 16) ++ htons value

/-- An `ipv4_addr`, by its bytes in memory. -/
structure Addr where
  a : UInt8
  b : UInt8
  c : UInt8
  d : UInt8

def Addr.bytes (addr : Addr) : List UInt8 := [addr.a, addr.b, addr.c, addr.d]

/-! ## `ones_sum16` -/

/-- `(sum & 0xffff) + (sum >> 16)`. -/
def fold (sum : ℕ) : ℕ := sum % 2 ^ 16 + sum / 2 ^ 16

/-- The first loop of `ones_sum16`, and its odd byte: `htons(byte << 8)` is the byte. -/
def onesLoop : ℕ → List UInt8 → ℕ
  | sum, a :: b :: rest =>
    let sum := (sum + word a b) % 2 ^ 32
    onesLoop (if 2 ^ 31 ≤ sum then fold sum else sum) rest
  | sum, [a] => (sum + a.toNat) % 2 ^ 32
  | sum, [] => sum

/-- The second loop. -/
def foldLoop (sum : ℕ) : ℕ :=
  if 2 ^ 16 ≤ sum then foldLoop (fold sum) else sum
termination_by sum
decreasing_by
  unfold fold
  omega

/-- `ones_sum16`. -/
def onesSum16 (sum : ℕ) (buf : List UInt8) : ℕ := foldLoop (onesLoop sum buf)

theorem word_lt (a b : UInt8) : word a b < 2 ^ 16 := by
  have ha := a.toNat_lt
  have hb := b.toNat_lt
  unfold word
  omega

variable (buf : List UInt8)

theorem words_lt : ∀ w ∈ words buf, w < 2 ^ 16 := by
  induction buf using words.induct with
  | case1 a b rest ih => exact forall_mem_cons.mpr ⟨word_lt a b, ih⟩
  | case2 a => exact forall_mem_singleton.mpr (word_lt a 0)
  | case3 => exact forall_mem_nil _

/-- The accumulator keeps clear of its last bit, so that no carry is lost. -/
theorem residue_ones_loop (sum : ℕ) (hsum : sum < 2 ^ 31) :
    residue (onesLoop sum buf) = residue (sum + (words buf).sum) := by
  induction sum, buf using onesLoop.induct with
  | case1 sum a b rest total ih =>
    have hword := word_lt a b
    have htotal : total = sum + word a b := mod_eq_of_lt (by omega)
    have hlt : (if 2 ^ 31 ≤ total then fold total else total) < 2 ^ 31 := by
      unfold fold
      split_ifs <;> omega
    show residue (onesLoop (if 2 ^ 31 ≤ total then fold total else total) rest) = _
    rw [ih hlt, words, sum_cons, ← Nat.add_assoc, ← htotal]
    split
    · rw [← residue_add, fold, residue_fold, residue_add]
    · rfl
  | case2 sum a =>
    have ha := a.toNat_lt
    show residue ((sum + a.toNat) % 2 ^ 32) = residue (sum + a.toNat)
    rw [mod_eq_of_lt (by omega)]
  | case3 sum => rfl

theorem fold_loop_eq (sum : ℕ) : foldLoop sum = residue sum := by
  induction sum using foldLoop.induct with
  | case1 sum h ih => rw [foldLoop, if_pos h, ih, fold, residue_fold]
  | case2 sum h => rw [foldLoop, if_neg h, residue_of_lt (by omega)]

theorem ones_sum16_eq {sum : ℕ} (hsum : sum < 2 ^ 31) :
    onesSum16 sum buf = residue (sum + (words buf).sum) := by
  rw [onesSum16, fold_loop_eq, residue_ones_loop buf sum hsum]

/-! ## A checksum inside of the data -/

/-- Data with a field that is zero while the checksum is computed and then holds it. -/
def fillIn (checksum : List UInt8 → ℕ) (front back : List UInt8) : List UInt8 :=
  front ++ (store16 (checksum (front ++ (store16 0 ++ back))) ++ back)

variable {checksum : List UInt8 → ℕ} {front : List UInt8} {n : ℕ}

theorem length_fill_in (back : List UInt8) :
    (fillIn checksum front back).length = (front ++ (store16 0 ++ back)).length := by
  rw [fillIn, length_append, length_append, length_append, length_append]
  rfl

theorem sum_words_append (back : List UInt8) (hfront : front.length = 2 * n) :
    (words (front ++ back)).sum = (words front).sum + (words back).sum := by
  induction front using words.induct generalizing n with
  | case1 a b rest ih =>
    have hrest : rest.length = 2 * (n - 1) := by
      rw [length_cons, length_cons] at hfront
      omega
    show word a b + (words (rest ++ back)).sum = word a b + (words rest).sum + _
    rw [ih hrest, Nat.add_assoc]
  | case2 a =>
    rw [length_singleton] at hfront
    omega
  | case3 => exact (Nat.zero_add _).symm

theorem words_store16 {value : ℕ} (h : value < 2 ^ 16) (back : List UInt8) :
    words (store16 value ++ back) = value :: words back := by
  show word (UInt8.ofNat value) (UInt8.ofNat (value / 256)) :: words back = _
  rw [word, UInt8.toNat_ofNat', UInt8.toNat_ofNat']
  congr 1
  omega

/-- The complement of the sum, stored in the field, makes the sum all ones. -/
theorem residue_fill_in {extra : ℕ} (back : List UInt8) (hfront : front.length = 2 * n)
    (hsum : checksum (front ++ (store16 0 ++ back)) =
      2 ^ 16 - 1 - residue (extra + (words (front ++ (store16 0 ++ back))).sum)) :
    residue (extra + (words (fillIn checksum front back)).sum) = 2 ^ 16 - 1 := by
  rw [sum_words_append _ hfront, words_store16 (by decide), sum_cons, Nat.zero_add] at hsum
  have hfull := residue_complement (extra + ((words front).sum + (words back).sum))
  rw [← hsum] at hfull
  rw [fillIn, sum_words_append _ hfront, words_store16 (by omega), sum_cons]
  rwa [← Nat.add_assoc, Nat.add_right_comm _ _ (checksum _), Nat.add_assoc, Nat.add_assoc] at hfull

/-! ## TCP -/

/-- `tcp_pseudo_header_t` for a segment of this length. -/
def pheader (source dest : Addr) (dlen : ℕ) : List UInt8 :=
  source.bytes ++ dest.bytes ++ [0, 6] ++ htons dlen

/-- `cksum_pheader`. -/
def cksumPheader (pheader buf : List UInt8) : ℕ := 2 ^ 16 - 1 - onesSum16 (onesSum16 0 pheader) buf

/-- The checksum of a segment that `tcp_send` stores. `tcp_input` computes it again and refuses the
segment unless it is zero. -/
def tcpChecksum (srcIp dstIp : Addr) (data : List UInt8) : ℕ :=
  cksumPheader (pheader srcIp dstIp data.length) data

/-- The segment that `tcp_send` sends. -/
def tcpSend (destIp : Addr) (destPort : ℕ) (srcIp : Addr) (srcPort : ℕ) (buf : List UInt8)
    (flags : ℕ) (options : List UInt8) (ack sequence windowSize : ℕ) : List UInt8 :=
  let front := htons srcPort ++ htons destPort ++ htonl sequence ++ htonl ack ++
    htons (((20 + options.length) / 4) <<< 12 ||| flags) ++ htons windowSize
  let back := htons 0 ++ options ++ buf
  fillIn (tcpChecksum srcIp destIp) front back

theorem cksum_pheader_eq (pheader buf : List UInt8) :
    cksumPheader pheader buf = 2 ^ 16 - 1 - residue ((words pheader).sum + (words buf).sum) := by
  have hlt := residue_lt (0 + (words pheader).sum)
  rw [cksumPheader, ones_sum16_eq pheader (by decide), ones_sum16_eq _ (by omega), residue_add,
    Nat.zero_add]

/-- The checksum is the complement of the one's-complement sum of the words of the pseudo header and
the data, and a segment that is sent passes the test of the receiver. -/
theorem tcp_checksum_accepted (source dest : Addr) :
    (∀ dlen buf, cksumPheader (pheader source dest dlen) buf =
      2 ^ 16 - 1 - onesSum (words (pheader source dest dlen ++ buf))) ∧
    ∀ srcPort destPort buf flags options ack sequence windowSize,
      tcpChecksum source dest (tcpSend dest destPort source srcPort buf flags options ack
        sequence windowSize) = 0 := by
  refine ⟨fun dlen buf => ?_, fun srcPort destPort buf flags options ack sequence windowSize => ?_⟩
  · rw [cksum_pheader_eq, onesSum_eq (words_lt _), sum_words_append buf (n := 6) rfl]
  · rw [tcpChecksum, cksum_pheader_eq, tcpSend, length_fill_in]
    refine Nat.sub_eq_zero_of_le (Nat.le_of_eq (Eq.symm ?_))
    exact residue_fill_in (n := 8) _ rfl (cksum_pheader_eq _ _)

/-! ## `rfc1701_chksum` -/

/-- The loop of `rfc1701_chksum`, over `len / 2` words. -/
def rfc1701Total : ℕ → List UInt8 → ℕ
  | total, a :: b :: rest => rfc1701Total ((total + word a b) % 2 ^ 32) rest
  | total, _ => total

/-- `rfc1701_chksum`. -/
def rfc1701Chksum : ℕ := 2 ^ 16 - 1 - fold (rfc1701Total 0 buf) % 2 ^ 16

/-- `struct ipv4_hdr` as `minip_build_ipv4_hdr` fills it in. -/
def ipv4Hdr (checksum : List UInt8 → ℕ) (src dst : Addr) (proto : UInt8) (len : ℕ) : List UInt8 :=
  fillIn checksum ([0x45, 0] ++ htons (20 + len) ++ store16 0 ++ store16 0x40 ++ [64, proto])
    (src.bytes ++ dst.bytes)

/-- `minip_build_ipv4_hdr`. -/
def minipBuildIpv4Hdr : Addr → Addr → UInt8 → ℕ → List UInt8 := ipv4Hdr rfc1701Chksum

/-- `struct icmp_pkt` as `send_ping_reply` fills it in, with its data. -/
def icmpPkt (checksum : List UInt8 → ℕ) (hdrData : Fin 4 → UInt8)
    (data : List UInt8) : List UInt8 :=
  fillIn checksum [0, 0] (ofFn hdrData ++ data)

/-- The message of `send_ping_reply`. -/
def sendPingReply : (Fin 4 → UInt8) → List UInt8 → List UInt8 := icmpPkt rfc1701Chksum

/-- The words that `rfc1701_chksum` adds up. -/
def wholeWords : List UInt8 → List ℕ
  | a :: b :: rest => word a b :: wholeWords rest
  | _ => []

/-- The last byte of a buffer of odd length, which `rfc1701_chksum` leaves out. -/
def oddByte : List UInt8 → ℕ
  | _ :: _ :: rest => oddByte rest
  | [a] => a.toNat
  | [] => 0

/-- The plain sum of the whole words. -/
def wholeSum : ℕ := (wholeWords buf).sum

/-- What is lost of the sum: the carries out of 32 bits, the carry of the fold and the odd byte. -/
def lost : ℕ := wholeSum buf / 2 ^ 32 + fold (wholeSum buf % 2 ^ 32) / 2 ^ 16 + oddByte buf

/-- What is lost does not count in a sum with end-around carry, and is not all that there is. -/
structure LosesNothing (buf : List UInt8) : Prop where
  lost : lost buf % (2 ^ 16 - 1) = 0
  kept : fold (wholeSum buf % 2 ^ 32) % 2 ^ 16 = 0 → (words buf).sum = 0

/-- The words of a buffer are the whole ones and the odd byte. -/
theorem sum_words_eq : (words buf).sum = wholeSum buf + oddByte buf := by
  unfold wholeSum
  induction buf using words.induct with
  | case1 a b rest ih => rw [words, wholeWords, oddByte, sum_cons, sum_cons, ih, Nat.add_assoc]
  | case2 a => simp [words, wholeWords, oddByte, word]
  | case3 => rfl

/-- The loop adds up the whole words, in 32 bits. -/
theorem rfc1701_total_eq (total : ℕ) (h : total < 2 ^ 32) :
    rfc1701Total total buf = (total + wholeSum buf) % 2 ^ 32 := by
  unfold wholeSum
  induction total, buf using rfc1701Total.induct with
  | case1 total a b rest ih =>
    rw [rfc1701Total, ih (mod_lt _ (by decide)), wholeWords, sum_cons, mod_add_mod, Nat.add_assoc]
  | case2 buf total hshort =>
    match buf with
    | [] => exact (mod_eq_of_lt h).symm
    | [a] => exact (mod_eq_of_lt h).symm
    | a :: b :: rest => exact absurd rfl (hshort a b rest)

/-- The sum is what is kept of it and what is lost, up to carries. -/
theorem exists_carries : ∃ carries, (words buf).sum =
    fold (wholeSum buf % 2 ^ 32) % 2 ^ 16 + lost buf + (2 ^ 16 - 1) * carries := by
  let folded := fold (wholeSum buf % 2 ^ 32)
  refine ⟨(2 ^ 16 + 1) * (wholeSum buf / 2 ^ 32) + wholeSum buf % 2 ^ 32 / 2 ^ 16 +
    folded / 2 ^ 16, ?_⟩
  have hfold : folded = wholeSum buf % 2 ^ 32 % 2 ^ 16 + wholeSum buf % 2 ^ 32 / 2 ^ 16 := rfl
  show _ = folded % 2 ^ 16 + (_ + folded / 2 ^ 16 + _) + _
  rw [sum_words_eq]
  omega

/-- `rfc1701_chksum` is right exactly where it loses nothing. -/
theorem chksum_eq_iff :
    rfc1701Chksum buf = 2 ^ 16 - 1 - onesSum (words buf) ↔ LosesNothing buf := by
  obtain ⟨carries, hsum⟩ := exists_carries buf
  have hkept := mod_lt (fold (wholeSum buf % 2 ^ 32)) (by decide : 0 < 2 ^ 16)
  have hlt := residue_lt (words buf).sum
  have hcancel {a b : ℕ} (ha : a < 2 ^ 16) (hb : b < 2 ^ 16) :
      2 ^ 16 - 1 - a = 2 ^ 16 - 1 - b ↔ a = b := by omega
  rw [rfc1701Chksum, rfc1701_total_eq buf 0 (by decide), Nat.zero_add, onesSum_eq (words_lt _),
    hcancel hkept hlt, eq_residue_iff hkept]
  constructor
  · rintro ⟨hmod, hzero⟩
    exact ⟨by omega, hzero.mp⟩
  · rintro ⟨hlost, hzero⟩
    exact ⟨by omega, hzero, by omega⟩

/-- Data with the right checksum in its field adds up to all ones. -/
theorem verified_of_eq {back : List UInt8} (hfront : front.length = 2 * n)
    (h : rfc1701Chksum (fillIn (fun _ => 0) front back) =
      2 ^ 16 - 1 - onesSum (words (fillIn (fun _ => 0) front back))) :
    onesSum (words (fillIn rfc1701Chksum front back)) = 2 ^ 16 - 1 := by
  rw [onesSum_eq (words_lt _)] at h ⊢
  rw [← Nat.zero_add (List.sum _)]
  refine residue_fill_in back hfront (h.trans ?_)
  rw [Nat.zero_add]
  rfl

/-- The result is the Internet checksum, and a header or an echo reply that is built with it
verifies, exactly where nothing that counts is lost. -/
theorem internet_checksum :
    (rfc1701Chksum buf = 2 ^ 16 - 1 - onesSum (words buf) ∧
      (∀ src dst proto len, buf = ipv4Hdr (fun _ => 0) src dst proto len →
        onesSum (words (minipBuildIpv4Hdr src dst proto len)) = 2 ^ 16 - 1) ∧
      ∀ hdrData data, buf = icmpPkt (fun _ => 0) hdrData data →
        onesSum (words (sendPingReply hdrData data)) = 2 ^ 16 - 1) ↔ LosesNothing buf := by
  rw [← chksum_eq_iff]
  constructor
  · exact And.left
  · intro h
    refine ⟨h, fun src dst proto len hbuf => ?_, fun hdrData data hbuf => ?_⟩
    · subst hbuf
      exact verified_of_eq (n := 5) rfl h
    · subst hbuf
      exact verified_of_eq (n := 1) rfl h

/-- The words of this header add up to `0x1ffff`. An odd last byte is left out. -/
theorem header_refused :
    onesSum (words (minipBuildIpv4Hdr ⟨192, 168, 0, 2⟩ ⟨192, 168, 186, 86⟩ 1 64)) = 1 ∧
      rfc1701Chksum [1] = 2 ^ 16 - 1 ∧ onesSum (words [1]) = 1 := by
  decide

end NusaKernel.Chksum
