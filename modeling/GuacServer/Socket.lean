import Mathlib.Data.Vector.Defs
import GuacServer.DecimalNumerals
import GuacServer.Unicode

/-!
# Writing to a socket

The output half of socket.c. The write handler is anything that accepts some
of the bytes it is given or fails, as a list of outcomes says in advance; once
the list is used up it accepts everything. The base64 writer keeps up to three
bytes in the socket between calls, and a store outside of its buffer has no
defined result.
-/

namespace GuacServer.Socket

open Unicode DecimalNumerals

/-- The socket as far as writing uses it. -/
structure GuacSocket where
  /-- Outcomes of the coming calls of the write handler: the number of bytes
  accepted at most, or a failure. -/
  writes : List (Option ℕ)
  /-- All bytes accepted by the write handler. -/
  output : List UInt8
  /-- The number of bytes present in the base64 buffer. -/
  ready : ℕ
  /-- The base64 buffer. -/
  readyBuf : Vector ℤ 3

/-- guac_socket_alloc, with a write handler of the given outcomes. -/
def guacSocketAlloc (writes : List (Option ℕ)) : GuacSocket := ⟨writes,[],0,#v[0,0,0]⟩

/-- A function on a socket with its return value, or no defined result. -/
abbrev SocketOp := GuacSocket→Option (ℤ×GuacSocket)

/-- The loop of guac_socket_write: the return value, the outcomes left over
and the bytes accepted. -/
def writeLoop : List (Option ℕ)→List UInt8→ℤ×List (Option ℕ)×List UInt8
  | writes, [] => (0,writes,[])
  | [], buf => (0,[],buf)
  | none::writes, _ => (1,writes,[])
  | some n::writes, buf =>
    let rest := writeLoop writes (buf.drop n)
    (rest.1,rest.2.1,buf.take n++rest.2.2)

/-- guac_socket_write. -/
def guacSocketWrite (buf : List UInt8) : SocketOp := fun socket =>
  let loop := writeLoop socket.writes buf
  some (loop.1,{ socket with writes := loop.2.1, output := socket.output++loop.2.2 })

/-- A chain of calls joined by the operator ||: the value is zero if all
return zero, and one from the first that does not. -/
def chain : List SocketOp→SocketOp
  | [], socket => some (0,socket)
  | op::ops, socket =>
    match op socket with
    | none => none
    | some (ret,socket) => if ret≠0 then some (1,socket) else chain ops socket

/-- guac_socket_write_string. -/
def guacSocketWriteString (str : List UInt8) : SocketOp := chain [guacSocketWrite (cString str)]

/-- guac_socket_write_int. -/
def guacSocketWriteInt (i : ℤ) : SocketOp := guacSocketWrite (decimalInt i)

/-- The table of base64 characters. -/
def base64Characters : List UInt8 :=
  ascii "ABCDEFGHIJKLMNOPQRSTUVWXYZabcdefghijklmnopqrstuvwxyz0123456789+/"

/-- An entry of the table. -/
def base64Character (index : ℕ) : UInt8 := base64Characters.getD index 0

/-- The low eight bits of an int, which are all that the masks select. -/
def lowByte (i : ℤ) : ℕ := (i%256).toNat

/-- The four characters of a triplet, where -1 stands for padding. -/
def base64Triplet (a b c : ℤ) : List UInt8 :=
  base64Character ((lowByte a &&& 0xFC) >>> 2)::if b≥0 then
      base64Character (((lowByte a &&& 0x03) <<< 4) ||| ((lowByte b &&& 0xF0) >>> 4))::if c≥0 then
          [base64Character (((lowByte b &&& 0x0F) <<< 2) ||| ((lowByte c &&& 0xC0) >>> 6)),
            base64Character (lowByte c &&& 0x3F)]
        else [base64Character ((lowByte b &&& 0x0F) <<< 2),61]
    else [base64Character ((lowByte a &&& 0x03) <<< 4),61,61]

/-- __guac_socket_write_base64_triplet: the number of bytes written, or -1. -/
def guacSocketWriteBase64Triplet (a b c : ℤ) : SocketOp := fun socket =>
  match guacSocketWrite (base64Triplet a b c) socket with
  | none => none
  | some (ret,socket) =>
    if ret≠0 then some (-1,socket)
    else some (if b<0 then 1 else if c<0 then 2 else 3,socket)

/-- __guac_socket_write_base64_byte. The store outside of the buffer is the
case without a result; a failed triplet leaves the count as it is. -/
def guacSocketWriteBase64Byte (buf : ℤ) : SocketOp := fun socket =>
  if h : socket.ready<3 then
    let stored := { socket with
      readyBuf := socket.readyBuf.set socket.ready buf
      ready := socket.ready+1 }
    if stored.ready=3 then
      match guacSocketWriteBase64Triplet stored.readyBuf[0] stored.readyBuf[1]
        stored.readyBuf[2] stored with
      | none => none
      | some (retval,socket) =>
        if retval<0 then some (retval,socket) else some (1,{ socket with ready := 0 })
    else some (1,stored)
  else none

/-- guac_socket_write_base64. -/
def guacSocketWriteBase64 : List UInt8→SocketOp
  | [], socket => some (0,socket)
  | c::buf, socket =>
    match guacSocketWriteBase64Byte c.toNat socket with
    | none => none
    | some (retval,socket) =>
      if retval<0 then some (retval,socket) else guacSocketWriteBase64 buf socket

variable {socket : GuacSocket}

variable {socket' : GuacSocket}

/-- A byte that does not fail takes the next place in the buffer, or empties a
full one. -/
theorem guacSocketWriteBase64Byte_ready {buf retval : ℤ}
    (h : guacSocketWriteBase64Byte buf socket=some (retval,socket')) (hret : ¬retval<0) :
    socket.ready<2 ∧ socket'.ready=socket.ready+1 ∨ socket.ready=2 ∧ socket'.ready=0 := by
  unfold guacSocketWriteBase64Byte at h
  split at h
  · next hlt =>
    dsimp only at h
    split at h
    · next hfull =>
      split at h
      · cases h
      · split at h
        · cases h
          exact absurd ‹_› hret
        · cases h
          exact Or.inr ⟨by omega,rfl⟩
    · cases h
      left
      dsimp only at *
      omega
  · cases h

/-- guac_socket_flush_base64. -/
def guacSocketFlushBase64 (socket : GuacSocket) : Option (ℤ×GuacSocket) :=
  if 0<socket.ready then
    match _hbyte : guacSocketWriteBase64Byte (-1) socket with
    | none => none
    | some (retval,socket') =>
      if _hret : retval<0 then some (retval,socket') else guacSocketFlushBase64 socket'
  else some (0,socket)
termination_by (4-socket.ready)%4
decreasing_by
  have hready := guacSocketWriteBase64Byte_ready _hbyte _hret
  omega

/-- Calls of the base64 writer. -/
inductive Base64Call
  /-- guac_socket_write_base64 with these bytes. -/
  | write (bytes : List UInt8)
  /-- guac_socket_flush_base64. -/
  | flush
  deriving DecidableEq

/-- One call of the base64 writer. -/
def Base64Call.run : Base64Call→SocketOp
  | .write bytes => guacSocketWriteBase64 bytes
  | .flush => guacSocketFlushBase64

/-- The number of triplets a call completes when `ready` bytes are waiting. -/
def Base64Call.completes (ready : ℕ) : Base64Call→ℕ
  | .write bytes => (ready+bytes.length)/3
  | .flush => if ready=0 then 0 else 1

/-- The number of bytes that wait after a call. -/
def Base64Call.leaves (ready : ℕ) : Base64Call→ℕ
  | .write bytes => (ready+bytes.length)%3
  | .flush => 0

/-- The number of triplets that calls complete. -/
def triplets (ready : ℕ) : List Base64Call→ℕ
  | [] => 0
  | call::calls => call.completes ready+triplets (call.leaves ready) calls

/-- Every call has a result, and between calls at most two bytes wait. All
calls are made, whatever those before them return. -/
def Bounded : List Base64Call→GuacSocket→Prop
  | [], socket => socket.ready≤2
  | call::calls, socket => socket.ready≤2 ∧
    ∃ retval socket', call.run socket=some (retval,socket') ∧ Bounded calls socket'

/-- The outcomes left over when a write of `count` bytes succeeds. -/
def acceptWrite : List (Option ℕ)→ℕ→Option (List (Option ℕ))
  | writes, 0 => some writes
  | [], _ + 1 => some []
  | none::_, _ + 1 => none
  | some n::writes, count+1 => acceptWrite writes (count+1-n)

/-- The outcomes left over when so many writes of four bytes succeed. -/
def acceptTriplets : ℕ→List (Option ℕ)→Option (List (Option ℕ))
  | 0, writes => some writes
  | n+1, writes => (acceptWrite writes 4).bind (acceptTriplets n)

/-- Writes of triplets follow one another. -/
theorem acceptTriplets_add (m n : ℕ) (writes : List (Option ℕ)) :
    acceptTriplets (m+n) writes=(acceptTriplets m writes).bind (acceptTriplets n) := by
  induction m generalizing writes with
  | zero => rw [Nat.zero_add,acceptTriplets,Option.bind_some]
  | succ m ih =>
    rw [Nat.add_right_comm,acceptTriplets,acceptTriplets,Option.bind_assoc]
    exact Option.bind_congr fun rest _ => ih rest

/-- A write that succeeds writes everything. -/
theorem writeLoop_accept {writes rest : List (Option ℕ)} {buf : List UInt8}
    (h : acceptWrite writes buf.length=some rest) : writeLoop writes buf=(0,rest,buf) := by
  induction writes generalizing buf with
  | nil =>
    cases buf with
    | nil =>
      cases h
      rfl
    | cons c buf =>
      cases h
      rfl
  | cons outcome writes ih =>
    cases buf with
    | nil =>
      cases h
      rfl
    | cons c buf =>
      cases outcome with
      | none => cases h
      | some n =>
        have hlen : ((c::buf).drop n).length=buf.length+1-n := List.length_drop
        have hrest : writeLoop writes ((c::buf).drop n)=(0,rest,(c::buf).drop n) :=
          ih (by rw [hlen]; exact h)
        simp [writeLoop,hrest]

/-- A write that does not succeed returns one. -/
theorem writeLoop_reject {writes : List (Option ℕ)} {buf : List UInt8}
    (h : acceptWrite writes buf.length=none) : (writeLoop writes buf).1=1 := by
  induction writes generalizing buf with
  | nil =>
    cases buf with
    | nil => cases h
    | cons c buf => cases h
  | cons outcome writes ih =>
    cases buf with
    | nil => cases h
    | cons c buf =>
      cases outcome with
      | none => rfl
      | some n =>
        have hlen : ((c::buf).drop n).length=buf.length+1-n := List.length_drop
        exact ih (by rw [hlen]; exact h)

/-- Every triplet has four characters. -/
theorem length_base64Triplet (a b c : ℤ) : (base64Triplet a b c).length=4 := by
  unfold base64Triplet
  split
  · split <;> rfl
  · rfl

/-- A triplet is written if its four characters are accepted. -/
theorem guacSocketWriteBase64Triplet_accept {rest : List (Option ℕ)}
    (h : acceptWrite socket.writes 4=some rest) (a b c : ℤ) :
    ∃ n, 0≤n ∧ guacSocketWriteBase64Triplet a b c socket=
      some (n,{ socket with
        writes := rest
        output := socket.output++base64Triplet a b c }) := by
  have hloop : writeLoop socket.writes (base64Triplet a b c)=(0,rest,base64Triplet a b c) :=
    writeLoop_accept (by rw [length_base64Triplet]; exact h)
  refine ⟨if b<0 then 1 else if c<0 then 2 else 3,?_,?_⟩
  · split
    · decide
    · split <;> decide
  · unfold guacSocketWriteBase64Triplet guacSocketWrite
    rw [hloop]
    rfl

/-- A triplet fails if they are not. -/
theorem guacSocketWriteBase64Triplet_reject (h : acceptWrite socket.writes 4=none) (a b c : ℤ) :
    ∃ writes output, guacSocketWriteBase64Triplet a b c socket=
      some (-1,{ socket with
        writes := writes
        output := output }) := by
  have hloop : (writeLoop socket.writes (base64Triplet a b c)).1=1 :=
    writeLoop_reject (by rw [length_base64Triplet]; exact h)
  unfold guacSocketWriteBase64Triplet guacSocketWrite
  dsimp only
  rw [hloop]
  exact ⟨_,_,rfl⟩

/-- A byte that does not fill the buffer waits in it. -/
theorem guacSocketWriteBase64Byte_wait (h : socket.ready<2) (buf : ℤ) :
    guacSocketWriteBase64Byte buf socket=
      some (1,{ socket with
        readyBuf := socket.readyBuf.set socket.ready buf
        ready := socket.ready+1 }) := by
  unfold guacSocketWriteBase64Byte
  rw [dif_pos (by omega : socket.ready<3),if_neg (by dsimp only; omega)]

/-- The socket with a byte stored in the last place of the buffer. -/
def GuacSocket.storeLast (socket : GuacSocket) (buf : ℤ) : GuacSocket :=
  { socket with
    readyBuf := socket.readyBuf.set 2 buf
    ready := 3 }

/-- The byte that fills the buffer writes the triplet. -/
theorem guacSocketWriteBase64Byte_last (h : socket.ready=2) (buf : ℤ) :
    guacSocketWriteBase64Byte buf socket=
      match guacSocketWriteBase64Triplet socket.readyBuf[0] socket.readyBuf[1] buf
        (socket.storeLast buf) with
      | none => none
      | some (retval,socket) =>
        if retval<0 then some (retval,socket) else some (1,{ socket with ready := 0 }) := by
  obtain ⟨writes,output,ready,readyBuf⟩ := socket
  cases h
  simp [guacSocketWriteBase64Byte,GuacSocket.storeLast]

/-- The byte that fills the buffer empties it if the triplet is accepted. -/
theorem guacSocketWriteBase64Byte_accept (h : socket.ready=2) (buf : ℤ) {rest : List (Option ℕ)}
    (haccept : acceptWrite socket.writes 4=some rest) :
    guacSocketWriteBase64Byte buf socket=
      some (1, { writes := rest
                 output := socket.output++base64Triplet socket.readyBuf[0] socket.readyBuf[1] buf
                 ready := 0
                 readyBuf := socket.readyBuf.set 2 buf }) := by
  have hstore : acceptWrite (socket.storeLast buf).writes 4=some rest := haccept
  obtain ⟨n,hn,htriplet⟩ :=
    guacSocketWriteBase64Triplet_accept hstore socket.readyBuf[0] socket.readyBuf[1] buf
  rw [guacSocketWriteBase64Byte_last h,htriplet]
  dsimp only
  rw [if_neg (not_lt.mpr hn)]
  rfl

/-- The byte that fills the buffer leaves it full if the triplet is not. -/
theorem guacSocketWriteBase64Byte_reject (h : socket.ready=2) (buf : ℤ)
    (hreject : acceptWrite socket.writes 4=none) :
    ∃ socket', guacSocketWriteBase64Byte buf socket=some (-1,socket') ∧ socket'.ready=3 := by
  have hstore : acceptWrite (socket.storeLast buf).writes 4=none := hreject
  obtain ⟨writes,output,htriplet⟩ :=
    guacSocketWriteBase64Triplet_reject hstore socket.readyBuf[0] socket.readyBuf[1] buf
  rw [guacSocketWriteBase64Byte_last h,htriplet]
  exact ⟨_,rfl,rfl⟩

/-- The call completes its triplets, all accepted, and leaves the bytes that
are too few for another. -/
def Accepted (op : SocketOp) (socket : GuacSocket) (rest : List (Option ℕ)) (ready : ℕ) : Prop :=
  ∃ socket', op socket=some (0,socket') ∧ socket'.ready=ready ∧ socket'.writes=rest

/-- The call fails and leaves the buffer full. -/
def Rejected (op : SocketOp) (socket : GuacSocket) : Prop :=
  ∃ retval socket', op socket=some (retval,socket') ∧ socket'.ready=3

/-- What guac_socket_write_base64 does depends on whether the triplets it
completes are accepted. -/
theorem guacSocketWriteBase64_spec (bytes : List UInt8) (socket : GuacSocket) (h : socket.ready≤2) :
    (∀ rest, acceptTriplets ((socket.ready+bytes.length)/3) socket.writes=some rest →
      Accepted (guacSocketWriteBase64 bytes) socket rest ((socket.ready+bytes.length)%3)) ∧
    (acceptTriplets ((socket.ready+bytes.length)/3) socket.writes=none →
      Rejected (guacSocketWriteBase64 bytes) socket) := by
  induction bytes generalizing socket with
  | nil =>
    have hdiv : (socket.ready+([] : List UInt8).length)/3=0 := by
      rw [List.length_nil]
      omega
    have hmod : (socket.ready+([] : List UInt8).length)%3=socket.ready := by
      rw [List.length_nil]
      omega
    rw [hdiv,hmod]
    constructor
    · intro rest hrest
      cases hrest
      exact ⟨socket,rfl,rfl,rfl⟩
    · intro hnone
      cases hnone
  | cons c bytes ih =>
    rcases Nat.lt_or_eq_of_le h with hlt | hfull
    · have hbyte := guacSocketWriteBase64Byte_wait hlt c.toNat
      have hcount : socket.ready+(c::bytes).length=socket.ready+1+bytes.length := by
        rw [List.length_cons]
        omega
      have hrest := ih { socket with
        readyBuf := socket.readyBuf.set socket.ready c.toNat
        ready := socket.ready+1 } (by dsimp only; omega)
      dsimp only at hrest
      rw [hcount]
      unfold Accepted Rejected at hrest ⊢
      rw [guacSocketWriteBase64,hbyte]
      exact hrest
    · have hdiv : (socket.ready+(c::bytes).length)/3=bytes.length/3+1 := by
        rw [List.length_cons]
        omega
      have hmod : (socket.ready+(c::bytes).length)%3=bytes.length%3 := by
        rw [List.length_cons]
        omega
      rw [hdiv,hmod,acceptTriplets]
      unfold Accepted Rejected at ih ⊢
      cases haccept : acceptWrite socket.writes 4 with
      | none =>
        obtain ⟨socket',hbyte,hready⟩ := guacSocketWriteBase64Byte_reject hfull c.toNat haccept
        rw [guacSocketWriteBase64,hbyte]
        exact ⟨fun rest hrest => (by cases hrest),fun _ => ⟨-1,socket',rfl,hready⟩⟩
      | some writes =>
        have hbyte := guacSocketWriteBase64Byte_accept hfull c.toNat haccept
        have hrest := ih { writes := writes
                           output := socket.output++base64Triplet socket.readyBuf[0]
                             socket.readyBuf[1] c.toNat
                           ready := 0
                           readyBuf := socket.readyBuf.set 2 c.toNat } (Nat.zero_le _)
        dsimp only at hrest
        rw [Nat.zero_add] at hrest
        rw [guacSocketWriteBase64,hbyte]
        exact hrest

/-- Nothing is flushed when nothing waits. -/
theorem guacSocketFlushBase64_empty (h : socket.ready=0) :
    guacSocketFlushBase64 socket=some (0,socket) := by
  rw [guacSocketFlushBase64,if_neg (by omega)]

/-- A flush stores one byte of padding and goes on unless that fails. -/
theorem guacSocketFlushBase64_step {retval : ℤ} (h : 0<socket.ready)
    (hbyte : guacSocketWriteBase64Byte (-1) socket=some (retval,socket')) :
    guacSocketFlushBase64 socket=
      if retval<0 then some (retval,socket') else guacSocketFlushBase64 socket' := by
  rw [guacSocketFlushBase64,if_pos h]
  split
  · next hnone =>
    rw [hbyte] at hnone
    cases hnone
  · next hsome =>
    rw [hbyte] at hsome
    cases hsome
    rfl

/-- What a flush does when two bytes wait. -/
theorem guacSocketFlushBase64_two (socket : GuacSocket) (h : socket.ready=2) :
    (∀ rest, acceptWrite socket.writes 4=some rest → Accepted guacSocketFlushBase64 socket rest 0) ∧
    (acceptWrite socket.writes 4=none→Rejected guacSocketFlushBase64 socket) := by
  constructor
  · intro rest hrest
    have hbyte := guacSocketWriteBase64Byte_accept h (-1) hrest
    unfold Accepted
    rw [guacSocketFlushBase64_step (by omega) hbyte,if_neg (by decide),
      guacSocketFlushBase64_empty rfl]
    exact ⟨_,rfl,rfl,rfl⟩
  · intro hnone
    obtain ⟨socket',hbyte,hready⟩ := guacSocketWriteBase64Byte_reject h (-1) hnone
    unfold Rejected
    rw [guacSocketFlushBase64_step (by omega) hbyte,if_pos (by decide)]
    exact ⟨-1,socket',rfl,hready⟩

/-- What guac_socket_flush_base64 does depends on whether its triplet, if
any, is accepted. -/
theorem guacSocketFlushBase64_spec (socket : GuacSocket) (h : socket.ready≤2) :
    (∀ rest, acceptTriplets (if socket.ready=0 then 0 else 1) socket.writes=some rest →
      Accepted guacSocketFlushBase64 socket rest 0) ∧
    (acceptTriplets (if socket.ready=0 then 0 else 1) socket.writes=none →
      Rejected guacSocketFlushBase64 socket) := by
  by_cases hzero : socket.ready=0
  · rw [if_pos hzero]
    refine ⟨fun rest hrest => ?_,fun hnone => (by cases hnone)⟩
    cases hrest
    exact ⟨socket,guacSocketFlushBase64_empty hzero,hzero,rfl⟩
  · have hone : acceptTriplets 1 socket.writes=acceptWrite socket.writes 4 := by
      rw [acceptTriplets]
      cases acceptWrite socket.writes 4 <;> rfl
    rw [if_neg hzero,hone]
    rcases Nat.lt_or_eq_of_le h with hlt | htwo
    · have hbyte := guacSocketWriteBase64Byte_wait hlt (-1)
      have htwo := guacSocketFlushBase64_two { socket with
        readyBuf := socket.readyBuf.set socket.ready (-1)
        ready := socket.ready+1 } (by dsimp only; omega)
      unfold Accepted Rejected at htwo ⊢
      rw [guacSocketFlushBase64_step (by omega) hbyte,if_neg (by decide)]
      exact htwo
    · exact guacSocketFlushBase64_two socket htwo

/-- What one call does depends on whether the triplets it completes are
accepted. -/
theorem Base64Call.run_spec (call : Base64Call) (socket : GuacSocket) (h : socket.ready≤2) :
    (∀ rest, acceptTriplets (call.completes socket.ready) socket.writes=some rest →
      Accepted call.run socket rest (call.leaves socket.ready)) ∧
    (acceptTriplets (call.completes socket.ready) socket.writes=none →
      Rejected call.run socket) := by
  cases call with
  | write bytes => exact guacSocketWriteBase64_spec bytes socket h
  | flush => exact guacSocketFlushBase64_spec socket h

/-- At most two bytes are left by a call. -/
theorem Base64Call.leaves_le (call : Base64Call) (ready : ℕ) : call.leaves ready≤2 := by
  cases call with
  | write bytes =>
    rw [Base64Call.leaves]
    omega
  | flush => exact Nat.zero_le 2

/-- The base64 writer stays within its buffer exactly when the socket accepts
all the triplets that the calls complete. -/
theorem guacSocketBase64_bounded_iff (calls : List Base64Call) (socket : GuacSocket)
    (h : socket.ready≤2) :
    Bounded calls socket ↔ (acceptTriplets (triplets socket.ready calls) socket.writes).isSome := by
  induction calls generalizing socket with
  | nil => exact ⟨fun _ => rfl,fun _ => h⟩
  | cons call calls ih =>
    obtain ⟨haccept,hreject⟩ := call.run_spec socket h
    rw [triplets,acceptTriplets_add,Bounded]
    cases hwrites : acceptTriplets (call.completes socket.ready) socket.writes with
    | none =>
      obtain ⟨retval,socket',hrun,hready⟩ := hreject hwrites
      rw [Option.bind_none,hrun]
      constructor
      · rintro ⟨-,retval',socket'',heq,hbounded⟩
        cases heq
        have hle : socket'.ready≤2 := by
          cases calls with
          | nil => exact hbounded
          | cons call' calls => exact hbounded.1
        omega
      · intro hnone
        cases hnone
    | some rest =>
      obtain ⟨socket',hrun,hready,hrest⟩ := haccept rest hwrites
      rw [Option.bind_some,hrun,←hready,←hrest,←ih socket' (by rw [hready]; exact call.leaves_le _)]
      constructor
      · rintro ⟨-,retval',socket'',heq,hbounded⟩
        cases heq
        exact hbounded
      · intro hbounded
        exact ⟨h,0,socket',rfl,hbounded⟩

/-- Four bytes and a flush on a socket that accepts one byte at a time. -/
theorem guacSocketBase64_bounded_slow :
    Bounded [.write [1,2,3,4],.flush] (guacSocketAlloc (List.replicate 8 (some 1))) :=
  (guacSocketBase64_bounded_iff _ _ (by decide)).mpr (by decide)

/-- After a failed triplet the buffer stays full, and the next byte is stored
outside of it. -/
theorem guacSocketBase64_unbounded : ¬Bounded [.write [1,2,3],.write [4]] (guacSocketAlloc [none]) ∧
      ∃ retval socket, guacSocketWriteBase64 [1,2,3] (guacSocketAlloc [none])=
          some (retval,socket) ∧ socket.ready=3 ∧ guacSocketWriteBase64 [4] socket=none := by
  constructor
  · rintro ⟨-,retval,socket,heq,hready,-⟩
    cases heq
    exact absurd hready (by decide)
  · exact ⟨-1,_,rfl,rfl,rfl⟩

/-- No write to the socket fails. -/
def GuacSocket.Accepting (socket : GuacSocket) : Prop := none ∉ socket.writes

/-- Without failures every write succeeds, and none is left to fail later. -/
theorem acceptWrite_of_accepting {writes : List (Option ℕ)} (h : none ∉ writes) (count : ℕ) :
    ∃ rest, acceptWrite writes count=some rest ∧ none ∉ rest := by
  induction writes generalizing count with
  | nil =>
    cases count with
    | zero => exact ⟨[],rfl,h⟩
    | succ count => exact ⟨[],rfl,h⟩
  | cons outcome writes ih =>
    cases count with
    | zero => exact ⟨_,rfl,h⟩
    | succ count =>
      cases outcome with
      | none => exact absurd (List.mem_cons_self ..) h
      | some n => exact ih (fun hmem => h (List.mem_cons_of_mem _ hmem)) _

/-- On a socket that accepts everything and has so many bytes in its base64
buffer, the operation succeeds, appends the given bytes and leaves such a
socket. -/
def Appends (ready : ℕ) (op : SocketOp) (bytes : List UInt8) : Prop :=
  ∀ socket : GuacSocket, socket.Accepting → socket.ready=ready →
    ∃ socket', op socket=some (0,socket') ∧ socket'.Accepting ∧ socket'.ready=ready ∧
      socket'.output=socket.output++bytes

variable {ready : ℕ}

/-- A plain write appends its bytes. -/
theorem guacSocketWrite_appends (buf : List UInt8) : Appends ready (guacSocketWrite buf) buf := by
  intro socket haccepting hready
  obtain ⟨rest,haccept,hrest⟩ := acceptWrite_of_accepting haccepting buf.length
  let written : GuacSocket := { socket with
    writes := rest
    output := socket.output++buf }
  refine ⟨written,?_,hrest,hready,rfl⟩
  rw [guacSocketWrite,writeLoop_accept haccept]

/-- A chain of appending operations appends everything in turn. -/
theorem chain_appends {ops : List SocketOp} {texts : List (List UInt8)}
    (h : List.Forall₂ (Appends ready) ops texts) : Appends ready (chain ops) texts.flatten := by
  induction h with
  | nil =>
    intro socket haccepting hready
    exact ⟨socket,rfl,haccepting,hready,by rw [List.flatten_nil,List.append_nil]⟩
  | cons hop _ ih =>
    intro socket haccepting hready
    obtain ⟨socket',hrun,haccepting',hready',houtput⟩ := hop socket haccepting hready
    obtain ⟨socket'',hrun',haccepting'',hready'',houtput'⟩ := ih socket' haccepting' hready'
    refine ⟨socket'',?_,haccepting'',hready'',?_⟩
    · rw [chain,hrun]
      exact hrun'
    · rw [houtput',houtput,List.flatten_cons,List.append_assoc]

/-- After a chain that succeeds, what follows it is run. -/
theorem chain_append {ops : List SocketOp} (h : chain ops socket=some (0,socket'))
    (ops' : List SocketOp) :
    chain (ops++ops') socket=chain ops' socket' := by
  induction ops generalizing socket with
  | nil =>
    cases h
    rfl
  | cons op ops ih =>
    rw [List.cons_append,chain]
    rw [chain] at h
    split at h
    · cases h
    · next ret next _ =>
      by_cases hret : ret≠0
      · rw [if_pos hret] at h
        cases h
      · rw [if_neg hret] at h ⊢
        exact ih h

/-- Two chains that append are one chain that does. -/
theorem chain_append_appends {ops ops' : List SocketOp} {bytes bytes' : List UInt8}
    (h : Appends ready (chain ops) bytes) (h' : Appends ready (chain ops') bytes') :
    Appends ready (chain (ops++ops')) (bytes++bytes') := by
  intro socket haccepting hready
  obtain ⟨socket₁,hrun₁,haccepting₁,hready₁,houtput₁⟩ := h socket haccepting hready
  obtain ⟨socket₂,hrun₂,haccepting₂,hready₂,houtput₂⟩ := h' socket₁ haccepting₁ hready₁
  refine ⟨socket₂,?_,haccepting₂,hready₂,?_⟩
  · rw [chain_append hrun₁]
    exact hrun₂
  · rw [houtput₂,houtput₁,List.append_assoc]

/-- A string is appended up to its terminator. -/
theorem guacSocketWriteString_appends (str : List UInt8) :
    Appends ready (guacSocketWriteString str) (cString str) := by
  have hchain : Appends ready _ _ := chain_appends
    (List.Forall₂.cons (guacSocketWrite_appends (cString str)) List.Forall₂.nil)
  rwa [List.flatten_cons,List.flatten_nil,List.append_nil] at hchain

/-- An integer is appended in decimal form. -/
theorem guacSocketWriteInt_appends (i : ℤ) : Appends ready (guacSocketWriteInt i) (decimalInt i) :=
  guacSocketWrite_appends (decimalInt i)

end GuacServer.Socket
