import GuacServer.Socket
import GuacServer.StateRuns

/-!
# Buffered sockets of file descriptors

The output buffer of socket-fd.c. What the descriptor accepts of each write is
decided in advance, as for other sockets. A flush that fails keeps its whole
buffer, whatever the descriptor has accepted of it: the bytes reach the
descriptor in order as long as no such flush is followed by another.
-/

namespace GuacServer.SocketFd

open DecimalNumerals List Socket StateRuns

/-- GUAC_SOCKET_OUTPUT_BUFFER_SIZE. -/
def guacSocketOutputBufferSize : ℕ := 8192

/-- guac_socket_fd_data, with what was appended to the buffer and what the
descriptor has accepted. -/
structure GuacSocketFdData where
  /-- Outcomes of the coming writes to the descriptor: the number of bytes
  accepted at most, or a failure. -/
  writes : List (Option ℕ)
  /-- The bytes in the output buffer. -/
  outBuf : List UInt8
  /-- All bytes accepted by the descriptor. -/
  accepted : List UInt8
  /-- All bytes appended to the output buffer. -/
  appended : List UInt8
  deriving DecidableEq

/-- guac_socket_open, with a descriptor of the given outcomes. -/
def guacSocketOpen (writes : List (Option ℕ)) : GuacSocketFdData := ⟨writes,[],[],[]⟩

/-- guac_socket_fd_write: zero once the descriptor has accepted everything, or
the negative value of the write that failed. -/
def guacSocketFdWrite (buf : List UInt8) (data : GuacSocketFdData) : ℤ×GuacSocketFdData :=
  let loop := writeLoop data.writes buf
  (-loop.1,{ data with writes := loop.2.1, accepted := data.accepted++loop.2.2 })

/-- guac_socket_fd_flush. -/
def guacSocketFdFlush (data : GuacSocketFdData) : ℤ×GuacSocketFdData :=
  if data.outBuf≠[] then
    let write := guacSocketFdWrite data.outBuf data
    if write.1≠0 then (1,write.2) else (0,{ write.2 with outBuf := [] })
  else (0,data)

/-- guac_socket_fd_flush_handler. -/
def guacSocketFdFlushHandler (data : GuacSocketFdData) : ℤ×GuacSocketFdData :=
  guacSocketFdFlush data

variable {data : GuacSocketFdData}

/-- A flush that succeeds leaves the buffer empty. -/
theorem guacSocketFdFlush_outBuf (h : (guacSocketFdFlush data).1=0) :
    (guacSocketFdFlush data).2.outBuf=[] := by
  unfold guacSocketFdFlush at h ⊢
  by_cases hbuffer : data.outBuf=[]
  · rw [if_neg (not_not.mpr hbuffer)]
    exact hbuffer
  · rw [if_pos hbuffer] at h ⊢
    dsimp only at h ⊢
    by_cases hwrite : (guacSocketFdWrite data.outBuf data).1=0
    · rw [if_neg (not_not.mpr hwrite)]
    · rw [if_pos hwrite] at h
      cases h

/-- The loop of guac_socket_fd_write_buffered. A chunk size is an int: if it is
not positive, the loop copies out of bounds or does not end. -/
def writeBufferedLoop (originalCount : ℕ) (buf : List UInt8) (data : GuacSocketFdData) :
    Option (ℤ×GuacSocketFdData) :=
  if _hcount : buf=[] then some (wrap32 originalCount,data)
  else
    let remaining := guacSocketOutputBufferSize-data.outBuf.length
    if _hremaining : remaining=0 then
      if _hflush : (guacSocketFdFlush data).1≠0 then some (-1,(guacSocketFdFlush data).2)
      else writeBufferedLoop originalCount buf (guacSocketFdFlush data).2
    else
      let chunkSize := min (wrap32 buf.length) remaining
      if _hchunk : 0<chunkSize then
        writeBufferedLoop originalCount (buf.drop chunkSize.toNat) { data with
          outBuf := data.outBuf++buf.take chunkSize.toNat
          appended := data.appended++buf.take chunkSize.toNat }
      else none
termination_by (buf.length,data.outBuf.length)
decreasing_by
  · have hempty := guacSocketFdFlush_outBuf (not_not.mp _hflush)
    have hfull : guacSocketOutputBufferSize-data.outBuf.length=0 := _hremaining
    unfold guacSocketOutputBufferSize at hfull
    refine Prod.Lex.right _ ?_
    rw [hempty,length_nil]
    omega
  · have hpos : 0<buf.length := length_pos_iff.mpr _hcount
    refine Prod.Lex.left _ _ ?_
    rw [length_drop]
    omega

/-- guac_socket_fd_write_handler with guac_socket_fd_write_buffered: the number
of bytes, or -1. -/
def guacSocketFdWriteHandler (buf : List UInt8) (data : GuacSocketFdData) :
    Option (ℤ×GuacSocketFdData) := writeBufferedLoop buf.length buf data

/-- Calls of the handlers of a socket. -/
inductive FdCall
  /-- A write of these bytes. -/
  | write (buf : List UInt8)
  | flush
  deriving DecidableEq

/-- The state after a call, whatever it returns. -/
def fdStep : FdCall→GuacSocketFdData→Option GuacSocketFdData
  | .write buf, data => (guacSocketFdWriteHandler buf data).map Prod.snd
  | .flush, data => some (guacSocketFdFlushHandler data).2

/-- The last flush failed after the descriptor had accepted some of the buffer:
the accepted and the buffered bytes overlap. -/
def GuacSocketFdData.Torn (data : GuacSocketFdData) : Prop :=
  data.appended.length<data.accepted.length+data.outBuf.length

instance (data : GuacSocketFdData) : Decidable data.Torn :=
  inferInstanceAs (Decidable (data.appended.length<data.accepted.length+data.outBuf.length))

/-- The condition of a call: it does not flush a torn buffer, and a count of
bytes is an int. -/
def FdCall.Safe : FdCall→GuacSocketFdData→Prop
  | .write buf, data => buf.length<2^31 ∧
    (data.Torn → data.outBuf.length+buf.length≤guacSocketOutputBufferSize)
  | .flush, data => ¬data.Torn

instance (call : FdCall) (data : GuacSocketFdData) : Decidable (call.Safe data) :=
  match call with
  | .write _ => inferInstanceAs (Decidable (_ ∧ _))
  | .flush => inferInstanceAs (Decidable ¬_)

/-- The buffer holds the last of the appended bytes, of which the descriptor
has accepted all before the buffer and the first `torn` in it. -/
structure Buffered (torn : ℕ) (data : GuacSocketFdData) : Prop where
  /-- The buffer has a fixed size. -/
  bound : data.outBuf.length≤guacSocketOutputBufferSize
  /-- Only bytes in the buffer are accepted early. -/
  torn_le : torn≤data.outBuf.length
  /-- Every appended byte is accepted or buffered. -/
  appended_eq : data.accepted++data.outBuf.drop torn=data.appended

variable {torn : ℕ}

/-- The accepted bytes are the first of the appended ones. -/
theorem Buffered.prefix (h : Buffered torn data) : data.accepted <+: data.appended :=
  ⟨_,h.appended_eq⟩

/-- The lengths tell how far a buffer is torn. -/
theorem Buffered.torn_iff (h : Buffered torn data) : data.Torn ↔ torn≠0 := by
  have hlength := congrArg List.length h.appended_eq
  have hle := h.torn_le
  rw [length_append,length_drop] at hlength
  unfold GuacSocketFdData.Torn
  omega

/-- What a write to the descriptor accepts are the first bytes, and all of
them if it succeeds. -/
theorem writeLoop_prefix (writes : List (Option ℕ)) (buf : List UInt8) :
    (writeLoop writes buf).2.2 <+: buf ∧
      ((writeLoop writes buf).1=0→(writeLoop writes buf).2.2=buf) := by
  induction writes generalizing buf with
  | nil => cases buf <;> exact ⟨prefix_refl _,fun _ => rfl⟩
  | cons outcome writes ih =>
    cases buf with
    | nil => exact ⟨prefix_refl _,fun _ => rfl⟩
    | cons c buf =>
      cases outcome with
      | none => exact ⟨List.nil_prefix,fun h => by cases h⟩
      | some n =>
        obtain ⟨⟨rest,hrest⟩,hall⟩ := ih ((c::buf).drop n)
        rw [writeLoop]
        · dsimp only
          constructor
          · refine ⟨rest,?_⟩
            rw [append_assoc,hrest,take_append_drop]
          · intro hzero
            rw [hall hzero,take_append_drop]
        · exact cons_ne_nil c buf

/-- A flush of a buffer that is not torn empties it or tears it. -/
theorem Buffered.flush (h : Buffered 0 data) : ∃ torn, Buffered torn (guacSocketFdFlush data).2 ∧
      ((guacSocketFdFlush data).1=0 → torn=0 ∧ (guacSocketFdFlush data).2.outBuf=[]) := by
  have happended := h.appended_eq
  rw [drop_zero] at happended
  unfold guacSocketFdFlush
  by_cases hbuffer : data.outBuf=[]
  · rw [if_neg (not_not.mpr hbuffer)]
    exact ⟨0,h,fun _ => ⟨rfl,hbuffer⟩⟩
  obtain ⟨⟨rest,hrest⟩,hall⟩ := writeLoop_prefix data.writes data.outBuf
  rw [if_pos hbuffer]
  dsimp only
  by_cases hwrite : (guacSocketFdWrite data.outBuf data).1=0
  · rw [if_neg (not_not.mpr hwrite)]
    have haccepted := hall (neg_eq_zero.mp hwrite)
    refine ⟨0,⟨Nat.zero_le _,Nat.zero_le _,?_⟩,fun _ => ⟨rfl,rfl⟩⟩
    dsimp only [guacSocketFdWrite]
    rw [haccepted,drop_nil,append_nil,happended]
  · rw [if_pos hwrite]
    refine ⟨(writeLoop data.writes data.outBuf).2.2.length,⟨h.bound,?_,?_⟩,fun hone => ?_⟩
    · have hlength := congrArg List.length hrest
      rw [length_append] at hlength
      dsimp only [guacSocketFdWrite]
      omega
    · dsimp only [guacSocketFdWrite]
      have hdrop : data.outBuf.drop (writeLoop data.writes data.outBuf).2.2.length=rest := by
        conv => enter [1,2]; rw [←hrest]
        rw [drop_left]
      rw [hdrop,append_assoc,hrest,happended]
    · cases hone

/-- Bytes for which there is room are appended to any buffer. -/
theorem Buffered.append (h : Buffered torn data) {chunk : List UInt8}
    (hroom : data.outBuf.length+chunk.length≤guacSocketOutputBufferSize) :
    Buffered torn { data with
      outBuf := data.outBuf++chunk
      appended := data.appended++chunk } := by
  refine ⟨?_,?_,?_⟩
  · dsimp only
    rw [length_append]
    exact hroom
  · dsimp only
    rw [length_append]
    exact Nat.le_add_right_of_le h.torn_le
  · dsimp only
    rw [drop_append_of_le_length h.torn_le,←append_assoc,h.appended_eq]

/-- The length of a buffer is an int up to its maximum. -/
theorem wrap32_length {buf : List UInt8} (h : buf.length<2^31) :
    wrap32 buf.length=buf.length := wrap32_of_range (by omega) (by exact_mod_cast h)

/-- The write loop returns, with a buffer that may be torn only if it was or
if the loop flushed. -/
theorem Buffered.writeBufferedLoop (h : Buffered torn data) (originalCount : ℕ)
    {buf : List UInt8} (hcount : buf.length<2^31)
    (hroom : torn≠0 → data.outBuf.length+buf.length≤guacSocketOutputBufferSize) :
    ∃ retval data' torn', SocketFd.writeBufferedLoop originalCount buf data=
      some (retval,data') ∧ Buffered torn' data' := by
  induction buf, data using writeBufferedLoop.induct generalizing torn with
  | case1 data =>
    rw [SocketFd.writeBufferedLoop,dif_pos rfl]
    exact ⟨_,_,torn,rfl,h⟩
  | case2 buf data hne remaining hfull =>
    rename_i hflush
    have hpos := length_pos_iff.mpr hne
    have hzero : torn=0 := by
      by_contra htorn
      have hle := hroom htorn
      have hnone : guacSocketOutputBufferSize-data.outBuf.length=0 := hfull
      omega
    subst hzero
    obtain ⟨torn',h',-⟩ := h.flush
    rw [SocketFd.writeBufferedLoop,dif_neg hne]
    dsimp only
    rw [dif_pos hfull,dif_pos hflush]
    exact ⟨_,_,torn',rfl,h'⟩
  | case3 buf data hne remaining hfull hflush =>
    rename_i ih
    have hpos := length_pos_iff.mpr hne
    have hzero : torn=0 := by
      by_contra htorn
      have hle := hroom htorn
      have hnone : guacSocketOutputBufferSize-data.outBuf.length=0 := hfull
      omega
    subst hzero
    obtain ⟨torn',h',hempty⟩ := h.flush
    obtain ⟨rfl,-⟩ := hempty (not_not.mp hflush)
    rw [SocketFd.writeBufferedLoop,dif_neg hne]
    dsimp only
    rw [dif_pos hfull,dif_neg hflush]
    exact ih h' hcount (fun hne => absurd rfl hne)
  | case4 buf data hne remaining hsome chunkSize hchunk =>
    rename_i ih
    have hchunkSize : chunkSize=min (buf.length : ℤ) remaining := by
      rw [←wrap32_length hcount]
    have hremaining : remaining=guacSocketOutputBufferSize-data.outBuf.length := rfl
    rw [SocketFd.writeBufferedLoop,dif_neg hne]
    dsimp only
    rw [dif_neg hsome,dif_pos hchunk]
    have hlength : (buf.take chunkSize.toNat).length=chunkSize.toNat := by
      rw [length_take]
      omega
    have hfits : data.outBuf.length+(buf.take chunkSize.toNat).length≤
        guacSocketOutputBufferSize := by
      rw [hlength]
      omega
    refine ih (h.append hfits) ?_ fun htorn => ?_
    · rw [length_drop]
      omega
    · have hle := hroom htorn
      rw [length_append,hlength,length_drop]
      omega
  | case5 buf data hne remaining hsome chunkSize =>
    rename_i hchunk
    have hpos := length_pos_iff.mpr hne
    have hchunkSize : chunkSize=min (buf.length : ℤ) remaining := by
      rw [←wrap32_length hcount]
    omega

/-- Every call that meets its condition returns and keeps the bytes in order. -/
theorem fdStep_buffered {call : FdCall} (h : Buffered torn data)
    (hsafe : call.Safe data) :
    ∃ data' torn', fdStep call data=some data' ∧ Buffered torn' data' := by
  cases call with
  | write buf =>
    obtain ⟨hcount,hroom⟩ := hsafe
    obtain ⟨retval,data',torn',hloop,h'⟩ :=
      h.writeBufferedLoop buf.length hcount fun htorn => hroom (h.torn_iff.mpr htorn)
    refine ⟨data',torn',?_,h'⟩
    rw [fdStep,guacSocketFdWriteHandler,hloop]
    rfl
  | flush =>
    have hzero : torn=0 := by
      by_contra htorn
      exact hsafe (h.torn_iff.mpr htorn)
    subst hzero
    obtain ⟨torn',h',-⟩ := h.flush
    exact ⟨_,torn',rfl,h'⟩

/-- A write for which there is room is only buffered. -/
theorem guacSocketFdWriteHandler_fits {buf : List UInt8}
    (h : data.outBuf.length+buf.length≤guacSocketOutputBufferSize) :
    guacSocketFdWriteHandler buf data=some (wrap32 buf.length,{ data with
      outBuf := data.outBuf++buf
      appended := data.appended++buf }) := by
  have hcount : buf.length<2^31 := by
    unfold guacSocketOutputBufferSize at h
    omega
  unfold guacSocketFdWriteHandler
  rw [SocketFd.writeBufferedLoop]
  by_cases hne : buf=[]
  · rw [dif_pos hne,hne,append_nil,append_nil]
  have hpos := length_pos_iff.mpr hne
  have hchunk : min (wrap32 buf.length) ((guacSocketOutputBufferSize-data.outBuf.length : ℕ) : ℤ)
      = buf.length := by
    rw [wrap32_length hcount]
    omega
  rw [dif_neg hne]
  dsimp only
  rw [hchunk,dif_neg (by omega),dif_pos (by omega),Int.toNat_natCast,drop_length,
    take_length,writeBufferedLoop,dif_pos rfl]

/-- A fresh socket has nothing buffered. -/
theorem guacSocketOpen_buffered (writes : List (Option ℕ)) : Buffered 0 (guacSocketOpen writes) :=
  ⟨Nat.zero_le _,Nat.zero_le _,rfl⟩

/-- In every run in which no torn buffer is flushed again, the descriptor has
accepted a prefix of the appended bytes, and all of them after a successful
flush. -/
theorem guacSocketFd_ordered {writes : List (Option ℕ)} {calls : List FdCall}
    (hsafe : Along fdStep FdCall.Safe calls (guacSocketOpen writes)) :
    ∃ data, run fdStep calls (guacSocketOpen writes)=some data ∧ data.accepted <+: data.appended ∧
      (FdCall.flush.Safe data→(guacSocketFdFlushHandler data).1=0 →
        (guacSocketFdFlushHandler data).2.accepted=(guacSocketFdFlushHandler data).2.appended) := by
  have hstep : ∀ {call : FdCall} {data : GuacSocketFdData}, (∃ torn, Buffered torn data) →
      call.Safe data→∃ data', fdStep call data=some data' ∧ ∃ torn, Buffered torn data' := by
    rintro call data ⟨torn,h⟩ hcall
    obtain ⟨data',torn',hnext,h'⟩ := fdStep_buffered h hcall
    exact ⟨data',hnext,torn',h'⟩
  obtain ⟨data,hrun,torn,h⟩ := run_progress hstep ⟨0,guacSocketOpen_buffered writes⟩ hsafe
  refine ⟨data,hrun, h.prefix,fun hflush hzero => ?_⟩
  have htorn : torn=0 := by
    by_contra htorn
    exact hflush (h.torn_iff.mpr htorn)
  subst htorn
  obtain ⟨torn',h',hempty⟩ := h.flush
  obtain ⟨rfl,hbuffer⟩ := hempty hzero
  have happended := h'.appended_eq
  rw [hbuffer,drop_nil,append_nil] at happended
  exact happended

/-- Two writes and a flush that the descriptor accepts in parts. -/
theorem guacSocketFd_ordered_parts :
    ∃ data, run fdStep [.write [1,2,3],.write [4],.flush] (guacSocketOpen [some 2,some 1])=
        some data ∧
      data.accepted <+: data.appended ∧
      (FdCall.flush.Safe data→(guacSocketFdFlushHandler data).1=0 →
        (guacSocketFdFlushHandler data).2.accepted=(guacSocketFdFlushHandler data).2.appended) := by
  refine guacSocketFd_ordered ⟨by decide,?_⟩
  rw [fdStep,guacSocketFdWriteHandler_fits (by decide)]
  refine ⟨by decide,?_⟩
  rw [fdStep,guacSocketFdWriteHandler_fits (by decide)]
  exact ⟨by decide,trivial⟩

/-- A flush that fails after one of two bytes, and is tried again, sends that
byte twice. -/
theorem guacSocketFd_repeated :
    ∃ data, run fdStep [.write [1,2],.flush,.flush] (guacSocketOpen [some 1,none])=some data ∧
      data.accepted=[1,1,2] ∧ data.appended=[1,2] ∧
      ¬data.accepted <+: data.appended := by
  refine ⟨⟨[],[],[1,1,2],[1,2]⟩,?_,rfl,rfl,by decide⟩
  rw [run,fdStep,guacSocketFdWriteHandler_fits (by decide)]
  rfl

end GuacServer.SocketFd
