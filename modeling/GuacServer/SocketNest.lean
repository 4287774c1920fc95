import GuacServer.ProtocolSend
import GuacServer.StateRuns

/-!
# Nested sockets

A nested socket buffers what is written to it and sends the buffer to its
parent in nest instructions. The length of the complete characters in the
buffer is found by adding up their sizes, which passes the end of the buffer
if that ends within a character; nothing is lost exactly when no flush does
and no write is of more bytes than an int counts.
-/

namespace GuacServer.SocketNest

open Unicode DecimalNumerals Socket ProtocolSend StateRuns

/-- guac_protocol_send_nest. -/
def guacProtocolSendNest (index : ℤ) (data : List UInt8) : SocketOp :=
  chain [guacSocketWriteString (ascii "4.nest,"), guacSocketWriteLengthInt index,
    guacSocketWriteString (ascii ","), guacSocketWriteLengthString data,
    guacSocketWriteString (ascii ";")]

/-- GUAC_SOCKET_NEST_BUFFER_SIZE. -/
def guacSocketNestBufferSize : ℕ := 7168

/-- guac_socket_nest_data, without its locks. -/
structure GuacSocketNestData where
  /-- Where nest instructions are written. -/
  parent : GuacSocket
  index : ℤ
  /-- The number of bytes in the buffer. -/
  written : ℕ
  /-- The whole buffer, of any contents after those bytes. -/
  buffer : List UInt8

/-- The loop of guac_socket_nest_flush over the characters of the buffer. -/
def nestLength (buffer : List UInt8) (written length : ℕ) : ℕ :=
  if length<written then
    nestLength buffer written (length+guacUtf8Charsize (buffer.getD length 0))
  else length
termination_by written-length
decreasing_by
  have hsize := (guacUtf8Charsize_bounds (buffer.getD length 0)).1
  omega

/-- The length is never less than the number of bytes. -/
theorem le_nestLength (buffer : List UInt8) (written length : ℕ) :
    written≤nestLength buffer written length := by
  induction length using nestLength.induct buffer written with
  | case1 length hlt ih =>
    rw [nestLength,if_pos hlt]
    exact ih
  | case2 length hge =>
    rw [nestLength,if_neg hge]
    omega

/-- guac_socket_nest_flush. A terminator stored outside of the buffer, and a
copy of a negative number of bytes, have no defined result. -/
def guacSocketNestFlush (data : GuacSocketNestData) : Option (ℤ×GuacSocketNestData) :=
  if 0<data.written then
    let length := nestLength data.buffer data.written 0
    if length<guacSocketNestBufferSize then
      match guacProtocolSendNest data.index (data.buffer.set length 0) data.parent with
      | none => none
      | some (retval,parent) =>
        if retval≠0 then some (1,{ data with parent := parent })
        else if data.written<length then none
        else
          let rest := data.written-length
          some (0,{ data with
            parent := parent
            written := rest
            buffer := (data.buffer.drop length).take rest++data.buffer.drop rest })
    else none
  else some (0,data)

variable {data start : GuacSocketNestData} {text : List Char} {flushed position : ℕ}

/-- A flush that succeeds leaves no bytes in the buffer. -/
theorem guacSocketNestFlush_written {data' : GuacSocketNestData} {retval : ℤ}
    (h : guacSocketNestFlush data=some (retval,data')) (hret : retval=0) :
    data'.written=0 := by
  subst hret
  have hle := le_nestLength data.buffer data.written 0
  unfold guacSocketNestFlush at h
  split at h
  · dsimp only at h
    split at h
    · split at h
      · cases h
      · split at h
        · cases h
        · split at h
          · cases h
          · cases h
            dsimp only
            omega
    · cases h
  · cases h
    omega

/-- The loop of guac_socket_nest_write_buffered: zero if all bytes have been
stored, and -1 if a flush failed. The size of a chunk is an int: when the
count it is assigned becomes not positive, the loop copies out of bounds or
does not end. -/
def nestWriteLoop (buf : List UInt8) (data : GuacSocketNestData) : Option (ℤ×GuacSocketNestData) :=
  if _hcount : buf=[] then some (0,data)
  else
    let remaining := guacSocketNestBufferSize-data.written-1
    if _hremaining : remaining=0 then
      match _hflush : guacSocketNestFlush data with
      | none => none
      | some (retval,data') =>
        if _hret : retval≠0 then some (-1,data') else nestWriteLoop buf data'
    else
      let chunkSize := min (wrap32 buf.length) remaining
      if _hchunk : 0<chunkSize then
        nestWriteLoop (buf.drop chunkSize.toNat) { data with
          written := data.written+chunkSize.toNat
          buffer := data.buffer.take data.written++buf.take chunkSize.toNat++
            data.buffer.drop (data.written+chunkSize.toNat) }
      else none
termination_by (buf.length,data.written)
decreasing_by
  · have hzero := guacSocketNestFlush_written _hflush (not_not.mp _hret)
    have hfull : guacSocketNestBufferSize-data.written-1=0 := _hremaining
    unfold guacSocketNestBufferSize at hfull
    exact Prod.Lex.right _ (by omega)
  · have hpos : 0<buf.length := List.length_pos_iff.mpr _hcount
    refine Prod.Lex.left _ _ ?_
    rw [List.length_drop]
    omega

/-- guac_socket_nest_write_handler with guac_socket_nest_write_buffered: the
number of bytes, or -1. -/
def guacSocketNestWriteHandler (buf : List UInt8) (data : GuacSocketNestData) :
    Option (ℤ×GuacSocketNestData) :=
  match nestWriteLoop buf data with
  | none => none
  | some (retval,data) => if retval≠0 then some (-1,data) else some (buf.length,data)

/-- guac_socket_nest_flush_handler. -/
def guacSocketNestFlushHandler (data : GuacSocketNestData) : Option (ℤ×GuacSocketNestData) :=
  guacSocketNestFlush data

/-- Calls on a nested socket. -/
inductive NestCall
  /-- A write of these bytes. -/
  | write (buf : List UInt8)
  | flush
  deriving DecidableEq

/-- The state after a call, whatever it returns. -/
def nestStep : NestCall→GuacSocketNestData→Option GuacSocketNestData
  | .write buf, data => (guacSocketNestWriteHandler buf data).map Prod.snd
  | .flush, data => (guacSocketNestFlushHandler data).map Prod.snd

/-- The bytes a call writes. -/
def NestCall.bytes : NestCall→List UInt8
  | .write buf => buf
  | .flush => []

/-- An int counts the bytes of the call. -/
def NestCall.Counted (call : NestCall) : Prop := call.bytes.length<2^31

instance (call : NestCall) : Decidable call.Counted :=
  inferInstanceAs (Decidable (call.bytes.length<2^31))

/-- Where the buffer is flushed on the way to a position, if it was last
flushed at another: whenever it is full and more is to be written. -/
def fullPoints (flushed position : ℕ) : List ℕ :=
  if flushed+(guacSocketNestBufferSize-1)<position then
    (flushed+(guacSocketNestBufferSize-1))::
      fullPoints (flushed+(guacSocketNestBufferSize-1)) position
  else []
termination_by position-flushed
decreasing_by
  unfold guacSocketNestBufferSize at *
  omega

/-- The positions in the stream at which calls flush bytes, which depend on
the lengths of the writes only. -/
def flushPoints (flushed position : ℕ) : List NestCall→List ℕ
  | [] => []
  | .write buf::calls =>
    let points := fullPoints flushed (position+buf.length)
    points++flushPoints (points.getLastD flushed) (position+buf.length) calls
  | .flush::calls =>
    if flushed<position then position::flushPoints position position calls
    else flushPoints flushed position calls

/-- The position is the end of a character of the text, or its beginning. -/
def CharacterEnd (text : List Char) (position : ℕ) : Prop :=
  ∃ k, (utf8Encode (text.take k)).length=position

/-- The scan passes over complete characters. -/
theorem nestLength_text (pre : List UInt8) (cs : List CharBytes) (rest : List UInt8) {written : ℕ}
    (h : pre.length+(textBytes cs).length≤written) :
    nestLength (pre++(textBytes cs++rest)) written pre.length=
      nestLength (pre++(textBytes cs++rest)) written (pre.length+(textBytes cs).length) := by
  induction cs generalizing pre with
  | nil => rfl
  | cons c cs ih =>
    have hsize := c.length_bytes
    have hpos := (guacUtf8Charsize_bounds c.lead).1
    have hlead : (pre++(textBytes (c::cs)++rest)).getD pre.length 0=c.lead := by
      simp [CharBytes.bytes]
    rw [textBytes_cons,List.length_append] at h ⊢
    rw [textBytes_cons] at hlead
    rw [nestLength,if_pos (by omega),hlead,←hsize]
    have hrest := ih (pre++c.bytes) (by rw [List.length_append]; omega)
    rw [List.length_append] at hrest
    simpa only [List.append_assoc,Nat.add_assoc] using hrest

/-- A buffer of complete characters is passed over up to its end. -/
theorem nestLength_whole {buffer : List UInt8} {written : ℕ} {cs : List CharBytes}
    (h : buffer.take written=textBytes cs) (hle : written≤buffer.length) :
    nestLength buffer written 0=written := by
  have hlength : (textBytes cs).length=written := by rw [←h,List.length_take]; omega
  have hbuffer : buffer=[]++(textBytes cs++buffer.drop written) := by
    rw [←h,List.take_append_drop,List.nil_append]
  have hscan := nestLength_text [] cs (buffer.drop written)
    (by rw [hlength,List.length_nil,Nat.zero_add] : _ ≤ written)
  rw [←hbuffer,List.length_nil,Nat.zero_add,hlength] at hscan
  rw [hscan,nestLength,if_neg (Nat.lt_irrefl _)]

/-- A buffer that ends within a character is passed over beyond its end. -/
theorem nestLength_partial {buffer : List UInt8} {written : ℕ} {cs : List CharBytes} {b : UInt8}
    {bytes : List UInt8} (h : buffer.take written=textBytes cs++b::bytes)
    (hle : written≤buffer.length) (hpart : (b::bytes).length<guacUtf8Charsize b) :
    written<nestLength buffer written 0 := by
  have hlength : (textBytes cs).length+(b::bytes).length=written := by
    rw [←List.length_append,←h,List.length_take]
    omega
  have hbuffer : buffer=[]++(textBytes cs++(b::bytes++buffer.drop written)) := by
    rw [←List.append_assoc (textBytes cs),←h,List.take_append_drop,List.nil_append]
  have hscan := nestLength_text [] cs (b::bytes++buffer.drop written)
    (by rw [List.length_nil]; omega : _ ≤ written)
  have hlead : buffer.getD (textBytes cs).length 0=b := by
    rw [hbuffer]
    simp
  have hpos : 0<(b::bytes).length := List.length_pos_iff.mpr (List.cons_ne_nil _ _)
  rw [←hbuffer,List.length_nil,Nat.zero_add] at hscan
  rw [hscan,nestLength,if_pos (by omega),hlead]
  have hge := le_nestLength buffer written ((textBytes cs).length+guacUtf8Charsize b)
  rw [nestLength,if_neg (by omega)]
  omega

/-- The first bytes of a text are complete characters and less than one
more. -/
theorem textBytes_take (cs : List CharBytes) (n : ℕ) :
    ∃ k bytes, (textBytes cs).take n=textBytes (cs.take k)++bytes ∧
      (bytes=[] ∨ ∃ b rest, bytes=b::rest ∧ (b::rest).length<guacUtf8Charsize b) := by
  induction cs generalizing n with
  | nil => exact ⟨0,[],by simp,Or.inl rfl⟩
  | cons c cs ih =>
    rcases Nat.lt_or_ge n c.bytes.length with hlt | hge
    · refine ⟨0,c.bytes.take n,?_,?_⟩
      · rw [textBytes_cons,List.take_append_of_le_length (Nat.le_of_lt hlt)]
        rfl
      · cases n with
        | zero => exact Or.inl rfl
        | succ n =>
          refine Or.inr ⟨c.lead,c.rest.take n,rfl,?_⟩
          rw [←c.length_bytes,List.length_cons,List.length_take]
          omega
    · obtain ⟨k,bytes,htake,hbytes⟩ := ih (n-c.bytes.length)
      refine ⟨k+1,bytes,?_,hbytes⟩
      rw [textBytes_cons,List.take_append,List.take_of_length_le hge,htake,List.take_succ_cons,
        textBytes_cons,List.append_assoc]

/-- The bytes of a nest instruction with the given payload. -/
def nestBytes (index : ℤ) (payload : List UInt8) : List UInt8 :=
  ascii "4.nest," ++ lengthString (decimalInt index)++
    44::decimalInt (guacUtf8Strlen payload)++46::payload++[59]

/-- A nest instruction is sent with the string it is given. -/
theorem guacProtocolSendNest_appends {ready : ℕ} (index : ℤ) (data : List UInt8) :
    Appends ready (guacProtocolSendNest index data)
      (ascii "4.nest," ++ lengthString (decimalInt index)++44::lengthString data++[59]) := by
  have hopcode : cString (ascii "4.nest,")=ascii "4.nest," := by decide
  have hcomma : cString (ascii ",")=[44] := by decide
  have hsemicolon : cString (ascii ";")=[59] := by decide
  have hchain : Appends ready _ _ := chain_appends (List.Forall₂.cons
    (guacSocketWriteString_appends (ascii "4.nest,"))
    (List.Forall₂.cons (guacSocketWriteLengthInt_appends index)
      (List.Forall₂.cons (guacSocketWriteString_appends (ascii ","))
        (List.Forall₂.cons (guacSocketWriteLengthString_appends data)
          (List.Forall₂.cons (guacSocketWriteString_appends (ascii ";")) List.Forall₂.nil)))))
  rw [hopcode,hcomma,hsemicolon] at hchain
  unfold guacProtocolSendNest
  simpa using hchain

/-- A terminated string without zero bytes is written in full. -/
theorem lengthString_terminated {s : List UInt8} (h : ∀ b∈s, b≠0) (tail : List UInt8) :
    lengthString (s++0::tail)=decimalInt (guacUtf8Strlen s)++46::s := by
  rw [lengthString,cString_terminated,cString_of_ne_zero h,guacUtf8Strlen,
    strlenLoop_terminated,guacUtf8Strlen]

/-- The state of a nested socket after it was given the first bytes of a text
and last flushed at a position among them. -/
structure NestState (text : List Char) (start : GuacSocketNestData) (flushed position : ℕ)
    (data : GuacSocketNestData) : Prop where
  /-- The buffer keeps its size. -/
  length_buffer : data.buffer.length=guacSocketNestBufferSize
  /-- The bytes since the last flush are in the buffer. -/
  written_eq : flushed+data.written=position
  /-- There is room for a terminator. -/
  written_lt : data.written<guacSocketNestBufferSize
  /-- The position is within the text. -/
  position_le : position≤(utf8Encode text).length
  /-- The buffer holds those bytes. -/
  buffered : data.buffer.take data.written=((utf8Encode text).take position).drop flushed
  /-- The last flush was at the end of a character. -/
  flushed_end : CharacterEnd text flushed
  accepting : data.parent.Accepting
  index_eq : data.index=start.index
  /-- All bytes before the last flush have been sent as complete characters. -/
  sent : ∃ payloads : List (List UInt8),
    data.parent.output=start.parent.output++payloads.flatMap (nestBytes start.index) ∧
      payloads.flatten=(utf8Encode text).take flushed ∧
      ∀ payload∈payloads, ∃ part : List Char, payload=utf8Encode part

/-- Encoded text up to a place and from there on. -/
theorem utf8Encode_split (text : List Char) (k : ℕ) :
    utf8Encode text=utf8Encode (text.take k)++utf8Encode (text.drop k) := by
  rw [utf8Encode,utf8Encode,utf8Encode,←List.flatMap_append,List.take_append_drop]

section

variable (h : NestState text start flushed position data)

include h

/-- At the end of a character the buffer holds complete characters. -/
theorem NestState.buffered_end (hend : CharacterEnd text position) :
    ∃ part : List Char, (∀ c∈part, c∈text) ∧ data.buffer.take data.written=utf8Encode part := by
  obtain ⟨j,hj⟩ := h.flushed_end
  obtain ⟨k,hk⟩ := hend
  have hbuffered := h.buffered
  rw [←hk,utf8Encode_split text k,List.take_left] at hbuffered
  refine ⟨(text.take k).drop j,fun c hc => List.mem_of_mem_take (List.mem_of_mem_drop hc),?_⟩
  rw [hbuffered]
  rcases Nat.le_total j k with hle | hle
  · have hhead : (text.take k).take j=text.take j := by rw [List.take_take,Nat.min_eq_left hle]
    rw [utf8Encode_split (text.take k) j,hhead,←hj,List.drop_left]
  · have hnil : (text.take k).drop j=[] := by
      rw [List.drop_eq_nil_iff,List.length_take]
      omega
    have hempty : utf8Encode []=[] := rfl
    have hhead : (text.take j).take k=text.take k := by rw [List.take_take,Nat.min_eq_left hle]
    have hsplit := congrArg List.length (utf8Encode_split (text.take j) k)
    rw [hhead,List.length_append,hj] at hsplit
    rw [hnil,hempty,List.drop_eq_nil_iff]
    omega

/-- Elsewhere it ends within one. -/
theorem NestState.buffered_within (hnot : ¬CharacterEnd text position) :
    ∃ (cs : List CharBytes) (b : UInt8) (bytes : List UInt8),
      data.buffer.take data.written=textBytes cs++b::bytes ∧
        (b::bytes).length<guacUtf8Charsize b := by
  obtain ⟨j,hj⟩ := h.flushed_end
  have heq := h.written_eq
  have hsuffix : data.buffer.take data.written=
      (textBytes ((text.drop j).map utf8Char)).take (position-flushed) := by
    rw [h.buffered,List.drop_take,utf8Encode_textBytes,utf8Encode_split text j,←hj,List.drop_left]
  obtain ⟨k,bytes,htake,hbytes⟩ := textBytes_take ((text.drop j).map utf8Char) (position-flushed)
  rw [htake] at hsuffix
  rcases hbytes with rfl | ⟨b,rest,rfl,hpart⟩
  · have hlt := h.written_lt
    have hlength := congrArg List.length hsuffix
    rw [List.length_take,h.length_buffer,List.append_nil,←List.map_take,utf8Encode_textBytes]
      at hlength
    refine absurd ⟨j+k,?_⟩ hnot
    rw [List.take_add,utf8Encode,List.flatMap_append,List.length_append]
    change (utf8Encode (text.take j)).length+(utf8Encode ((text.drop j).take k)).length=position
    omega
  · exact ⟨_,b,rest,hsuffix,hpart⟩

/-- At the end of a character a flush sends the whole buffer. -/
theorem NestState.flush_end (hnul : ∀ c∈text, c≠Char.ofNat 0) (hlt : flushed<position)
    (hend : CharacterEnd text position) :
    ∃ data', guacSocketNestFlush data=some (0,data') ∧
      NestState text start position position data' := by
  obtain ⟨part,hpart,hbuffered⟩ := h.buffered_end hend
  have heq := h.written_eq
  have hwritten := h.written_lt
  have hlength : nestLength data.buffer data.written 0=data.written := by
    rw [←utf8Encode_textBytes] at hbuffered
    exact nestLength_whole hbuffered (by rw [h.length_buffer]; omega)
  have hset : data.buffer.set data.written 0=
      utf8Encode part++0::data.buffer.drop (data.written+1) := by
    rw [List.set_eq_take_append_cons_drop,if_pos (by rw [h.length_buffer]; exact hwritten),
      hbuffered]
  have hpayload : lengthString (data.buffer.set data.written 0)=
      decimalInt (guacUtf8Strlen (utf8Encode part))++46::utf8Encode part := by
    rw [hset,lengthString_terminated (utf8Encode_ne_zero fun c hc => hnul c (hpart c hc))]
  obtain ⟨parent,hrun,haccepting,-,houtput⟩ :=
    guacProtocolSendNest_appends data.index (data.buffer.set data.written 0) data.parent
      h.accepting rfl
  obtain ⟨payloads,hsent,hflatten,hpayloads⟩ := h.sent
  refine ⟨{ data with parent := parent, written := 0, buffer := data.buffer },?_,?_⟩
  · unfold guacSocketNestFlush
    rw [if_pos (by omega)]
    dsimp only
    rw [hlength,if_pos hwritten,hrun]
    dsimp only
    rw [if_neg (by decide),if_neg (Nat.lt_irrefl _),Nat.sub_self,List.take_zero,List.nil_append,
      List.drop_zero]
  · refine ⟨h.length_buffer,Nat.add_zero _,Nat.zero_lt_of_lt hwritten,h.position_le,?_,hend,
      haccepting,h.index_eq,payloads++[utf8Encode part],?_,?_,?_⟩
    · rw [List.take_zero,List.drop_eq_nil_of_le (List.length_take_le _ _)]
    · dsimp only
      rw [houtput,hsent,List.flatMap_append,List.append_assoc,hpayload,h.index_eq]
      simp [nestBytes]
    · rw [List.flatten_append,hflatten,List.flatten_singleton,←hbuffered,h.buffered]
      have htake : (utf8Encode text).take flushed=
          ((utf8Encode text).take position).take flushed := by
        rw [List.take_take,Nat.min_eq_left (by omega)]
      rw [htake,List.take_append_drop]
    · intro payload hpayload
      rcases List.mem_append.mp hpayload with hpayload | hpayload
      · exact hpayloads payload hpayload
      · exact ⟨part,List.mem_singleton.mp hpayload⟩

/-- Within a character a flush has no defined result. -/
theorem NestState.flush_within (hlt : flushed<position) (hnot : ¬CharacterEnd text position) :
    guacSocketNestFlush data=none := by
  obtain ⟨cs,b,bytes,hbuffered,hpart⟩ := h.buffered_within hnot
  have heq := h.written_eq
  have hwritten := h.written_lt
  have hlength : data.written<nestLength data.buffer data.written 0 :=
    nestLength_partial hbuffered (by rw [h.length_buffer]; omega) hpart
  obtain ⟨parent,hrun,-⟩ := guacProtocolSendNest_appends data.index
    (data.buffer.set (nestLength data.buffer data.written 0) 0) data.parent h.accepting rfl
  unfold guacSocketNestFlush
  rw [if_pos (by omega)]
  dsimp only
  split
  · rw [hrun]
    simp
  · rfl

/-- Bytes that fit are stored after those in the buffer. -/
theorem NestState.store {chunk tail : List UInt8}
    (htext : (utf8Encode text).drop position=chunk++tail)
    (hfits : data.written+chunk.length<guacSocketNestBufferSize) :
    NestState text start flushed (position+chunk.length) { data with
      written := data.written+chunk.length
      buffer := data.buffer.take data.written++chunk++
        data.buffer.drop (data.written+chunk.length) } := by
  have hlength := h.length_buffer
  have heq := h.written_eq
  have hposition := h.position_le
  have htake : (data.buffer.take data.written).length=data.written := by
    rw [List.length_take]
    omega
  have htail : position+chunk.length≤(utf8Encode text).length := by
    have hdrop := congrArg List.length htext
    rw [List.length_drop,List.length_append] at hdrop
    omega
  have hmore : (utf8Encode text).take (position+chunk.length)=
      (utf8Encode text).take position++chunk := by
    rw [List.take_add,htext,List.take_left]
  refine ⟨?_,by dsimp only; omega,hfits,htail,?_,h.flushed_end,h.accepting,h.index_eq,h.sent⟩
  · simp only [List.length_append,List.length_drop,htake]
    omega
  · have hstored : (data.buffer.take data.written++chunk).length=
        data.written+chunk.length := by rw [List.length_append,htake]
    dsimp only
    rw [←hstored,List.take_left,hmore,h.buffered,
      List.drop_append_of_le_length (by rw [List.length_take]; omega)]

/-- After the first bytes of a write have been stored, the others follow in the
text. -/
theorem NestState.store_chunk {buf tail : List UInt8} {size : ℕ}
    (htext : (utf8Encode text).drop position=buf++tail) (hle : size≤buf.length)
    (hfits : data.written+size<guacSocketNestBufferSize) :
    NestState text start flushed (position+size) { data with
      written := data.written+size
      buffer := data.buffer.take data.written++buf.take size++
        data.buffer.drop (data.written+size) } ∧
    (utf8Encode text).drop (position+size)=buf.drop size++tail := by
  have hchunk : (buf.take size).length=size := List.length_take_of_le hle
  have hstore := h.store (by rw [htext,←List.append_assoc,List.take_append_drop] :
      _ = buf.take size++(buf.drop size++tail)) (by rw [hchunk]; exact hfits)
  rw [hchunk] at hstore
  refine ⟨hstore,?_⟩
  rw [←List.drop_drop,htext,List.drop_append_of_le_length hle]

end

/-- What a function does in such a state: it succeeds if all positions at
which it flushes are ends of characters, and has no defined result if one of
them is not. -/
structure FlushesAt (text : List Char) (start : GuacSocketNestData) (points : List ℕ)
    (flushed position : ℕ) (result : Option (ℤ×GuacSocketNestData)) : Prop where
  /-- It succeeds at ends of characters. -/
  ends : (∀ n∈points, CharacterEnd text n) →
    ∃ data, result=some (0,data) ∧ NestState text start flushed position data
  /-- It has no result elsewhere. -/
  within : (∃ n∈points, ¬CharacterEnd text n) → result=none

/-- When the buffer is full the loop flushes it and goes on unless that
fails. -/
theorem nestWriteLoop_full {buf : List UInt8} (hbuf : buf≠[])
    (hfull : guacSocketNestBufferSize-data.written-1=0) :
    nestWriteLoop buf data=match guacSocketNestFlush data with
      | none => none
      | some (retval,data') =>
        if retval≠0 then some (-1,data') else nestWriteLoop buf data' := by
  rw [nestWriteLoop,dif_neg hbuf]
  dsimp only
  rw [dif_pos hfull]
  split
  · next hnone => rw [hnone]
  · next hsome =>
    rw [hsome]
    rfl

/-- Otherwise it stores what fits, if there are that many bytes in an int. -/
theorem nestWriteLoop_store {buf : List UInt8} (hbuf : buf≠[])
    (hne : guacSocketNestBufferSize-data.written-1≠0) {size : ℕ}
    (hsize : min (wrap32 buf.length) (guacSocketNestBufferSize-data.written-1 : ℕ)=size) :
    nestWriteLoop buf data=
      if 0<size then nestWriteLoop (buf.drop size) { data with
        written := data.written+size
        buffer := data.buffer.take data.written++buf.take size++
          data.buffer.drop (data.written+size) }
      else none := by
  rw [nestWriteLoop,dif_neg hbuf]
  dsimp only
  rw [dif_neg hne]
  simp only [hsize,Int.toNat_natCast,Int.natCast_pos,dite_eq_ite]

/-- A size that is not a number of bytes has no defined result. -/
theorem nestWriteLoop_negative {buf : List UInt8} (hbuf : buf≠[])
    (hne : guacSocketNestBufferSize-data.written-1≠0) (hnot : wrap32 buf.length≤0) :
    nestWriteLoop buf data=none := by
  rw [nestWriteLoop,dif_neg hbuf]
  dsimp only
  rw [dif_neg hne,dif_neg (by omega)]

/-- A flush of the full buffer at the end of a character leaves room in it. -/
theorem NestState.flush_full (hnul : ∀ c∈text, c≠Char.ofNat 0)
    (h : NestState text start flushed position data) (hlt : flushed<position)
    (hfull : guacSocketNestBufferSize-data.written-1=0) (hend : CharacterEnd text position) :
    ∃ data', guacSocketNestFlush data=some (0,data') ∧
      NestState text start position position data' ∧
      data'.written/(guacSocketNestBufferSize-1)<data.written/(guacSocketNestBufferSize-1) := by
  obtain ⟨data',hflush,hstate⟩ := h.flush_end hnul hlt hend
  have hzero : data'.written=0 := guacSocketNestFlush_written hflush rfl
  refine ⟨data',hflush,hstate,?_⟩
  unfold guacSocketNestBufferSize at hfull ⊢
  omega

/-- A full buffer with more to be written is flushed at its end. -/
theorem fullPoints_full (h : flushed+(guacSocketNestBufferSize-1)=position) {count : ℕ}
    (hcount : 0<count) :
    fullPoints flushed (position+count)=position::fullPoints position (position+count) := by
  rw [fullPoints,if_pos (by omega),h]

/-- A buffer that does not become full is not flushed. -/
theorem fullPoints_short (h : position≤flushed+(guacSocketNestBufferSize-1)) :
    fullPoints flushed position=[] := by
  rw [fullPoints,if_neg (not_lt.mpr h)]

/-- The write loop flushes whenever the buffer is full. -/
theorem nestWriteLoop_flushesAt (hnul : ∀ c∈text, c≠Char.ofNat 0) {buf tail : List UInt8}
    (h : NestState text start flushed position data)
    (htext : (utf8Encode text).drop position=buf++tail) (hshort : buf.length<2^31) :
    FlushesAt text start (fullPoints flushed (position+buf.length))
      ((fullPoints flushed (position+buf.length)).getLastD flushed) (position+buf.length)
      (nestWriteLoop buf data) := by
  induction hn : 2*buf.length+data.written/(guacSocketNestBufferSize-1)
    using Nat.strong_induction_on generalizing buf data flushed position with
  | _ n ih =>
    have heq := h.written_eq
    have hlt := h.written_lt
    unfold guacSocketNestBufferSize at hlt
    by_cases hbuf : buf=[]
    · subst hbuf
      rw [List.length_nil,Nat.add_zero,
        fullPoints_short (by unfold guacSocketNestBufferSize; omega),nestWriteLoop,dif_pos rfl]
      exact ⟨fun _ => ⟨data,rfl,h⟩,fun ⟨n,hn,_⟩ => absurd hn List.not_mem_nil⟩
    have hcount : 0<buf.length := List.length_pos_iff.mpr hbuf
    by_cases hfull : guacSocketNestBufferSize-data.written-1=0
    · have hposition : flushed+(guacSocketNestBufferSize-1)=position := by
        unfold guacSocketNestBufferSize at hfull ⊢
        omega
      have hflushed : flushed<position := by
        unfold guacSocketNestBufferSize at hposition
        omega
      rw [fullPoints_full hposition hcount,List.getLastD_cons,nestWriteLoop_full hbuf hfull]
      by_cases hend : CharacterEnd text position
      · obtain ⟨data',hflush,hstate,hdecreases⟩ := h.flush_full hnul hflushed hfull hend
        have hrest := ih _ (by omega) hstate htext hshort rfl
        rw [hflush]
        dsimp only
        rw [if_neg (fun hne => hne rfl)]
        exact ⟨fun hpoints => hrest.ends (List.forall_mem_cons.mp hpoints).2,
          fun ⟨n,hn,hnot⟩ => hrest.within ⟨n,(List.mem_cons.mp hn).resolve_left
            (fun heq => hnot (heq ▸ hend)),hnot⟩⟩
      · rw [h.flush_within hflushed hend]
        exact ⟨fun hpoints => absurd (hpoints position (List.mem_cons_self ..)) hend,fun _ => rfl⟩
    · obtain ⟨size,hsize⟩ :
          ∃ size, min buf.length (guacSocketNestBufferSize-data.written-1)=size := ⟨_,rfl⟩
      have hpos : 0<size ∧ size≤buf.length ∧ data.written+size<guacSocketNestBufferSize := by
        unfold guacSocketNestBufferSize at *
        omega
      obtain ⟨hstore,hdrop⟩ := h.store_chunk htext hpos.2.1 hpos.2.2
      have hlength : position+size+(buf.drop size).length=position+buf.length := by
        rw [List.length_drop]
        omega
      have hdecreases : 2*(buf.drop size).length+
          (data.written+size)/(guacSocketNestBufferSize-1)<n := by
        rw [←hn,List.length_drop]
        unfold guacSocketNestBufferSize at hpos ⊢
        omega
      have hrest := ih _ hdecreases hstore hdrop (by rw [List.length_drop]; omega) rfl
      rw [hlength] at hrest
      rw [nestWriteLoop_store hbuf hfull
        (by rw [wrap32_of_range (by omega) (by omega)]; omega : _ = ((size : ℕ) : ℤ)),
        if_pos hpos.1]
      exact hrest

/-- A write of more bytes than an int counts has no defined result: the bytes
below a multiple of 2 ^ 32 may be stored, and what remains is never positive
as an int again. -/
theorem nestWriteLoop_long (hnul : ∀ c∈text, c≠Char.ofNat 0) {buf tail : List UInt8}
    (h : NestState text start flushed position data)
    (htext : (utf8Encode text).drop position=buf++tail) (hlong : 2^31≤buf.length) :
    nestWriteLoop buf data=none := by
  induction hn : 2*buf.length+data.written/(guacSocketNestBufferSize-1)
    using Nat.strong_induction_on generalizing buf data flushed position with
  | _ n ih =>
    have heq := h.written_eq
    have hbuf : buf≠[] := by
      rintro rfl
      exact absurd hlong (by decide)
    by_cases hfull : guacSocketNestBufferSize-data.written-1=0
    · have hflushed : flushed<position := by
        unfold guacSocketNestBufferSize at hfull
        omega
      rw [nestWriteLoop_full hbuf hfull]
      by_cases hend : CharacterEnd text position
      · obtain ⟨data',hflush,hstate,hdecreases⟩ := h.flush_full hnul hflushed hfull hend
        rw [hflush]
        exact ih _ (by omega) hstate htext hlong rfl
      · rw [h.flush_within hflushed hend]
    · rcases le_or_gt (wrap32 buf.length) 0 with hnot | hpositive
      · exact nestWriteLoop_negative hbuf hfull hnot
      obtain ⟨q,hq⟩ := wrap32_eq_add (buf.length : ℤ)
      have hword := wrap32_lt (buf.length : ℤ)
      obtain ⟨size,hsize⟩ := Int.eq_ofNat_of_zero_le (by omega :
        0 ≤ min (wrap32 buf.length) (guacSocketNestBufferSize-data.written-1 : ℕ))
      have hpos : 0<size ∧ size+2^32≤buf.length ∧ data.written+size<guacSocketNestBufferSize := by
        unfold guacSocketNestBufferSize at *
        omega
      obtain ⟨hstore,hdrop⟩ := h.store_chunk htext (by omega) hpos.2.2
      have hdecreases : 2*(buf.drop size).length+
          (data.written+size)/(guacSocketNestBufferSize-1)<n := by
        rw [←hn,List.length_drop]
        unfold guacSocketNestBufferSize at hpos ⊢
        omega
      rw [nestWriteLoop_store hbuf hfull hsize,if_pos hpos.1]
      exact ih _ hdecreases hstore hdrop (by rw [List.length_drop]; omega) rfl

/-- Bytes that are written after one another. -/
def callBytes (calls : List NestCall) : List UInt8 := calls.flatMap NestCall.bytes

/-- Calls flush at the positions that follow from their lengths, and have no
defined result once one writes more bytes than an int counts. -/
theorem run_flushesAt (hnul : ∀ c∈text, c≠Char.ofNat 0) {calls : List NestCall}
    {tail : List UInt8} (h : NestState text start flushed position data)
    (htext : (utf8Encode text).drop position=callBytes calls++tail) :
    ((∀ call∈calls, call.Counted) → (∀ n∈flushPoints flushed position calls, CharacterEnd text n) →
      ∃ data' flushed', run nestStep calls data=some data' ∧
        NestState text start flushed' (position+(callBytes calls).length) data') ∧
    (((∃ call∈calls, ¬call.Counted) ∨
        ∃ n∈flushPoints flushed position calls, ¬CharacterEnd text n) →
      run nestStep calls data=none) := by
  induction calls generalizing flushed position data with
  | nil =>
    exact ⟨fun _ _ => ⟨data,flushed,rfl,h⟩,by simp [flushPoints]⟩
  | cons call calls ih =>
    cases call with
    | write buf =>
      have hbuf : (utf8Encode text).drop position=buf++(callBytes calls++tail) := by
        rw [htext,callBytes,List.flatMap_cons,List.append_assoc]
        rfl
      have hdrop : (utf8Encode text).drop (position+buf.length)=callBytes calls++tail := by
        rw [←List.drop_drop,hbuf,List.drop_left]
      have hlength : position+(callBytes (.write buf::calls)).length=
          position+buf.length+(callBytes calls).length := by
        rw [callBytes,List.flatMap_cons,List.length_append,Nat.add_assoc]
        rfl
      rw [flushPoints,hlength,run,nestStep,guacSocketNestWriteHandler]
      rcases Nat.lt_or_ge buf.length (2^31) with hshort | hlong
      · obtain ⟨hends,hwithin⟩ := nestWriteLoop_flushesAt hnul h hbuf hshort
        constructor
        · intro hcounted hpoints
          obtain ⟨hhere,hlater⟩ := List.forall_mem_append.mp hpoints
          obtain ⟨data',hloop,hstate⟩ := hends hhere
          rw [hloop]
          exact (ih hstate hdrop).1 (List.forall_mem_cons.mp hcounted).2 hlater
        · intro hbad
          by_cases hhere : ∀ n∈fullPoints flushed (position+buf.length), CharacterEnd text n
          · obtain ⟨data',hloop,hstate⟩ := hends hhere
            rw [hloop]
            refine (ih hstate hdrop).2 (hbad.imp ?_ ?_)
            · rintro ⟨call,hcall,hnot⟩
              exact ⟨call,(List.mem_cons.mp hcall).resolve_left
                (fun heq => hnot (heq ▸ hshort)),hnot⟩
            · rintro ⟨n,hn,hnot⟩
              exact ⟨n,(List.mem_append.mp hn).resolve_left (fun hmem => hnot (hhere n hmem)),hnot⟩
          · push Not at hhere
            rw [hwithin hhere]
            rfl
      · rw [nestWriteLoop_long hnul h hbuf hlong]
        exact ⟨fun hcounted => absurd (hcounted _ (List.mem_cons_self ..)) (not_lt.mpr hlong),
          fun _ => rfl⟩
    | flush =>
      have hdrop : (utf8Encode text).drop position=callBytes calls++tail := htext
      rw [flushPoints,run,nestStep,guacSocketNestFlushHandler]
      have heq := h.written_eq
      have hflush : NestCall.flush.Counted := by decide
      rw [List.forall_mem_cons,List.exists_mem_cons_iff]
      by_cases hlt : flushed<position
      · rw [if_pos hlt]
        constructor
        · rintro ⟨-,hcounted⟩ hpoints
          obtain ⟨hend,hlater⟩ := List.forall_mem_cons.mp hpoints
          obtain ⟨data',hflush,hstate⟩ := h.flush_end hnul hlt hend
          rw [hflush]
          exact (ih hstate hdrop).1 hcounted hlater
        · intro hbad
          by_cases hend : CharacterEnd text position
          · obtain ⟨data',hflushes,hstate⟩ := h.flush_end hnul hlt hend
            rw [hflushes]
            refine (ih hstate hdrop).2 (hbad.imp ?_ ?_)
            · exact fun hcall => hcall.resolve_left fun hnot => hnot hflush
            · rintro ⟨n,hn,hnot⟩
              exact ⟨n,(List.mem_cons.mp hn).resolve_left (fun heq => hnot (heq ▸ hend)),hnot⟩
          · rw [h.flush_within hlt hend]
            rfl
      · have hempty : guacSocketNestFlush data=some (0,data) := by
          rw [guacSocketNestFlush,if_neg (by omega)]
        rw [if_neg hlt,hempty]
        have hrest := ih h hdrop
        exact ⟨fun hcounted => hrest.1 hcounted.2,
          fun hbad => hrest.2 (hbad.imp_left fun hcall => hcall.resolve_left fun hnot =>
            hnot hflush)⟩

/-- The first calls flush at some of the positions. -/
theorem flushPoints_append (flushed position : ℕ) (calls rest : List NestCall) :
    ∀ n∈flushPoints flushed position calls, n∈flushPoints flushed position (calls++rest) := by
  induction calls generalizing flushed position with
  | nil => exact fun n hn => absurd hn List.not_mem_nil
  | cons call calls ih =>
    intro n hn
    cases call with
    | write buf =>
      rw [List.cons_append,flushPoints] at *
      exact (List.mem_append.mp hn).elim (fun h => List.mem_append_left _ h)
        (fun h => List.mem_append_right _ (ih _ _ n h))
    | flush =>
      rw [List.cons_append,flushPoints] at *
      split
      · next hlt =>
        rw [if_pos hlt] at hn
        exact (List.mem_cons.mp hn).elim (fun h => h ▸ List.mem_cons_self ..)
          (fun h => List.mem_cons_of_mem _ (ih _ _ n h))
      · next hge =>
        rw [if_neg hge] at hn
        exact ih _ _ n hn

/-- guac_socket_nest, where the buffer has any contents. -/
def guacSocketNest (parent : GuacSocket) (index : ℤ) (buffer : List UInt8) : GuacSocketNestData :=
  ⟨parent,index,0,buffer⟩

/-- What a nested socket has been given is what its nest instructions carry,
in complete characters, and what is in its buffer, with room for a
terminator. -/
def NestLossless (start : GuacSocketNestData) (bytes : List UInt8) (data : GuacSocketNestData) :
    Prop :=
  ∃ payloads : List (List UInt8),
    data.parent.output=start.parent.output++payloads.flatMap (nestBytes start.index) ∧
      (∀ payload∈payloads, ∃ part : List Char, payload=utf8Encode part) ∧
      payloads.flatten++data.buffer.take data.written=bytes ∧
      data.written≤guacSocketNestBufferSize-1

/-- A new nested socket has been given nothing. -/
theorem guacSocketNest_state (text : List Char) {parent : GuacSocket} (h : parent.Accepting)
    (index : ℤ) {buffer : List UInt8} (hbuffer : buffer.length=guacSocketNestBufferSize) :
    NestState text (guacSocketNest parent index buffer) 0 0 (guacSocketNest parent index buffer) :=
  ⟨hbuffer,rfl,Nat.zero_lt_succ _,Nat.zero_le _,by simp [guacSocketNest],⟨0,rfl⟩,h,rfl,
    [],by simp,by simp,by simp⟩

/-- All bytes up to the position are accounted for. -/
theorem NestState.lossless (h : NestState text start flushed position data) :
    NestLossless start ((utf8Encode text).take position) data := by
  obtain ⟨payloads,houtput,hflatten,hpayloads⟩ := h.sent
  have heq := h.written_eq
  have hlt := h.written_lt
  have htake : (utf8Encode text).take flushed=((utf8Encode text).take position).take flushed := by
    rw [List.take_take,Nat.min_eq_left (by omega)]
  refine ⟨payloads,houtput,hpayloads,?_,Nat.le_sub_one_of_lt hlt⟩
  rw [hflatten,h.buffered,htake,List.take_append_drop]

/-- Calls that write a text lose nothing, whichever of them have been made,
exactly when an int counts the bytes of each and every position at which they
flush is the end of a character. -/
theorem guacSocketNest_lossless_iff {text : List Char} (hnul : ∀ c∈text, c≠Char.ofNat 0)
    {calls : List NestCall} (hcalls : callBytes calls=utf8Encode text) {parent : GuacSocket}
    (haccepting : parent.Accepting) (index : ℤ) {buffer : List UInt8}
    (hbuffer : buffer.length=guacSocketNestBufferSize) :
    (∀ made, made <+: calls→∃ data,
      run nestStep made (guacSocketNest parent index buffer)=some data ∧
        NestLossless (guacSocketNest parent index buffer) (callBytes made) data) ↔
      (∀ call∈calls, call.Counted) ∧ ∀ n∈flushPoints 0 0 calls, CharacterEnd text n := by
  have hstate := guacSocketNest_state text haccepting index hbuffer
  constructor
  · intro hall
    by_contra hpoint
    rw [not_and_or] at hpoint
    push Not at hpoint
    obtain ⟨data,hrun,-⟩ := hall calls (List.prefix_refl calls)
    have htext : (utf8Encode text).drop 0=callBytes calls++[] := by
      rw [List.drop_zero,hcalls,List.append_nil]
    have hnone := (run_flushesAt hnul hstate htext).2 hpoint
    rw [hrun] at hnone
    cases hnone
  · rintro ⟨hcounted,hpoints⟩ made ⟨rest,rfl⟩
    have htext : (utf8Encode text).drop 0=callBytes made++callBytes rest := by
      rw [List.drop_zero,←hcalls,callBytes,callBytes,callBytes,List.flatMap_append]
    obtain ⟨data,flushed,hrun,hdata⟩ := (run_flushesAt hnul hstate htext).1
      (fun call hcall => hcounted call (List.mem_append_left _ hcall)) fun n hn =>
        hpoints n (flushPoints_append 0 0 made rest n hn)
    have hlossless := hdata.lossless
    rw [List.drop_zero] at htext
    rw [Nat.zero_add,htext,List.take_left] at hlossless
    exact ⟨data,hrun,hlossless⟩

/-- A character of two bytes written in two parts and then flushed. -/
theorem guacSocketNest_lossless_two : ∃ data, run nestStep [.write [0xC3],.write [0xA9],.flush]
        (guacSocketNest (guacSocketAlloc []) 5 (List.replicate guacSocketNestBufferSize 0))=
          some data ∧
      NestLossless (guacSocketNest (guacSocketAlloc []) 5
          (List.replicate guacSocketNestBufferSize 0))
        (callBytes [.write [0xC3],.write [0xA9],.flush]) data := by
  have hnul : ∀ c∈['é'], c≠Char.ofNat 0 := List.forall_mem_singleton.mpr (by decide)
  refine (guacSocketNest_lossless_iff hnul (by decide)
    (by unfold GuacSocket.Accepting; decide) 5 List.length_replicate).mpr ?_ _
      (List.prefix_refl _)
  have hpoints : flushPoints 0 0 [.write [0xC3],.write [0xA9],.flush]=[2] := by
    simp (disch := decide) [flushPoints,fullPoints_short]
  rw [hpoints]
  refine ⟨by decide,fun n hn => ?_⟩
  rw [List.mem_singleton.mp hn]
  exact ⟨1,by decide⟩

/-- One byte into the character there is no end of a character. -/
theorem not_characterEnd_one : ¬CharacterEnd ['é'] 1 := by
  rintro ⟨k,hk⟩
  cases k with
  | zero => exact absurd hk (by decide)
  | succ k =>
    rw [List.take_succ_cons,List.take_nil] at hk
    exact absurd hk (by decide)

/-- If the flush comes between the two bytes, it passes the end of the buffer
and has no defined result. -/
theorem guacSocketNest_divided :
    run nestStep [.write [0xC3],.flush] (guacSocketNest (guacSocketAlloc []) 5
        (List.replicate guacSocketNestBufferSize 0))=none ∧
      ¬∀ made, made <+: [NestCall.write [0xC3],.flush,.write [0xA9]]→∃ data,
        run nestStep made (guacSocketNest (guacSocketAlloc []) 5
          (List.replicate guacSocketNestBufferSize 0))=some data ∧
        NestLossless (guacSocketNest (guacSocketAlloc []) 5
          (List.replicate guacSocketNestBufferSize 0)) (callBytes made) data := by
  have hstate := guacSocketNest_state ['é'] (by decide : none ∉ (guacSocketAlloc []).writes) 5
    (List.length_replicate : (List.replicate guacSocketNestBufferSize (0 : UInt8)).length=_)
  have hnone := (run_flushesAt (List.forall_mem_singleton.mpr (by decide)) hstate
    (by decide : (utf8Encode ['é']).drop 0=callBytes [.write [0xC3],.flush]++[0xA9])).2
    <| Or.inr ⟨1,by simp (disch := decide) [flushPoints,fullPoints_short],not_characterEnd_one⟩
  refine ⟨hnone,fun hall => ?_⟩
  obtain ⟨data,hrun,-⟩ := hall [.write [0xC3],.flush] ⟨[.write [0xA9]],rfl⟩
  rw [hnone] at hrun
  cases hrun

end GuacServer.SocketNest
