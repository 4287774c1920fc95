import GuacServer.ProtocolSend
import GuacServer.SextetCoding

/-!
# Blobs from the sender to the decoder

guac_protocol_send_blobs cuts its data into pieces, writes each as a blob
instruction whose length it computes beforehand, and encodes it through the
base64 buffer of the socket; the receiver decodes the argument in place. The
pieces found by the parser decode to the original data.
-/

namespace GuacServer.BlobTransport

open DecimalNumerals GuacServer.Parser List ProtocolSend SextetCoding Socket Unicode

/-- The maximum number of bytes of a blob. -/
def guacProtocolBlobMaxLength : ℕ := 6048

/-- guac_protocol_send_blob on a stream of the given index. -/
def guacProtocolSendBlob (index : ℤ) (data : List UInt8) : SocketOp :=
  chain [guacSocketWriteString (ascii "4.blob,"), guacSocketWriteLengthInt index,
    guacSocketWriteString (ascii ","), guacSocketWriteInt ((data.length+2)/3*4 : ℕ),
    guacSocketWriteString (ascii "."), guacSocketWriteBase64 data, guacSocketFlushBase64,
    guacSocketWriteString (ascii ";")]

/-- guac_protocol_send_blobs. -/
def guacProtocolSendBlobs (index : ℤ) (data : List UInt8) : SocketOp := fun socket =>
  if 0<data.length then
    match guacProtocolSendBlob index (data.take guacProtocolBlobMaxLength) socket with
    | none => none
    | some (ret,socket) =>
      if ret≠0 then some (ret,socket)
      else guacProtocolSendBlobs index (data.drop guacProtocolBlobMaxLength) socket
  else some (0,socket)
termination_by data.length
decreasing_by
  rw [length_drop]
  unfold guacProtocolBlobMaxLength
  omega

/-- __guac_base64_value. -/
def guacBase64Value (c : UInt8) : ℕ :=
  if 65≤c ∧ c≤90 then c.toNat-65
  else if 97≤c ∧ c≤122 then c.toNat-97+26
  else if 48≤c ∧ c≤57 then c.toNat-48+52
  else if c=43 then 62
  else if c=47 then 63
  else 0

/-- The loop of guac_protocol_decode_base64 over the string in its buffer. The
value is an int, shifted left by six bits with wrap-around; the number of
bytes written is the output position. -/
def decodeLoop (base64 : List UInt8) (input output bitsRead : ℕ) (value : ℤ) : List UInt8×ℕ :=
  if h : input<base64.length then
    let current := base64[input]
    if current=0 ∨ current=61 then (base64,output)
    else
      let value := wrap32 (value*64+guacBase64Value current)
      let bitsRead := bitsRead+6
      if bitsRead≥8 then
        decodeLoop (base64.set output (UInt8.ofNat (value/2^(bitsRead%8)%256).toNat))
          (input+1) (output+1) (bitsRead-8) value
      else decodeLoop base64 (input+1) output bitsRead value
  else (base64,output)
termination_by base64.length-input
decreasing_by
  · rw [length_set]
    omega
  · omega

/-- guac_protocol_decode_base64: the buffer afterwards and the length. -/
def guacProtocolDecodeBase64 (base64 : List UInt8) : List UInt8×ℕ := decodeLoop base64 0 0 0 0

/-- Every entry of the table is read back by the decoder, and is neither the
padding character nor a terminator. -/
theorem base64Character_value : ∀ n<64, guacBase64Value (base64Character n)=n ∧
    base64Character n≠61 ∧ base64Character n≠0 ∧ (base64Character n).toNat<128 := by
  decide +kernel

/-- The alphabet of the table and of the decoder. -/
def guacAlphabet : Alphabet UInt8 where
  symbol := base64Character
  value := guacBase64Value
  pad := 61
  value_symbol := fun n hn => (base64Character_value n hn).1
  symbol_ne_pad := fun n hn => (base64Character_value n hn).2.1

/-- The low byte of a byte is the byte. -/
theorem lowByte_toNat (a : UInt8) : lowByte a.toNat=a.toNat := by
  have ha : a.toNat<256 := a.toNat_lt
  unfold lowByte
  omega

/-- The masks and shifts of a triplet are quotients and remainders. -/
theorem base64Masks {x : ℕ} (h : x<256) : (x &&& 0xFC) >>> 2=x/4 ∧ (x &&& 0x03) <<< 4=2^4*(x%4) ∧
      (x &&& 0xF0) >>> 4=x/16 ∧ (x &&& 0x0F) <<< 2=2^2*(x%16) ∧
      (x &&& 0xC0) >>> 6=x/64 ∧ x &&& 0x3F=x%64 := by
  have hall : ∀ x<256, (x &&& 0xFC) >>> 2=x/4 ∧ (x &&& 0x03) <<< 4=2^4*(x%4) ∧
      (x &&& 0xF0) >>> 4=x/16 ∧ (x &&& 0x0F) <<< 2=2^2*(x%16) ∧
      (x &&& 0xC0) >>> 6=x/64 ∧ x &&& 0x3F=x%64 := by
    decide +kernel
  exact hall x h

/-- The bits of the first two bytes that share a character do not overlap. -/
theorem base64Join_first (a b : UInt8) :
    2^4*(a.toNat%4) ||| b.toNat/16=a.toNat%4*16+b.toNat/16 := by
  have hb : b.toNat/16<2^4 := Nat.div_lt_of_lt_mul b.toNat_lt
  rw [←Nat.two_pow_add_eq_or_of_lt hb,Nat.mul_comm]

/-- Nor do those of the last two. -/
theorem base64Join_last (b c : UInt8) :
    2^2*(b.toNat%16) ||| c.toNat/64=b.toNat%16*4+c.toNat/64 := by
  have hc : c.toNat/64<2^2 := Nat.div_lt_of_lt_mul c.toNat_lt
  rw [←Nat.two_pow_add_eq_or_of_lt hc,Nat.mul_comm]

/-- A triplet of three bytes is a full group. -/
theorem base64Triplet_full (a b c : UInt8) : base64Triplet a.toNat b.toNat c.toNat=
      [base64Character (a.toNat/4),base64Character (a.toNat%4*16+b.toNat/16),
        base64Character (b.toNat%16*4+c.toNat/64),base64Character (c.toNat%64)] := by
  obtain ⟨ha₁,ha₂,-⟩ := base64Masks a.toNat_lt
  obtain ⟨-,-,hb₁,hb₂,-⟩ := base64Masks b.toNat_lt
  obtain ⟨-,-,-,-,hc₁,hc₂⟩ := base64Masks c.toNat_lt
  unfold base64Triplet
  rw [if_pos (Int.natCast_nonneg _),if_pos (Int.natCast_nonneg _)]
  simp only [lowByte_toNat,ha₁,ha₂,hb₁,hb₂,hc₁,hc₂,base64Join_first,base64Join_last]

/-- A triplet with one byte of padding. -/
theorem base64Triplet_two (a b : UInt8) :
    base64Triplet a.toNat b.toNat (-1)=guacAlphabet.encode [a,b] := by
  obtain ⟨ha₁,ha₂,-⟩ := base64Masks a.toNat_lt
  obtain ⟨-,-,hb₁,hb₂,-⟩ := base64Masks b.toNat_lt
  unfold base64Triplet
  rw [if_pos (Int.natCast_nonneg _),if_neg (by decide)]
  simp only [lowByte_toNat,ha₁,ha₂,hb₁,hb₂,base64Join_first,Nat.mul_comm (2^2)]
  rfl

/-- A triplet with two bytes of padding. -/
theorem base64Triplet_one (a : UInt8) :
    base64Triplet a.toNat (-1) (-1)=guacAlphabet.encode [a] := by
  obtain ⟨ha₁,ha₂,-⟩ := base64Masks a.toNat_lt
  unfold base64Triplet
  rw [if_neg (by decide)]
  simp only [lowByte_toNat,ha₁,ha₂,Nat.mul_comm (2^4)]
  rfl

/-- Three bytes stored in an empty buffer, the last of which writes their
triplet. -/
theorem guacSocketWriteBase64Byte_three {socket : GuacSocket} (haccepting : socket.Accepting)
    (hready : socket.ready=0) (a b c : ℤ) :
    ∃ socket₁ socket₂ socket₃, guacSocketWriteBase64Byte a socket=some (1,socket₁) ∧
      socket₁.ready=1 ∧ guacSocketWriteBase64Byte b socket₁=some (1,socket₂) ∧
      socket₂.ready=2 ∧ guacSocketWriteBase64Byte c socket₂=some (1,socket₃) ∧
      socket₃.Accepting ∧ socket₃.ready=0 ∧
      socket₃.output=socket.output++base64Triplet a b c := by
  obtain ⟨rest,haccept,hrest⟩ := acceptWrite_of_accepting haccepting 4
  obtain ⟨writes,output,ready,readyBuf⟩ := socket
  cases hready
  let socket₁ : GuacSocket := ⟨writes,output,1,readyBuf.set 0 a⟩
  let socket₂ : GuacSocket := ⟨writes,output,2,(readyBuf.set 0 a).set 1 b⟩
  have hlast : socket₂.readyBuf[0]=a ∧ socket₂.readyBuf[1]=b := by simp [socket₂]
  refine ⟨socket₁,socket₂,_,guacSocketWriteBase64Byte_wait Nat.zero_lt_two a,rfl,
    guacSocketWriteBase64Byte_wait Nat.one_lt_two b,rfl,
    guacSocketWriteBase64Byte_accept rfl c haccept,hrest,rfl,?_⟩
  dsimp only
  rw [hlast.1,hlast.2]

/-- The data written and flushed are its groups. -/
theorem guacSocketWriteBase64_appends (data : List UInt8) :
    Appends 0 (chain [guacSocketWriteBase64 data,guacSocketFlushBase64])
      (guacAlphabet.encode data) := by
  induction data using Alphabet.encode.induct with
  | case1 =>
    intro socket haccepting hready
    have hflush := guacSocketFlushBase64_empty hready
    refine ⟨socket,?_,haccepting,hready,(append_nil _).symm⟩
    simp [chain,guacSocketWriteBase64,hflush]
  | case2 a =>
    intro socket haccepting hready
    obtain ⟨socket₁,socket₂,socket₃,hrun₁,hready₁,hrun₂,hready₂,hrun₃,haccepting₃,
      hready₃,houtput⟩ := guacSocketWriteBase64Byte_three haccepting hready a.toNat (-1) (-1)
    have hflush : guacSocketFlushBase64 socket₁=some (0,socket₃) := by
      rw [guacSocketFlushBase64_step (by omega) hrun₂,if_neg (by decide),
        guacSocketFlushBase64_step (by omega) hrun₃,if_neg (by decide),
        guacSocketFlushBase64_empty hready₃]
    refine ⟨socket₃,?_,haccepting₃,hready₃,by rw [houtput,base64Triplet_one]⟩
    simp [chain,guacSocketWriteBase64,hrun₁,hflush]
  | case3 a b =>
    intro socket haccepting hready
    obtain ⟨socket₁,socket₂,socket₃,hrun₁,hready₁,hrun₂,hready₂,hrun₃,haccepting₃,
      hready₃,houtput⟩ := guacSocketWriteBase64Byte_three haccepting hready a.toNat b.toNat (-1)
    have hflush : guacSocketFlushBase64 socket₂=some (0,socket₃) := by
      rw [guacSocketFlushBase64_step (by omega) hrun₃,if_neg (by decide),
        guacSocketFlushBase64_empty hready₃]
    refine ⟨socket₃,?_,haccepting₃,hready₃,by rw [houtput,base64Triplet_two]⟩
    simp [chain,guacSocketWriteBase64,hrun₁,hrun₂,hflush]
  | case4 a b c data ih =>
    intro socket haccepting hready
    obtain ⟨socket₁,socket₂,socket₃,hrun₁,hready₁,hrun₂,hready₂,hrun₃,haccepting₃,
      hready₃,houtput⟩ := guacSocketWriteBase64Byte_three haccepting hready a.toNat b.toNat c.toNat
    obtain ⟨socket₄,hrun,haccepting₄,hready₄,houtput₄⟩ := ih socket₃ haccepting₃ hready₃
    have hwrite : guacSocketWriteBase64 (a::b::c::data) socket=
        guacSocketWriteBase64 data socket₃ := by
      simp [guacSocketWriteBase64,hrun₁,hrun₂,hrun₃]
    refine ⟨socket₄,?_,haccepting₄,hready₄,?_⟩
    · rw [chain,hwrite]
      exact hrun
    · rw [houtput₄,houtput,base64Triplet_full,append_assoc]
      rfl

/-- The bytes of a blob instruction with the given text. -/
def blobBytes (index : ℤ) (text : List UInt8) : List UInt8 :=
  ascii "4.blob," ++ lengthString (decimalInt index)++44::decimal text.length++46::text++[59]

/-- A blob instruction is sent with its data as a text. -/
theorem guacProtocolSendBlob_appends (index : ℤ) (data : List UInt8) :
    Appends 0 (guacProtocolSendBlob index data) (blobBytes index (guacAlphabet.encode data)) := by
  have hopcode : cString (ascii "4.blob,")=ascii "4.blob," := by decide
  have hcomma : cString (ascii ",")=[44] := by decide
  have hperiod : cString (ascii ".")=[46] := by decide
  have hsemicolon : cString (ascii ";")=[59] := by decide
  have hhead : Appends 0 _ _ := chain_appends (List.Forall₂.cons
    (guacSocketWriteString_appends (ascii "4.blob,"))
    (List.Forall₂.cons (guacSocketWriteLengthInt_appends index)
      (List.Forall₂.cons (guacSocketWriteString_appends (ascii ","))
        (List.Forall₂.cons (guacSocketWriteInt_appends ((data.length+2)/3*4 : ℕ))
          (List.Forall₂.cons (guacSocketWriteString_appends (ascii ".")) List.Forall₂.nil)))))
  have hlast : Appends 0 _ _ := chain_appends
    (List.Forall₂.cons (guacSocketWriteString_appends (ascii ";")) List.Forall₂.nil)
  have hblob := chain_append_appends hhead
    (chain_append_appends (guacSocketWriteBase64_appends data) hlast)
  have hlength : decimalInt (guacAlphabet.encode data).length=
      decimal (guacAlphabet.encode data).length := rfl
  unfold guacProtocolSendBlob blobBytes
  rw [←guacAlphabet.length_encode,hlength,hopcode,hcomma,hperiod,hsemicolon] at hblob
  rw [←guacAlphabet.length_encode]
  simpa only [flatten_cons,flatten_nil,append_nil,append_assoc,
    cons_append,nil_append] using hblob

/-- The loop in the middle of a buffer: the decoded bytes, those overwritten
later, and those still to be read. -/
def decodeFrom (decoded gap text : List UInt8) (bitsRead : ℕ) (value : ℤ) : List UInt8×ℕ :=
  decodeLoop (decoded++(gap++text)) (decoded.length+gap.length) decoded.length bitsRead value

/-- A character that leaves fewer than eight bits is passed over. -/
theorem decodeFrom_wait {n bitsRead : ℕ} (hn : n<64) (hbits : bitsRead+6<8)
    (decoded gap text : List UInt8) (value : ℤ) :
    decodeFrom decoded gap (guacAlphabet.symbol n::text) bitsRead value=
      decodeFrom decoded (gap++[guacAlphabet.symbol n]) text (bitsRead+6)
        (wrap32 (value*64+n)) := by
  obtain ⟨hvalue,hpad,hzero,-⟩ := base64Character_value n hn
  have hread : (decoded++(gap++base64Character n::text))[decoded.length+gap.length]?=
      some (base64Character n) := by
    simp
  obtain ⟨hlt,hget⟩ := List.getElem?_eq_some_iff.mp hread
  unfold decodeFrom
  change decodeLoop (decoded++(gap++base64Character n::text)) _ _ _ _=
    decodeLoop (decoded++(gap++[base64Character n]++text)) _ _ _ _
  rw [decodeLoop,dif_pos hlt]
  simp only [hget,hvalue]
  rw [if_neg (by simp [hpad,hzero]),if_neg (by omega)]
  simp [Nat.add_assoc]

/-- A character that completes eight bits stores them. -/
theorem decodeFrom_byte (bitsRead : ℕ) {n : ℕ} {k : ℤ} (hn : n<64)
    (hbits : 8≤bitsRead+6) (hk : 2^((bitsRead+6)%8)=k) {gap : List UInt8}
    (hgap : gap≠[]) (decoded text : List UInt8) (value : ℤ) {b : UInt8}
    (hb : wrap32 (value*64+n)/k%256=b.toNat) :
    ∃ gap', gap' ≠ [] ∧ decodeFrom decoded gap (guacAlphabet.symbol n::text) bitsRead value=
      decodeFrom (decoded++[b]) gap' text (bitsRead+6-8) (wrap32 (value*64+n)) := by
  obtain ⟨g,gap,rfl⟩ := exists_cons_of_ne_nil hgap
  obtain ⟨hvalue,hpad,hzero,-⟩ := base64Character_value n hn
  have hread : (decoded++(g::gap++base64Character n::text))[decoded.length+
      (g::gap).length]? = some (base64Character n) := by
    simp
  obtain ⟨hlt,hget⟩ := List.getElem?_eq_some_iff.mp hread
  refine ⟨gap++[base64Character n],by simp,?_⟩
  unfold decodeFrom
  change decodeLoop (decoded++(g::gap++base64Character n::text)) _ _ _ _ = _
  rw [decodeLoop,dif_pos hlt]
  simp only [hget,hvalue]
  rw [if_neg (by simp [hpad,hzero]),if_pos hbits,hk,hb]
  simp [Nat.add_assoc,Nat.add_comm 1]

/-- The loop ends at padding and at the terminator. -/
theorem decodeFrom_end {c : UInt8} (hc : c=0 ∨ c=61) (decoded gap tail : List UInt8)
    (bitsRead : ℕ) (value : ℤ) :
    decodeFrom decoded gap (c::tail) bitsRead value=(decoded++(gap++c::tail),decoded.length) := by
  have hread : (decoded++(gap++c::tail))[decoded.length+gap.length]? = some c := by simp
  obtain ⟨hlt,hget⟩ := List.getElem?_eq_some_iff.mp hread
  unfold decodeFrom
  rw [decodeLoop,dif_pos hlt]
  simp only [hget]
  rw [if_pos hc]

/-- The first two characters of a group are its first byte and four bits. -/
theorem decodeFrom_first (a : UInt8) {r : ℕ} (hr : r<16) (decoded gap text : List UInt8)
    (value : ℤ) :
    ∃ (gap' : List UInt8) (value' : ℤ), gap' ≠ [] ∧ value' % 16=r ∧
      decodeFrom decoded gap (guacAlphabet.symbol (a.toNat/4)::
          guacAlphabet.symbol (a.toNat%4*16+r)::text) 0 value=
        decodeFrom (decoded++[a]) gap' text 4 value' := by
  have ha : a.toNat<256 := a.toNat_lt
  obtain ⟨q,hq⟩ := wrap32_eq_add (value*64+(a.toNat/4 : ℕ))
  obtain ⟨q',hq'⟩ := wrap32_eq_add (wrap32 (value*64+(a.toNat/4 : ℕ))*64+(a.toNat%4*16+r : ℕ))
  rw [decodeFrom_wait (by omega) (by decide)]
  obtain ⟨gap',hgap',hstep⟩ := decodeFrom_byte 6 (n := a.toNat%4*16+r) (k := 16) (b := a)
    (by omega) (by decide) (by rfl)
    (append_ne_nil_of_right_ne_nil gap (cons_ne_nil _ [])) decoded text
    (wrap32 (value*64+(a.toNat/4 : ℕ))) (by omega)
  exact ⟨gap',wrap32 (wrap32 (value*64+(a.toNat/4 : ℕ))*64+
    (a.toNat%4*16+r : ℕ)),hgap',by omega,hstep⟩

/-- The third character completes the second byte and has two more bits. -/
theorem decodeFrom_second (b : UInt8) {r : ℕ} (hr : r<4) (decoded text : List UInt8)
    {gap : List UInt8} (hgap : gap≠[]) {value : ℤ} (hvalue : value%16=(b.toNat/16 : ℕ)) :
    ∃ (gap' : List UInt8) (value' : ℤ), gap' ≠ [] ∧ value' % 4=r ∧
      decodeFrom decoded gap (guacAlphabet.symbol (b.toNat%16*4+r)::text) 4 value=
        decodeFrom (decoded++[b]) gap' text 2 value' := by
  have hb : b.toNat<256 := b.toNat_lt
  obtain ⟨q,hq⟩ := wrap32_eq_add (value*64+(b.toNat%16*4+r : ℕ))
  obtain ⟨gap',hgap',hstep⟩ := decodeFrom_byte 4 (n := b.toNat%16*4+r) (k := 4) (b := b)
    (by omega) (by decide) (by rfl) hgap decoded text value (by omega)
  exact ⟨gap',wrap32 (value*64+(b.toNat%16*4+r : ℕ)),hgap',by omega,hstep⟩

/-- The fourth character completes the third byte. -/
theorem decodeFrom_third (c : UInt8) (decoded text : List UInt8) {gap : List UInt8}
    (hgap : gap≠[]) {value : ℤ} (hvalue : value%4=(c.toNat/64 : ℕ)) :
    ∃ gap' value', decodeFrom decoded gap (guacAlphabet.symbol (c.toNat%64)::text) 2 value=
      decodeFrom (decoded++[c]) gap' text 0 value' := by
  have hc : c.toNat<256 := c.toNat_lt
  obtain ⟨q,hq⟩ := wrap32_eq_add (value*64+(c.toNat%64 : ℕ))
  obtain ⟨gap',-,hstep⟩ := decodeFrom_byte 2 (n := c.toNat%64) (k := 1) (b := c)
    (by omega) (by decide) (by rfl) hgap decoded text value (by omega)
  exact ⟨gap',_,hstep⟩

/-- The groups of the data decode in place to the data. -/
theorem decodeFrom_encode (data decoded gap tail : List UInt8) (value : ℤ) :
    ∃ buffer, decodeFrom decoded gap (guacAlphabet.encode data++0::tail) 0 value=
      (decoded++data++buffer,(decoded++data).length) := by
  induction data using Alphabet.encode.induct generalizing decoded gap value with
  | case1 =>
    rw [Alphabet.encode,nil_append,decodeFrom_end (Or.inl rfl),append_nil]
    exact ⟨_,rfl⟩
  | case2 a =>
    obtain ⟨gap',value',-,-,hfirst⟩ := decodeFrom_first a (r := 0) (by decide) decoded gap
      (61::61::0::tail) value
    refine ⟨gap' ++ 61::61::0::tail,?_⟩
    calc decodeFrom decoded gap (guacAlphabet.encode [a]++0::tail) 0 value
        = decodeFrom (decoded++[a]) gap' (61::61::0::tail) 4 value' := hfirst
      _ = _ := decodeFrom_end (Or.inr rfl) ..
  | case3 a b =>
    have hb : b.toNat/16<16 := Nat.div_lt_of_lt_mul b.toNat_lt
    obtain ⟨gap₁,value₁,hgap₁,hvalue₁,hfirst⟩ := decodeFrom_first a hb decoded gap
      (guacAlphabet.symbol (b.toNat%16*4)::61::0::tail) value
    obtain ⟨gap₂,value₂,-,-,hsecond⟩ := decodeFrom_second b (r := 0) (by decide)
      (decoded++[a]) (61::0::tail) hgap₁ hvalue₁
    refine ⟨gap₂++61::0::tail,?_⟩
    calc decodeFrom decoded gap (guacAlphabet.encode [a,b]++0::tail) 0 value
        = decodeFrom (decoded++[a]) gap₁ _ 4 value₁ := hfirst
      _ = decodeFrom (decoded++[a]++[b]) gap₂ (61::0::tail) 2 value₂ := hsecond
      _ = _ := decodeFrom_end (Or.inr rfl) ..
      _ = _ := by rw [←append_cons decoded a]
  | case4 a b c data ih =>
    have hb : b.toNat/16<16 := Nat.div_lt_of_lt_mul b.toNat_lt
    have hc : c.toNat/64<4 := Nat.div_lt_of_lt_mul c.toNat_lt
    obtain ⟨gap₁,value₁,hgap₁,hvalue₁,hfirst⟩ := decodeFrom_first a hb decoded gap
      (guacAlphabet.symbol (b.toNat%16*4+c.toNat/64)::
        guacAlphabet.symbol (c.toNat%64)::guacAlphabet.encode data++0::tail) value
    obtain ⟨gap₂,value₂,hgap₂,hvalue₂,hsecond⟩ := decodeFrom_second b hc (decoded++[a])
      (guacAlphabet.symbol (c.toNat%64)::guacAlphabet.encode data++0::tail) hgap₁ hvalue₁
    obtain ⟨gap₃,value₃,hthird⟩ := decodeFrom_third c (decoded++[a]++[b])
      (guacAlphabet.encode data++0::tail) hgap₂ hvalue₂
    obtain ⟨buffer,hrest⟩ := ih (decoded++[a]++[b]++[c]) gap₃ value₃
    refine ⟨buffer,?_⟩
    calc decodeFrom decoded gap (guacAlphabet.encode (a::b::c::data)++0::tail) 0 value
        = decodeFrom (decoded++[a]) gap₁ _ 4 value₁ := hfirst
      _ = decodeFrom (decoded++[a]++[b]) gap₂ _ 2 value₂ := hsecond
      _ = decodeFrom (decoded++[a]++[b]++[c]) gap₃ _ 0 value₃ := hthird
      _ = _ := hrest
      _ = _ := by rw [←append_cons,←append_cons,←append_cons]

/-- The string of a text is decoded in place to the data, whatever follows it
in the buffer. -/
theorem guacProtocolDecodeBase64_encode (data tail : List UInt8) :
    ∃ buffer, guacProtocolDecodeBase64 (guacAlphabet.encode data++0::tail)=
      (data++buffer,data.length) :=
  decodeFrom_encode data [] [] tail 0

/-- Every ASCII byte is a character of its own. -/
theorem exists_text_of_ascii {bytes : List UInt8} (h : ∀ b∈bytes, b.toNat<128) :
    ∃ cs, textBytes cs=bytes ∧ cs.length=bytes.length := by
  induction bytes with
  | nil => exact ⟨[],rfl,rfl⟩
  | cons b bytes ih =>
    obtain ⟨cs,hcs,hlen⟩ := ih fun b' hb' => h b' (mem_cons_of_mem _ hb')
    have hb := guacUtf8Charsize_ascii (h b (mem_cons_self ..))
    refine ⟨⟨b,[],hb.symm⟩::cs,?_,by rw [length_cons,hlen,length_cons]⟩
    rw [textBytes_cons,hcs]
    rfl

/-- An element of ASCII bytes is its length, a period and the bytes. -/
theorem exists_element_of_ascii {bytes : List UInt8} (h : ∀ c∈bytes, c.toNat<128 ∧ c≠0)
    (hlen : bytes.length≤8192) :
    ∃ e : Element, e.Delimited ∧ e.value=bytes ∧ e.wire=lengthString bytes ∧
      e.wire=decimal bytes.length++46::bytes := by
  obtain ⟨cs,rfl,hcs⟩ := exists_text_of_ascii fun c hc => (h c hc).1
  have hzero : ∀ b∈textBytes cs, b≠0 := fun b hb => (h b hb).2
  refine ⟨textElement cs,(textElement_wellFormed (by omega)).delimited,textElement_value hzero,
    (lengthString_text hzero).symm,?_⟩
  rw [←hcs]
  rfl

/-- The elements of a blob instruction with the given text. -/
theorem blobBytes_wire {index : ℤ} (h₀ : -(2^31) ≤ index) (h₁ : index<2^31)
    {text : List UInt8} (htext : ∀ c∈text, c.toNat<128 ∧ c≠0) (hlen : text.length≤8192) :
    ∃ es : List Element, es.length=3 ∧ (∀ e∈es, e.Delimited) ∧
      blobBytes index text=wireInstruction es ∧
      instructionOf es=⟨some (ascii "blob"), 2, [decimalInt index,text]⟩ := by
  have hindex := length_decimalInt_le h₀ h₁
  have hopcode : ascii "4.blob," = lengthString (ascii "blob")++[44] := by decide +kernel
  obtain ⟨e₁,he₁,hvalue₁,hwire₁,-⟩ :=
    exists_element_of_ascii (forall_mem_of_all (by decide : (ascii "blob").all _)) (by decide)
  obtain ⟨e₂,he₂,hvalue₂,hwire₂,-⟩ := exists_element_of_ascii (decimalInt_ascii index) (by omega)
  obtain ⟨e₃,he₃,hvalue₃,-,hwire₃⟩ := exists_element_of_ascii htext hlen
  refine ⟨[e₁,e₂,e₃],rfl,by simp [he₁,he₂,he₃],?_,?_⟩
  · rw [wireInstruction_cons,wireInstruction_cons,wireInstruction_single,hwire₁,hwire₂,hwire₃,
      blobBytes,hopcode]
    simp
  · simp [instructionOf,hvalue₁,hvalue₂,hvalue₃]

/-- What is left after a blob is sent in the same way. -/
theorem guacProtocolSendBlobs_step {index : ℤ} {data : List UInt8} (h : 0<data.length)
    {socket socket' : GuacSocket}
    (hrun : guacProtocolSendBlob index (data.take guacProtocolBlobMaxLength) socket=
      some (0,socket')) :
    guacProtocolSendBlobs index data socket=
      guacProtocolSendBlobs index (data.drop guacProtocolBlobMaxLength) socket' := by
  rw [guacProtocolSendBlobs,if_pos h,hrun]
  exact if_neg (fun hne => hne rfl)

/-- The data is sent in pieces that are not empty and within the limit. -/
theorem guacProtocolSendBlobs_appends (index : ℤ) (data : List UInt8) :
    ∃ pieces : List (List UInt8), pieces.flatten=data ∧
      (∀ piece∈pieces, piece≠[] ∧ piece.length≤guacProtocolBlobMaxLength) ∧
      Appends 0 (guacProtocolSendBlobs index data)
        (pieces.flatMap fun piece => blobBytes index (guacAlphabet.encode piece)) := by
  induction hn : data.length using Nat.strong_induction_on generalizing data with
  | _ n ih =>
    subst hn
    by_cases hpos : 0<data.length
    · have hlimit : 0<guacProtocolBlobMaxLength := by decide
      obtain ⟨pieces,hflatten,hpieces,happends⟩ :=
        ih _ (by rw [length_drop]; omega) (data.drop guacProtocolBlobMaxLength) rfl
      refine ⟨data.take guacProtocolBlobMaxLength::pieces,?_,?_,?_⟩
      · rw [flatten_cons,hflatten,take_append_drop]
      · refine forall_mem_cons.mpr ⟨⟨?_,length_take_le _ _⟩,hpieces⟩
        rw [←length_pos_iff,length_take]
        omega
      · intro socket haccepting hready
        obtain ⟨socket₁,hrun₁,haccepting₁,hready₁,houtput₁⟩ :=
          guacProtocolSendBlob_appends index (data.take guacProtocolBlobMaxLength) socket
            haccepting hready
        obtain ⟨socket₂,hrun₂,haccepting₂,hready₂,houtput₂⟩ := happends socket₁ haccepting₁ hready₁
        refine ⟨socket₂,?_,haccepting₂,hready₂,?_⟩
        · rw [guacProtocolSendBlobs_step hpos hrun₁]
          exact hrun₂
        · rw [houtput₂,houtput₁,flatMap_cons,append_assoc]
    · have hnil : data=[] := eq_nil_of_length_eq_zero (by omega)
      subst hnil
      refine ⟨[],rfl,by simp,?_⟩
      intro socket haccepting hready
      refine ⟨socket,?_,haccepting,hready,(append_nil _).symm⟩
      rw [guacProtocolSendBlobs,if_neg hpos]

/-- The instruction that a blob with the given text is parsed as. -/
def blobInstruction (index : ℤ) (text : List UInt8) : Instruction :=
  ⟨some (ascii "blob"), 2, [decimalInt index,text]⟩

section

variable {index : ℤ} (h₀ : -(2^31) ≤ index) (h₁ : index<2^31) {texts : List (List UInt8)}
  (htexts : ∀ text∈texts, (∀ c∈text, c.toNat<128 ∧ c≠0) ∧ text.length≤8192)

include h₀ h₁ htexts

/-- Blob instructions have elements, three each, that they are read as. -/
theorem blobBytes_wires :
    ∃ ess : List (List Element), (∀ es∈ess, es.length=3 ∧ ∀ e∈es, e.Delimited) ∧
      texts.flatMap (blobBytes index)=ess.flatMap wireInstruction ∧
      texts.map (blobInstruction index)=ess.map instructionOf := by
  induction texts with
  | nil => exact ⟨[],by simp,rfl,rfl⟩
  | cons text texts ih =>
    obtain ⟨⟨htext,hlen⟩,hrest⟩ := forall_mem_cons.mp htexts
    obtain ⟨es,hcount,hes,hwire,hinstruction⟩ := blobBytes_wire h₀ h₁ htext hlen
    obtain ⟨ess,hess,hwires,hinstructions⟩ := ih hrest
    refine ⟨es::ess,forall_mem_cons.mpr ⟨⟨hcount,hes⟩,hess⟩,?_,?_⟩
    · rw [flatMap_cons,hwire,hwires,flatMap_cons]
    · rw [map_cons,hinstructions,map_cons,hinstruction,blobInstruction]

/-- Blobs that follow one another in a buffer are parsed in turn. -/
theorem parseInstructions_blobBytes (parser : GuacParser) (address : ℕ) :
    parseInstructions parser address (texts.flatMap (blobBytes index))=
      some (texts.map (blobInstruction index)) := by
  obtain ⟨ess,hess,hwires,hinstructions⟩ := blobBytes_wires h₀ h₁ htexts
  rw [hwires,hinstructions]
  refine parseInstructions_wire (fun es hes => ⟨?_,?_⟩) (fun es hes => (hess es hes).2) _ _
  · rw [←length_pos_iff,(hess es hes).1]
    decide
  · rw [(hess es hes).1]
    decide

end

/-- A text carries a piece of the data: the piece is not empty and within the
limit of a blob, the text within the limit of an element, and the text decodes
in place to the piece, whatever follows its terminator. -/
structure BlobText (text piece : List UInt8) : Prop where
  /-- No blob is empty. -/
  nonempty : piece≠[]
  /-- The limit of a blob is kept. -/
  length_le : piece.length≤guacProtocolBlobMaxLength
  /-- The limit of an element is kept. -/
  text_le : (text.length : ℤ)≤guacInstructionMaxLength
  /-- The decoder returns the length of the piece and leaves the piece in the
  buffer. -/
  decode (tail : List UInt8) : ∃ rest,
    guacProtocolDecodeBase64 (text++0::tail)=(piece++rest,piece.length)

/-- The encoded form of a piece carries it. -/
theorem blobText_encode {piece : List UInt8} (hne : piece≠[])
    (hle : piece.length≤guacProtocolBlobMaxLength) :
    BlobText (guacAlphabet.encode piece) piece := by
  refine ⟨hne,hle,?_,guacProtocolDecodeBase64_encode piece⟩
  unfold guacProtocolBlobMaxLength at hle
  unfold guacInstructionMaxLength
  rw [guacAlphabet.length_encode]
  omega

/-- Whatever is sent in blobs over a socket that accepts it is parsed as blob
instructions of the stream, whose texts decode to pieces of the data in turn;
nothing is left waiting in the base64 buffer. -/
theorem guacProtocolSendBlobs_lossless {index : ℤ} (h₀ : -(2^31) ≤ index) (h₁ : index<2^31)
    (data : List UInt8) {socket : GuacSocket} (haccepting : socket.Accepting)
    (hready : socket.ready=0) :
    ∃ socket' texts pieces, guacProtocolSendBlobs index data socket=some (0,socket') ∧
      socket'.ready=0 ∧ socket'.output=socket.output++texts.flatMap (blobBytes index) ∧
      (∀ parser address, parseInstructions parser address (texts.flatMap (blobBytes index))=
        some (texts.map (blobInstruction index))) ∧
      List.Forall₂ BlobText texts pieces ∧ pieces.flatten=data := by
  obtain ⟨pieces,hflatten,hpieces,happends⟩ := guacProtocolSendBlobs_appends index data
  obtain ⟨socket',hrun,-,hready',houtput⟩ := happends socket haccepting hready
  have hblobs : ∀ piece∈pieces, BlobText (guacAlphabet.encode piece) piece :=
    fun piece hpiece => blobText_encode (hpieces piece hpiece).1 (hpieces piece hpiece).2
  have hascii : ∀ piece, ∀ c∈guacAlphabet.encode piece, c.toNat<128 ∧ c≠0 :=
    guacAlphabet.forall_mem_encode (fun n hn => ⟨(base64Character_value n hn).2.2.2,
      (base64Character_value n hn).2.2.1⟩) (by decide)
  have htexts : ∀ text∈pieces.map guacAlphabet.encode,
      (∀ c∈text, c.toNat<128 ∧ c≠0) ∧ text.length≤8192 := by
    intro text htext
    obtain ⟨piece,hpiece,rfl⟩ := mem_map.mp htext
    have hle := (hblobs piece hpiece).text_le
    unfold guacInstructionMaxLength at hle
    exact ⟨hascii piece,by omega⟩
  refine ⟨socket',pieces.map guacAlphabet.encode,pieces,hrun,hready',?_,
    parseInstructions_blobBytes h₀ h₁ htexts,?_,hflatten⟩
  · rw [houtput,flatMap_map]
  · exact List.forall₂_map_left_iff.mpr (List.forall₂_same.mpr hblobs)

/-- Five bytes on a socket that takes one byte of the first write. -/
theorem guacProtocolSendBlobs_lossless_five :
    ∃ socket' texts pieces, guacProtocolSendBlobs 3 [0,255,61,59,44]
        (guacSocketAlloc [some 1])=some (0,socket') ∧
      socket'.ready=0 ∧ socket'.output=[]++texts.flatMap (blobBytes 3) ∧
      (∀ parser address, parseInstructions parser address (texts.flatMap (blobBytes 3))=
        some (texts.map (blobInstruction 3))) ∧
      List.Forall₂ BlobText texts pieces ∧ pieces.flatten=[0,255,61,59,44] :=
  guacProtocolSendBlobs_lossless (by decide) (by decide) _
    (by unfold GuacSocket.Accepting; decide) rfl

end GuacServer.BlobTransport
