import Mathlib.Data.List.Infix
import GuacServer.StateRuns
import GuacServer.Unicode

/-!
# Sockets that are recorded by a server

A tee socket hands everything to its primary socket, and before that writes it
to a connection to a recording server, which is opened when there is none and
closed when a write fails. The number of bytes that a write accepts is only
compared with zero, and a connection is opened wherever the stream happens to
be.
-/

namespace GuacServer.SocketTee

open List StateRuns Unicode

/-- What the recording server does during one write. -/
structure Recorder where
  /-- Whether socket succeeds. -/
  socket : Bool
  /-- Whether connect succeeds. -/
  connect : Bool
  /-- Whether write succeeds, and then how many bytes after the first it would accept. -/
  write : Option ℕ

/-- What write returns. -/
def Recorder.written (recorder : Recorder) (count : ℕ) : ℤ :=
  match recorder.write with
  | none => -1
  | some more => (min (more+1) count : ℕ)

/-- A write that fails returns no number of bytes. -/
theorem Recorder.written_failed (recorder : Recorder) (h : recorder.write=none) (count : ℕ) :
    recorder.written count = -1 := by
  rw [written,h]

/-- A tee socket and the connections to the recording server. -/
structure TeeSocket where
  /-- The connection that g_socketfd stands for, unless it is -1. -/
  socketfd : Option ℕ
  /-- What was delivered over each connection. -/
  connections : List (List UInt8)
  /-- What was written to the primary socket. -/
  primary : List UInt8
  /-- Where instructions start in it. -/
  starts : List ℕ
  /-- Whether the last write on the connection was accepted in part only. -/
  partly : Bool

/-- connect_server. -/
def connectServer (recorder : Recorder) (socket : TeeSocket) : TeeSocket :=
  match socket.socketfd with
  | some _ => socket
  | none =>
    if recorder.socket=true then
      if recorder.connect=true then
        { socket with
          socketfd := some socket.connections.length
          connections := socket.connections++[[]]
          partly := false }
      else socket
    else socket

/-- What __guac_socket_tee_write_handler writes to the recording server. -/
def recordWrite (recorder : Recorder) (data : List UInt8) (socket : TeeSocket) : TeeSocket :=
  match socket.socketfd with
  | none => socket
  | some sock =>
    let n := recorder.written data.length
    if n≤0 then { socket with socketfd := none }
    else
      { socket with
        connections := socket.connections.modify sock (· ++ data.take n.toNat)
        partly := decide (n≠data.length) }

/-- __guac_socket_tee_write_handler, where the primary socket takes all data. -/
def guacSocketTeeWriteHandler (recorder : Recorder) (data : List UInt8) (socket : TeeSocket) :
    TeeSocket :=
  let socket := recordWrite recorder data (connectServer recorder socket)
  { socket with primary := socket.primary++data }

/-- guac_socket_write, which calls the handler once, and not at all without data. It keeps the
result in an int, which is the number of bytes as long as there are less than 2 ^ 31 of them. -/
def guacSocketWrite (recorder : Recorder) (data : List UInt8) (socket : TeeSocket) : TeeSocket :=
  if 0<data.length then guacSocketTeeWriteHandler recorder data socket else socket

/-- What is done with the socket. -/
inductive TeeEvent where
  /-- An instruction begins. -/
  | begin
  /-- A part of it is written. -/
  | write (recorder : Recorder) (data : List UInt8)

/-- One step. -/
def step : TeeEvent→TeeSocket→Option TeeSocket
  | .begin, socket => some { socket with starts := socket.primary.length::socket.starts }
  | .write recorder data, socket => some (guacSocketWrite recorder data socket)

/-- A new tee socket. -/
def guacSocketTee : TeeSocket := ⟨none,[],[],[],false⟩

/-- What was delivered over each connection is a part of the stream without gaps that begins
where an instruction does. -/
def Gapless (socket : TeeSocket) : Prop :=
  ∀ bytes∈socket.connections, bytes=[] ∨ ∃ start∈socket.starts, bytes <+: socket.primary.drop start

/-- Writes of as many bytes as an int counts, and that are accepted by a connection over which
everything was delivered so far, or by a new connection where an instruction starts. -/
def Resynchronised : TeeEvent→TeeSocket→Prop
  | .begin, _ => True
  | .write recorder data, socket => data.length<2^31 ∧ (0<data.length → recorder.write≠none →
      match socket.socketfd with
      | some _ => socket.partly=false
      | none => recorder.socket=true → recorder.connect=true → socket.primary.length∈socket.starts)

/-- What holds of a tee socket as long as every write is of this kind. -/
structure Good (socket : TeeSocket) : Prop where
  /-- Instructions start within the stream. -/
  starts : ∀ start∈socket.starts, start ≤ socket.primary.length
  /-- No connection has gaps. -/
  gapless : Gapless socket
  /-- The open connection has everything up to the end of the stream, unless its last write
  was accepted in part only. -/
  current : ∀ sock, socket.socketfd=some sock → socket.partly=false →
    ∃ start∈socket.starts, socket.connections[sock]? = some (socket.primary.drop start)

theorem good_guacSocketTee : Good guacSocketTee where
  starts _ h := nomatch h
  gapless _ h := nomatch h
  current _ h := nomatch h

/-- What is a part of the stream stays one when the stream grows. -/
theorem prefix_drop_append {bytes stream : List UInt8} {start : ℕ} (data : List UInt8)
    (h : bytes <+: stream.drop start) : bytes <+: (stream++data).drop start := by
  rw [drop_append]
  exact h.trans (prefix_append _ _)

variable {socket : TeeSocket}

/-- What is written to the primary socket leaves the connections without gaps. -/
theorem Gapless.append (h : Gapless socket) (data : List UInt8) :
    Gapless { socket with primary := socket.primary++data } := by
  intro bytes hbytes
  refine (h bytes hbytes).imp_right ?_
  rintro ⟨start,hstart,hinit⟩
  exact ⟨start,hstart,prefix_drop_append data hinit⟩

/-- A part of the data is written to the open connection behind all there was. -/
theorem Good.accept (h : Good socket) {sock start : ℕ}
    (hsock : socket.socketfd=some sock) (hstart : start∈socket.starts)
    (hcurrent : socket.connections[sock]? = some (socket.primary.drop start))
    (data : List UInt8) (n : ℕ) :
    Good { socket with
      connections := socket.connections.modify sock (· ++ data.take n)
      partly := decide ((n : ℤ)≠data.length)
      primary := socket.primary++data } := by
  have hle := h.starts start hstart
  have hdrop : (socket.primary++data).drop start=socket.primary.drop start++data := by
    rw [drop_append_of_le_length hle]
  have hmodified : (socket.connections.modify sock (· ++ data.take n))[sock]?=
      some (socket.primary.drop start++data.take n) := by
    rw [List.getElem?_modify_eq,hcurrent]
    rfl
  constructor
  case starts =>
    intro other hother
    exact (h.starts other hother).trans (by simp)
  case gapless =>
    intro bytes hbytes
    obtain ⟨i,hi⟩ := List.getElem?_of_mem hbytes
    by_cases hcase : i=sock
    · subst hcase
      cases hi.symm.trans hmodified
      refine Or.inr ⟨start,hstart,?_⟩
      dsimp only
      rw [hdrop]
      exact prefix_append_right_inj _ |>.mpr (List.take_prefix _ _)
    · dsimp only at hi
      rw [List.getElem?_modify_ne _ _ (Ne.symm hcase)] at hi
      exact (h.gapless.append data) bytes (mem_of_getElem? hi)
  case current =>
    intro other hother hwhole
    cases hsock.symm.trans hother
    have hn : (n : ℤ)=data.length := by simpa using hwhole
    refine ⟨start,hstart,?_⟩
    dsimp only
    rw [hmodified,hdrop,take_of_length_le (by omega)]

/-- Without an open connection only the primary socket is written. -/
theorem Good.unrecorded (h : Good socket) (data : List UInt8) :
    Good { socket with socketfd := none, primary := socket.primary++data } where
  starts start hstart := (h.starts start hstart).trans (by simp)
  gapless := h.gapless.append data
  current _ hsock := nomatch hsock

/-- A write on an open connection over which everything was delivered so far, or which fails. -/
theorem Good.record (h : Good socket) {recorder : Recorder} {sock : ℕ}
    (hsock : socket.socketfd=some sock) (hwhole : recorder.write≠none → socket.partly=false)
    {data : List UInt8} (hdata : 0<data.length) :
    Good { recordWrite recorder data socket with
      primary := (recordWrite recorder data socket).primary++data } := by
  cases hwrite : recorder.write with
  | none =>
    have hfails : recorder.written data.length≤0 := by
      rw [recorder.written_failed hwrite]
      decide
    simp only [recordWrite,hsock,if_pos hfails]
    exact h.unrecorded data
  | some more =>
    obtain ⟨start,hstart,hcurrent⟩ := h.current sock hsock (hwhole (by simp [hwrite]))
    have hwritten : recorder.written data.length=(min (more+1) data.length : ℕ) := by
      rw [Recorder.written,hwrite]
    have haccepts : ¬((min (more+1) data.length : ℕ) : ℤ)≤0 := by omega
    have haccepted := h.accept hsock hstart hcurrent data (min (more+1) data.length)
    simp only [recordWrite,hsock,hwritten,if_neg haccepts,Int.toNat_natCast]
    rwa [hsock] at haccepted

/-- A new connection, over which nothing was delivered. -/
def TeeSocket.connected (socket : TeeSocket) : TeeSocket where
  socketfd := some socket.connections.length
  connections := socket.connections++[[]]
  primary := socket.primary
  starts := socket.starts
  partly := false

/-- A new connection where an instruction starts, or one that is closed again. -/
theorem Good.connect (h : Good socket) {recorder : Recorder}
    (hstart : recorder.write≠none → socket.primary.length∈socket.starts) {data : List UInt8}
    (hdata : 0<data.length) :
    Good { recordWrite recorder data socket.connected with
      primary := (recordWrite recorder data socket.connected).primary++data } := by
  have hgapless : Gapless socket.connected := by
    intro bytes hbytes
    rcases mem_append.mp hbytes with hbytes | hbytes
    · exact h.gapless bytes hbytes
    · exact Or.inl (mem_singleton.mp hbytes)
  cases hwrite : recorder.write with
  | none =>
    have hfails : recorder.written data.length≤0 := by
      rw [recorder.written_failed hwrite]
      decide
    have hclosed : Good { socket.connected with socketfd := none } :=
      ⟨h.starts,hgapless,fun _ hsock => nomatch hsock⟩
    simp only [recordWrite,TeeSocket.connected,if_pos hfails]
    exact hclosed.unrecorded data
  | some more =>
    have hconnected : Good socket.connected := by
      refine ⟨h.starts,hgapless,fun sock hsock _ => ?_⟩
      cases hsock
      refine ⟨socket.primary.length,hstart (by simp [hwrite]),?_⟩
      simp only [TeeSocket.connected]
      rw [drop_length,List.getElem?_concat_length]
    exact hconnected.record rfl (fun _ => rfl) hdata

/-- Every such write keeps what holds. -/
theorem Good.step {event : TeeEvent} {socket next : TeeSocket} (h : Good socket)
    (hresync : Resynchronised event socket) (hnext : SocketTee.step event socket=some next) :
    Good next := by
  cases event with
  | begin =>
    cases hnext
    constructor
    case starts =>
      intro start hstart
      rcases mem_cons.mp hstart with rfl | hstart
      · exact Nat.le_refl _
      · exact h.starts start hstart
    case gapless =>
      intro bytes hbytes
      refine (h.gapless bytes hbytes).imp_right ?_
      rintro ⟨start,hstart,hinit⟩
      exact ⟨start,mem_cons_of_mem _ hstart,hinit⟩
    case current =>
      intro sock hsock hwhole
      obtain ⟨start,hstart,hcurrent⟩ := h.current sock hsock hwhole
      exact ⟨start,mem_cons_of_mem _ hstart,hcurrent⟩
  | write recorder data =>
    cases hnext
    by_cases hdata : 0<data.length
    · rw [guacSocketWrite,if_pos hdata,guacSocketTeeWriteHandler]
      have hresync := hresync.2 hdata
      cases hsock : socket.socketfd with
      | some sock =>
        rw [hsock] at hresync
        simp only [connectServer,hsock]
        exact h.record hsock hresync hdata
      | none =>
        rw [hsock] at hresync
        by_cases hconnects : recorder.socket=true ∧ recorder.connect=true
        · have hconnected : connectServer recorder socket=socket.connected := by
            simp only [connectServer,hsock,if_pos hconnects.1,if_pos hconnects.2,
              TeeSocket.connected]
          rw [hconnected]
          exact h.connect (fun haccepts => hresync haccepts hconnects.1 hconnects.2) hdata
        · have hunconnected : connectServer recorder socket=socket := by
            simp only [connectServer,hsock]
            by_cases hopens : recorder.socket=true
            · rw [if_pos hopens,if_neg fun hconnect => hconnects ⟨hopens,hconnect⟩]
            · rw [if_neg hopens]
          simp only [hunconnected,recordWrite,hsock]
          exact h.unrecorded data
    · rw [guacSocketWrite,if_neg hdata]
      exact h

/-- In every run in which no write is accepted behind bytes that were dropped, and none on a
new connection within an instruction, what was delivered over each connection is a part of
the stream without gaps that begins where an instruction does. -/
theorem tee_gapless {events : List TeeEvent}
    (halong : Along step Resynchronised events guacSocketTee)
    (hrun : run step events guacSocketTee=some socket) : Gapless socket :=
  (run_invariant (fun h hresync hnext => h.step hresync hnext) good_guacSocketTee halong
    hrun).gapless

/-- A server that accepts everything. -/
def accepting : Recorder := ⟨true,true,some 8191⟩

/-- A server that accepts one byte of a write. -/
def congested : Recorder := ⟨true,true,some 0⟩

/-- A server to which a write fails. -/
def broken : Recorder := ⟨true,true,none⟩

/-- An instruction that is delivered up to a write that fails, and the next one. -/
def reconnected : List TeeEvent :=
  [.begin,.write accepting (ascii "3."), .write broken (ascii "nop;"), .begin,
    .write accepting (ascii "3.nop;")]

/-- Both connections are without gaps. -/
theorem tee_gapless_reconnected : ∃ socket, run step reconnected guacSocketTee=some socket ∧
      socket.connections=[ascii "3.", ascii "3.nop;"] ∧ Gapless socket := by
  have halong : Along step Resynchronised reconnected guacSocketTee := by
    refine ⟨trivial,⟨by decide,fun _ _ _ _ => ?_⟩,
      ⟨by decide,fun _ hbroken => absurd rfl hbroken⟩,trivial,⟨by decide,fun _ _ _ _ => ?_⟩,trivial⟩
    · exact mem_singleton.mpr rfl
    · exact mem_cons_self ..
  exact ⟨_,rfl,by decide,tee_gapless halong rfl⟩

/-- A write that is accepted in part, with another behind it. -/
theorem not_tee_gapless : ¬∀ (events : List TeeEvent) (socket : TeeSocket),
      run step events guacSocketTee=some socket→Gapless socket := by
  intro h
  have hgapless := h [.begin,.write congested (ascii "3.n"),.write accepting (ascii "op;")] _ rfl
  rcases hgapless (ascii "3op;") (by decide) with hempty | hpart
  · exact absurd hempty (by decide)
  · exact absurd hpart (by decide)

end GuacServer.SocketTee
