import GuacServer.DecimalNumerals
import GuacServer.RingBuffers
import GuacServer.StateRuns
import GuacServer.Unicode

/-!
# Outbound messages of a Kubernetes connection

Messages are accepted by any thread and written one at a time by the thread
that services the WebSocket, each under the lock of the outbound messages. What
is written and what still waits are together what was accepted, and as long as
anything waits the WebSocket is asked for a further callback.
-/

namespace GuacServer.KubernetesQueue

open DecimalNumerals List RingBuffers StateRuns Unicode

/-- The maximum amount of data of a message. -/
def guacKubernetesMaxMessageSize : ℕ := 1024

/-- The maximum number of messages that may wait. -/
def guacKubernetesMaxOutboundMessages : ℕ := 8

/-- The channel of STDIN. -/
def guacKubernetesChannelStdin : ℤ := 0

/-- The channel of resize messages. -/
def guacKubernetesChannelResize : ℤ := 4

/-- A slot of an outbound message. -/
structure KubernetesMessage where
  /-- The channel index, which directly precedes the data. -/
  channel : UInt8
  /-- All bytes of the slot. -/
  data : List UInt8
  /-- The number of bytes to send. -/
  length : ℕ
  /-- The slot has its full size. -/
  size : data.length=guacKubernetesMaxMessageSize
  /-- No message exceeds its slot. -/
  fits : length≤guacKubernetesMaxMessageSize

/-- What lws_write sends of a slot. -/
def KubernetesMessage.frame (message : KubernetesMessage) : List UInt8 :=
  message.channel::message.data.take message.length

/-- The arguments of a call of guac_kubernetes_send_message. -/
structure SendCall where
  /-- The channel as an int. -/
  channel : ℤ
  /-- As many bytes as the length tells. -/
  data : List UInt8

/-- The bytes on the WebSocket that a call asks for. -/
def SendCall.frame (call : SendCall) : List UInt8 := UInt8.ofInt call.channel::call.data

/-- The bytes of a slot after memcpy. -/
def KubernetesMessage.copied (message : KubernetesMessage) (data : List UInt8) : List UInt8 :=
  data++message.data.drop data.length

/-- memcpy keeps the size of a slot. -/
theorem KubernetesMessage.length_copied {message : KubernetesMessage} {data : List UInt8}
    (h : data.length≤guacKubernetesMaxMessageSize) :
    (message.copied data).length=guacKubernetesMaxMessageSize := by
  have hsize := message.size
  rw [copied,length_append,length_drop]
  omega

/-- The slot after a call has copied its details. -/
def KubernetesMessage.store (message : KubernetesMessage) (call : SendCall)
    (h : call.data.length≤guacKubernetesMaxMessageSize) : KubernetesMessage where
  channel := UInt8.ofInt call.channel
  data := message.copied call.data
  length := call.data.length
  size := length_copied h
  fits := h

/-- What is sent of it is what the call asks for. -/
@[simp] theorem KubernetesMessage.frame_store (message : KubernetesMessage) (call : SendCall)
    (h : call.data.length≤guacKubernetesMaxMessageSize) :
    (message.store call h).frame=call.frame := by
  simp only [frame,store,copied,SendCall.frame,take_left]

/-- guac_kubernetes_client. -/
structure KubernetesClient where
  /-- The slots. -/
  outboundMessages : List KubernetesMessage
  /-- The number of messages waiting. -/
  outboundMessagesWaiting : ℕ
  /-- The slot of the oldest. -/
  outboundMessagesTop : ℕ
  /-- The rows last requested. -/
  rows : Int32
  /-- The columns last requested. -/
  columns : Int32

/-- guac_kubernetes_send_message, and whether a callback is requested. It has no value
where a slot that does not exist would be written, or more than fits. -/
def guacKubernetesSendMessage (client : KubernetesClient) (call : SendCall) :
    Option (KubernetesClient×Bool) :=
  if client.outboundMessagesWaiting<guacKubernetesMaxOutboundMessages then
    let index := (client.outboundMessagesTop+client.outboundMessagesWaiting) %
      guacKubernetesMaxOutboundMessages
    match client.outboundMessages[index]? with
    | none => none
    | some message =>
      if h : call.data.length≤guacKubernetesMaxMessageSize then
        some ({ client with
          outboundMessages := client.outboundMessages.set index (message.store call h)
          outboundMessagesWaiting := client.outboundMessagesWaiting+1 },true)
      else none
  else some (client,false)

/-- guac_kubernetes_write_pending_message: what it writes, and whether messages remain. It
has no value where a slot that does not exist would be read. -/
def guacKubernetesWritePendingMessage (client : KubernetesClient) :
    Option (KubernetesClient×List (List UInt8)×Bool) :=
  if 0<client.outboundMessagesWaiting then
    match client.outboundMessages[client.outboundMessagesTop]? with
    | none => none
    | some message =>
      some ({ client with
        outboundMessagesTop := (client.outboundMessagesTop+1)%guacKubernetesMaxOutboundMessages
        outboundMessagesWaiting := client.outboundMessagesWaiting-1 },
        [message.frame],0<client.outboundMessagesWaiting-1)
  else some (client,[],false)

/-- The text of a resize message. -/
def resizeText (rows columns : Int32) : List UInt8 :=
  ascii "\x7b\"Width\":" ++ decimalInt columns.toInt++ascii ",\"Height\":" ++
    decimalInt rows.toInt++ascii "\x7d"

/-- guac_kubernetes_resize up to its call. -/
def guacKubernetesResize (client : KubernetesClient) (rows columns : Int32) :
    KubernetesClient×Option SendCall :=
  if client.rows≠rows ∨ client.columns≠columns then
    ({ client with rows := rows, columns := columns },
      some ⟨guacKubernetesChannelResize,resizeText rows columns⟩)
  else (client,none)

/-- guac_terminal_read_stdin: as much of what is available as fits. -/
def guacTerminalReadStdin (available : List UInt8) (size : ℕ) : List UInt8 := available.take size

/-- One round of guac_kubernetes_input_thread up to its call, unless nothing was read. -/
def guacKubernetesInputThread (available : List UInt8) : Option SendCall :=
  let buffer := guacTerminalReadStdin available guacKubernetesMaxMessageSize
  if 0<buffer.length then some ⟨guacKubernetesChannelStdin,buffer⟩ else none

/-- Where the thread that services the WebSocket is. -/
inductive Service where
  /-- Outside of guac_kubernetes_write_pending_message. -/
  | polling
  /-- Behind it, with what it returned. -/
  | wrote (remain : Bool)

/-- A connection with the threads that use it. -/
structure Connection where
  /-- What the threads share. -/
  client : KubernetesClient
  /-- Whether the state of the client is GUAC_CLIENT_RUNNING. -/
  running : Bool
  /-- The call that the input thread is about to make. -/
  input : Option SendCall
  /-- The calls that resizes are about to make. -/
  resizes : List SendCall
  /-- The servicing thread. -/
  service : Service
  /-- Whether a callback was requested since a message was last looked for. -/
  requested : Bool
  /-- What was written to the WebSocket. -/
  written : List (List UInt8)
  /-- The calls whose messages were accepted. -/
  accepted : List SendCall
  /-- The calls whose messages were dropped, each with the number of accepted messages
  that were not written. -/
  dropped : List (SendCall×ℕ)

/-- What may happen next. -/
inductive Event where
  /-- The input thread reads what is available. -/
  | stdin (available : List UInt8)
  /-- The input thread makes its call. -/
  | sendInput
  /-- Some thread resizes the terminal. -/
  | resize (rows columns : Int32)
  /-- A resize makes its call. -/
  | sendResize (i : ℕ)
  /-- LWS_CALLBACK_CLIENT_ESTABLISHED. -/
  | established
  /-- LWS_CALLBACK_CLIENT_WRITEABLE. -/
  | writable
  /-- The servicing thread goes on with what was returned to it. -/
  | resume
  /-- The client is stopped. -/
  | stop

/-- A call of guac_kubernetes_send_message. -/
def Connection.send (connection : Connection) (call : SendCall) : Option Connection :=
  match guacKubernetesSendMessage connection.client call with
  | none => none
  | some (client,true) =>
    some { connection with
      client := client
      requested := true
      accepted := connection.accepted++[call] }
  | some (client,false) =>
    some { connection with
      client := client
      dropped := connection.dropped++
        [(call,connection.accepted.length-connection.written.length)] }

/-- guac_kubernetes_lws_callback where the WebSocket may be written. -/
def Connection.write (connection : Connection) : Option Connection :=
  match guacKubernetesWritePendingMessage connection.client with
  | none => none
  | some (client,frames,remain) =>
    some { connection with
      client := client
      service := .wrote remain
      requested := false
      written := connection.written++frames }

/-- One step. What cannot happen in a state leaves it alone; there is no next state where
storage would be accessed that is not there. -/
def step : Event → Connection→Option Connection
  | .stdin available, connection =>
    match connection.input with
    | none => some { connection with input := guacKubernetesInputThread available }
    | some _ => some connection
  | .sendInput, connection =>
    match connection.input with
    | none => some connection
    | some call => { connection with input := none }.send call
  | .resize rows columns, connection =>
    match guacKubernetesResize connection.client rows columns with
    | (client,call) =>
      some { connection with
        client := client
        resizes := connection.resizes++call.toList }
  | .sendResize i, connection =>
    match connection.resizes[i]? with
    | none => some connection
    | some call => { connection with resizes := connection.resizes.eraseIdx i }.send call
  | .established, connection =>
    some { connection with requested := connection.requested || connection.running }
  | .writable, connection =>
    match connection.running, connection.service with
    | true, .polling => connection.write
    | _, _ => some connection
  | .resume, connection =>
    match connection.service with
    | .polling => some connection
    | .wrote remain =>
      some { connection with
        service := .polling
        requested := connection.requested || remain }
  | .stop, connection => some { connection with running := false }

/-- The frames of the waiting messages, the oldest first. -/
def KubernetesClient.pending (client : KubernetesClient) : List (List UInt8) :=
  (contents client.outboundMessages client.outboundMessagesTop
    client.outboundMessagesWaiting).map KubernetesMessage.frame

/-- Every slot in use exists. -/
structure KubernetesClient.Sound (client : KubernetesClient) : Prop where
  slots : client.outboundMessages.length=guacKubernetesMaxOutboundMessages
  waiting : client.outboundMessagesWaiting≤guacKubernetesMaxOutboundMessages
  /-- The slot of the oldest message. -/
  top : client.outboundMessagesTop<guacKubernetesMaxOutboundMessages

variable {client : KubernetesClient}

/-- As many frames as messages wait. -/
theorem KubernetesClient.Sound.length_pending (h : client.Sound) :
    client.pending.length=client.outboundMessagesWaiting := by
  rw [pending,length_map,length_contents (by rw [h.slots]; exact h.waiting)]

variable {call : SendCall}

/-- What a call of guac_kubernetes_send_message does: the message is the last of those
that wait, unless every slot is in use. -/
theorem guacKubernetesSendMessage_cases (h : client.Sound)
    (hfits : call.data.length≤guacKubernetesMaxMessageSize) :
    (∃ client', guacKubernetesSendMessage client call=some (client',true) ∧ client'.Sound ∧
      client'.pending=client.pending++[call.frame]) ∨
    (guacKubernetesSendMessage client call=some (client,false) ∧
      client.outboundMessagesWaiting=guacKubernetesMaxOutboundMessages) := by
  have hwaiting := h.waiting
  by_cases hfull : client.outboundMessagesWaiting<guacKubernetesMaxOutboundMessages
  · left
    have hindex : (client.outboundMessagesTop+client.outboundMessagesWaiting) %
        guacKubernetesMaxOutboundMessages<client.outboundMessages.length := by
      rw [h.slots]
      exact Nat.mod_lt _ (by decide)
    have hpush := contents_push client.outboundMessages client.outboundMessagesTop
      (by rwa [h.slots])
      ((client.outboundMessages[(client.outboundMessagesTop+client.outboundMessagesWaiting) %
        guacKubernetesMaxOutboundMessages]).store call hfits)
    simp only [guacKubernetesSendMessage,if_pos hfull,List.getElem?_eq_getElem hindex,dif_pos hfits]
    refine ⟨_,rfl,⟨?_,hfull,h.top⟩,?_⟩
    · simp only [length_set,h.slots]
    · rw [h.slots] at hpush
      simp only [KubernetesClient.pending,hpush,map_append,map_cons,map_nil,
        KubernetesMessage.frame_store]
  · right
    refine ⟨?_,by omega⟩
    rw [guacKubernetesSendMessage,if_neg hfull]

/-- What a call of guac_kubernetes_write_pending_message does: the oldest of the waiting
messages is written, and it is told whether any remain. -/
theorem guacKubernetesWritePendingMessage_cases (h : client.Sound) :
    (∃ client' frame, guacKubernetesWritePendingMessage client=
        some (client',[frame],decide (0<client'.outboundMessagesWaiting)) ∧ client'.Sound ∧
      client.pending=frame::client'.pending) ∨
    (guacKubernetesWritePendingMessage client=some (client,[],false) ∧
      client.outboundMessagesWaiting=0) := by
  have hwaiting := h.waiting
  by_cases hsome : 0<client.outboundMessagesWaiting
  · left
    have htop : client.outboundMessagesTop<client.outboundMessages.length := by
      rw [h.slots]
      exact h.top
    have hpop := contents_pop client.outboundMessages (client.outboundMessagesWaiting-1)
      (by rw [h.slots]; omega) htop
    rw [Nat.sub_add_cancel hsome,h.slots] at hpop
    simp only [guacKubernetesWritePendingMessage,if_pos hsome,List.getElem?_eq_getElem htop]
    refine ⟨_,_,rfl,⟨h.slots,?_,Nat.mod_lt _ (by decide)⟩,?_⟩
    · exact (Nat.sub_le _ _).trans hwaiting
    · simp only [KubernetesClient.pending,hpop,map_cons]
  · right
    refine ⟨?_,by omega⟩
    rw [guacKubernetesWritePendingMessage,if_neg hsome]

/-- What the callers of guac_kubernetes_send_message pass. -/
structure SendCall.Proper (call : SendCall) : Prop where
  /-- The message fits a slot. -/
  fits : call.data.length≤guacKubernetesMaxMessageSize
  /-- One of the channels that are written. -/
  channel : call.channel=guacKubernetesChannelStdin ∨ call.channel=guacKubernetesChannelResize

/-- A message on the WebSocket is what a call passed: the channel, and then the data. -/
def Carries (frame : List UInt8) (call : SendCall) : Prop :=
  ∃ channel : UInt8, frame=channel::call.data ∧ (channel.toNat : ℤ)=call.channel

/-- The channels that are written are unchanged as bytes. -/
theorem SendCall.Proper.carries (h : call.Proper) : Carries call.frame call := by
  refine ⟨UInt8.ofInt call.channel,rfl,?_⟩
  rcases h.channel with hchannel | hchannel
  · rw [hchannel]
    decide
  · rw [hchannel]
    decide

/-- A resize message has a length that fits its buffer. -/
theorem length_resizeText_lt (rows columns : Int32) : (resizeText rows columns).length<64 := by
  have hrows := length_decimalInt_le rows.le_toInt rows.toInt_lt
  have hcolumns := length_decimalInt_le columns.le_toInt columns.toInt_lt
  have hwidth : (ascii "\x7b\"Width\":").length=9 := by decide
  have hheight : (ascii ",\"Height\":").length=10 := by decide
  have hend : (ascii "\x7d").length=1 := by decide
  simp only [resizeText,length_append]
  omega

/-- What guac_kubernetes_resize passes. -/
theorem proper_guacKubernetesResize (client : KubernetesClient) (rows columns : Int32) :
    ∀ call∈(guacKubernetesResize client rows columns).2.toList, call.Proper := by
  intro call hcall
  rw [guacKubernetesResize] at hcall
  split at hcall
  · have hlen := length_resizeText_lt rows columns
    rw [Option.toList_some,mem_singleton] at hcall
    subst hcall
    exact ⟨Nat.le_of_lt (hlen.trans (by decide)),Or.inr rfl⟩
  · cases hcall

/-- It leaves the messages alone. -/
theorem guacKubernetesResize_pending (client : KubernetesClient) (rows columns : Int32) :
    (guacKubernetesResize client rows columns).1.pending=client.pending ∧
      ((guacKubernetesResize client rows columns).1.Sound ↔ client.Sound) ∧
      (guacKubernetesResize client rows columns).1.outboundMessagesWaiting=
        client.outboundMessagesWaiting := by
  rw [guacKubernetesResize]
  split
  · exact ⟨rfl,⟨fun h => ⟨h.slots,h.waiting,h.top⟩,fun h => ⟨h.slots,h.waiting,h.top⟩⟩,rfl⟩
  · exact ⟨rfl,Iff.rfl,rfl⟩

/-- What guac_kubernetes_input_thread passes. -/
theorem proper_guacKubernetesInputThread {available : List UInt8}
    (h : guacKubernetesInputThread available=some call) : call.Proper := by
  rw [guacKubernetesInputThread] at h
  split at h
  · cases h
    exact ⟨length_take_le _ _,Or.inl rfl⟩
  · cases h

/-- What holds of the messages of a connection at any time. -/
structure Connection.Lossless (connection : Connection) : Prop where
  /-- What was written and what waits are together what was accepted, in order. -/
  fifo : List.Forall₂ Carries (connection.written++connection.client.pending) connection.accepted
  /-- As many frames wait as are counted. -/
  waiting : connection.client.pending.length=connection.client.outboundMessagesWaiting
  /-- Messages are only dropped while all slots are in use. -/
  dropped : ∀ drop∈connection.dropped, drop.2=guacKubernetesMaxOutboundMessages
  /-- While messages wait, a further callback is requested, or the servicing thread is
  about to request it. -/
  requested : 0<connection.client.outboundMessagesWaiting →
    connection.requested=true ∨ connection.service=.wrote true

/-- What becomes of the next message of a connection. -/
structure Connection.Serves (connection : Connection) : Prop where
  /-- A message is accepted unless all slots are in use. -/
  accepts : ∀ call : SendCall, call.Proper →
    connection.client.outboundMessagesWaiting<guacKubernetesMaxOutboundMessages →
      ∃ next, connection.send call=some next ∧ next.accepted=connection.accepted++[call] ∧
        next.client.pending=connection.client.pending++[call.frame]
  /-- When the WebSocket is writable, the oldest of the waiting messages is written. -/
  writes : connection.running=true → connection.service=.polling →
    ∀ frame waiting, connection.client.pending=frame::waiting →
      ∃ next, step .writable connection=some next ∧
        next.written=connection.written++[frame] ∧ next.client.pending=waiting

/-- What every step keeps. -/
structure Connection.Good (connection : Connection) : Prop extends connection.Lossless where
  /-- The slots in use exist. -/
  sound : connection.client.Sound
  input : ∀ call∈connection.input, call.Proper
  resizes : ∀ call∈connection.resizes, call.Proper

variable {connection : Connection}

/-- A call of guac_kubernetes_send_message keeps what holds. -/
theorem Connection.Good.send (h : connection.Good) (hcall : call.Proper) :
    ∃ next, connection.send call=some next ∧ next.Good := by
  have hlen := h.fifo.length_eq
  have hwaiting := h.waiting
  rcases guacKubernetesSendMessage_cases h.sound hcall.fits with
    ⟨client,hsend,hsound,hpending⟩ | ⟨hsend,hfull⟩
  · simp only [Connection.send,hsend]
    refine ⟨_,rfl,⟨⟨?_,hsound.length_pending,h.dropped,fun _ => Or.inl rfl⟩,hsound,
      h.input,h.resizes⟩⟩
    rw [hpending,←append_assoc]
    exact rel_append h.fifo (List.Forall₂.cons hcall.carries List.Forall₂.nil)
  · simp only [Connection.send,hsend]
    refine ⟨_,rfl,⟨⟨h.fifo,h.waiting,?_,h.requested⟩,h.sound,h.input,h.resizes⟩⟩
    intro drop hdrop
    rcases mem_append.mp hdrop with hdrop | hdrop
    · exact h.dropped drop hdrop
    · rw [mem_singleton.mp hdrop]
      rw [length_append] at hlen
      omega

/-- A callback that finds the WebSocket writable keeps what holds. -/
theorem Connection.Good.write (h : connection.Good) :
    ∃ next, connection.write=some next ∧ next.Good := by
  rcases guacKubernetesWritePendingMessage_cases h.sound with
    ⟨client,frame,hwrite,hsound,hpending⟩ | ⟨hwrite,hnone⟩
  · simp only [Connection.write,hwrite]
    refine ⟨_,rfl,⟨⟨?_,hsound.length_pending,h.dropped,?_⟩,hsound,h.input,h.resizes⟩⟩
    · have hfifo := h.fifo
      rw [hpending] at hfifo
      rwa [append_assoc,singleton_append]
    · intro hremain
      right
      rw [decide_eq_true hremain]
  · simp only [Connection.write,hwrite]
    refine ⟨_,rfl,⟨⟨?_,h.waiting,h.dropped,?_⟩,h.sound,h.input,h.resizes⟩⟩
    · rw [append_nil]
      exact h.fifo
    · intro hsome
      have hpositive : 0<connection.client.outboundMessagesWaiting := hsome
      omega

/-- Every step has a next state and keeps what holds. -/
theorem Connection.Good.step (h : connection.Good) (event : Event) :
    ∃ next, step event connection=some next ∧ next.Good := by
  cases event with
  | stdin available =>
    rw [KubernetesQueue.step]
    cases hinput : connection.input with
    | none =>
      refine ⟨_,rfl,⟨⟨h.fifo,h.waiting,h.dropped,h.requested⟩,h.sound,?_,h.resizes⟩⟩
      intro call hcall
      exact proper_guacKubernetesInputThread hcall
    | some call => exact ⟨connection,rfl,h⟩
  | sendInput =>
    rw [KubernetesQueue.step]
    cases hinput : connection.input with
    | none => exact ⟨connection,rfl,h⟩
    | some call =>
      have hrest : ({ connection with input := none } : Connection).Good :=
        ⟨⟨h.fifo,h.waiting,h.dropped,h.requested⟩,h.sound,
          (fun call hcall => nomatch hcall),h.resizes⟩
      exact hrest.send (h.input call hinput)
  | resize rows columns =>
    have hcalls := proper_guacKubernetesResize connection.client rows columns
    obtain ⟨hpending,hsound,hcount⟩ := guacKubernetesResize_pending connection.client rows columns
    generalize hresult : guacKubernetesResize connection.client rows columns=result
      at hcalls hpending hsound hcount
    obtain ⟨client,call⟩ := result
    rw [KubernetesQueue.step,hresult]
    refine ⟨_,rfl,⟨⟨?_,?_,h.dropped,?_⟩,hsound.mpr h.sound,h.input,?_⟩⟩
    · rw [hpending]
      exact h.fifo
    · rw [hpending,hcount]
      exact h.waiting
    · rw [hcount]
      exact h.requested
    · intro call hcall
      exact (mem_append.mp hcall).elim (h.resizes call) (hcalls call)
  | sendResize i =>
    rw [KubernetesQueue.step]
    cases hcall : connection.resizes[i]? with
    | none => exact ⟨connection,rfl,h⟩
    | some call =>
      have hrest : ({ connection with
          resizes := connection.resizes.eraseIdx i } : Connection).Good :=
        ⟨⟨h.fifo,h.waiting,h.dropped,h.requested⟩,h.sound,h.input,
          fun call hcall => h.resizes call (mem_of_mem_eraseIdx hcall)⟩
      exact hrest.send (h.resizes call (mem_of_getElem? hcall))
  | established =>
    refine ⟨_,rfl,⟨⟨h.fifo,h.waiting,h.dropped,fun hsome => ?_⟩,h.sound,h.input,h.resizes⟩⟩
    rcases h.requested hsome with hrequested | hservice
    · left
      rw [hrequested,Bool.true_or]
    · exact Or.inr hservice
  | writable =>
    rw [KubernetesQueue.step]
    split
    · exact h.write
    · exact ⟨connection,rfl,h⟩
  | resume =>
    rw [KubernetesQueue.step]
    cases hservice : connection.service with
    | polling => exact ⟨connection,rfl,h⟩
    | wrote remain =>
      refine ⟨_,rfl,⟨⟨h.fifo,h.waiting,h.dropped,fun hsome => ?_⟩,h.sound,h.input,h.resizes⟩⟩
      left
      rcases h.requested hsome with hrequested | hremain
      · rw [hrequested,Bool.true_or]
      · rw [hservice,Service.wrote.injEq] at hremain
        rw [hremain,Bool.or_true]
  | stop =>
    exact ⟨_,rfl,⟨⟨h.fifo,h.waiting,h.dropped,h.requested⟩,h.sound,h.input,h.resizes⟩⟩

/-- As long as the slots in use exist, messages are accepted and written. -/
theorem Connection.Good.serves (h : connection.Good) :
    connection.Serves where
  accepts call hcall hroom := by
    rcases guacKubernetesSendMessage_cases h.sound hcall.fits with
      ⟨client,hsend,-,hpending⟩ | ⟨-,hfull⟩
    · simp only [Connection.send,hsend]
      exact ⟨_,rfl,rfl,hpending⟩
    · omega
  writes hrunning hpolling frame waiting hwaiting := by
    have hlength := h.waiting
    rw [hwaiting,length_cons] at hlength
    rcases guacKubernetesWritePendingMessage_cases h.sound with
      ⟨client,frame',hwrite,-,hpending⟩ | ⟨-,hnone⟩
    · rw [hwaiting,List.cons.injEq] at hpending
      obtain ⟨rfl,rfl⟩ := hpending
      simp only [KubernetesQueue.step,hrunning,hpolling,Connection.write,hwrite]
      exact ⟨_,rfl,rfl,rfl⟩
    · omega

/-- An empty slot holds as many zeros as there are bytes. -/
theorem length_emptyData :
    (List.replicate guacKubernetesMaxMessageSize (0 : UInt8)).length=guacKubernetesMaxMessageSize :=
  length_replicate

/-- A slot of memory that is allocated as zeros. -/
def emptyMessage : KubernetesMessage where
  channel := 0
  data := List.replicate guacKubernetesMaxMessageSize 0
  length := 0
  size := length_emptyData
  fits := Nat.zero_le _

/-- A connection when its threads start. -/
def started : Connection where
  client := ⟨List.replicate guacKubernetesMaxOutboundMessages emptyMessage,0,0,0,0⟩
  running := true
  input := none
  resizes := []
  service := .polling
  requested := false
  written := []
  accepted := []
  dropped := []

/-- Nothing waits at the start. -/
theorem good_started : started.Good where
  fifo := List.Forall₂.nil
  waiting := rfl
  dropped := fun _ h => nomatch h
  requested := fun h => absurd h (Nat.lt_irrefl 0)
  sound := ⟨length_replicate,Nat.zero_le _,by decide⟩
  input := fun _ h => nomatch h
  resizes := fun _ h => nomatch h

/-- Whatever the threads do and in whichever order, no slot is accessed that does not exist
and no message exceeds its slot; what was accepted is written in order and unchanged or
still waits, with a callback requested, which writes the oldest; and what was dropped was
dropped while all slots were in use. -/
theorem outboundMessages_lossless (events : List Event) :
    ∃ connection, run step events started=some connection ∧ connection.Lossless ∧
      connection.Serves := by
  obtain ⟨connection,hrun,hgood⟩ := run_total (fun hgood => hgood.step _) events good_started
  exact ⟨connection,hrun,hgood.toLossless,hgood.serves⟩

/-- Input and a resize, of which both are written. -/
def inputAndResize : List Event :=
  [.stdin (ascii "ls"), .resize 24 80, .sendInput, .established, .writable, .sendResize 0, .resume,
    .writable]

/-- The messages are written in the order of their calls. -/
theorem outboundMessages_lossless_two :
    ∃ connection, run step inputAndResize started=some connection ∧ connection.Lossless ∧
      connection.written=[0::ascii "ls", 4::resizeText 24 80] := by
  obtain ⟨connection,hrun,hlossless,-⟩ := outboundMessages_lossless inputAndResize
  have hwritten : (run step inputAndResize started).map Connection.written=
      some [0::ascii "ls",4::resizeText 24 80] := by decide +kernel
  rw [hrun] at hwritten
  exact ⟨connection,hrun,hlossless,Option.some.inj hwritten⟩

end GuacServer.KubernetesQueue
