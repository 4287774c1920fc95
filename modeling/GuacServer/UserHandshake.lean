import GuacServer.UserHandlers

/-!
# Connections of users and their parsers

A connection is handled from its handshake until the user disconnects. The
parser that reads its instructions is allocated once the arguments of the
client were sent, and must be freed on every way out. The handshake frees it
when one of its handlers fails, and so does its caller again; a "connect" with
the wrong number of arguments does not free it.
-/

namespace GuacServer.UserHandshake

open Unicode UserStreams UserHandlers

variable {H : Type}

/-- An instruction that guac_parser_read has read; argc is the number of its
arguments. -/
structure ReadInstruction where
  opcode : List UInt8
  /-- The arguments. -/
  argv : List (List UInt8)
  deriving DecidableEq

/-- What a connection depends on besides the instructions of the user. -/
structure ConnectionEnv (H : Type) where
  /-- What handlers of instructions use. -/
  handlerEnv : Environment H
  /-- What a handler does that reads an argument beyond argc. -/
  beyondArgc : ReadInstruction→GuacUser H→ℤ×GuacUser H
  /-- The arguments of the client. -/
  args : List (List UInt8)
  /-- The result of guac_protocol_send_args, or else of the flush after it. -/
  sendArgs : ℤ
  /-- What the join handler of the client returns and makes of the user. -/
  joinHandler : List (List UInt8)→GuacUser H→ℤ×GuacUser H
  /-- The result of pthread_create. -/
  pthreadCreate : ℤ
  /-- The client is running when these instructions are still to be read. -/
  running : List ReadInstruction→Bool

/-- What happens to the parser of a connection. -/
inductive ParserEvent
  /-- guac_parser_alloc. -/
  | allocated
  /-- guac_parser_free. -/
  | freed
  deriving DecidableEq

/-- __guac_user_call_opcode_handler. -/
def callOpcodeHandler (env : ConnectionEnv H) (map : List (List UInt8×InstructionHandler H))
    (instruction : ReadInstruction) (user : GuacUser H) : ℤ×GuacUser H :=
  (guacUserCallOpcodeHandler instruction.opcode map env.handlerEnv instruction.argv user).getD
    (env.beyondArgc instruction user)

/-- The state when __guac_user_handshake returns. -/
structure Handshake (H : Type) where
  /-- The returned value. -/
  returned : ℤ
  /-- What happened to the parser. -/
  parser : List ParserEvent
  /-- The arguments in the parser. -/
  argv : List (List UInt8)
  /-- The instructions still to be read. -/
  rest : List ReadInstruction
  user : GuacUser H

/-- __guac_user_handshake. Reading fails when there are no more instructions. -/
def guacUserHandshake (env : ConnectionEnv H) : List ReadInstruction→GuacUser H→Handshake H
  | [], user => ⟨1,[],[],[],user⟩
  | instruction::rest, user =>
    if instruction.opcode=ascii "connect" then ⟨0,[],instruction.argv,rest,user⟩
    else
      let handled := callOpcodeHandler env guacHandshakeHandlerMap instruction user
      if handled.1≠0 then ⟨1,[.freed],instruction.argv,rest,handled.2⟩
      else guacUserHandshake env rest handled.2

/-- guac_user_stop. -/
def guacUserStop (user : GuacUser H) : GuacUser H := { user with active := false }

/-- guac_user_input_thread. -/
def guacUserInputThread (env : ConnectionEnv H) : List ReadInstruction→GuacUser H→GuacUser H
  | [], user => if env.running [] ∧ user.active then guacUserStop user else user
  | instruction::rest, user =>
    if env.running (instruction::rest) ∧ user.active then
      let handled := callOpcodeHandler env guacInstructionHandlerMap instruction user
      if handled.1≠0 then guacUserStop handled.2
      else guacUserInputThread env rest handled.2
    else user

/-- guac_user_start. -/
def guacUserStart (env : ConnectionEnv H) (instructions : List ReadInstruction)
    (user : GuacUser H) : ℤ×GuacUser H :=
  if env.pthreadCreate≠0 then (-1,guacUserStop user)
  else (0,guacUserInputThread env instructions user)

/-- The state when guac_user_handle_connection returns. -/
structure Connection (H : Type) where
  /-- The returned value. -/
  returned : ℤ
  /-- What happened to the parser. -/
  parser : List ParserEvent
  user : GuacUser H

/-- The user with nothing known about it. -/
def clearInfo (user : GuacUser H) : GuacUser H :=
  { user with
    info := { user.info with
      audioMimetypes := none
      imageMimetypes := none
      videoMimetypes := none
      timezone := none } }

/-- guac_user_handle_connection. -/
def guacUserHandleConnection (env : ConnectionEnv H) (instructions : List ReadInstruction)
    (user : GuacUser H) : Connection H :=
  let user := clearInfo user
  if env.sendArgs≠0 then ⟨1,[],user⟩
  else
    let handshake := guacUserHandshake env instructions user
    let parser := .allocated::handshake.parser
    if handshake.returned≠0 then ⟨1,parser++[.freed],handshake.user⟩
    else if handshake.argv.length≠env.args.length+1 then ⟨1,parser,handshake.user⟩
    else
      let joined := env.joinHandler handshake.argv.tail handshake.user
      let user :=
        if joined.1≠0 then joined.2
        else (guacUserStart env handshake.rest joined.2).2
      ⟨0,parser++[.freed],user⟩

/-- The instruction makes its handshake handler fail. -/
def RefusedInHandshake (instruction : ReadInstruction) : Prop :=
  instruction.opcode=ascii "size" ∧ instruction.argv.length<2

instance : DecidablePred RefusedInHandshake := fun instruction =>
  inferInstanceAs (Decidable (instruction.opcode=ascii "size" ∧ instruction.argv.length<2))

/-- What is received before a "connect" instruction. -/
def beforeConnect (instructions : List ReadInstruction) : List ReadInstruction :=
  instructions.takeWhile fun instruction => decide (instruction.opcode≠ascii "connect")

/-- The first "connect" instruction that is received. -/
def firstConnect (instructions : List ReadInstruction) : Option ReadInstruction :=
  instructions.find? fun instruction => decide (instruction.opcode=ascii "connect")

/-- The handler of "size" fails without a width and a height. -/
theorem guacHandshakeSizeHandler_fst (env : Environment H) (argv : List (List UInt8))
    (user : GuacUser H) (otherwise : ℤ×GuacUser H) :
    ((guacHandshakeSizeHandler env argv user).getD otherwise).1≠0 ↔ argv.length<2 := by
  unfold guacHandshakeSizeHandler
  by_cases hargc : argv.length<2
  · simp [hargc]
  · rw [if_neg hargc]
    rcases argv with _ | ⟨width,_ | ⟨height,_ | ⟨resolution,argv⟩⟩⟩ <;> simp [argument] at *

/-- Handlers that copy all their arguments succeed. -/
theorem copyMimetypes_fst (argv : List (List UInt8)) (store : List (List UInt8)→GuacUser H)
    (otherwise : ℤ×GuacUser H) :
    ((do let mimetypes ← guacCopyMimetypes argv argv.length
         return (0,store mimetypes) : Option (ℤ×GuacUser H)).getD otherwise).1=0 := by
  have hcopied := guacCopyMimetypes_isSome argv fun mimetypes => mimetypes
  cases hmimetypes : guacCopyMimetypes argv argv.length with
  | none => simp [hmimetypes] at hcopied
  | some mimetypes => rfl

/-- The handler of "timezone" succeeds. -/
theorem guacHandshakeTimezoneHandler_fst (env : Environment H) (argv : List (List UInt8))
    (user : GuacUser H) (otherwise : ℤ×GuacUser H) :
    ((guacHandshakeTimezoneHandler env argv user).getD otherwise).1=0 := by
  cases argv <;> rfl

/-- Only the handler of "size" fails in the handshake. -/
theorem callOpcodeHandler_handshake (env : ConnectionEnv H) (instruction : ReadInstruction)
    (user : GuacUser H) :
    (callOpcodeHandler env guacHandshakeHandlerMap instruction user).1≠0 ↔
      RefusedInHandshake instruction := by
  unfold callOpcodeHandler guacHandshakeHandlerMap RefusedInHandshake
  by_cases hsize : instruction.opcode=ascii "size"
  · rw [guacUserCallOpcodeHandler,if_pos hsize,guacHandshakeSizeHandler_fst]
    exact (and_iff_right hsize).symm
  · refine iff_of_false (not_not_intro ?_) fun h => hsize h.1
    rw [guacUserCallOpcodeHandler,if_neg hsize,guacUserCallOpcodeHandler]
    split
    · exact copyMimetypes_fst ..
    · rw [guacUserCallOpcodeHandler]
      split
      · exact copyMimetypes_fst ..
      · rw [guacUserCallOpcodeHandler]
        split
        · exact copyMimetypes_fst ..
        · rw [guacUserCallOpcodeHandler]
          split
          · exact guacHandshakeTimezoneHandler_fst ..
          · rfl

variable {instruction : ReadInstruction}

/-- The handshake ends with a "connect". -/
theorem guacUserHandshake_connect (env : ConnectionEnv H) (h : instruction.opcode=ascii "connect")
    (rest : List ReadInstruction) (user : GuacUser H) :
    guacUserHandshake env (instruction::rest) user=⟨0,[],instruction.argv,rest,user⟩ := by
  rw [guacUserHandshake,if_pos h]

/-- The handshake frees the parser when it refuses an instruction. -/
theorem guacUserHandshake_refused (env : ConnectionEnv H) (h : instruction.opcode≠ascii "connect")
    (hrefused : RefusedInHandshake instruction) (rest : List ReadInstruction) (user : GuacUser H) :
    (guacUserHandshake env (instruction::rest) user).returned=1 ∧
      (guacUserHandshake env (instruction::rest) user).parser=[.freed] := by
  rw [guacUserHandshake,if_neg h]
  dsimp only
  rw [if_pos ((callOpcodeHandler_handshake env instruction user).mpr hrefused)]
  exact ⟨rfl,rfl⟩

/-- The handshake goes on after any other instruction. -/
theorem guacUserHandshake_next (env : ConnectionEnv H) (h : instruction.opcode≠ascii "connect")
    (haccepted : ¬RefusedInHandshake instruction) (rest : List ReadInstruction)
    (user : GuacUser H) :
    guacUserHandshake env (instruction::rest) user=guacUserHandshake env rest
      (callOpcodeHandler env guacHandshakeHandlerMap instruction user).2 := by
  rw [guacUserHandshake,if_neg h]
  dsimp only
  rw [if_neg (mt (callOpcodeHandler_handshake env instruction user).mp haccepted)]

/-- What comes before a "connect" goes on with any other instruction. -/
theorem beforeConnect_cons (h : instruction.opcode≠ascii "connect") (rest : List ReadInstruction) :
    beforeConnect (instruction::rest)=instruction::beforeConnect rest := by
  simp [beforeConnect,h]

/-- The first "connect" is looked for further on. -/
theorem firstConnect_cons (h : instruction.opcode≠ascii "connect") (rest : List ReadInstruction) :
    firstConnect (instruction::rest)=firstConnect rest := by
  simp [firstConnect,h]

/-- The handshake frees the parser, and then fails, exactly when it refuses an
instruction before a "connect"; without one it fails as well, and otherwise
leaves the arguments of the "connect" in the parser. -/
theorem guacUserHandshake_cases (env : ConnectionEnv H) (instructions : List ReadInstruction)
    (user : GuacUser H) :
    (∃ instruction∈beforeConnect instructions, RefusedInHandshake instruction) ∧
      (guacUserHandshake env instructions user).returned=1 ∧
      (guacUserHandshake env instructions user).parser=[.freed] ∨
    (∀ instruction∈beforeConnect instructions, ¬RefusedInHandshake instruction) ∧
      (guacUserHandshake env instructions user).parser=[] ∧
      (firstConnect instructions=none ∧ (guacUserHandshake env instructions user).returned=1 ∨
      ∃ connect, firstConnect instructions=some connect ∧
        (guacUserHandshake env instructions user).returned=0 ∧
        (guacUserHandshake env instructions user).argv=connect.argv) := by
  induction instructions generalizing user with
  | nil => exact Or.inr ⟨List.forall_mem_nil _,rfl,Or.inl ⟨rfl,rfl⟩⟩
  | cons instruction rest ih =>
    by_cases hconnect : instruction.opcode=ascii "connect"
    · rw [guacUserHandshake_connect env hconnect]
      refine Or.inr ⟨?_,rfl,Or.inr ⟨instruction,?_,rfl,rfl⟩⟩
      · simp [beforeConnect,hconnect]
      · simp [firstConnect,hconnect]
    · rw [beforeConnect_cons hconnect,firstConnect_cons hconnect]
      by_cases hrefused : RefusedInHandshake instruction
      · exact Or.inl ⟨⟨instruction,List.mem_cons_self ..,hrefused⟩,
          guacUserHandshake_refused env hconnect hrefused rest user⟩
      · rw [guacUserHandshake_next env hconnect hrefused]
        rcases ih (callOpcodeHandler env guacHandshakeHandlerMap instruction user).2 with
          ⟨⟨other,hmem,hother⟩,hreturned⟩ | ⟨hall,hrest⟩
        · exact Or.inl ⟨⟨other,List.mem_cons_of_mem _ hmem,hother⟩,hreturned⟩
        · exact Or.inr ⟨List.forall_mem_cons.mpr ⟨hrefused,hall⟩,hrest⟩

/-- No parser is allocated, or one is and is then freed once. -/
def FreedOnce (parser : List ParserEvent) : Prop := parser=[] ∨ parser=[.allocated,.freed]

instance : DecidablePred FreedOnce := fun parser =>
  inferInstanceAs (Decidable (parser=[] ∨ parser=[.allocated,.freed]))

/-- The parser of a connection is freed once exactly if the arguments of the
client could not be sent, so that there is none, or no instruction is refused in
the handshake and a "connect" has the expected number of arguments. -/
theorem parser_freedOnce_iff (env : ConnectionEnv H) (instructions : List ReadInstruction)
    (user : GuacUser H) :
    FreedOnce (guacUserHandleConnection env instructions user).parser ↔ env.sendArgs≠0 ∨
      (∀ instruction∈beforeConnect instructions, ¬RefusedInHandshake instruction) ∧
        ∀ connect, firstConnect instructions=some connect →
          connect.argv.length=env.args.length+1 := by
  unfold guacUserHandleConnection
  by_cases hsent : env.sendArgs=0
  · rw [if_neg (not_not_intro hsent)]
    dsimp only
    rcases guacUserHandshake_cases env instructions (clearInfo user) with
      ⟨⟨instruction,hmem,hrefused⟩,hreturned,hparser⟩ |
      ⟨hall,hparser,⟨hnone,hreturned⟩ | ⟨connect,hconnect,hreturned,hargv⟩⟩
    · rw [if_pos (by omega),hparser]
      refine iff_of_false (by decide : ¬FreedOnce [.allocated,.freed,.freed]) ?_
      rintro (hfailed | ⟨hall,-⟩)
      · exact hfailed hsent
      · exact hall instruction hmem hrefused
    · rw [if_pos (by omega),hparser]
      refine iff_of_true (Or.inr rfl) (Or.inr ⟨hall,fun connect hconnect => ?_⟩)
      rw [hnone] at hconnect
      cases hconnect
    · rw [if_neg (by omega),hargv,hparser]
      by_cases hargc : connect.argv.length=env.args.length+1
      · rw [if_neg (not_not_intro hargc)]
        refine iff_of_true (Or.inr rfl) (Or.inr ⟨hall,fun other hother => ?_⟩)
        cases hconnect.symm.trans hother
        exact hargc
      · rw [if_pos hargc]
        refine iff_of_false (by decide : ¬FreedOnce [.allocated]) ?_
        rintro (hfailed | ⟨-,hcount⟩)
        · exact hfailed hsent
        · exact hargc (hcount connect hconnect)
  · rw [if_pos hsent]
    exact iff_of_true (Or.inl rfl) (Or.inl hsent)

/-- The environment of a connection to a client without arguments. -/
def bareConnection : ConnectionEnv Empty where
  handlerEnv := bareEnvironment
  beyondArgc := fun _ user => (0,user)
  args := []
  sendArgs := 0
  joinHandler := fun _ user => (0,user)
  pthreadCreate := 0
  running := fun _ => true

/-- A "size" without arguments has the parser freed twice, and a "connect"
without arguments never. -/
theorem not_freedOnce_size :
    (guacUserHandleConnection bareConnection [⟨ascii "size", []⟩] (guacUserAlloc 0)).parser=
        [.allocated,.freed,.freed] ∧
      ¬FreedOnce (guacUserHandleConnection bareConnection [⟨ascii "size", []⟩]
        (guacUserAlloc 0)).parser ∧
      (guacUserHandleConnection bareConnection [⟨ascii "connect", []⟩] (guacUserAlloc 0)).parser=
        [.allocated] :=
  ⟨rfl,(by decide : ¬FreedOnce [.allocated,.freed,.freed]),rfl⟩

end GuacServer.UserHandshake
