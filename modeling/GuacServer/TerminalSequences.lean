import GuacServer.TerminalStatics

/-!
# What the handlers remember between sequences

The static variables of terminal/terminal_handlers.c are shared by all
sequences of a process. A handler that returns to guac_terminal_echo has to
leave its variables as they were initialised, or they are taken for the start of
the next sequence of its kind.
-/

namespace GuacServer.Terminal

open DecimalNumerals StateRuns

variable {env : TerminalEnv} {term : GuacTerminal} {statics : HandlerStatics}

/-! ## Variables that are not in use -/

/-- The static variables with those of a handler as they are initialised. -/
def HandlerStatics.resetFor (statics : HandlerStatics) : CharHandler→HandlerStatics
  | .echo => { statics with bytesRemaining := 0, codepoint := 0 }
  | .csi =>
    { statics with
      argc := 0
      argv := List.replicate 16 0
      privateModeCharacter := 0
      argvBuffer := [] }
  | .osc => { statics with operation := 0 }
  | .download => { statics with downloadFilename := [] }
  | .setDirectory => { statics with uploadFilename := [] }
  | .openPipeStream => { statics with pipeParam := [], pipeFlags := 0 }
  | .setScrollback => { statics with scrollbackParam := [] }
  | .windowTitle => { statics with title := [] }
  | .xtermPalette => { statics with readColorSpec := false, paletteIndex := 0, colorSpec := [] }
  | .apc => { statics with escaping := false }
  | _ => statics

/-- There is space for sixteen parameters, and those not read yet are zero. -/
structure ParametersZero (statics : HandlerStatics) : Prop where
  argc_le : statics.argc≤16
  length : statics.argv.length=16
  rest : statics.argv.drop statics.argc=List.replicate (16-statics.argc) 0

/-- The variables that other handlers left are as they are initialised, apart from
those that are set before they are read. -/
structure Unused (term : GuacTerminal) : Prop where
  others : (term.statics.resetFor term.charHandler).leaving 0 []=HandlerStatics.initial
  parameters : ParametersZero term.statics

theorem ParametersZero.finishParameter (h : ParametersZero statics) :
    ParametersZero statics.finishParameter := by
  unfold HandlerStatics.finishParameter
  split_ifs with hspace
  · refine ⟨hspace,(List.length_set ..).trans h.length,?_⟩
    dsimp only
    rw [List.drop_set_of_lt (Nat.lt_add_one _),←List.drop_drop,h.rest,List.drop_replicate,
      Nat.sub_sub]
  · exact h

theorem ParametersZero.endSequence (h : ParametersZero statics) :
    statics.endSequence.argv=List.replicate 16 0 := by
  rw [HandlerStatics.endSequence,h.rest,List.replicate_append_replicate,
    Nat.add_sub_cancel' h.argc_le]

/-- A byte on which its handler does not return to guac_terminal_echo with a number it
has read but not used. -/
def Completes (term : GuacTerminal) (c : UInt8) : Prop :=
  (term.charHandler=.osc→¬IsDigit c → c≠0x3B → term.statics.operation=0) ∧
    (term.charHandler=.xtermPalette→IsStringTerminator c →
      term.statics.readColorSpec=false → term.statics.paletteIndex=0)

instance (term : GuacTerminal) (c : UInt8) : Decidable (Completes term c) :=
  inferInstanceAs (Decidable (_ ∧ _))

theorem resetFor_initial (handler : CharHandler) (h : statics.leaving 0 []=HandlerStatics.initial) :
    (statics.resetFor handler).leaving 0 []=HandlerStatics.initial := by
  have hreset : (statics.resetFor handler).leaving 0 []=
      ((statics.leaving 0 []).resetFor handler).leaving 0 [] := by
    cases handler <;> rfl
  rw [hreset,h]
  cases handler <;> rfl

/-- A handler changes only its own variables, and initialises them when it gives way
to another. -/
def KeepsOthers (handler : CharHandler) (term term' : GuacTerminal) : Prop :=
  (term'.statics.resetFor handler).leaving 0 []=(term.statics.resetFor handler).leaving 0 [] ∧
    (term'.charHandler=handler ∨
      (term'.statics.resetFor handler).leaving 0 []=term'.statics.leaving 0 [])

variable {term' : GuacTerminal}

theorem Unused.step (h : Unused term)
    (hkeeps : KeepsOthers term.charHandler term term') :
    (term'.statics.resetFor term'.charHandler).leaving 0 []=HandlerStatics.initial := by
  obtain ⟨hown,hstays | hreset⟩ := hkeeps
  · rw [hstays,hown]
    exact h.others
  · exact resetFor_initial _ (hreset.symm.trans (hown.trans h.others))

theorem keepsOthers_of_statics {handler : CharHandler} (hstatics : term'.statics=term.statics)
    (hnone : (term.statics.resetFor handler).leaving 0 []=term.statics.leaving 0 []) :
    KeepsOthers handler term term' := by
  unfold KeepsOthers
  rw [hstatics]
  exact ⟨rfl,Or.inr hnone⟩

theorem setDirectory_keepsOthers (hhandler : term.charHandler=.setDirectory) (c : UInt8) :
    KeepsOthers .setDirectory term (guacTerminalSetDirectory term c) := by
  unfold guacTerminalSetDirectory
  split_ifs
  · exact ⟨rfl,Or.inr rfl⟩
  · exact ⟨rfl,Or.inl hhandler⟩

theorem download_keepsOthers (hhandler : term.charHandler=.download) (c : UInt8) :
    KeepsOthers .download term (guacTerminalDownload term c) := by
  unfold guacTerminalDownload
  split_ifs
  · exact ⟨rfl,Or.inr rfl⟩
  · exact ⟨rfl,Or.inl hhandler⟩

theorem windowTitle_keepsOthers (hhandler : term.charHandler=.windowTitle) (c : UInt8) :
    KeepsOthers .windowTitle term (guacTerminalWindowTitle term c) := by
  unfold guacTerminalWindowTitle
  split_ifs
  · exact ⟨rfl,Or.inr rfl⟩
  · exact ⟨rfl,Or.inl hhandler⟩

theorem setScrollback_keepsOthers (hhandler : term.charHandler=.setScrollback) (c : UInt8) :
    KeepsOthers .setScrollback term (guacTerminalSetScrollback term c) := by
  unfold guacTerminalSetScrollback
  split_ifs
  · exact ⟨rfl,Or.inr rfl⟩
  · exact ⟨rfl,Or.inl hhandler⟩

theorem openPipeStream_keepsOthers (hhandler : term.charHandler=.openPipeStream) (c : UInt8) :
    KeepsOthers .openPipeStream term (guacTerminalOpenPipeStream term c) := by
  have hopened : (guacTerminalPipeStreamOpen term term.statics.pipeParam
      term.statics.pipeFlags).statics=term.statics :=
    statics_eq_of_withStatics (pipeStreamOpen_withStatics term term.statics
      term.statics.pipeParam term.statics.pipeFlags)
  unfold guacTerminalOpenPipeStream
  dsimp only
  rw [hopened]
  split_ifs
  · exact ⟨rfl,Or.inr rfl⟩
  · exact ⟨rfl,Or.inl hhandler⟩
  · exact ⟨rfl,Or.inl hhandler⟩

variable {c : UInt8}

theorem not_stringTerminator_of_digit (hdigit : IsDigit c) : ¬IsStringTerminator c := by
  rintro (rfl | rfl | rfl)
  · exact absurd hdigit (by decide)
  · exact absurd hdigit (by decide)
  · exact absurd hdigit (by decide)

/-- A color is parsed without a change of other variables. -/
theorem xtermPalette_keepsOthers (hhandler : term.charHandler=.xtermPalette)
    (hcompletes : IsStringTerminator c → term.statics.readColorSpec=false →
      term.statics.paletteIndex=0) :
    KeepsOthers .xtermPalette term (guacTerminalXtermPalette env term c) := by
  have hread : KeepsOthers .xtermPalette term (readPalette env term c) ∧ (IsStringTerminator c →
        ((readPalette env term c).statics.resetFor .xtermPalette).leaving 0 []=
          (readPalette env term c).statics.leaving 0 []) := by
    unfold readPalette
    dsimp only
    split_ifs with hspec hends hdigit hend
    · exact ⟨⟨rfl,Or.inl hhandler⟩,fun _ => rfl⟩
    · exact ⟨⟨rfl,Or.inl hhandler⟩,fun hterminator => absurd (Or.inr hterminator) hends⟩
    · exact ⟨⟨rfl,Or.inl hhandler⟩,fun hterminator =>
        absurd hterminator (not_stringTerminator_of_digit hdigit)⟩
    · refine ⟨⟨rfl,Or.inl hhandler⟩,fun hterminator => ?_⟩
      subst hend
      exact absurd hterminator (by decide)
    · refine ⟨⟨rfl,Or.inl hhandler⟩,fun hterminator => ?_⟩
      have hindex := Bool.eq_false_iff.mpr hspec
      simp only [HandlerStatics.resetFor,HandlerStatics.leaving,hindex,
        hcompletes hterminator hindex]
  unfold guacTerminalXtermPalette
  dsimp only
  split_ifs with hterminator
  · exact ⟨hread.1.1,Or.inr (hread.2 hterminator)⟩
  · exact hread.1

theorem osc_keepsOthers (hhandler : term.charHandler=.osc)
    (hcompletes : ¬IsDigit c → c≠0x3B → term.statics.operation=0) :
    KeepsOthers .osc term (guacTerminalOsc term c) := by
  unfold guacTerminalOsc
  split_ifs with hdigit hend
  · exact ⟨rfl,Or.inl hhandler⟩
  all_goals try exact ⟨rfl,Or.inr rfl⟩
  refine ⟨rfl,Or.inr ?_⟩
  simp only [HandlerStatics.resetFor,HandlerStatics.leaving,hcompletes hdigit hend]

theorem apc_keepsOthers (hhandler : term.charHandler=.apc) (c : UInt8) :
    KeepsOthers .apc term (guacTerminalApc term c) := by
  refine ⟨rfl,?_⟩
  unfold guacTerminalApc
  dsimp only
  split_ifs with hends
  · rw [hends.2]
    exact Or.inr rfl
  · exact Or.inl hhandler

theorem echoByte_keepsOthers (hhandler : term.charHandler=.echo) (c : UInt8) :
    KeepsOthers .echo term (echoByte env term c) := by
  generalize hdecoded : decodeByte term.activeMapping term.statics.codepoint
    term.statics.bytesRemaining c=decoded
  by_cases hmore : decoded.2≠0
  · rw [echoByte_more hdecoded hmore]
    exact ⟨rfl,Or.inl hhandler⟩
  · have hzero := not_not.mp hmore
    obtain ⟨shown,kept,hshown⟩ := echoCodepoint_showsAlike env term decoded.1
    have hcomplete : echoByte env term c=_ :=
      (echoByte_complete hdecoded hzero).trans (hshown (term.statics.decoded decoded))
    rw [hcomplete]
    refine ⟨rfl,Or.inr ?_⟩
    simp only [GuacTerminal.withStatics,HandlerStatics.resetFor,HandlerStatics.decoded,
      HandlerStatics.leaving,hzero]

theorem echo_keepsOthers (hhandler : term.charHandler=.echo) (c : UInt8) :
    KeepsOthers .echo term (guacTerminalEcho env term c) := by
  have hpiped := (pipedByte_charHandler term c).trans hhandler
  rw [echo_piped]
  split_ifs
  · exact ⟨by rw [pipedByte_statics],Or.inl hpiped⟩
  · have hecho : KeepsOthers .echo (pipedByte term c) (echoByte env (pipedByte term c) c) :=
      echoByte_keepsOthers hpiped c
    rwa [KeepsOthers,pipedByte_statics] at hecho

theorem finishParameter_resetFor (statics : HandlerStatics) :
    statics.finishParameter.resetFor .csi=statics.resetFor .csi := by
  unfold HandlerStatics.finishParameter
  split_ifs
  all_goals rfl

theorem csi_keepsOthers (hhandler : term.charHandler=.csi) (h : ParametersZero term.statics) :
    KeepsOthers .csi term (guacTerminalCsi term c) := by
  have hfunction : (csiFunction { term with statics := term.statics.finishParameter } c).statics=
      term.statics.finishParameter := csiFunction_statics _ c
  have hended := h.finishParameter.endSequence
  unfold guacTerminalCsi
  dsimp only
  split_ifs with hdigit hspace hfinal hends hmode
  · exact ⟨rfl,Or.inl hhandler⟩
  · exact ⟨rfl,Or.inl hhandler⟩
  · rw [hfunction]
    have hown : (term.statics.finishParameter.endSequence).resetFor .csi=
        term.statics.finishParameter.resetFor .csi := rfl
    refine ⟨?_,Or.inr ?_⟩
    · rw [hown,finishParameter_resetFor]
    · rw [HandlerStatics.resetFor,←hended]
      rfl
  · cases not_not.mp hends
    exact ⟨congrArg (HandlerStatics.leaving · 0 []) (finishParameter_resetFor term.statics),
      Or.inl hhandler⟩
  · exact ⟨rfl,Or.inl hhandler⟩
  · exact ⟨rfl,Or.inl hhandler⟩

theorem keepsOthers_handleChar (h : Unused term) (hcompletes : Completes term c) :
    KeepsOthers term.charHandler term (handleChar env term c) := by
  obtain ⟨hosc,hpalette⟩ := hcompletes
  unfold handleChar
  cases hhandler : term.charHandler with
  | echo => exact echo_keepsOthers hhandler c
  | escape =>
    exact keepsOthers_of_statics
      (statics_eq_of_withStatics (escape_withStatics term term.statics c)) rfl
  | g0Charset => exact keepsOthers_of_statics rfl rfl
  | g1Charset => exact keepsOthers_of_statics rfl rfl
  | csi => exact csi_keepsOthers hhandler h.parameters
  | osc => exact osc_keepsOthers hhandler (hosc hhandler)
  | download => exact download_keepsOthers hhandler c
  | setDirectory => exact setDirectory_keepsOthers hhandler c
  | openPipeStream => exact openPipeStream_keepsOthers hhandler c
  | closePipeStream =>
    exact keepsOthers_of_statics
      (statics_eq_of_withStatics (closePipeStream_withStatics term term.statics c)) rfl
  | setScrollback => exact setScrollback_keepsOthers hhandler c
  | windowTitle => exact windowTitle_keepsOthers hhandler c
  | xtermPalette => exact xtermPalette_keepsOthers hhandler (hpalette hhandler)
  | ctrlFunc =>
    exact keepsOthers_of_statics
      (statics_eq_of_withStatics (ctrlFunc_withStatics term term.statics env c)) rfl
  | apc => exact apc_keepsOthers hhandler c

/-- Only guac_terminal_csi changes the parameters. -/
theorem parametersZero_of_keepsOthers {handler : CharHandler} (hne : handler≠.csi)
    (hkeeps : KeepsOthers handler term term')
    (h : ParametersZero term.statics) : ParametersZero term'.statics := by
  have hparameters : ∀ statics : HandlerStatics,
      ((statics.resetFor handler).leaving 0 []).argc=statics.argc ∧
        ((statics.resetFor handler).leaving 0 []).argv=statics.argv := by
    intro statics
    cases handler <;> first | exact ⟨rfl,rfl⟩ | contradiction
  have hargc : term'.statics.argc=term.statics.argc := by
    rw [←(hparameters term'.statics).1,hkeeps.1,(hparameters term.statics).1]
  have hargv : term'.statics.argv=term.statics.argv := by
    rw [←(hparameters term'.statics).2,hkeeps.1,(hparameters term.statics).2]
  exact ⟨hargc ▸ h.argc_le,hargv ▸ h.length,by rw [hargc,hargv,h.rest]⟩

/-- It keeps those that are not read yet zero. -/
theorem csi_parametersZero (h : ParametersZero term.statics) (c : UInt8) :
    ParametersZero (guacTerminalCsi term c).statics := by
  have hfunction : (csiFunction { term with statics := term.statics.finishParameter } c).statics=
      term.statics.finishParameter := csiFunction_statics _ c
  have hended := h.finishParameter.endSequence
  unfold guacTerminalCsi
  dsimp only
  split_ifs
  · exact ⟨h.argc_le,h.length,h.rest⟩
  · exact h
  · rw [hfunction]
    refine ⟨Nat.zero_le _,?_,?_⟩
    · rw [hended]
      rfl
    · rw [hended]
      rfl
  · rw [hfunction]
    exact h.finishParameter
  · exact ⟨h.argc_le,h.length,h.rest⟩
  · exact h

theorem unused_handleChar (h : Unused term) (hcompletes : Completes term c) :
    Unused (handleChar env term c) := by
  have hkeeps : KeepsOthers term.charHandler term (handleChar env term c) :=
    keepsOthers_handleChar h hcompletes
  refine ⟨h.step hkeeps,?_⟩
  by_cases hcsi : term.charHandler=.csi
  · have hhandled : handleChar env term c=guacTerminalCsi term c := by rw [handleChar,hcsi]
    rw [hhandled]
    exact csi_parametersZero h.parameters c
  · exact parametersZero_of_keepsOthers hcsi hkeeps h.parameters

/-! ## Runs -/

/-- A byte is written to a terminal. -/
def byteStep (env : TerminalEnv) (c : UInt8) (term : GuacTerminal) : Option GuacTerminal :=
  some (handleChar env term c)

theorem run_byteStep (term : GuacTerminal) (cs : List UInt8) :
    run (byteStep env) cs term=some (guacTerminalWrite env term cs) := by
  induction cs generalizing term with
  | nil => rfl
  | cons c cs ih => exact ih (handleChar env term c)

/-- Outside of sequences and of characters, what is written further has the effect
that it has with the static variables as they are initialised. -/
def ForgetsSequences (env : TerminalEnv) (term : GuacTerminal) : Prop :=
  term.charHandler=.echo → term.statics.bytesRemaining=0 →
    SameEffect env term (term.withStatics .initial)

theorem Unused.forgets (h : Unused term) : ForgetsSequences env term := by
  intro hecho hremaining
  have hinitial : term.statics.leaving 0 []=HandlerStatics.initial := by
    have hothers := h.others
    rw [hecho] at hothers
    rw [←hothers]
    simp only [HandlerStatics.resetFor,HandlerStatics.leaving,hremaining]
  refine sameEffect_of_sameParsing ⟨0,[],hinitial.symm,?_,fun hread => ?_⟩
  · rw [hremaining]
    exact sameDecoding_zero _ _
  · have hfalse : term.statics.readColorSpec=false := congrArg HandlerStatics.readColorSpec hinitial
    exact absurd (hfalse.symm.trans hread) Bool.false_ne_true

/-- A new terminal echoes, and no sequence has begun. -/
theorem create_handler (memory : Memory) (settings : TerminalSettings) (width height : ℤ) :
    (guacTerminalCreate memory settings width height).charHandler=.echo ∧
      (guacTerminalCreate memory settings width height).statics=.initial := by
  obtain ⟨base,hsame,-,-,-,⟨hhandler,-⟩,-,hstatics⟩ :=
    reset_eq (guacTerminalAlloc memory settings width height)
  exact ⟨hsame.charHandler.trans hhandler,hsame.statics.trans hstatics⟩

theorem unused_create (memory : Memory) (settings : TerminalSettings) (width height : ℤ) :
    Unused (guacTerminalCreate memory settings width height) := by
  obtain ⟨hecho,hcreated⟩ := create_handler memory settings width height
  refine ⟨?_,?_⟩
  · rw [hcreated,hecho]
    rfl
  · rw [hcreated]
    exact ⟨by decide,rfl,rfl⟩

/-- If no handler returns with a number it has read but not used, then the static
variables make no difference to what is written outside of sequences. -/
theorem staticsForgotten (env : TerminalEnv) (memory : Memory) (settings : TerminalSettings)
    (width height : ℤ) (cs : List UInt8)
    (hcompletes : Along (byteStep env) (fun c term => Completes term c) cs
      (guacTerminalCreate memory settings width height)) :
    ∀ made, made <+: cs→ForgetsSequences env
      (guacTerminalWrite env (guacTerminalCreate memory settings width height) made) := by
  intro made hmade
  have hstep : ∀ {c : UInt8} {term term' : GuacTerminal}, Unused term → Completes term c →
      byteStep env c term=some term'→Unused term' := by
    intro c term term' h hcompletes hstep
    cases hstep
    exact unused_handleChar h hcompletes
  exact (visits_of_along hstep (unused_create memory settings width height) hcompletes hmade
    (run_byteStep _ made)).forgets

/-- ESC ] starts a sequence with a number. -/
theorem handleChar_closingBracket (hhandler : term.charHandler=.escape) :
    handleChar env term 0x5D = { term with charHandler := .osc } := by
  have hescape : handleChar env term 0x5D=guacTerminalEscape term 0x5D := by
    rw [handleChar,hhandler]
  rw [hescape]
  rfl

theorem completes_of_handler (hosc : term.charHandler≠.osc)
    (hpalette : term.charHandler≠.xtermPalette) : Completes term c :=
  ⟨fun h => absurd h hosc,fun h => absurd h hpalette⟩

/-- A terminal that has read ESC ]. -/
def afterOscStart (term : GuacTerminal) : GuacTerminal :=
  { term with
    charHandler := .osc
    statics := { term.statics with codepoint := 0x1B, bytesRemaining := 0 } }

theorem handleChar_oscStart (hhandler : term.charHandler=.echo) :
    handleChar env (handleChar env term 0x1B) 0x5D=afterOscStart term := by
  rw [handleChar_escape hhandler,handleChar_closingBracket rfl]
  rfl

/-- The handler that guac_terminal_osc gives way to. -/
def oscHandler (operation : ℤ) : CharHandler :=
  if operation=482200 then .download
  else if operation=482201 then .setDirectory
  else if operation=482202 then .openPipeStream
  else if operation=482203 then .closePipeStream
  else if operation=482204 then .setScrollback
  else if operation=0 ∨ operation=2 then .windowTitle
  else if operation=4 then .xtermPalette
  else .osc

theorem oscHandler_windowTitle {operation : ℤ} (h : oscHandler operation=.windowTitle) :
    operation=0 ∨ operation=2 := by
  unfold oscHandler at h
  split_ifs at h with _ _ _ _ _ htitle
  exact htitle

/-- The sequence that sets a title, ESC ] 0 ; a BEL. -/
def titleSequence : List UInt8 := [0x1B,0x5D,0x30,0x3B,0x61,0x07]

/-- It uses the number that it has. -/
theorem along_titleSequence (hhandler : term.charHandler=.echo)
    (hoperation : term.statics.operation=0) :
    Along (byteStep env) (fun c term => Completes term c) titleSequence term := by
  refine ⟨completes_of_handler (by rw [hhandler]; decide) (by rw [hhandler]; decide),?_⟩
  show Along (byteStep env) _ [0x5D,0x30,0x3B,0x61,0x07] (handleChar env term 0x1B)
  refine ⟨?_,?_⟩
  · rw [handleChar_escape hhandler]
    exact completes_of_handler CharHandler.noConfusion CharHandler.noConfusion
  show Along (byteStep env) _ [0x30,0x3B,0x61,0x07] (handleChar env (handleChar env term 0x1B) 0x5D)
  rw [handleChar_oscStart hhandler]
  refine ⟨⟨fun _ hdigit => absurd (by decide) hdigit,CharHandler.noConfusion⟩,?_⟩
  refine ⟨⟨fun _ _ hend => absurd rfl hend,CharHandler.noConfusion⟩,?_⟩
  have htitle : (handleChar env (handleChar env (afterOscStart term) 0x30) 0x3B).charHandler=
      .windowTitle := by
    show oscHandler (accumulate term.statics.operation 0x30)=.windowTitle
    rw [hoperation]
    decide
  have hread : (handleChar env (handleChar env (handleChar env (afterOscStart term) 0x30) 0x3B)
      0x61).charHandler=.windowTitle := by
    generalize handleChar env (handleChar env (afterOscStart term) 0x30) 0x3B=started at htitle
    rw [handleChar,htitle]
    exact htitle
  refine ⟨completes_of_handler ?_ ?_,completes_of_handler ?_ ?_,trivial⟩
  · rw [htitle]
    decide
  · rw [htitle]
    decide
  · rw [hread]
    decide
  · rw [hread]
    decide

/-- Such a run. -/
theorem staticsForgotten_title : ForgetsSequences consoleEnv (guacTerminalWrite consoleEnv
      (guacTerminalCreate consoleMemory consoleSettings 656 384) titleSequence) :=
  staticsForgotten consoleEnv consoleMemory consoleSettings 656 384 titleSequence
    (along_titleSequence (create_handler ..).1 (by rw [(create_handler ..).2]; rfl))
    titleSequence List.prefix_rfl

theorem write_oscStart (env : TerminalEnv) (hhandler : term.charHandler=.echo) (cs : List UInt8) :
    guacTerminalWrite env term (0x1B::0x5D::cs)=guacTerminalWrite env (afterOscStart term) cs :=
  congrArg (guacTerminalWrite env · cs) (handleChar_oscStart hhandler)

theorem charHandler_semicolon (term : GuacTerminal) :
    (guacTerminalWrite env (afterOscStart term) [0x3B]).charHandler=
      oscHandler term.statics.operation := rfl

theorem charHandler_fourSemicolon (term : GuacTerminal) :
    (guacTerminalWrite env (afterOscStart term) [0x34,0x3B]).charHandler=
      oscHandler (accumulate term.statics.operation 0x34) := rfl

/-- A number that was left over is taken for the start of the next. -/
theorem operation_leaks (hhandler : term.charHandler=.echo)
    (hoperation : term.statics.operation≠0) :
    ¬SameEffect env term (term.withStatics .initial) := by
  intro h
  have hinitial : (term.withStatics .initial).charHandler=.echo := hhandler
  have hhandlers : ∀ cs, (guacTerminalWrite env (afterOscStart (term.withStatics .initial))
      cs).charHandler=(guacTerminalWrite env (afterOscStart term) cs).charHandler := by
    intro cs
    rw [←write_oscStart env hinitial,←write_oscStart env hhandler]
    have hcs := congrArg GuacTerminal.charHandler (h (0x1B::0x5D::cs)).1
    exact hcs
  have htitle := hhandlers [0x3B]
  have hpalette := hhandlers [0x34,0x3B]
  rw [charHandler_semicolon,charHandler_semicolon] at htitle
  rw [charHandler_fourSemicolon,charHandler_fourSemicolon] at hpalette
  rcases oscHandler_windowTitle htitle.symm with hzero | htwo
  · exact hoperation hzero
  · rw [htwo] at hpalette
    change oscHandler (accumulate 0 0x34)=oscHandler (accumulate 2 0x34) at hpalette
    exact absurd hpalette (by decide)

/-- ESC ] 4 8 BEL -/
def unfinishedOperation : List UInt8 := [0x1B,0x5D,0x34,0x38,0x07]

/-- A number that does not end with a semicolon stays for the next sequence. -/
theorem leaks_of_unfinishedOperation (hhandler : term.charHandler=.echo)
    (hoperation : term.statics.operation=0) :
    ¬ForgetsSequences env (guacTerminalWrite env term unfinishedOperation) := by
  intro h
  have hwritten := write_oscStart env hhandler [0x34,0x38,0x07]
  change guacTerminalWrite env term unfinishedOperation=_ at hwritten
  rw [hwritten] at h
  refine operation_leaks ?_ ?_ (h ?_ ?_)
  · rfl
  · show accumulate (accumulate term.statics.operation 0x34) 0x38≠0
    rw [hoperation]
    decide
  · rfl
  · rfl

/-- The static variables of a terminal that has read ESC ] 4 8 BEL make a difference. -/
theorem not_forgetsSequences : ¬ForgetsSequences consoleEnv (guacTerminalWrite consoleEnv
      (guacTerminalCreate consoleMemory consoleSettings 656 384) unfinishedOperation) :=
  leaks_of_unfinishedOperation (create_handler ..).1 (by rw [(create_handler ..).2]; rfl)

end GuacServer.Terminal
