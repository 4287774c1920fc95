import GuacServer.LineReaders
import GuacServer.Unicode

/-!
# The parser of guacd.conf

A line of the configuration file is parsed from the beginning of what has been
read so far. The same error is reported for a line that is malformed and for one
that has not been read completely, and a parameter is given to the callback
before its line is known to end.
-/

namespace GuacServer.ConfParse

open LineReaders Unicode

/-- GUACD_CONF_MAX_NAME_LENGTH. -/
def guacdConfMaxNameLength : ℕ := 255

/-- GUACD_CONF_MAX_VALUE_LENGTH. -/
def guacdConfMaxValueLength : ℕ := 8191

/-- The double quote. -/
def quote : UInt8 := 0x22

/-- The character that begins a comment. -/
def hashSign : UInt8 := 0x23

/-- The character between a name and its value. -/
def equals : UInt8 := 0x3D

/-- The character that begins a section name. -/
def openBracket : UInt8 := 0x5B

/-- The character that escapes the next one within quotes. -/
def backslash : UInt8 := 0x5C

/-- The character that ends a section name. -/
def closeBracket : UInt8 := 0x5D

/-- Spaces and tabs. -/
def isBlank (c : UInt8) : Bool := c == 0x20 || c == 0x09

/-- Carriage returns and line feeds. -/
def isEol (c : UInt8) : Bool := c == 0x0D || c == 0x0A

/-- isalnum of the C locale. -/
def isalnum (c : UInt8) : Bool := (0x30≤c && c≤0x39) || (0x41≤c && c≤0x5A) || (0x61≤c && c≤0x7A)

/-- What guacd_parse_name reads through. -/
def isNameChar (c : UInt8) : Bool := isalnum c || c == 0x5F

/-- What guacd_parse_value reads through. -/
def isValueChar (c : UInt8) : Bool := !(c == hashSign || c == quote || isEol c || isBlank c)

/-- guacd_conf_parse_error, and guacd_conf_parse_error_location as the number of characters
before it. -/
structure ConfError where
  /-- The description of the error. -/
  message : String
  /-- Where it is. -/
  location : ℕ
deriving DecidableEq, Repr

/-- An error within what follows the first characters. -/
def ConfError.after (chars : ℕ) (e : ConfError) : ConfError := ⟨e.message,chars+e.location⟩

/-- A callback is given the section, the name and the value of a parameter. It updates the
data or describes why it does not. -/
abbrev ParamCallback (δ : Type) := List UInt8→List UInt8→List UInt8→δ→Except String δ

/-- What a call of the parser may change. -/
structure ConfState (δ : Type) where
  /-- __guacd_current_section. -/
  currentSection : List UInt8
  /-- What the callback updates. -/
  data : δ
deriving DecidableEq, Repr

/-- guacd_parse_whitespace. -/
def guacdParseWhitespace (buffer : List UInt8) : ℕ := (buffer.takeWhile isBlank).length

/-- guacd_parse_name. The name is empty where the code returns zero. -/
def guacdParseName (buffer : List UInt8) : Except ConfError (List UInt8) :=
  let name := buffer.takeWhile isNameChar
  if guacdConfMaxNameLength<name.length then
    .error ⟨"Names can be no more than 255 characters long", guacdConfMaxNameLength+1⟩
  else .ok name

/-- guacd_parse_value. -/
def guacdParseValue (buffer : List UInt8) : Except ConfError (List UInt8) :=
  let value := buffer.takeWhile isValueChar
  if guacdConfMaxValueLength<value.length then
    .error ⟨"Values can be no more than 8191 characters long", guacdConfMaxValueLength+1⟩
  else if value=[] then .error ⟨"Unquoted values must contain at least one character", 0⟩
  else .ok value

/-- The loop of guacd_parse_quoted_value. As length does not count the opening quote while
chars_read does, it stops before the last character. The rest of the buffer is returned with
chars_read and the value. -/
def readQuoted (escaped : Bool) (charsRead : ℕ) (value : List UInt8) :
    List UInt8→Except ConfError (List UInt8×ℕ×List UInt8)
  | c::d::rest =>
    if !escaped && (c == quote || isEol c) then .ok (c::d::rest,charsRead,value)
    else if guacdConfMaxValueLength<charsRead+1 then
      .error ⟨"Values can be no more than 8191 characters long", charsRead+1⟩
    else if !escaped && c == backslash then readQuoted true (charsRead+1) value (d::rest)
    else readQuoted false (charsRead+1) (value++[c]) (d::rest)
  | rest => .ok (rest,charsRead,value)

/-- guacd_parse_quoted_value, with the value that is read. -/
def guacdParseQuotedValue (buffer : List UInt8) : Except ConfError (ℕ×List UInt8) :=
  if buffer.head? = some quote then
    match readQuoted false 1 [] (buffer.drop 1) with
    | .error e => .error e
    | .ok (rest,charsRead,value) =>
      if rest.head? = some quote then .ok (charsRead+1,value)
      else .error ⟨"'\"' expected", charsRead⟩
  else .ok (0,[])

/-- The value of a parameter in guacd_parse_parameter, quoted or not. -/
def readValue (buffer : List UInt8) : Except ConfError (ℕ×List UInt8) :=
  match guacdParseQuotedValue buffer with
  | .error e => .error e
  | .ok (0,_) =>
    match guacdParseValue buffer with
    | .error e => .error e
    | .ok value => .ok (value.length,value)
  | .ok (n+1,value) => .ok (n+1,value)

/-- What guacd_parse_parameter reads after the name. -/
def readAssignment (buffer : List UInt8) : Except ConfError (ℕ×List UInt8) :=
  let before := guacdParseWhitespace buffer
  if (buffer.drop before).head? = some equals then
    let after := guacdParseWhitespace (buffer.drop (before+1))
    match readValue (buffer.drop (before+1+after)) with
    | .error e => .error (e.after (before+1+after))
    | .ok (n,value) => .ok (before+1+after+n,value)
  else .error ⟨"'=' expected", before⟩

variable {δ : Type}

/-- guacd_parse_parameter. -/
def guacdParseParameter (callback : ParamCallback δ) (buffer : List UInt8) (s : ConfState δ) :
    Except ConfError ℕ×ConfState δ :=
  match guacdParseName buffer with
  | .error e => (.error e,s)
  | .ok name =>
    if name=[] then (.ok 0,s)
    else if s.currentSection=[] then
      (.error ⟨"Parameters must have a corresponding section", 0⟩, s)
    else
      match readAssignment (buffer.drop name.length) with
      | .error e => (.error (e.after name.length),s)
      | .ok (n,value) =>
        match callback s.currentSection name value s.data with
        | .error message => (.error ⟨message,0⟩,s)
        | .ok data => (.ok (name.length+n),⟨s.currentSection,data⟩)

/-- guacd_parse_section, which sets the section as soon as it has read a name. -/
def guacdParseSection (buffer : List UInt8) (s : ConfState δ) : Except ConfError ℕ×ConfState δ :=
  if buffer.head? = some openBracket then
    match guacdParseName (buffer.drop 1) with
    | .error e => (.error (e.after 1),s)
    | .ok name =>
      if name=[] then (.error ⟨"Section names must contain at least one character", 1⟩, s)
      else if (buffer.drop (1+name.length)).head? = some closeBracket then
        (.ok (1+name.length+1),⟨name,s.data⟩)
      else (.error ⟨"']' expected", 1+name.length⟩, ⟨name,s.data⟩)
  else (.ok 0,s)

/-- guacd_parse_declaration. -/
def guacdParseDeclaration (callback : ParamCallback δ) (buffer : List UInt8) (s : ConfState δ) :
    Except ConfError ℕ×ConfState δ :=
  match guacdParseSection buffer s with
  | (.ok 0,s') => guacdParseParameter callback buffer s'
  | result => result

/-- guacd_parse_comment. -/
def guacdParseComment (buffer : List UInt8) : Except ConfError ℕ :=
  if buffer.head? = some hashSign then
    let text := (buffer.drop 1).takeWhile fun c => !isEol c
    if 1+text.length<buffer.length then .ok (1+text.length)
    else .error ⟨"expected end-of-line", 1+text.length⟩
  else .ok 0

/-- guacd_parse_line_end. -/
def guacdParseLineEnd (buffer : List UInt8) : Except ConfError ℕ :=
  let gap := guacdParseWhitespace buffer
  match guacdParseComment (buffer.drop gap) with
  | .error e => .error (e.after gap)
  | .ok n =>
    if (buffer.drop (gap+n)).head?.any isEol then .ok (gap+n+1)
    else .error ⟨"expected end-of-line", gap+n⟩

/-- guacd_parse_line. -/
def guacdParseLine (callback : ParamCallback δ) (buffer : List UInt8) (s : ConfState δ) :
    Except ConfError ℕ×ConfState δ :=
  let indent := guacdParseWhitespace buffer
  match guacdParseDeclaration callback (buffer.drop indent) s with
  | (.error e,s') => (.error (e.after indent),s')
  | (.ok n,s') =>
    match guacdParseLineEnd (buffer.drop (indent+n)) with
    | .error e => (.error (e.after (indent+n)),s')
    | .ok m => (.ok (indent+n+m),s')

/-- guacd_parse_conf. -/
def guacdParseConf (callback : ParamCallback δ) : LineParser UInt8 (ConfState δ) ConfError :=
  fun buffer s => if buffer=[] then (.ok 0,s) else guacdParseLine callback buffer s

end GuacServer.ConfParse
